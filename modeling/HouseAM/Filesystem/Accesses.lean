import HouseAM.Filesystem.Dentry
import HouseAM.Filesystem.ReadData

namespace houseam.filesystem

/-- What `read_data` reads of an image: an entry of an inode's block list, the
    length of an inode's file, or a byte of a data block. -/
inductive Access where
  | data_block_num (inode : Word) (index : Nat)
  | length (inode : Word)
  | data_block (block : Word) (offset : Nat)
  deriving DecidableEq

/-- An access inside the arrays of the image: an inode of the table, one of its
    1023 block numbers, a byte of one of the data blocks. -/
def Access.Inside (img : Image) : Access → Prop
  | .data_block_num inode index => inode.toNat < img.inode_count.toNat ∧ index < 1023
  | .length inode => inode.toNat < img.inode_count.toNat
  | .data_block block offset => 0 ≤ block.toInt ∧ block.toInt < img.data_count.toInt ∧ offset < BLOCK_SIZE

/-- The accesses of one move to the next data block. -/
def Cursor.cross_accesses (inode : Word) (c : Cursor) : List Access :=
  if BLOCK_SIZE ≤ c.dindex then [.data_block_num inode (c.dblock_begin + 1)] else []

/-- The accesses of the copy loop, in order. -/
def read_data_loop_accesses (img : Image) (inode offset : Word) : Nat → Nat → Cursor → List Access
  | 0, _, _ => []
  | n + 1, i, c =>
    c.cross_accesses inode ++
      match c.cross img inode with
      | none => []
      | some c =>
        .length inode ::
          if (img.inode_start inode.toNat).length.toNat ≤ (i + offset.toNat) % 2 ^ 32 then []
          else
            .data_block c.copy_block c.dindex ::
              read_data_loop_accesses img inode offset n (i + 1) { c with dindex := c.dindex + 1 }

/-- The accesses of `read_data`. The block list is read before the inode number
    is checked. -/
def read_data_accesses (img : Image) (inode offset : Word) (length : Nat) : List Access :=
  let dblock_begin := offset.toNat / BLOCK_SIZE
  let block := (img.inode_start inode.toNat).data_block_num dblock_begin
  .data_block_num inode dblock_begin ::
    if img.data_count.toInt ≤ block.toInt then []
    else if img.inode_count.toNat ≤ inode.toNat then []
    else read_data_loop_accesses img inode offset length 0 ⟨dblock_begin, offset.toNat % BLOCK_SIZE, block⟩

/-- The byte an access to a data block reads. -/
def Access.byte? (img : Image) : Access → Option Byte
  | .data_block block offset => some (img.data_block block offset)
  | .data_block_num _ _ => none
  | .length _ => none

theorem Cursor.cross_accesses_bytes (img : Image) (inode : Word) (c : Cursor) :
    (c.cross_accesses inode).filterMap (Access.byte? img) = [] := by
  rw [Cursor.cross_accesses]
  split <;> rfl

theorem read_data_loop_accesses_bytes (img : Image) (inode offset : Word) (n i : Nat) (c : Cursor) :
    (read_data_loop_accesses img inode offset n i c).filterMap (Access.byte? img) =
      (read_data_loop img inode offset n i c).2 := by
  induction n generalizing i c with
  | zero => rfl
  | succ n ih =>
    rw [read_data_loop_accesses, read_data_loop, List.filterMap_append, Cursor.cross_accesses_bytes, List.nil_append]
    cases c.cross img inode with
    | none => rfl
    | some next =>
      dsimp only
      split
      · rfl
      · exact congrArg _ (ih (i + 1) _)

/-- The bytes a read stores are those its accesses to the data blocks read. -/
theorem read_data_accesses_bytes (img : Image) (inode offset : Word) (length : Nat) :
    (read_data_accesses img inode offset length).filterMap (Access.byte? img) =
      (read_data img inode offset length).2 := by
  rw [read_data_accesses, read_data, List.filterMap_cons_none rfl]
  split
  · rfl
  · split
    · rfl
    · exact read_data_loop_accesses_bytes img inode offset length 0 _

/-- The number of the block that holds a file's byte at a position. -/
def Image.blockAt (img : Image) (inode : Word) (position : Nat) : Word :=
  (img.inode_start inode.toNat).data_block_num (position / BLOCK_SIZE)

/-- A copy from one position gets to another one: all the bytes in between are
    of the file, in blocks whose numbers are below the count. -/
def Image.Reaches (img : Image) (inode : Word) (start position : Nat) : Prop :=
  ∀ q, start ≤ q → q < position → q < img.fileLength inode ∧ (img.blockAt inode q).toInt < img.data_count.toInt

/-- The block list has an entry for a position, and if there is a byte there,
    the entry is not negative. -/
def Image.Placed (img : Image) (inode : Word) (position : Nat) : Prop :=
  position / BLOCK_SIZE < 1023 ∧ (position < img.fileLength inode →
    (img.blockAt inode position).toInt < img.data_count.toInt → 0 ≤ (img.blockAt inode position).toInt)

/-- Every position that a copy of `n` bytes gets to has its place. -/
def Image.CopyPlaced (img : Image) (inode : Word) (start n : Nat) : Prop :=
  ∀ position, start ≤ position → position < start + n → img.Reaches inode start position → img.Placed inode position

variable {img : Image} {inode offset : Word} {start position n i : Nat} {c : Cursor}

/-- The first position of a longer copy, and the rest of it. -/
theorem Image.copyPlaced_succ : img.CopyPlaced inode start (n + 1) ↔
    img.Placed inode start ∧
      (start < img.fileLength inode → (img.blockAt inode start).toInt < img.data_count.toInt →
        img.CopyPlaced inode (start + 1) n) := by
  constructor
  · intro hplaced
    refine ⟨hplaced start (Nat.le_refl _) (by omega) fun q hlo hhi => absurd hhi (by omega), ?_⟩
    intro hbyte hblock position hlo hhi hreaches
    refine hplaced position (by omega) (by omega) fun q hq hqhi => ?_
    rcases Nat.eq_or_lt_of_le hq with rfl | hlater
    · exact ⟨hbyte, hblock⟩
    · exact hreaches q hlater hqhi
  · rintro ⟨hfirst, hrest⟩ position hlo hhi hreaches
    rcases Nat.eq_or_lt_of_le hlo with rfl | hlater
    · exact hfirst
    · obtain ⟨hbyte, hblock⟩ := hreaches start (Nat.le_refl _) hlater
      exact hrest hbyte hblock position hlater (by omega) fun q hq hqhi => hreaches q (by omega) hqhi

/-- A cursor that stands inside a block of the list, numbered below the count,
    or behind its last byte. -/
structure Cursor.Checked (img : Image) (inode : Word) (c : Cursor) (position : Nat) : Prop extends
    c.At img inode position where
  listed : c.dblock_begin < 1023
  below : c.copy_block.toInt < img.data_count.toInt

theorem Cursor.Checked.blockAt (hchecked : c.Checked img inode position) (hinside : c.dindex < BLOCK_SIZE) :
    position / BLOCK_SIZE = c.dblock_begin ∧ c.copy_block = img.blockAt inode position := by
  have hposition := hchecked.position_eq
  have hdiv : position / BLOCK_SIZE = c.dblock_begin := by
    simp only [BLOCK_SIZE] at hposition hinside ⊢
    omega
  exact ⟨hdiv, by rw [hchecked.copy_block_eq, Image.blockAt, hdiv]⟩

theorem Cursor.Checked.next (hchecked : c.Checked img inode position) (hinside : c.dindex < BLOCK_SIZE) :
    ({ c with dindex := c.dindex + 1 } : Cursor).Checked img inode (position + 1) := by
  have hposition := hchecked.position_eq
  refine ⟨⟨?_, Nat.succ_le_of_lt hinside, hchecked.copy_block_eq⟩, hchecked.listed, hchecked.below⟩
  dsimp only
  omega

/-- A cursor behind its block is at the start of the next one in the list. -/
theorem Cursor.Checked.full_iff (hchecked : c.Checked img inode position) (hfull : BLOCK_SIZE ≤ c.dindex) :
    position = (c.dblock_begin + 1) * BLOCK_SIZE ∧ position / BLOCK_SIZE = c.dblock_begin + 1 := by
  have hposition := hchecked.position_eq
  have hle := hchecked.dindex_le
  simp only [BLOCK_SIZE] at hposition hle hfull ⊢
  omega

/-- The move to the next block looks inside the block list as long as that has
    an entry for the position. -/
theorem Cursor.Checked.cross_inside_iff (hinode : inode.toNat < img.inode_count.toNat)
    (hchecked : c.Checked img inode position) :
    (∀ access ∈ c.cross_accesses inode, access.Inside img) ↔ position / BLOCK_SIZE < 1023 := by
  rw [Cursor.cross_accesses]
  by_cases hfull : BLOCK_SIZE ≤ c.dindex
  · rw [if_pos hfull, (hchecked.full_iff hfull).2, List.forall_mem_singleton]
    exact and_iff_right hinode
  · rw [if_neg hfull, (hchecked.blockAt (Nat.lt_of_not_le hfull)).1]
    exact iff_of_true (fun access hmem => absurd hmem List.not_mem_nil) hchecked.listed

/-- The move fails on a block that is not in the image, or else leads inside
    the block of the position. -/
theorem Cursor.Checked.cross_cases (hchecked : c.Checked img inode position) (hlisted : position / BLOCK_SIZE < 1023) :
    c.cross img inode = none ∧ img.data_count.toInt ≤ (img.blockAt inode position).toInt ∨
      ∃ here, c.cross img inode = some here ∧ here.Checked img inode position ∧ here.dindex < BLOCK_SIZE := by
  rw [Cursor.cross]
  by_cases hfull : BLOCK_SIZE ≤ c.dindex
  · obtain ⟨hposition, hdiv⟩ := hchecked.full_iff hfull
    have hnumber : (img.inode_start inode.toNat).data_block_num (c.dblock_begin + 1) = img.blockAt inode position := by
      rw [Image.blockAt, hdiv]
    simp only [if_pos hfull, hnumber]
    by_cases hmissing : img.data_count.toInt ≤ (img.blockAt inode position).toInt
    · exact Or.inl ⟨if_pos hmissing, hmissing⟩
    · refine Or.inr ⟨⟨c.dblock_begin + 1, 0, img.blockAt inode position⟩, if_neg hmissing,
        ⟨⟨(Nat.add_zero _).trans hposition.symm, Nat.zero_le _, hnumber.symm⟩, ?_, ?_⟩, ?_⟩
      · exact hdiv ▸ hlisted
      · exact Int.lt_of_not_ge hmissing
      · simp [BLOCK_SIZE]
  · rw [if_neg hfull]
    exact Or.inr ⟨c, rfl, hchecked, Nat.lt_of_not_le hfull⟩

/-- The accesses of one iteration, behind the move to its block, and of the rest
    of the loop. -/
theorem Cursor.Checked.inside_iff (hinode : inode.toNat < img.inode_count.toNat)
    (hchecked : c.Checked img inode (offset.toNat + i)) (hinside : c.dindex < BLOCK_SIZE) (rest : List Access)
    (hrest : (∀ access ∈ rest, access.Inside img) ↔ img.CopyPlaced inode (offset.toNat + i + 1) n) :
    (∀ access ∈ .length inode ::
        if (img.inode_start inode.toNat).length.toNat ≤ (i + offset.toNat) % 2 ^ 32 then []
        else .data_block c.copy_block c.dindex :: rest, access.Inside img) ↔
      img.CopyPlaced inode (offset.toNat + i) (n + 1) := by
  obtain ⟨hdiv, hblock⟩ := hchecked.blockAt hinside
  have hlisted := hchecked.listed
  have hbelow : (img.blockAt inode (offset.toNat + i)).toInt < img.data_count.toInt := hblock ▸ hchecked.below
  have hlen : (img.inode_start inode.toNat).length.toNat = img.fileLength inode := rfl
  have hsum : (i + offset.toNat) % 2 ^ 32 = offset.toNat + i := by
    simp only [BLOCK_SIZE] at hdiv
    omega
  rw [Image.copyPlaced_succ, Image.Placed, hdiv, hsum, hlen, List.forall_mem_cons]
  by_cases hend : img.fileLength inode ≤ offset.toNat + i
  · rw [if_pos hend]
    have hnone : ¬ offset.toNat + i < img.fileLength inode := Nat.not_lt.mpr hend
    exact iff_of_true ⟨hinode, fun access hmem => absurd hmem List.not_mem_nil⟩
      ⟨⟨hlisted, fun h => absurd h hnone⟩, fun h => absurd h hnone⟩
  · rw [if_neg hend, List.forall_mem_cons, hrest, hblock]
    have hbyte := Nat.lt_of_not_le hend
    constructor
    · rintro ⟨-, ⟨hnonneg, -, -⟩, hlater⟩
      exact ⟨⟨hlisted, fun _ _ => hnonneg⟩, fun _ _ => hlater⟩
    · rintro ⟨⟨-, hnonneg⟩, hlater⟩
      exact ⟨hinode, ⟨hnonneg hbyte hbelow, hbelow, hinside⟩, hlater hbyte hbelow⟩

/-- The loop stays inside the image exactly when the positions it gets to have
    their places. -/
theorem read_data_loop_inside_iff (hinode : inode.toNat < img.inode_count.toNat)
    (hchecked : c.Checked img inode (offset.toNat + i)) :
    (∀ access ∈ read_data_loop_accesses img inode offset n i c, access.Inside img) ↔
      img.CopyPlaced inode (offset.toNat + i) n := by
  induction n generalizing i c with
  | zero =>
    refine iff_of_true (fun access hmem => absurd hmem List.not_mem_nil) fun position hlo hhi => ?_
    omega
  | succ n ih =>
    rw [read_data_loop_accesses, List.forall_mem_append, hchecked.cross_inside_iff hinode]
    by_cases hlisted : (offset.toNat + i) / BLOCK_SIZE < 1023
    · rw [and_iff_right hlisted]
      rcases hchecked.cross_cases hlisted with ⟨hcross, hmissing⟩ | ⟨here, hcross, hhere, hinside⟩
      · rw [hcross, Image.copyPlaced_succ, Image.Placed]
        have hnone := Int.not_lt.mpr hmissing
        exact iff_of_true (fun access hmem => absurd hmem List.not_mem_nil)
          ⟨⟨hlisted, fun _ h => absurd h hnone⟩, fun _ h => absurd h hnone⟩
      · rw [hcross]
        exact hhere.inside_iff hinode hinside _ (ih (hhere.next hinside))
    · rw [Image.copyPlaced_succ, Image.Placed]
      exact iff_of_false (fun h => hlisted h.1) fun h => hlisted h.1.1

/-- A copy all of whose positions have their places fails, or gets everything up
    to the file's end. -/
theorem read_data_loop_returns (hchecked : c.Checked img inode (offset.toNat + i))
    (hplaced : img.CopyPlaced inode (offset.toNat + i) n) :
    (read_data_loop img inode offset n i c).1 = -1 ∨
      (read_data_loop img inode offset n i c).1 = (i + min n (img.fileLength inode - (offset.toNat + i)) : Nat) := by
  induction n generalizing i c with
  | zero =>
    right
    simp [read_data_loop]
  | succ n ih =>
    obtain ⟨⟨hlisted, -⟩, hlater⟩ := Image.copyPlaced_succ.mp hplaced
    have hlen : (img.inode_start inode.toNat).length.toNat = img.fileLength inode := rfl
    have hsum : (i + offset.toNat) % 2 ^ 32 = offset.toNat + i := by
      simp only [BLOCK_SIZE] at hlisted
      omega
    rw [read_data_loop]
    rcases hchecked.cross_cases hlisted with ⟨hcross, -⟩ | ⟨here, hcross, hhere, hinside⟩
    · rw [hcross]
      exact Or.inl rfl
    · rw [hcross]
      dsimp only
      rw [hsum, hlen]
      by_cases hend : img.fileLength inode ≤ offset.toNat + i
      · rw [if_pos hend, Nat.sub_eq_zero_of_le hend, Nat.min_zero]
        exact Or.inr rfl
      · rw [if_neg hend]
        have hbelow : (img.blockAt inode (offset.toNat + i)).toInt < img.data_count.toInt :=
          (hhere.blockAt hinside).2 ▸ hhere.below
        have hrest : img.CopyPlaced inode (offset.toNat + (i + 1)) n := hlater (Nat.lt_of_not_le hend) hbelow
        rcases ih (hhere.next hinside) hrest with hfailed | hreturned
        · exact Or.inl hfailed
        · refine Or.inr (hreturned.trans ?_)
          congr 1
          omega

/-- The inode is in the table, and the block list has an entry for the offset
    and a place for every position the copy gets to. -/
def Image.ReadPlaced (img : Image) (inode offset : Word) (length : Nat) : Prop :=
  inode.toNat < img.inode_count.toNat ∧ offset.toNat / BLOCK_SIZE < 1023 ∧ img.CopyPlaced inode offset.toNat length

/-- The cursor of a read as it starts. -/
theorem offset_checked (hlisted : offset.toNat / BLOCK_SIZE < 1023)
    (hbelow : (img.blockAt inode offset.toNat).toInt < img.data_count.toInt) :
    (⟨offset.toNat / BLOCK_SIZE, offset.toNat % BLOCK_SIZE, img.blockAt inode offset.toNat⟩ : Cursor).Checked img inode
      (offset.toNat + 0) where
  position_eq := by simpa [Nat.mul_comm] using Nat.div_add_mod offset.toNat BLOCK_SIZE
  dindex_le := Nat.le_of_lt (Nat.mod_lt _ (by decide))
  copy_block_eq := rfl
  listed := hlisted
  below := hbelow

/-- A copy that starts in a block that is not in the image gets nowhere. -/
theorem Image.copyPlaced_of_missing (hlisted : start / BLOCK_SIZE < 1023)
    (hmissing : img.data_count.toInt ≤ (img.blockAt inode start).toInt) : img.CopyPlaced inode start n := by
  have hnone := Int.not_lt.mpr hmissing
  cases n with
  | zero => exact fun position hlo hhi => absurd hhi (by omega)
  | succ n => exact Image.copyPlaced_succ.mpr ⟨⟨hlisted, fun _ h => absurd h hnone⟩, fun _ h => absurd h hnone⟩

/-- A read stays inside the image's arrays, and fails if it cannot get every byte
    up to the file's end so. -/
structure StaysInside (img : Image) (inode offset : Word) (length : Nat) : Prop where
  inside : ∀ access ∈ read_data_accesses img inode offset length, access.Inside img
  returns : (read_data img inode offset length).1 = -1 ∨
    (read_data img inode offset length).1 = (min length (img.fileLength inode - offset.toNat) : Nat)

/-- On every image, a read stays inside it exactly when the inode is in the table,
    the block list has an entry for the offset, and the copy gets to no position
    behind the block list and to no byte in a block with a negative number. -/
theorem stays_inside_iff (img : Image) (inode offset length : Word) :
    StaysInside img inode offset length.toNat ↔ img.ReadPlaced inode offset length.toNat := by
  have hfirst : (img.inode_start inode.toNat).data_block_num (offset.toNat / BLOCK_SIZE) =
    img.blockAt inode offset.toNat := rfl
  constructor
  · rintro ⟨hinside, -⟩
    rw [read_data_accesses, hfirst, List.forall_mem_cons] at hinside
    obtain ⟨⟨hinode, hlisted⟩, hrest⟩ := hinside
    refine ⟨hinode, hlisted, ?_⟩
    by_cases hmissing : img.data_count.toInt ≤ (img.blockAt inode offset.toNat).toInt
    · exact Image.copyPlaced_of_missing hlisted hmissing
    · rw [if_neg hmissing, if_neg (Nat.not_le.mpr hinode)] at hrest
      exact (read_data_loop_inside_iff hinode (offset_checked hlisted (Int.lt_of_not_ge hmissing))).mp hrest
  · rintro ⟨hinode, hlisted, hplaced⟩
    have hentry : (Access.data_block_num inode (offset.toNat / BLOCK_SIZE)).Inside img := ⟨hinode, hlisted⟩
    by_cases hmissing : img.data_count.toInt ≤ (img.blockAt inode offset.toNat).toInt
    · refine ⟨?_, Or.inl ?_⟩
      · rw [read_data_accesses, hfirst, if_pos hmissing]
        exact List.forall_mem_singleton.mpr hentry
      · rw [read_data, hfirst, if_pos hmissing]
    · have hchecked := offset_checked hlisted (Int.lt_of_not_ge hmissing)
      refine ⟨?_, ?_⟩
      · rw [read_data_accesses, hfirst, if_neg hmissing, if_neg (Nat.not_le.mpr hinode), List.forall_mem_cons]
        exact ⟨hentry, (read_data_loop_inside_iff hinode hchecked).mpr hplaced⟩
      · rw [read_data, hfirst, if_neg hmissing, if_neg (Nat.not_le.mpr hinode)]
        have hreturns := read_data_loop_returns hchecked hplaced
        rwa [Nat.zero_add] at hreturns

/-- In general a read does not stay inside the image: the block list of an inode
    behind the table is read before the inode number is checked. -/
theorem read_data_outside : ¬ ∀ (img : Image) (inode offset length : Word), 0 < img.inode_count.toInt →
    0 < img.data_count.toInt → StaysInside img inode offset length.toNat := by
  intro hall
  have hstays := hall small_image 3#32 0#32 4#32 (by decide) (by decide)
  exact absurd (hstays.inside (.data_block_num 3#32 0) List.mem_cons_self).1 (by decide)

end houseam.filesystem
