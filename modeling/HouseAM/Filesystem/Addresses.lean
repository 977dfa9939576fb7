import HouseAM.Filesystem.Accesses
import HouseAM.Filesystem.Blocks
import HouseAM.Filesystem.Names

open houseam.lib

namespace houseam.filesystem

/-- The file system's module, which the boot loader leaves at the start of a page
    as the flags of the multiboot header ask for. -/
structure module_t where
  mod_start : Word
  aligned : mod_start.toNat % BLOCK_SIZE = 0

/-- Where `fsystem_init` finds the inodes. -/
def module_t.inode_start (m : module_t) : Word := m.mod_start + 4096#32

/-- And the data blocks behind them. -/
def module_t.data_block_first (m : module_t) (img : Image) : Word :=
  m.mod_start + img.inode_count * 4096#32 + 4096#32

/-- The address of a directory entry. -/
def module_t.direntry (m : module_t) (i : Nat) : Word := m.mod_start + 64#32 + BitVec.ofNat 32 (64 * i)

/-- The address of an access. -/
def Access.address (m : module_t) (img : Image) : Access → Word
  | .data_block_num inode index => m.inode_start + inode * 4096#32 + 4#32 + BitVec.ofNat 32 (4 * index)
  | .length inode => m.inode_start + inode * 4096#32
  | .data_block block offset => m.data_block_first img + block * 4096#32 + BitVec.ofNat 32 offset

/-- How many bytes an access reads. -/
def Access.size : Access → Nat
  | .data_block_num _ _ => 4
  | .length _ => 4
  | .data_block _ _ => 1

variable {m : module_t} {img : Image} {inode offset : Word} {access : Access} {P : Access → Prop} {length n i : Nat}
  {c : Cursor}

/-- An access does not leave the page of its address. -/
theorem Access.one_page (m : module_t) (img : Image) (access : Access) (hi : i < access.size) :
    (access.address m img + BitVec.ofNat 32 i).toNat / BLOCK_SIZE = (access.address m img).toNat / BLOCK_SIZE := by
  have haligned := m.aligned
  simp only [BLOCK_SIZE] at haligned ⊢
  cases access with
  | data_block_num inode index =>
    simp only [Access.size] at hi
    simp only [Access.address, module_t.inode_start, BitVec.toNat_add, BitVec.toNat_mul, BitVec.toNat_ofNat]
    omega
  | length inode =>
    simp only [Access.size] at hi
    simp only [Access.address, module_t.inode_start, BitVec.toNat_add, BitVec.toNat_mul, BitVec.toNat_ofNat]
    omega
  | data_block block offset =>
    simp only [Access.size, Nat.lt_one_iff] at hi
    rw [hi, BitVec.add_zero]

/-- Nor does a directory entry. -/
theorem module_t.direntry_one_page (m : module_t) (i : Nat) {j : Nat} (hj : j < 64) :
    (m.direntry i + BitVec.ofNat 32 j).toNat / BLOCK_SIZE = (m.direntry i).toNat / BLOCK_SIZE := by
  have haligned := m.aligned
  simp only [BLOCK_SIZE] at haligned ⊢
  simp only [module_t.direntry, BitVec.toNat_add, BitVec.toNat_ofNat]
  omega

/-- What a read accesses for a position of a file: the entry of its block, the
    length and, in front of the end, the byte. -/
structure ReadsAt (P : Access → Prop) (img : Image) (inode : Word) (position : Nat) : Prop where
  entry : P (.data_block_num inode (position / BLOCK_SIZE))
  length : P (.length inode)
  byte : position < img.fileLength inode →
    P (.data_block (img.blockAt inode position) (position % BLOCK_SIZE))

/-- The entry of the block a cursor gets to is accessed when it moves there. -/
theorem Cursor.cross_accesses_iff {next : Cursor} (hcross : c.cross img inode = some next)
    (hentry : P (.data_block_num inode c.dblock_begin)) :
    (∀ access ∈ c.cross_accesses inode, P access) ↔ P (.data_block_num inode next.dblock_begin) := by
  rw [Cursor.cross] at hcross
  rw [Cursor.cross_accesses]
  by_cases hfull : BLOCK_SIZE ≤ c.dindex
  · rw [if_pos hfull] at hcross ⊢
    dsimp only at hcross
    split at hcross
    · cases hcross
    · cases hcross
      exact List.forall_mem_singleton
  · rw [if_neg hfull] at hcross ⊢
    cases hcross
    exact iff_of_true (fun _ h => absurd h List.not_mem_nil) hentry

/-- The accesses of the copy loop, by the positions it gets to: those before the
    last byte asked for and not behind the file's end. -/
theorem read_data_loop_accesses_iff (hat : c.At img inode (offset.toNat + i))
    (hle : offset.toNat + i ≤ img.fileLength inode)
    (hblocks : ∀ j, c.dblock_begin < j → j * BLOCK_SIZE < offset.toNat + i + n →
      j * BLOCK_SIZE ≤ img.fileLength inode → img.HasBlock inode j)
    (hentry : P (.data_block_num inode c.dblock_begin)) :
    (∀ access ∈ read_data_loop_accesses img inode offset n i c, P access) ↔
      ∀ q, offset.toNat + i ≤ q → q < offset.toNat + i + n → q ≤ img.fileLength inode → ReadsAt P img inode q := by
  induction n generalizing i c with
  | zero => exact iff_of_true (fun _ h => absurd h List.not_mem_nil) fun q hlo hhi => absurd hhi (by omega)
  | succ n ih =>
    have hposition := hat.position_eq
    have hdindex := hat.dindex_le
    obtain ⟨next, hcross, hnext, hinside⟩ := hat.cross fun hfull => by
      refine hblocks _ (Nat.lt_succ_self _) ?_ ?_ <;>
        · rw [Nat.add_mul, Nat.one_mul]
          omega
    have hhere := hnext.position_eq
    have hdiv : (offset.toNat + i) / BLOCK_SIZE = next.dblock_begin := by
      simp only [BLOCK_SIZE] at hhere hinside ⊢
      omega
    have hmod : (offset.toNat + i) % BLOCK_SIZE = next.dindex := by
      simp only [BLOCK_SIZE] at hhere hinside ⊢
      omega
    have hblock : img.blockAt inode (offset.toNat + i) = next.copy_block := by
      rw [Image.blockAt, hdiv, hnext.copy_block_eq]
    have hgrows : c.dblock_begin ≤ next.dblock_begin := by
      rcases Cursor.cross_moves hcross with hstays | ⟨hmoved, -⟩
      · omega
      · omega
    have hmax := img.fileLength_lt inode
    have hlen : (img.inode_start inode.toNat).length.toNat = img.fileLength inode := rfl
    rw [read_data_loop_accesses, List.forall_mem_append, Cursor.cross_accesses_iff hcross hentry, hcross]
    dsimp only
    rw [hlen, List.forall_mem_cons, show (i + offset.toNat) % 2 ^ 32 = offset.toNat + i by omega]
    by_cases hend : img.fileLength inode ≤ offset.toNat + i
    · rw [if_pos hend]
      constructor
      · rintro ⟨hnumber, hlength, -⟩ q hlo hhi hq
        rw [show q = offset.toNat + i by omega]
        exact ⟨by rwa [hdiv], hlength, fun hbefore => absurd hend (Nat.not_le.mpr hbefore)⟩
      · intro hall
        obtain ⟨hnumber, hlength, -⟩ := hall (offset.toNat + i) (Nat.le_refl _) (by omega) hle
        exact ⟨by rwa [hdiv] at hnumber, hlength, fun _ h => absurd h List.not_mem_nil⟩
    · rw [if_neg hend, List.forall_mem_cons]
      have hlater (hnumber : P (.data_block_num inode next.dblock_begin)) :=
        ih (i := i + 1) (hnext.succ hinside) (by omega)
          (fun j hj hlt hfile => hblocks j (Nat.lt_of_le_of_lt hgrows hj) (by omega) hfile) hnumber
      constructor
      · rintro ⟨hnumber, hlength, hbyte, hrest⟩ q hlo hhi hq
        rcases Nat.eq_or_lt_of_le hlo with rfl | hbehind
        · exact ⟨by rwa [hdiv], hlength, fun _ => by rwa [hblock, hmod]⟩
        · exact (hlater hnumber).mp hrest q (by omega) (by omega) hq
      · intro hall
        obtain ⟨hnumber, hlength, hbyte⟩ := hall (offset.toNat + i) (Nat.le_refl _) (by omega) hle
        rw [hdiv] at hnumber
        have hbyte := hbyte (Nat.lt_of_not_le hend)
        rw [hblock, hmod] at hbyte
        exact ⟨hnumber, hlength, hbyte, (hlater hnumber).mpr fun q hlo hhi hq => hall q (by omega) (by omega) hq⟩

/-- The accesses of a read from an offset in a file that has the blocks for it. -/
theorem Image.Readable.accesses_iff (hreadable : img.Readable inode offset length)
    (hoffset : offset.toNat ≤ img.fileLength inode) (hlength : 0 < length) :
    (∀ access ∈ read_data_accesses img inode offset length, P access) ↔
      ∀ q, offset.toNat ≤ q → q < offset.toNat + length → q ≤ img.fileLength inode → ReadsAt P img inode q := by
  have hfirst : img.HasBlock inode (offset.toNat / BLOCK_SIZE) := hreadable.blocks _ (Or.inl rfl)
  have hbehind (j : Nat) : offset.toNat / BLOCK_SIZE < j ↔ offset.toNat < j * BLOCK_SIZE :=
    Nat.div_lt_iff_lt_mul (by decide)
  have hat : (⟨offset.toNat / BLOCK_SIZE, offset.toNat % BLOCK_SIZE,
      (img.inode_start inode.toNat).data_block_num (offset.toNat / BLOCK_SIZE)⟩ : Cursor).At img inode
        (offset.toNat + 0) :=
    ⟨by simpa [Nat.mul_comm] using Nat.div_add_mod offset.toNat BLOCK_SIZE,
      Nat.le_of_lt (Nat.mod_lt _ (by decide)), rfl⟩
  have hloop (hentry : P (.data_block_num inode (offset.toNat / BLOCK_SIZE))) :=
    read_data_loop_accesses_iff (n := length) hat hoffset
      (fun j hj hlt hfile => hreadable.blocks j (Or.inr ⟨(hbehind j).mp hj, hlt, hfile⟩)) hentry
  rw [read_data_accesses, List.forall_mem_cons, if_neg (Int.not_le.mpr hfirst),
    if_neg (Nat.not_le.mpr hreadable.inode_lt)]
  constructor
  · rintro ⟨hentry, hrest⟩
    exact (hloop hentry).mp hrest
  · intro hall
    have hentry := (hall offset.toNat (Nat.le_refl _) (by omega) hoffset).entry
    exact ⟨hentry, (hloop hentry).mpr hall⟩

/-- A read looks at the entry of its offset first. -/
theorem read_data_accesses_entry (hall : ∀ access ∈ read_data_accesses img inode offset length, P access) :
    P (.data_block_num inode (offset.toNat / BLOCK_SIZE)) := hall _ List.mem_cons_self

/-- Where the block is missing it does not look any further. -/
theorem read_data_accesses_missing (hmissing : ¬ img.HasBlock inode (offset.toNat / BLOCK_SIZE)) (length : Nat) :
    read_data_accesses img inode offset length = [.data_block_num inode (offset.toNat / BLOCK_SIZE)] := by
  rw [read_data_accesses, if_pos (Int.not_lt.mp hmissing)]

/-- Nor where the inode is none of the image's. -/
theorem read_data_accesses_no_inode (hinode : ¬ inode.toNat < img.inode_count.toNat) (length : Nat) :
    read_data_accesses img inode offset length = [.data_block_num inode (offset.toNat / BLOCK_SIZE)] := by
  rw [read_data_accesses, if_pos (Nat.not_lt.mp hinode), ite_self]

/-- Behind the file's end it looks at the entry and the length. -/
theorem read_data_accesses_behind (hinode : inode.toNat < img.inode_count.toNat)
    (hblock : img.HasBlock inode (offset.toNat / BLOCK_SIZE)) (hend : img.fileLength inode ≤ offset.toNat)
    (hlength : 0 < length) :
    read_data_accesses img inode offset length =
      [.data_block_num inode (offset.toNat / BLOCK_SIZE), .length inode] := by
  obtain ⟨n, rfl⟩ := Nat.exists_eq_succ_of_ne_zero (Nat.ne_of_gt hlength)
  have hinside : offset.toNat % BLOCK_SIZE < BLOCK_SIZE := Nat.mod_lt _ (by decide)
  have hlen : (img.inode_start inode.toNat).length.toNat = img.fileLength inode := rfl
  rw [read_data_accesses, if_neg (Int.not_le.mpr hblock), if_neg (Nat.not_le.mpr hinode), read_data_loop_accesses,
    Cursor.cross_accesses, if_neg (Nat.not_le.mpr hinside), Cursor.cross, if_neg (Nat.not_le.mpr hinside)]
  dsimp only
  rw [hlen, Nat.zero_add, Nat.mod_eq_of_lt offset.isLt, if_pos hend]
  rfl

/-- The directory entries that the search for a name looks at from entry `i` on,
    with `n` entries left. -/
def read_dentry_by_name_accesses (img : Image) (fname : CString) : Nat → Nat → List Nat
  | 0, _ => []
  | n + 1, i =>
    let d := img.direntries i
    let len := name_length d
    i :: if strlen fname = len ∧ strncmp fname.get d.byte len = 0 then []
      else read_dentry_by_name_accesses img fname n (i + 1)

/-- It looks at an entry if none before has the name. -/
theorem mem_read_dentry_by_name_accesses (img : Image) (fname : CString) (n i : Nat) {j : Nat} :
    j ∈ read_dentry_by_name_accesses img fname n i ↔
      i ≤ j ∧ j < i + n ∧ ∀ before, i ≤ before → before < j → (img.direntries before).name ≠ fname.bytes := by
  induction n generalizing i with
  | zero => exact iff_of_false List.not_mem_nil fun h => by omega
  | succ n ih =>
    rw [read_dentry_by_name_accesses, List.mem_cons]
    simp only [matches_iff]
    by_cases hname : (img.direntries i).name = fname.bytes
    · rw [if_pos hname]
      constructor
      · rintro (rfl | hnone)
        · exact ⟨Nat.le_refl _, by omega, fun before hlo hhi => by omega⟩
        · exact absurd hnone List.not_mem_nil
      · rintro ⟨hlo, -, hbefore⟩
        rcases Nat.eq_or_lt_of_le hlo with rfl | hlater
        · exact Or.inl rfl
        · exact absurd hname (hbefore i (Nat.le_refl _) hlater)
    · rw [if_neg hname, ih]
      constructor
      · rintro (rfl | ⟨hlo, hhi, hbefore⟩)
        · exact ⟨Nat.le_refl _, by omega, fun before hlo hhi => by omega⟩
        · refine ⟨by omega, by omega, fun before hle hlt => ?_⟩
          rcases Nat.eq_or_lt_of_le hle with rfl | hlater
          · exact hname
          · exact hbefore before hlater hlt
      · rintro ⟨hlo, hhi, hbefore⟩
        rcases Nat.eq_or_lt_of_le hlo with rfl | hlater
        · exact Or.inl rfl
        · exact Or.inr ⟨hlater, by omega, fun before hle hlt => hbefore before (by omega) hlt⟩

/-! A module in the kernel's page. -/

/-- The boot block, the inodes and the data blocks all lie in the page the kernel
    has for itself. -/
structure module_t.InKernelPage (m : module_t) (img : Image) : Prop where
  from_kernel : 0x400000 ≤ m.mod_start.toNat
  to_eightmb : m.mod_start.toNat + (1 + img.inode_count.toNat + img.data_count.toNat) * BLOCK_SIZE ≤ 0x800000

/-- A module with the small image. -/
def small_module : module_t := ⟨0x420000#32, by decide⟩

/-- The addresses of what is inside the image's arrays. -/
theorem module_t.InKernelPage.access_bounds (hplace : m.InKernelPage img) (haccess : access.Inside img) :
    0x400000 ≤ (access.address m img).toNat ∧ (access.address m img).toNat < 0x800000 := by
  obtain ⟨hlo, hhi⟩ := hplace
  simp only [BLOCK_SIZE] at hhi
  cases access with
  | data_block_num inode index =>
    obtain ⟨hinode, hindex⟩ := haccess
    simp only [Access.address, module_t.inode_start, BitVec.toNat_add, BitVec.toNat_mul, BitVec.toNat_ofNat]
    omega
  | length inode =>
    have hinode : inode.toNat < img.inode_count.toNat := haccess
    simp only [Access.address, module_t.inode_start, BitVec.toNat_add, BitVec.toNat_mul, BitVec.toNat_ofNat]
    omega
  | data_block block offset =>
    obtain ⟨hnonneg, hblock, hoffset⟩ := haccess
    have hlt : block.toNat < img.data_count.toNat := by
      rw [BitVec.toInt_eq_toNat_cond] at hnonneg hblock
      rw [BitVec.toInt_eq_toNat_cond] at hblock
      split at hnonneg <;> split at hblock <;> omega
    simp only [BLOCK_SIZE] at hoffset
    simp only [Access.address, module_t.data_block_first, BitVec.toNat_add, BitVec.toNat_mul, BitVec.toNat_ofNat]
    omega

/-- And of the boot block's entries. -/
theorem module_t.InKernelPage.direntry_bounds (hplace : m.InKernelPage img) (hi : i < 63) :
    0x400000 ≤ (m.direntry i).toNat ∧ (m.direntry i).toNat < 0x800000 := by
  obtain ⟨hlo, hhi⟩ := hplace
  simp only [BLOCK_SIZE] at hhi
  simp only [module_t.direntry, BitVec.toNat_add, BitVec.toNat_ofNat]
  omega

/-- A valid file's positions are read inside the image. -/
theorem Image.FileOk.readsAt (hfile : img.FileOk inode) {position : Nat} (hposition : position ≤ img.fileLength inode) :
    ReadsAt (Access.Inside img) img inode position := by
  have hlength := hfile.fileLength_lt
  have hindex : position / BLOCK_SIZE < 1023 := by
    simp only [BLOCK_SIZE]
    omega
  exact ⟨⟨hfile.inode_lt, hindex⟩, hfile.inode_lt, fun _ =>
    ⟨hfile.blocks_nonneg _ hindex, hfile.blocks_lt _ hindex, Nat.mod_lt _ (by decide)⟩⟩

/-- What holds of all that a read accesses for a position. -/
theorem ReadsAt.imp {Q : Access → Prop} {position : Nat} (hreads : ReadsAt P img inode position)
    (hall : ∀ access, P access → Q access) : ReadsAt Q img inode position :=
  ⟨hall _ hreads.entry, hall _ hreads.length, fun hbefore => hall _ (hreads.byte hbefore)⟩

end houseam.filesystem
