import HouseAM.Filesystem.Image

namespace houseam.filesystem

/-- Where the copy loop stands: the index into the block list, the offset in
    the block, and the number of the block `copy_pos_ptr` points into. -/
structure Cursor where
  dblock_begin : Nat
  dindex : Nat
  copy_block : Word

/-- Moving to the next data block once the offset has run past this one. `none`
    is the early return of -1 for a block number outside the image. -/
def Cursor.cross (img : Image) (inode : Word) (c : Cursor) : Option Cursor :=
  if BLOCK_SIZE ≤ c.dindex then
    let block := (img.inode_start inode.toNat).data_block_num (c.dblock_begin + 1)
    if img.data_count.toInt ≤ block.toInt then none
    else some ⟨c.dblock_begin + 1, 0, block⟩
  else some c

/-- The copy loop from iteration `i` with `n` iterations left: the return value
    and the bytes stored from `buf[i]` on. The end-of-file test compares the
    length as unsigned with a sum that wraps at 32 bits. -/
def read_data_loop (img : Image) (inode offset : Word) : Nat → Nat → Cursor → Int × List Byte
  | 0, i, _ => (i, [])
  | n + 1, i, c =>
    match c.cross img inode with
    | none => (-1, [])
    | some c =>
      if (img.inode_start inode.toNat).length.toNat ≤ (i + offset.toNat) % 2 ^ 32 then (i, [])
      else
        let rest := read_data_loop img inode offset n (i + 1) { c with dindex := c.dindex + 1 }
        (rest.1, img.data_block c.copy_block c.dindex :: rest.2)

/-- The return value and the bytes stored from `buf[0]` on, where nothing that is
    read is unmapped. The block number is checked before the inode number is. -/
def read_data (img : Image) (inode offset : Word) (length : Nat) : Int × List Byte :=
  let dblock_begin := offset.toNat / BLOCK_SIZE
  let block := (img.inode_start inode.toNat).data_block_num dblock_begin
  if img.data_count.toInt ≤ block.toInt then (-1, [])
  else if img.inode_count.toNat ≤ inode.toNat then (-1, [])
  else read_data_loop img inode offset length 0 ⟨dblock_begin, offset.toNat % BLOCK_SIZE, block⟩

/-- Every stored byte went to an index below the requested length. -/
theorem read_data_loop_stored_le (img : Image) (inode offset : Word) (n i : Nat) (c : Cursor) :
    (read_data_loop img inode offset n i c).2.length ≤ n := by
  induction n generalizing i c with
  | zero => simp [read_data_loop]
  | succ n ih =>
    rw [read_data_loop]
    cases hcross : c.cross img inode with
    | none => simp
    | some next =>
      dsimp only
      split
      · simp
      · simpa using ih (i + 1) _

theorem read_data_stored_le (img : Image) (inode offset : Word) (length : Nat) :
    (read_data img inode offset length).2.length ≤ length := by
  unfold read_data
  dsimp only
  split
  · simp
  · split
    · simp
    · exact read_data_loop_stored_le img inode offset length 0 _

theorem read_data_loop_returned_le (img : Image) (inode offset : Word) (n i : Nat) (c : Cursor) :
    (read_data_loop img inode offset n i c).1 ≤ i + n := by
  induction n generalizing i c with
  | zero => simp [read_data_loop]
  | succ n ih =>
    rw [read_data_loop]
    cases hcross : c.cross img inode with
    | none => dsimp only; omega
    | some next =>
      dsimp only
      split
      · dsimp only; omega
      · have hrest := ih (i + 1) { next with dindex := next.dindex + 1 }
        dsimp only
        omega

theorem read_data_returned_le (img : Image) (inode offset : Word) (length : Nat) :
    (read_data img inode offset length).1 ≤ length := by
  unfold read_data
  dsimp only
  split
  · dsimp only; omega
  · split
    · dsimp only; omega
    · simpa using read_data_loop_returned_le img inode offset length 0 _

/-- The cursor of a valid file at a position. At the end of a block it may
    still stand one past the block's last byte. -/
structure Cursor.At (img : Image) (inode : Word) (c : Cursor) (position : Nat) : Prop where
  position_eq : c.dblock_begin * BLOCK_SIZE + c.dindex = position
  dindex_le : c.dindex ≤ BLOCK_SIZE
  copy_block_eq : c.copy_block = (img.inode_start inode.toNat).data_block_num c.dblock_begin

/-- Crossing into a block of the image succeeds and lands strictly inside a
    block, at the same position. -/
theorem Cursor.At.cross {img : Image} {inode : Word} {c : Cursor} {position : Nat} (hat : c.At img inode position)
    (hblock : BLOCK_SIZE ≤ c.dindex →
      ((img.inode_start inode.toNat).data_block_num (c.dblock_begin + 1)).toInt < img.data_count.toInt) :
    ∃ next, c.cross img inode = some next ∧ next.At img inode position ∧ next.dindex < BLOCK_SIZE := by
  by_cases hend : BLOCK_SIZE ≤ c.dindex
  · have hlt := hblock hend
    refine ⟨⟨c.dblock_begin + 1, 0, (img.inode_start inode.toNat).data_block_num (c.dblock_begin + 1)⟩, ?_, ?_, ?_⟩
    · simp only [Cursor.cross, if_pos hend, if_neg (Int.not_le.mpr hlt)]
    · have hposition := hat.position_eq
      have hfull : c.dindex = BLOCK_SIZE := Nat.le_antisymm hat.dindex_le hend
      refine ⟨?_, Nat.zero_le _, rfl⟩
      rw [← hposition, hfull, Nat.add_mul, Nat.one_mul, Nat.add_zero]
    · simp [BLOCK_SIZE]
  · exact ⟨c, by simp only [Cursor.cross, if_neg hend], hat, by omega⟩

/-- The byte under a cursor inside a block is the file's byte at its position. -/
theorem Cursor.At.byte_eq {img : Image} {inode : Word} {c : Cursor} {position : Nat}
    (hat : c.At img inode position) (hinside : c.dindex < BLOCK_SIZE) :
    img.data_block c.copy_block c.dindex = img.fileByte inode position := by
  have hposition := hat.position_eq
  have hdiv : position / BLOCK_SIZE = c.dblock_begin := by
    simp only [BLOCK_SIZE] at hposition hinside ⊢
    omega
  have hmod : position % BLOCK_SIZE = c.dindex := by
    simp only [BLOCK_SIZE] at hposition hinside ⊢
    omega
  simp only [Image.fileByte, hdiv, hmod, hat.copy_block_eq]

/-- Behind the byte under it, a cursor may have come to the end of its block. -/
theorem Cursor.At.succ {img : Image} {inode : Word} {c : Cursor} {position : Nat} (hat : c.At img inode position)
    (hinside : c.dindex < BLOCK_SIZE) :
    ({ c with dindex := c.dindex + 1 } : Cursor).At img inode (position + 1) where
  position_eq := by
    have hposition := hat.position_eq
    dsimp only
    omega
  dindex_le := Nat.succ_le_of_lt hinside
  copy_block_eq := hat.copy_block_eq

/-- The blocks that hold the bytes of a file are data blocks of the image. -/
def Image.BlocksBelow (img : Image) (inode : Word) : Prop :=
  ∀ j, j * BLOCK_SIZE < img.fileLength inode →
    ((img.inode_start inode.toNat).data_block_num j).toInt < img.data_count.toInt

theorem Image.FileOk.blocksBelow {img : Image} {inode : Word} (hfile : img.FileOk inode) : img.BlocksBelow inode := by
  intro j hj
  have hlength := hfile.fileLength_lt
  apply hfile.blocks_lt j
  simp only [BLOCK_SIZE] at hj
  omega

/-- Up to the file's end the loop copies the bytes in order, whatever it does
    behind them. It moves to the next block only when it needs the next byte. -/
theorem read_data_loop_within {img : Image} {inode : Word} (offset : Word) (n m i : Nat) (c : Cursor)
    (hblocks : ∀ j, j * BLOCK_SIZE < offset.toNat + i + n →
      ((img.inode_start inode.toNat).data_block_num j).toInt < img.data_count.toInt)
    (hat : c.At img inode (offset.toNat + i)) (hfits : offset.toNat + i + n ≤ img.fileLength inode) :
    ∃ next, next.At img inode (offset.toNat + i + n) ∧ (0 < c.dindex ∨ 0 < n → 0 < next.dindex) ∧
      read_data_loop img inode offset (n + m) i c =
        ((read_data_loop img inode offset m (i + n) next).1,
          ((img.fileBytes inode).drop (offset.toNat + i)).take n ++
            (read_data_loop img inode offset m (i + n) next).2) := by
  induction n generalizing i c with
  | zero => exact ⟨c, hat, by omega, by simp⟩
  | succ n ih =>
    have hposition := hat.position_eq
    obtain ⟨here, hcross, hhere, hinside⟩ := hat.cross (fun hend => hblocks _ (by
      have hfull := Nat.le_antisymm hat.dindex_le hend
      rw [Nat.add_mul, Nat.one_mul]
      omega))
    obtain ⟨next, hnext, hmoved, hrest⟩ :=
      ih (i + 1) _ (fun j hj => hblocks j (by omega)) (hhere.succ hinside) (by omega)
    refine ⟨next, ?_, fun _ => hmoved (Or.inl (Nat.succ_pos _)), ?_⟩
    · rw [show offset.toNat + i + (n + 1) = offset.toNat + (i + 1) + n by omega]
      exact hnext
    · have hmax := (img.inode_start inode.toNat).length.isLt
      have hlen : (img.inode_start inode.toNat).length.toNat = img.fileLength inode := rfl
      have hsum : (i + offset.toNat) % 2 ^ 32 = offset.toNat + i := by omega
      have hlt : offset.toNat + i < (img.fileBytes inode).length := by
        rw [Image.fileBytes_length]
        omega
      rw [show n + 1 + m = n + m + 1 by omega, read_data_loop, hcross]
      dsimp only
      rw [hsum, hlen, if_neg (by omega), hrest, hhere.byte_eq hinside, List.drop_eq_getElem_cons hlt,
        List.take_succ_cons, show i + 1 + n = i + (n + 1) by omega]
      simp [Image.fileBytes, Nat.add_assoc]

/-- At the file's end the loop stops. If it has to leave its block to find that
    out, it looks at the number of one block more. -/
theorem read_data_loop_end {img : Image} {inode : Word} (offset : Word) (m i : Nat) (c : Cursor)
    (hend : offset.toNat + i = img.fileLength inode) :
    read_data_loop img inode offset (m + 1) i c =
      if BLOCK_SIZE ≤ c.dindex ∧
          img.data_count.toInt ≤ ((img.inode_start inode.toNat).data_block_num (c.dblock_begin + 1)).toInt then
        (-1, [])
      else ((i : Int), []) := by
  have hmax := (img.inode_start inode.toNat).length.isLt
  have hlen : (img.inode_start inode.toNat).length.toNat = img.fileLength inode := rfl
  have hstop : img.fileLength inode ≤ (i + offset.toNat) % 2 ^ 32 := by omega
  rw [read_data_loop, Cursor.cross]
  by_cases hfull : BLOCK_SIZE ≤ c.dindex
  · by_cases hmissing : img.data_count.toInt ≤
        ((img.inode_start inode.toNat).data_block_num (c.dblock_begin + 1)).toInt
    · simp only [hfull, hmissing, and_self, if_true]
    · simp only [hfull, hmissing, and_false, if_true, if_false, hlen, hstop]
  · simp only [hfull, false_and, if_false, hlen, hstop, if_true]

/-- A read looks at the block list's entry behind a file that ends with a full
    block. -/
def Image.TouchesEnd (img : Image) (inode offset : Word) (length : Nat) : Prop :=
  BLOCK_SIZE ∣ img.fileLength inode ∧
    (offset.toNat = img.fileLength inode ∨ img.fileLength inode < offset.toNat + length)

instance (img : Image) (inode offset : Word) (length : Nat) : Decidable (img.TouchesEnd inode offset length) :=
  inferInstanceAs (Decidable (_ ∧ _))

/-- The entry of the block list behind the file's last block, when that is full. -/
def Image.endBlock (img : Image) (inode : Word) : Word :=
  (img.inode_start inode.toNat).data_block_num (img.fileLength inode / BLOCK_SIZE)

/-- A cursor that has moved to the file's end has run off its block exactly when
    the file ends with a full block, and then the next block is the one behind
    the file. -/
theorem Cursor.At.endBlock_iff {img : Image} {inode : Word} {c : Cursor} (hat : c.At img inode (img.fileLength inode))
    (hmoved : 0 < c.dindex) :
    BLOCK_SIZE ≤ c.dindex ∧
        img.data_count.toInt ≤ ((img.inode_start inode.toNat).data_block_num (c.dblock_begin + 1)).toInt ↔
      BLOCK_SIZE ∣ img.fileLength inode ∧ img.data_count.toInt ≤ (img.endBlock inode).toInt := by
  have hposition := hat.position_eq
  have hle := hat.dindex_le
  have hfull : BLOCK_SIZE ≤ c.dindex ↔ BLOCK_SIZE ∣ img.fileLength inode := by
    simp only [BLOCK_SIZE] at hposition hle ⊢
    omega
  rw [hfull]
  refine and_congr_right fun hdvd => ?_
  have hnext : img.fileLength inode / BLOCK_SIZE = c.dblock_begin + 1 := by
    have hsize := hfull.mpr hdvd
    simp only [BLOCK_SIZE] at hposition hle hsize ⊢
    omega
  rw [Image.endBlock, hnext]

/-- A read at the file's end stores nothing. -/
theorem read_data_at_end {img : Image} {inode offset : Word} (hblocks : img.BlocksBelow inode)
    (hinode : inode.toNat < img.inode_count.toNat) (hend : offset.toNat = img.fileLength inode) (length : Nat) :
    read_data img inode offset length =
      (if BLOCK_SIZE ∣ img.fileLength inode ∧ img.data_count.toInt ≤ (img.endBlock inode).toInt then -1
        else 0, []) := by
  have hstop (c : Cursor) (hinside : c.dindex < BLOCK_SIZE) :
      read_data_loop img inode offset length 0 c = (0, []) := by
    cases length with
    | zero => rfl
    | succ n => rw [read_data_loop_end offset n 0 c hend, if_neg (by omega)]; rfl
  have hinside : offset.toNat % BLOCK_SIZE < BLOCK_SIZE := Nat.mod_lt _ (by decide)
  have hlast : (img.inode_start inode.toNat).data_block_num (img.fileLength inode / BLOCK_SIZE) =
      img.endBlock inode := rfl
  rw [read_data, hstop _ hinside, if_neg (Nat.not_le.mpr hinode), hend, hlast]
  by_cases hmissing : img.data_count.toInt ≤ (img.endBlock inode).toInt
  · have hdvd : BLOCK_SIZE ∣ img.fileLength inode := by
      by_contra hpartial
      have hlt := hblocks (img.fileLength inode / BLOCK_SIZE) (by
        have hle := Nat.div_mul_le_self (img.fileLength inode) BLOCK_SIZE
        refine Nat.lt_of_le_of_ne hle fun heq => hpartial ?_
        exact ⟨_, by rw [Nat.mul_comm]; exact heq.symm⟩)
      exact absurd hlt (Int.not_lt.mpr hmissing)
    rw [if_pos hmissing, if_pos ⟨hdvd, hmissing⟩]
  · rw [if_neg hmissing, if_neg fun h => hmissing h.2]

/-- From an offset up to the file's end, `read_data` stores the bytes that
    follow it, as many as are asked for and still there. It returns how many,
    unless it looks at the block behind the file and that is not in the image. -/
theorem read_data_file {img : Image} {inode offset : Word} (hblocks : img.BlocksBelow inode)
    (hinode : inode.toNat < img.inode_count.toNat) (hoffset : offset.toNat ≤ img.fileLength inode) (length : Nat) :
    read_data img inode offset length =
      (if img.TouchesEnd inode offset length ∧ img.data_count.toInt ≤ (img.endBlock inode).toInt then -1
        else ((min length (img.fileLength inode - offset.toNat) : Nat) : Int),
        ((img.fileBytes inode).drop offset.toNat).take length) := by
  rcases Nat.eq_or_lt_of_le hoffset with hend | hbefore
  · rw [read_data_at_end hblocks hinode hend, hend, Nat.sub_self, Nat.min_zero, List.drop_eq_nil_of_le (by simp),
      List.take_nil]
    simp only [Image.TouchesEnd, hend, true_or, and_true]
    rfl
  · have hfirst := hblocks (offset.toNat / BLOCK_SIZE)
      (Nat.lt_of_le_of_lt (Nat.div_mul_le_self offset.toNat BLOCK_SIZE) hbefore)
    have hinside : offset.toNat % BLOCK_SIZE < BLOCK_SIZE := Nat.mod_lt _ (by decide)
    have hat : (⟨offset.toNat / BLOCK_SIZE, offset.toNat % BLOCK_SIZE,
        (img.inode_start inode.toNat).data_block_num (offset.toNat / BLOCK_SIZE)⟩ : Cursor).At img inode
          (offset.toNat + 0) :=
      ⟨by simpa [Nat.mul_comm] using Nat.div_add_mod offset.toNat BLOCK_SIZE, Nat.le_of_lt hinside, rfl⟩
    rw [read_data, if_neg (Int.not_le.mpr hfirst), if_neg (Nat.not_le.mpr hinode)]
    rcases Nat.lt_or_ge (img.fileLength inode - offset.toNat) length with hbeyond | hfits
    · obtain ⟨m, rfl⟩ := Nat.exists_eq_add_of_lt hbeyond
      obtain ⟨next, hnext, hmoved, hcopy⟩ :=
        read_data_loop_within offset (img.fileLength inode - offset.toNat) (m + 1) 0 _
          (fun j hj => hblocks j (by omega)) hat (by omega)
      have hatEnd : next.At img inode (img.fileLength inode) := by
        rwa [show offset.toNat + 0 + (img.fileLength inode - offset.toNat) = img.fileLength inode by omega] at hnext
      simp only [Nat.add_zero, Nat.zero_add] at hcopy
      rw [Nat.add_assoc, hcopy, read_data_loop_end offset m _ next (by omega)]
      have htouches : img.TouchesEnd inode offset (img.fileLength inode - offset.toNat + (m + 1)) ↔
          BLOCK_SIZE ∣ img.fileLength inode := and_iff_left (Or.inr (by omega))
      have hmissing := hatEnd.endBlock_iff (hmoved (Or.inr (by omega)))
      rw [← htouches] at hmissing
      have hall : ((img.fileBytes inode).drop offset.toNat).length ≤ img.fileLength inode - offset.toNat := by simp
      rw [List.take_of_length_le hall, List.take_of_length_le (Nat.le_add_right_of_le hall),
        Nat.min_eq_right (Nat.le_add_right _ _)]
      by_cases hstop : BLOCK_SIZE ≤ next.dindex ∧
          img.data_count.toInt ≤ ((img.inode_start inode.toNat).data_block_num (next.dblock_begin + 1)).toInt
      · rw [if_pos hstop, if_pos (hmissing.mp hstop), List.append_nil]
      · rw [if_neg hstop, if_neg fun h => hstop (hmissing.mpr h), List.append_nil]
    · obtain ⟨next, -, -, hcopy⟩ :=
        read_data_loop_within offset length 0 0 _ (fun j hj => hblocks j (by omega)) hat (by omega)
      rw [Nat.add_zero] at hcopy
      rw [hcopy, if_neg (by simp only [Image.TouchesEnd]; omega), Nat.min_eq_left hfits]
      simp [read_data_loop]

/-- On a valid file `read_data` returns how many bytes remain at the offset, up
    to the length asked for, and stores exactly those bytes. -/
theorem read_data_spec {img : Image} {inode : Word} (hfile : img.FileOk inode) (offset : Word)
    (hoffset : offset.toNat < 1023 * BLOCK_SIZE) (length : Nat) :
    read_data img inode offset length =
      (((min length (img.fileLength inode - offset.toNat) : Nat) : Int),
        ((img.fileBytes inode).drop offset.toNat).take length) := by
  have hlength := hfile.fileLength_lt
  rcases Nat.lt_or_ge (img.fileLength inode) offset.toNat with hpast | hwithin
  · have hfirst := hfile.blocks_lt (offset.toNat / BLOCK_SIZE) (by
      simp only [BLOCK_SIZE] at hoffset ⊢
      omega)
    have hinside : offset.toNat % BLOCK_SIZE < BLOCK_SIZE := Nat.mod_lt _ (by decide)
    rw [read_data, if_neg (Int.not_le.mpr hfirst), if_neg (Nat.not_le.mpr hfile.inode_lt),
      List.drop_eq_nil_of_le (by simpa using Nat.le_of_lt hpast), Nat.sub_eq_zero_of_le (Nat.le_of_lt hpast)]
    cases length with
    | zero => rfl
    | succ n =>
      have hlen : (img.inode_start inode.toNat).length.toNat = img.fileLength inode := rfl
      have hmax := offset.isLt
      rw [read_data_loop, Cursor.cross, if_neg (Nat.not_le.mpr hinside)]
      dsimp only
      rw [hlen, if_pos (by omega)]
      simp
  · have hend : ¬ img.data_count.toInt ≤ (img.endBlock inode).toInt := by
      refine Int.not_le.mpr (hfile.blocks_lt _ ?_)
      simp only [BLOCK_SIZE]
      omega
    rw [read_data_file hfile.blocksBelow hfile.inode_lt hwithin, if_neg fun h => hend h.2]

end houseam.filesystem
