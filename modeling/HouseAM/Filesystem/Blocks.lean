import HouseAM.Filesystem.ReadData
import Mathlib.Data.Nat.Find

namespace houseam.filesystem

variable {img : Image} {inode offset : Word} {length n i : Nat} {c : Cursor}

/-- An entry of an inode's block list is below the number of data blocks. -/
def Image.HasBlock (img : Image) (inode : Word) (j : Nat) : Prop :=
  ((img.inode_start inode.toNat).data_block_num j).toInt < img.data_count.toInt

instance (img : Image) (inode : Word) (j : Nat) : Decidable (img.HasBlock inode j) :=
  inferInstanceAs (Decidable (_ < _))

/-- The entries of the block list that a read from an offset looks at: the one
    of the offset, and those of the blocks that begin behind it, before the last
    byte asked for and not behind the file's end. -/
def Image.LooksAt (img : Image) (inode offset : Word) (length j : Nat) : Prop :=
  j = offset.toNat / BLOCK_SIZE ∨
    offset.toNat < j * BLOCK_SIZE ∧ j * BLOCK_SIZE < offset.toNat + length ∧ j * BLOCK_SIZE ≤ img.fileLength inode

/-- The inode is one of the image's, and every entry of its block list that the
    read looks at is below the number of data blocks. -/
structure Image.Readable (img : Image) (inode offset : Word) (length : Nat) : Prop where
  inode_lt : inode.toNat < img.inode_count.toNat
  blocks : ∀ j, img.LooksAt inode offset length j → img.HasBlock inode j

/-- The loop moves on by one block at most, and only to a block that the image
    has. -/
theorem Cursor.cross_moves {next : Cursor} (hcross : c.cross img inode = some next) :
    next.dblock_begin = c.dblock_begin ∨
      next.dblock_begin = c.dblock_begin + 1 ∧ img.HasBlock inode (c.dblock_begin + 1) := by
  rw [Cursor.cross] at hcross
  by_cases hfull : BLOCK_SIZE ≤ c.dindex
  · rw [if_pos hfull] at hcross
    dsimp only at hcross
    split at hcross
    · cases hcross
    · rename_i hblock
      cases hcross
      exact Or.inr ⟨rfl, Int.not_le.mp hblock⟩
  · rw [if_neg hfull] at hcross
    cases hcross
    exact Or.inl rfl

/-- Up to the file's end, the loop copies what is left of the file or of the
    request if it has every block that it moves to, and fails otherwise. -/
theorem read_data_loop_blocks (hat : c.At img inode (offset.toNat + i))
    (hle : offset.toNat + i ≤ img.fileLength inode) :
    (∀ j, c.dblock_begin < j → j * BLOCK_SIZE < offset.toNat + i + n → j * BLOCK_SIZE ≤ img.fileLength inode →
        img.HasBlock inode j) ∧
      (read_data_loop img inode offset n i c).1 = (i + min n (img.fileLength inode - (offset.toNat + i)) : Nat) ∨
    (∃ j, c.dblock_begin < j ∧ j * BLOCK_SIZE < offset.toNat + i + n ∧ j * BLOCK_SIZE ≤ img.fileLength inode ∧
        ¬ img.HasBlock inode j) ∧
      (read_data_loop img inode offset n i c).1 = -1 := by
  induction n generalizing i c with
  | zero =>
    refine Or.inl ⟨fun j hj hlt _ => ?_, by simp [read_data_loop]⟩
    have hposition := hat.position_eq
    have hdindex := hat.dindex_le
    have hnext : (c.dblock_begin + 1) * BLOCK_SIZE ≤ j * BLOCK_SIZE := Nat.mul_le_mul_right _ hj
    rw [Nat.add_mul, Nat.one_mul] at hnext
    omega
  | succ n ih =>
    have hposition := hat.position_eq
    have hdindex := hat.dindex_le
    rw [read_data_loop]
    by_cases hmoves : BLOCK_SIZE ≤ c.dindex ∧ ¬ img.HasBlock inode (c.dblock_begin + 1)
    · -- the block behind this one is looked at, and is missing
      have hcross : c.cross img inode = none := by
        simp only [Cursor.cross, if_pos hmoves.1, if_pos (Int.not_lt.mp hmoves.2)]
      have hhere : (c.dblock_begin + 1) * BLOCK_SIZE = offset.toNat + i := by
        rw [Nat.add_mul, Nat.one_mul]
        omega
      rw [hcross]
      exact Or.inr ⟨⟨c.dblock_begin + 1, by omega, by omega, by omega, hmoves.2⟩, rfl⟩
    · have hhas (hfull : BLOCK_SIZE ≤ c.dindex) : img.HasBlock inode (c.dblock_begin + 1) := by
        by_contra hmissing
        exact hmoves ⟨hfull, hmissing⟩
      obtain ⟨next, hcross, hnext, hinside⟩ := hat.cross hhas
      have hsame := hnext.position_eq
      have hbehind (j : Nat) (hj : next.dblock_begin < j) : offset.toNat + i < j * BLOCK_SIZE := by
        have hstart : (next.dblock_begin + 1) * BLOCK_SIZE ≤ j * BLOCK_SIZE := Nat.mul_le_mul_right _ hj
        rw [Nat.add_mul, Nat.one_mul] at hstart
        omega
      have hfirst (j : Nat) (hj : c.dblock_begin < j) (hnot : ¬ next.dblock_begin < j) : img.HasBlock inode j := by
        rcases Cursor.cross_moves hcross with hstays | ⟨hmoved, hblock⟩
        · omega
        · rw [show j = c.dblock_begin + 1 by omega]
          exact hblock
      have hgrows : c.dblock_begin ≤ next.dblock_begin := by
        rcases Cursor.cross_moves hcross with hstays | ⟨hmoved, -⟩
        · omega
        · omega
      have hmax := (img.inode_start inode.toNat).length.isLt
      have hlen : (img.inode_start inode.toNat).length.toNat = img.fileLength inode := rfl
      rw [hcross]
      dsimp only
      by_cases hend : offset.toNat + i = img.fileLength inode
      · rw [hlen, if_pos (by omega)]
        refine Or.inl ⟨fun j hj _ hfile => hfirst j hj fun hlater => ?_, by dsimp only; omega⟩
        have hstart := hbehind j hlater
        omega
      · rw [hlen, if_neg (by omega)]
        dsimp only
        rcases ih (i := i + 1) (hnext.succ hinside) (by omega) with
          ⟨hall, hvalue⟩ | ⟨⟨j, hj, hlt, hfile, hmissing⟩, hvalue⟩
        · refine Or.inl ⟨fun j hj hlt hfile => ?_, ?_⟩
          · by_cases hlater : next.dblock_begin < j
            · exact hall j hlater (by omega) hfile
            · exact hfirst j hj hlater
          · rw [hvalue]
            omega
        · exact Or.inr ⟨⟨j, Nat.lt_of_le_of_lt hgrows hj, by omega, hfile, hmissing⟩, hvalue⟩

/-- At an offset in the file, a read returns how many bytes of the request are
    left there if it is readable, and -1 otherwise. -/
theorem read_data_blocks (hoffset : offset.toNat ≤ img.fileLength inode) (length : Nat) :
    img.Readable inode offset length ∧
        (read_data img inode offset length).1 = (min length (img.fileLength inode - offset.toNat) : Nat) ∨
      ¬ img.Readable inode offset length ∧ (read_data img inode offset length).1 = -1 := by
  rw [read_data]
  by_cases hfirst : img.HasBlock inode (offset.toNat / BLOCK_SIZE)
  · rw [if_neg (Int.not_le.mpr hfirst)]
    by_cases hinode : inode.toNat < img.inode_count.toNat
    · rw [if_neg (Nat.not_le.mpr hinode)]
      have hat : (⟨offset.toNat / BLOCK_SIZE, offset.toNat % BLOCK_SIZE,
          (img.inode_start inode.toNat).data_block_num (offset.toNat / BLOCK_SIZE)⟩ : Cursor).At img inode
            (offset.toNat + 0) := by
        refine ⟨?_, Nat.le_of_lt (Nat.mod_lt _ (by decide)), rfl⟩
        simpa [Nat.mul_comm] using Nat.div_add_mod offset.toNat BLOCK_SIZE
      have hbehind (j : Nat) : offset.toNat / BLOCK_SIZE < j ↔ offset.toNat < j * BLOCK_SIZE :=
        Nat.div_lt_iff_lt_mul (by decide)
      rcases read_data_loop_blocks (n := length) hat (by omega) with
        ⟨hall, hvalue⟩ | ⟨⟨j, hj, hlt, hfile, hmissing⟩, hvalue⟩
      · refine Or.inl ⟨⟨hinode, fun j hlooks => ?_⟩, by simpa using hvalue⟩
        rcases hlooks with rfl | ⟨hj, hlt, hfile⟩
        · exact hfirst
        · exact hall j ((hbehind j).mpr hj) hlt hfile
      · refine Or.inr ⟨fun hreadable => ?_, hvalue⟩
        exact hmissing (hreadable.blocks j (Or.inr ⟨(hbehind j).mp hj, hlt, hfile⟩))
    · rw [if_pos (Nat.not_lt.mp hinode)]
      exact Or.inr ⟨fun hreadable => hinode hreadable.inode_lt, rfl⟩
  · rw [if_pos (Int.not_lt.mp hfirst)]
    exact Or.inr ⟨fun hreadable => hfirst (hreadable.blocks _ (Or.inl rfl)), rfl⟩

theorem read_data_missing (hmissing : ¬ img.HasBlock inode (offset.toNat / BLOCK_SIZE)) (length : Nat) :
    read_data img inode offset length = (-1, []) := by
  rw [read_data, if_pos (Int.not_lt.mp hmissing)]

theorem read_data_no_inode (hinode : ¬ inode.toNat < img.inode_count.toNat) (length : Nat) :
    read_data img inode offset length = (-1, []) := by
  rw [read_data, if_pos (Nat.not_lt.mp hinode)]
  exact ite_self _

/-- A read from the front that stays in the first block needs that block only. -/
theorem read_data_front (hinode : inode.toNat < img.inode_count.toNat) (hfirst : img.HasBlock inode 0)
    (hlength : length < BLOCK_SIZE) :
    read_data img inode 0#32 length =
      (((min length (img.fileLength inode) : Nat) : Int), (img.fileBytes inode).take length) := by
  have hat : (⟨0, 0, (img.inode_start inode.toNat).data_block_num 0⟩ : Cursor).At img inode ((0#32).toNat + 0) :=
    ⟨by simp, Nat.zero_le _, rfl⟩
  have hblocks (n : Nat) (hn : n ≤ length) (j : Nat) (hj : j * BLOCK_SIZE < (0#32).toNat + 0 + n) :
      img.HasBlock inode j := by
    simp only [BitVec.toNat_zero, Nat.zero_add] at hj
    have hzero : j = 0 := by
      by_contra hpositive
      have hle := Nat.le_mul_of_pos_left BLOCK_SIZE (Nat.pos_of_ne_zero hpositive)
      omega
    rw [hzero]
    exact hfirst
  rw [read_data]
  simp only [BitVec.toNat_zero, Nat.zero_div, Nat.zero_mod]
  rw [if_neg (Int.not_le.mpr hfirst), if_neg (Nat.not_le.mpr hinode)]
  rcases Nat.lt_or_ge (img.fileLength inode) length with hbeyond | hfits
  · obtain ⟨m, rfl⟩ := Nat.exists_eq_add_of_lt hbeyond
    obtain ⟨next, hnext, -, hcopy⟩ := read_data_loop_within 0#32 (img.fileLength inode) (m + 1) 0 _
      (hblocks _ (by omega)) hat (by simp)
    have hposition := hnext.position_eq
    have hroom : ¬ BLOCK_SIZE ≤ next.dindex := by
      simp only [BitVec.toNat_zero, Nat.zero_add] at hposition
      omega
    simp only [BitVec.toNat_zero, Nat.zero_add, List.drop_zero] at hcopy
    rw [Nat.add_assoc, Nat.min_eq_right (by omega)]
    apply hcopy.trans
    rw [read_data_loop_end 0#32 m _ next (by simp), if_neg fun h => hroom h.1, List.append_nil,
      List.take_of_length_le (by simp), List.take_of_length_le (by simp)]
  · obtain ⟨next, -, -, hcopy⟩ :=
      read_data_loop_within 0#32 length 0 0 _ (hblocks _ (Nat.le_refl _)) hat (by simpa using hfits)
    simp only [BitVec.toNat_zero, Nat.zero_add, List.drop_zero, Nat.add_zero] at hcopy
    apply hcopy.trans
    rw [Nat.min_eq_left hfits, read_data_loop, List.append_nil]

/-- Behind the file's end there is nothing to read. -/
theorem read_data_behind (hend : img.fileLength inode ≤ offset.toNat) (hlength : 0 < length) :
    read_data img inode offset length =
      (if inode.toNat < img.inode_count.toNat ∧ img.HasBlock inode (offset.toNat / BLOCK_SIZE) then 0
        else -1, []) := by
  obtain ⟨n, rfl⟩ := Nat.exists_eq_succ_of_ne_zero (Nat.ne_of_gt hlength)
  by_cases hfirst : img.HasBlock inode (offset.toNat / BLOCK_SIZE)
  · by_cases hinode : inode.toNat < img.inode_count.toNat
    · have hinside : offset.toNat % BLOCK_SIZE < BLOCK_SIZE := Nat.mod_lt _ (by decide)
      have hlen : (img.inode_start inode.toNat).length.toNat = img.fileLength inode := rfl
      rw [if_pos ⟨hinode, hfirst⟩, read_data, if_neg (Int.not_le.mpr hfirst), if_neg (Nat.not_le.mpr hinode),
        read_data_loop, Cursor.cross, if_neg (Nat.not_le.mpr hinside)]
      dsimp only
      rw [hlen, Nat.zero_add, Nat.mod_eq_of_lt offset.isLt, if_pos hend]
      rfl
    · rw [if_neg fun h => hinode h.1, read_data_no_inode hinode]
  · rw [if_neg fun h => hfirst h.2, read_data_missing hfirst]

/-- A read of something returns 0 exactly at or behind the file's end, in a
    block that is there. -/
theorem read_data_eq_zero_iff (hlength : 0 < length) :
    (read_data img inode offset length).1 = 0 ↔
      inode.toNat < img.inode_count.toNat ∧ img.HasBlock inode (offset.toNat / BLOCK_SIZE) ∧
        img.fileLength inode ≤ offset.toNat := by
  rcases Nat.lt_or_ge offset.toNat (img.fileLength inode) with hbefore | hend
  · have hnonzero : (read_data img inode offset length).1 ≠ 0 := by
      rcases read_data_blocks (Nat.le_of_lt hbefore) length with ⟨-, hvalue⟩ | ⟨-, hvalue⟩ <;> omega
    exact ⟨fun h => absurd h hnonzero, fun h => absurd h.2.2 (Nat.not_le.mpr hbefore)⟩
  · rw [read_data_behind hend hlength, ← and_assoc, and_iff_left hend]
    split
    · rename_i hfound
      exact iff_of_true rfl hfound
    · rename_i hlost
      exact iff_of_false (Int.negSucc_ne_zero 0) hlost

/-- Among the blocks with 20-bit indices there is a last one. -/
theorem Image.exists_last_block {j : Nat} (hj : j < 2 ^ 20) (hblock : img.HasBlock inode j) :
    ∃ last, j ≤ last ∧ last < 2 ^ 20 ∧ img.HasBlock inode last ∧
      ∀ i, last < i → i < 2 ^ 20 → ¬ img.HasBlock inode i := by
  refine ⟨Nat.findGreatest (img.HasBlock inode) (2 ^ 20 - 1), ?_, ?_, ?_, fun i hlo hhi => ?_⟩
  · exact Nat.le_findGreatest (by omega) hblock
  · have hle := Nat.findGreatest_le (P := img.HasBlock inode) (2 ^ 20 - 1)
    omega
  · exact Nat.findGreatest_spec (m := j) (by omega) hblock
  · exact Nat.findGreatest_is_greatest hlo (by omega)

/-- The inode is one of the image's, and its block list has all entries up to
    the one behind its last byte. -/
structure Image.Whole (img : Image) (inode : Word) : Prop where
  inode_lt : inode.toNat < img.inode_count.toNat
  blocks : ∀ j, j * BLOCK_SIZE ≤ img.fileLength inode → img.HasBlock inode j

theorem Image.FileOk.whole (hfile : img.FileOk inode) : img.Whole inode where
  inode_lt := hfile.inode_lt
  blocks := by
    intro j hj
    have hlength := hfile.fileLength_lt
    apply hfile.blocks_lt j
    simp only [BLOCK_SIZE] at hj
    omega

theorem Image.Whole.readable (hwhole : img.Whole inode) (hoffset : offset.toNat ≤ img.fileLength inode)
    (length : Nat) : img.Readable inode offset length := by
  refine ⟨hwhole.inode_lt, fun j hlooks => hwhole.blocks j ?_⟩
  rcases hlooks with rfl | ⟨-, -, hfile⟩
  · exact Nat.le_trans (Nat.div_mul_le_self _ _) hoffset
  · exact hfile

/-- Reads of a file whose blocks are all there. -/
theorem Image.Whole.read_data (hwhole : img.Whole inode) (hoffset : offset.toNat ≤ img.fileLength inode)
    (length : Nat) :
    filesystem.read_data img inode offset length =
      (((min length (img.fileLength inode - offset.toNat) : Nat) : Int),
        ((img.fileBytes inode).drop offset.toNat).take length) := by
  have hend : img.HasBlock inode (img.fileLength inode / BLOCK_SIZE) := hwhole.blocks _ (Nat.div_mul_le_self _ _)
  rw [read_data_file (fun j hj => hwhole.blocks j (Nat.le_of_lt hj)) hwhole.inode_lt hoffset,
    if_neg fun h => absurd hend (Int.not_lt.mpr h.2)]

end houseam.filesystem
