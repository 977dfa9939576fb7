import HouseAM.Filesystem.Dentry
import HouseAM.Filesystem.ReadData
import HouseAM.Support.Memory

open support.memory

namespace houseam.filesystem

variable {img img' : Image} {inode offset : Word}

/-- How many bytes of a file a read of the given length gets from an offset. -/
def Image.remaining (img : Image) (inode offset : Word) (length : Nat) : Nat :=
  min length (img.fileLength inode - offset.toNat)

theorem Image.fileBytes_drop_take_length (img : Image) (inode offset : Word) (length : Nat) :
    (((img.fileBytes inode).drop offset.toNat).take length).length = img.remaining inode offset length := by
  simp [Image.remaining]

/-- On a valid file, `read_data` returns how many bytes there are from the offset
    on, up to the length asked for. It stores each of them at its place in the
    buffer, as its data block holds it, and nothing else. -/
theorem read_data_contents (hfile : img.FileOk inode) (hoffset : offset.toNat < 1023 * BLOCK_SIZE) (length : Word)
    (memory : Nat → Byte) (buf : Nat) :
    (read_data img inode offset length.toNat).1 = img.remaining inode offset length.toNat ∧
    (∀ k, k < img.remaining inode offset length.toNat →
      storeAt memory buf (read_data img inode offset length.toNat).2 (buf + k) =
        img.data_block ((img.inode_start inode.toNat).data_block_num ((offset.toNat + k) / BLOCK_SIZE))
          ((offset.toNat + k) % BLOCK_SIZE)) ∧
    ∀ address, address < buf ∨ buf + img.remaining inode offset length.toNat ≤ address →
      storeAt memory buf (read_data img inode offset length.toNat).2 address = memory address := by
  have hlength := img.fileBytes_drop_take_length inode offset length.toNat
  rw [read_data_spec hfile offset hoffset length.toNat]
  refine ⟨rfl, fun k hk => ?_, fun address houtside => ?_⟩
  · rw [← hlength] at hk
    rw [storeAt_inside memory _ buf hk]
    simp only [List.getElem_take, List.getElem_drop, Image.fileBytes, List.getElem_map, List.getElem_range,
      Image.fileByte]
  · rcases houtside with hbelow | habove
    · exact storeAt_below memory _ hbelow
    · apply storeAt_above memory _
      rw [hlength]
      exact habove

/-- The last two bytes of the text in the small image, read to its end. -/
theorem read_data_contents_frame0 :
    (read_data small_image 2#32 1#32 (5#32).toNat).1 = 2 ∧
      storeAt (fun _ => 0#8) 4096 (read_data small_image 2#32 1#32 (5#32).toNat).2 4097 = 0x63#8 := by
  have hfile : small_image.FileOk 2#32 := small_image_wellFormed.files 2 (by decide) rfl
  obtain ⟨hvalue, hbytes, -⟩ := read_data_contents hfile (show (1#32).toNat < 1023 * BLOCK_SIZE by decide) 5#32
    (fun _ => 0#8) 4096
  exact ⟨hvalue, hbytes 1 (by decide)⟩

/-- Two images in which a file is the same: its length, at most that of a full
    block list, and the blocks that hold its bytes. -/
structure SameFile (img img' : Image) (inode : Word) : Prop where
  dir_count : img'.dir_count = img.dir_count
  inode_count : img'.inode_count = img.inode_count
  data_count : img'.data_count = img.data_count
  length : (img'.inode_start inode.toNat).length = (img.inode_start inode.toNat).length
  length_nonneg : 0 ≤ (img.inode_start inode.toNat).length.toInt
  length_le : (img.inode_start inode.toNat).length.toInt ≤ 1023 * BLOCK_SIZE
  block_num : ∀ j, j * BLOCK_SIZE < img.fileLength inode →
    (img'.inode_start inode.toNat).data_block_num j = (img.inode_start inode.toNat).data_block_num j
  block_nonneg : ∀ j, j * BLOCK_SIZE < img.fileLength inode →
    0 ≤ ((img.inode_start inode.toNat).data_block_num j).toInt
  block_lt : img.BlocksBelow inode
  contents : ∀ j, j * BLOCK_SIZE < img.fileLength inode → ∀ i, i < BLOCK_SIZE →
    img'.data_block ((img.inode_start inode.toNat).data_block_num j) i =
      img.data_block ((img.inode_start inode.toNat).data_block_num j) i

theorem SameFile.fileLength (hsame : SameFile img img' inode) : img'.fileLength inode = img.fileLength inode :=
  congrArg BitVec.toNat hsame.length

theorem SameFile.fileBytes (hsame : SameFile img img' inode) : img'.fileBytes inode = img.fileBytes inode := by
  rw [Image.fileBytes, Image.fileBytes, hsame.fileLength]
  refine List.map_congr_left fun position hposition => ?_
  have hlt := List.mem_range.mp hposition
  have hblock : position / BLOCK_SIZE * BLOCK_SIZE < img.fileLength inode :=
    Nat.lt_of_le_of_lt (Nat.div_mul_le_self position BLOCK_SIZE) hlt
  rw [Image.fileByte, Image.fileByte, hsame.block_num _ hblock]
  exact hsame.contents _ hblock _ (Nat.mod_lt _ (by decide))

theorem SameFile.blocksBelow (hsame : SameFile img img' inode) : img'.BlocksBelow inode := by
  intro j hj
  rw [hsame.fileLength] at hj
  rw [hsame.block_num j hj, hsame.data_count]
  exact hsame.block_lt j hj

/-- The same read looks behind the file in both images, or in neither. -/
theorem SameFile.touchesEnd (hsame : SameFile img img' inode) (offset : Word) (length : Nat) :
    img'.TouchesEnd inode offset length ↔ img.TouchesEnd inode offset length := by
  rw [Image.TouchesEnd, Image.TouchesEnd, hsame.fileLength]

/-- A read of an inode behind the last one fails. -/
theorem read_data_bad_inode (hinode : img.inode_count.toNat ≤ inode.toNat) (length : Nat) :
    read_data img inode offset length = (-1, []) := by
  rw [read_data, if_pos hinode]
  exact ite_self _

/-- From an offset up to the file's end, a read gives the same result on two
    images with the same file exactly when it does not look at the entry of the
    block list behind a full last block, or that entry is in the image in both
    of them or in neither. -/
theorem read_data_same_iff (hsame : SameFile img img' inode) (hoffset : offset.toNat ≤ img.fileLength inode)
    (length : Word) :
    read_data img' inode offset length.toNat = read_data img inode offset length.toNat ↔
      img.inode_count.toNat ≤ inode.toNat ∨ ¬ img.TouchesEnd inode offset length.toNat ∨
        (img'.data_count.toInt ≤ (img'.endBlock inode).toInt ↔ img.data_count.toInt ≤ (img.endBlock inode).toInt) := by
  rcases Nat.lt_or_ge inode.toNat img.inode_count.toNat with hinode | hbad
  · have hinode' : inode.toNat < img'.inode_count.toNat := hsame.inode_count ▸ hinode
    have hoffset' : offset.toNat ≤ img'.fileLength inode := hsame.fileLength ▸ hoffset
    rw [read_data_file hsame.block_lt hinode hoffset, read_data_file hsame.blocksBelow hinode' hoffset',
      hsame.fileLength, hsame.fileBytes]
    simp only [hsame.touchesEnd, Prod.mk.injEq, and_true]
    by_cases htouches : img.TouchesEnd inode offset length.toNat
    · generalize min length.toNat (img.fileLength inode - offset.toNat) = count
      have hfailed : (-1 : Int) ≠ count := by omega
      simp only [htouches, true_and, not_true, false_or, Nat.not_le.mpr hinode]
      by_cases hgone : img.data_count.toInt ≤ (img.endBlock inode).toInt
      · by_cases hgone' : img'.data_count.toInt ≤ (img'.endBlock inode).toInt
        · simp only [hgone, hgone', if_true]
        · simp [hgone, hgone', hfailed.symm]
      · by_cases hgone' : img'.data_count.toInt ≤ (img'.endBlock inode).toInt
        · simp [hgone, hgone', hfailed]
        · simp only [hgone, hgone', if_false]
    · simp only [htouches, false_and, if_false, not_false_eq_true, true_or, or_true]
  · rw [read_data_bad_inode hbad, read_data_bad_inode (hsame.inode_count.symm ▸ hbad)]
    exact iff_of_true rfl (Or.inl hbad)

/-- The image of a file of one full block, which is data block 0, with an entry
    behind it in the block list. -/
def full_block_image (entry : Word) : Image where
  dir_count := 0#32
  inode_count := 1#32
  data_count := 1#32
  direntries := fun _ => .named [] 0#32 0#32
  inode_start := fun _ => ⟨4096#32, fun j => if j = 0 then 0#32 else entry⟩
  data_block := fun _ _ => 0x61#8

theorem full_block_image_same (entry entry' : Word) :
    SameFile (full_block_image entry) (full_block_image entry') 0#32 := by
  have hfirst : ∀ j, j * BLOCK_SIZE < (full_block_image entry).fileLength 0#32 → j = 0 := by
    intro j hj
    have hlength : (full_block_image entry).fileLength 0#32 = 4096 := rfl
    simp only [hlength, BLOCK_SIZE] at hj
    omega
  have hlength : (4096#32 : Word).toInt = 4096 := by decide
  refine ⟨rfl, rfl, rfl, rfl, ?_, ?_, fun j hj => ?_, fun j hj => ?_, fun j hj => ?_, fun _ _ _ _ => rfl⟩
  · exact hlength ▸ (show (0 : Int) ≤ 4096 by decide)
  · exact hlength ▸ (show (4096 : Int) ≤ 1023 * BLOCK_SIZE by decide)
  · rw [hfirst j hj]
    rfl
  · rw [hfirst j hj]
    exact Int.le_refl 0
  · rw [hfirst j hj]
    exact Int.one_pos

/-- A read of the block without its last byte, whatever the entry behind it. -/
theorem read_data_same_iff_inside :
    read_data (full_block_image 9#32) 0#32 1#32 (8#32).toNat =
      read_data (full_block_image 0#32) 0#32 1#32 (8#32).toNat :=
  (read_data_same_iff (full_block_image_same 0#32 9#32) (by decide) 8#32).mpr (Or.inr (Or.inl (by decide)))

/-- In general the result does not depend on the file alone: at the end of a
    full block it tells whether the entry behind it is in the image. -/
theorem read_data_not_same : ¬ ∀ (img img' : Image) (inode offset length : Word), SameFile img img' inode →
    offset.toNat ≤ img.fileLength inode →
      read_data img' inode offset length.toNat = read_data img inode offset length.toNat := by
  intro hall
  have hread := hall _ _ _ 4096#32 1#32 (full_block_image_same 0#32 9#32) (by decide)
  exact absurd hread (by decide)

end houseam.filesystem
