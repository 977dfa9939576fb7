import HouseAM.Types

namespace houseam.filesystem

def FILENAME_LEN : Nat := 32
def BLOCK_SIZE : Nat := 4096

structure dentry_t where
  filename : Fin 32 → Byte
  filetype : Word
  inode_num : Word

structure inode_t where
  length : Word
  data_block_num : Nat → Word

/-- The file-system module the boot loader leaves in memory. The three counts
    are the boot block's; the arrays are read through their base pointers, so
    an index past an array's end reads whatever memory follows it. -/
structure Image where
  dir_count : Word
  inode_count : Word
  data_count : Word
  direntries : Nat → dentry_t
  inode_start : Nat → inode_t
  data_block : Word → Nat → Byte

/-- The byte of an entry's name at an index of its 32-byte field. -/
def dentry_t.byte (d : dentry_t) (index : Nat) : Byte :=
  if h : index < 32 then d.filename ⟨index, h⟩ else 0#8

/-- The stored name: the bytes before the first NUL, or all 32 of them. -/
def dentry_t.name (d : dentry_t) : List Byte := (List.ofFn d.filename).takeWhile (· ≠ 0#8)

/-- An inode whose file is no longer than its block list and whose 1023 block
    numbers all name data blocks of the image. -/
structure Image.FileOk (img : Image) (inode : Word) : Prop where
  inode_lt : inode.toNat < img.inode_count.toNat
  length_nonneg : 0 ≤ (img.inode_start inode.toNat).length.toInt
  length_lt : (img.inode_start inode.toNat).length.toInt < 1023 * BLOCK_SIZE
  blocks_nonneg : ∀ j, j < 1023 → 0 ≤ ((img.inode_start inode.toNat).data_block_num j).toInt
  blocks_lt : ∀ j, j < 1023 →
    ((img.inode_start inode.toNat).data_block_num j).toInt < img.data_count.toInt

/-- The images the file-system code is written for. -/
structure Image.WellFormed (img : Image) : Prop where
  inode_count_nonneg : 0 ≤ img.inode_count.toInt
  data_count_nonneg : 0 ≤ img.data_count.toInt
  dir_count_nonneg : 0 ≤ img.dir_count.toInt
  dir_count_le : img.dir_count.toInt ≤ 63
  files : ∀ i, i < img.dir_count.toNat → (img.direntries i).filetype = 2#32 →
    img.FileOk (img.direntries i).inode_num

/-- The byte of a file at a position, found through its block list. -/
def Image.fileByte (img : Image) (inode : Word) (position : Nat) : Byte :=
  img.data_block ((img.inode_start inode.toNat).data_block_num (position / BLOCK_SIZE)) (position % BLOCK_SIZE)

def Image.fileLength (img : Image) (inode : Word) : Nat := (img.inode_start inode.toNat).length.toNat

/-- The contents of a file, as a sequence of bytes. -/
def Image.fileBytes (img : Image) (inode : Word) : List Byte :=
  (List.range (img.fileLength inode)).map (img.fileByte inode)

theorem Image.fileLength_lt (img : Image) (inode : Word) : img.fileLength inode < 2 ^ 32 :=
  (img.inode_start inode.toNat).length.isLt

/-- Both readings of a valid file's length agree, and it fits the block list. -/
theorem Image.FileOk.fileLength_lt {img : Image} {inode : Word} (hfile : img.FileOk inode) :
    img.fileLength inode < 1023 * 4096 := by
  have hnonneg := hfile.length_nonneg
  have hlt := hfile.length_lt
  simp only [BLOCK_SIZE] at hlt
  simp only [Image.fileLength]
  rw [BitVec.toInt_eq_toNat_cond] at hnonneg hlt
  split at hlt <;> omega

@[simp] theorem Image.fileBytes_length (img : Image) (inode : Word) :
    (img.fileBytes inode).length = img.fileLength inode := by
  simp [Image.fileBytes]

end houseam.filesystem
