import HouseAM.Filesystem.Image
import HouseAM.Lib.Strings
import Mathlib.Tactic.IntervalCases

open houseam.lib

namespace houseam.filesystem

/-- The `while (s[len] != '\0')` loop over a stored name, cut off at 32. -/
def name_length_loop (d : dentry_t) : Nat → Nat → Nat
  | 0, len => len
  | n + 1, len => if d.byte len ≠ 0#8 then name_length_loop d n (len + 1) else len

def name_length (d : dentry_t) : Nat := name_length_loop d FILENAME_LEN 0

/-- The entry as the lookup functions copy it out. -/
def copy_dentry (d : dentry_t) : dentry_t where
  filename := fun i => (strncpy d.byte FILENAME_LEN).getD i 0#8
  filetype := d.filetype
  inode_num := d.inode_num

/-- The search from entry `i` with `n` entries left. -/
def read_dentry_by_name_loop (img : Image) (fname : CString) : Nat → Nat → Option dentry_t
  | 0, _ => none
  | n + 1, i =>
    let d := img.direntries i
    let len := name_length d
    if strlen fname = len ∧ strncmp fname.get d.byte len = 0 then some (copy_dentry d)
    else read_dentry_by_name_loop img fname n (i + 1)

/-- `none` stands for the return value -1, and `fname = none` for a NULL name. -/
def read_dentry_by_name (img : Image) (fname : Option CString) : Option dentry_t :=
  match fname with
  | none => none
  | some fname => read_dentry_by_name_loop img fname img.dir_count.toNat 0

/-- `none` stands for the return value -1. -/
def read_dentry_by_index (img : Image) (index : Nat) : Option dentry_t :=
  if img.dir_count.toNat ≤ index then none else some (copy_dentry (img.direntries index))

@[simp] theorem copy_dentry_filetype (d : dentry_t) : (copy_dentry d).filetype = d.filetype := rfl

@[simp] theorem copy_dentry_inode_num (d : dentry_t) : (copy_dentry d).inode_num = d.inode_num := rfl

theorem read_dentry_by_name_loop_some {img : Image} {fname : CString} {n i : Nat} {d : dentry_t}
    (hfound : read_dentry_by_name_loop img fname n i = some d) :
    ∃ k, i ≤ k ∧ k < i + n ∧ d = copy_dentry (img.direntries k) := by
  induction n generalizing i with
  | zero => simp [read_dentry_by_name_loop] at hfound
  | succ n ih =>
    rw [read_dentry_by_name_loop] at hfound
    split at hfound
    · exact ⟨i, by omega, by omega, (Option.some.inj hfound).symm⟩
    · obtain ⟨k, hlo, hhi, hd⟩ := ih hfound
      exact ⟨k, by omega, by omega, hd⟩

/-- A successful lookup copies out one of the directory's entries. -/
theorem read_dentry_by_name_some {img : Image} {fname : Option CString} {d : dentry_t}
    (hfound : read_dentry_by_name img fname = some d) :
    ∃ k, k < img.dir_count.toNat ∧ d = copy_dentry (img.direntries k) := by
  cases fname with
  | none => cases hfound
  | some fname =>
    obtain ⟨k, -, hhi, hd⟩ := read_dentry_by_name_loop_some hfound
    exact ⟨k, by omega, hd⟩

/-- A regular file found by name in a well-formed image is a valid file. -/
theorem Image.WellFormed.fileOk_of_found {img : Image} (himg : img.WellFormed) {fname : Option CString}
    {d : dentry_t} (hfound : read_dentry_by_name img fname = some d) (htype : d.filetype = 2#32) :
    img.FileOk d.inode_num := by
  obtain ⟨k, hk, rfl⟩ := read_dentry_by_name_some hfound
  exact himg.files k hk htype

/-- A directory entry with a name of at most 32 bytes. -/
def dentry_t.named (name : List Byte) (filetype inode_num : Word) : dentry_t where
  filename := fun i => name.getD i 0#8
  filetype := filetype
  inode_num := inode_num

def directory_name : CString := ⟨[0x2E#8], by decide⟩

def shell_name : CString := ⟨[0x73#8, 0x68#8, 0x65#8, 0x6C#8, 0x6C#8], by decide⟩

def frame0_name : CString := ⟨[0x66#8, 0x72#8, 0x61#8, 0x6D#8, 0x65#8, 0x30#8], by decide⟩

/-- The 40 bytes of a small executable: its magic number and, from byte 24 on,
    the entry point 0x08048020. -/
def shell_contents : List Byte :=
  [0x7F#8, 0x45#8, 0x4C#8, 0x46#8] ++ List.replicate 20 0#8 ++ [0x20#8, 0x80#8, 0x04#8, 0x08#8] ++
    List.replicate 12 0x90#8

/-- An image with the directory itself, an executable and a text of three
    bytes. -/
def small_image : Image where
  dir_count := 3#32
  inode_count := 3#32
  data_count := 2#32
  direntries := fun i =>
    if i = 0 then .named directory_name.bytes 1#32 0#32
    else if i = 1 then .named shell_name.bytes 2#32 1#32
    else .named frame0_name.bytes 2#32 2#32
  inode_start := fun n => if n = 1 then ⟨40#32, fun _ => 0#32⟩ else ⟨3#32, fun _ => 1#32⟩
  data_block := fun block offset =>
    if block = 0#32 then shell_contents.getD offset 0#8 else [0x61#8, 0x62#8, 0x63#8].getD offset 0#8

theorem small_image_wellFormed : small_image.WellFormed where
  inode_count_nonneg := by decide
  data_count_nonneg := by decide
  dir_count_nonneg := by decide
  dir_count_le := by decide
  files := by
    intro i hi htype
    have hi : i < 3 := hi
    interval_cases i
    · exact absurd htype (by decide)
    · exact ⟨by decide, by decide, by decide, fun _ _ => show 0 ≤ (0#32).toInt by decide,
        fun _ _ => show (0#32).toInt < (2#32).toInt by decide⟩
    · exact ⟨by decide, by decide, by decide, fun _ _ => show 0 ≤ (1#32).toInt by decide,
        fun _ _ => show (1#32).toInt < (2#32).toInt by decide⟩

end houseam.filesystem
