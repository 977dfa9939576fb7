import HouseAM.Filesystem.Names

open houseam.lib

namespace houseam.filesystem

variable {img : Image} {d entry dentry : dentry_t} {name : List Byte} {i : Nat}

/-- The return value of `read_dentry_by_name` and the caller's `dentry` behind
    the call. -/
def read_dentry_by_name_call (img : Image) (fname : Option CString) (dentry : dentry_t) : Int × dentry_t :=
  match read_dentry_by_name img fname with
  | none => (-1, dentry)
  | some d => (0, d)

/-- The entry is the first of the directory with a name. -/
structure Image.FirstNamed (img : Image) (name : List Byte) (i : Nat) : Prop where
  lt : i < img.dir_count.toNat
  name_eq : (img.direntries i).name = name
  first : ∀ j, j < i → (img.direntries j).name ≠ name

/-- What a lookup writes for an entry: its name, padded with NULs, its type and
    its inode number. -/
structure CopiedFrom (entry d : dentry_t) : Prop where
  filename : List.ofFn d.filename = entry.name ++ List.replicate (FILENAME_LEN - entry.name.length) 0#8
  filetype : d.filetype = entry.filetype
  inode_num : d.inode_num = entry.inode_num

theorem copy_dentry_copied (d : dentry_t) : CopiedFrom d (copy_dentry d) where
  filename := by rw [copy_dentry_filename, strncpy_name]
  filetype := rfl
  inode_num := rfl

theorem dentry_t.name_length_le (d : dentry_t) : d.name.length ≤ FILENAME_LEN := by
  rw [d.name_eq]
  exact string_at_length_le d.byte FILENAME_LEN

/-- A search over the directory from its front. -/
theorem Image.entries_find (img : Image) (p : dentry_t → Bool) :
    img.entries.find? p =
      ((List.range img.dir_count.toNat).find? fun i => p (img.direntries i)).map img.direntries := by
  rw [Image.entries, List.find?_map]
  rfl

theorem Image.FirstNamed.found {fname : CString} (hfirst : img.FirstNamed fname.bytes i) :
    read_dentry_by_name img (some fname) = some (copy_dentry (img.direntries i)) := by
  have hindex : ((List.range img.dir_count.toNat).find? fun i => decide ((img.direntries i).name = fname.bytes)) =
      some i := by
    rw [List.find?_range_eq_some]
    refine ⟨decide_eq_true hfirst.name_eq, List.mem_range.mpr hfirst.lt, fun j hj => ?_⟩
    rw [decide_eq_false (hfirst.first j hj)]
    rfl
  rw [read_dentry_by_name_eq, Image.entries_find, hindex]
  rfl

theorem read_dentry_by_name_none {fname : CString}
    (hnone : ∀ i, i < img.dir_count.toNat → (img.direntries i).name ≠ fname.bytes) :
    read_dentry_by_name img (some fname) = none := by
  have hindex : ((List.range img.dir_count.toNat).find? fun i => decide ((img.direntries i).name = fname.bytes)) =
      none := by
    rw [List.find?_eq_none]
    intro i hi
    simpa using hnone i (List.mem_range.mp hi)
  rw [read_dentry_by_name_eq, Image.entries_find, hindex]
  rfl

/-- Among the entries with a name there is a first one. -/
theorem Image.exists_firstNamed (hi : i < img.dir_count.toNat) (hname : (img.direntries i).name = name) :
    ∃ k, img.FirstNamed name k := by
  have hex : ∃ k, k < img.dir_count.toNat ∧ (img.direntries k).name = name := ⟨i, hi, hname⟩
  obtain ⟨hlt, heq⟩ := Nat.find_spec hex
  refine ⟨Nat.find hex, hlt, heq, fun j hj hsame => ?_⟩
  exact Nat.find_min hex hj ⟨Nat.lt_trans hj hlt, hsame⟩

/-- What a search finds is the first entry of the name. -/
theorem read_dentry_by_name_firstNamed {fname : CString} (hfound : read_dentry_by_name img (some fname) = some d) :
    ∃ i, img.FirstNamed fname.bytes i ∧ d = copy_dentry (img.direntries i) := by
  have hentry : ∃ i, i < img.dir_count.toNat ∧ (img.direntries i).name = fname.bytes := by
    by_contra hnone
    rw [read_dentry_by_name_none fun i hi hname => hnone ⟨i, hi, hname⟩] at hfound
    cases hfound
  obtain ⟨i, hi, hname⟩ := hentry
  obtain ⟨k, hfirst⟩ := Image.exists_firstNamed hi hname
  rw [hfirst.found, Option.some.injEq] at hfound
  exact ⟨k, hfirst, hfound.symm⟩

/-- A lookup by name finds the first entry whose stored name is the string, and
    copies it out; without one it returns -1 and writes nothing. -/
theorem read_dentry_by_name_first (img : Image) (fname : CString) (dentry : dentry_t) :
    ((read_dentry_by_name_call img (some fname) dentry).1 = 0 ↔
        ∃ i, i < img.dir_count.toNat ∧ (img.direntries i).name = fname.bytes) ∧
      (∀ i, img.FirstNamed fname.bytes i → (read_dentry_by_name_call img (some fname) dentry).1 = 0 ∧
        CopiedFrom (img.direntries i) (read_dentry_by_name_call img (some fname) dentry).2) ∧
      ((∀ i, i < img.dir_count.toNat → (img.direntries i).name ≠ fname.bytes) →
        read_dentry_by_name_call img (some fname) dentry = (-1, dentry)) ∧
      (FILENAME_LEN < fname.bytes.length → read_dentry_by_name_call img (some fname) dentry = (-1, dentry)) := by
  have hmissing (hnone : ∀ i, i < img.dir_count.toNat → (img.direntries i).name ≠ fname.bytes) :
      read_dentry_by_name_call img (some fname) dentry = (-1, dentry) := by
    rw [read_dentry_by_name_call, read_dentry_by_name_none hnone]
  have hcopied (i : Nat) (hfirst : img.FirstNamed fname.bytes i) :
      read_dentry_by_name_call img (some fname) dentry = (0, copy_dentry (img.direntries i)) := by
    rw [read_dentry_by_name_call, hfirst.found]
  refine ⟨⟨fun hzero => ?_, ?_⟩, fun i hfirst => ?_, hmissing, fun hlong => ?_⟩
  · by_contra hnone
    rw [hmissing fun i hi hname => hnone ⟨i, hi, hname⟩] at hzero
    exact absurd hzero (Int.negSucc_ne_zero 0)
  · rintro ⟨i, hi, hname⟩
    obtain ⟨k, hfirst⟩ := Image.exists_firstNamed hi hname
    rw [hcopied k hfirst]
  · rw [hcopied i hfirst]
    exact ⟨rfl, copy_dentry_copied _⟩
  · apply hmissing
    intro i _ hname
    have hle := (img.direntries i).name_length_le
    rw [hname] at hle
    exact absurd hlong (Nat.not_lt.mpr hle)

end houseam.filesystem
