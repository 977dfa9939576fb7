import HouseAM.Filesystem.Dentry

open houseam.lib

namespace houseam.filesystem

variable {img : Image} {d : dentry_t} {fname : CString}

theorem dentry_t.name_eq (d : dentry_t) : d.name = string_at d.byte FILENAME_LEN := by
  have hbytes : List.ofFn d.filename = (List.range FILENAME_LEN).map d.byte := by
    apply List.ext_getElem
    · simp only [List.length_ofFn, List.length_map, List.length_range, FILENAME_LEN]
    · intro i hi _
      have hlt : i < 32 := by simpa using hi
      simp only [List.getElem_ofFn, List.getElem_map, List.getElem_range, dentry_t.byte, dif_pos hlt]
  rw [dentry_t.name, string_at, hbytes]

theorem dentry_t.name_get (d : dentry_t) {k : Nat} (hk : k < d.name.length) : d.name[k] = d.byte k := by
  simp only [d.name_eq] at hk ⊢
  exact string_at_get d.byte FILENAME_LEN hk

theorem name_length_loop_eq (d : dentry_t) (n len : Nat) :
    name_length_loop d n len = len + (string_at (fun k => d.byte (len + k)) n).length := by
  induction n generalizing len with
  | zero => rfl
  | succ n ih =>
    rw [name_length_loop, string_at_succ]
    by_cases hnul : d.byte len ≠ 0#8
    · simp only [Nat.add_zero, if_pos hnul, ih, List.length_cons, Nat.add_right_comm len 1, ← Nat.add_assoc]
    · simp only [Nat.add_zero, if_neg hnul, List.length_nil]

/-- The loop counts the characters of the stored name. -/
theorem name_length_eq (d : dentry_t) : name_length d = d.name.length := by
  rw [d.name_eq, name_length, name_length_loop_eq]
  simp only [Nat.zero_add]

/-- The name field is copied out whole: the name, padded with NULs. -/
theorem strncpy_name (d : dentry_t) :
    strncpy d.byte FILENAME_LEN = d.name ++ List.replicate (FILENAME_LEN - d.name.length) 0#8 := by
  rw [strncpy_eq, ← d.name_eq]

theorem copy_dentry_filename (d : dentry_t) : List.ofFn (copy_dentry d).filename = strncpy d.byte FILENAME_LEN := by
  apply List.ext_getElem
  · rw [List.length_ofFn, strncpy_length, FILENAME_LEN]
  · intro i hi hi'
    simp only [List.getElem_ofFn, copy_dentry, List.getD_eq_getElem?_getD, List.getElem?_eq_getElem hi',
      Option.getD_some]

@[simp] theorem copy_dentry_name (d : dentry_t) : (copy_dentry d).name = d.name := by
  have hall : ∀ b ∈ d.name, decide (b ≠ 0#8) = true := List.all_eq_true.mp List.all_takeWhile
  rw [dentry_t.name, copy_dentry_filename, strncpy_name, List.takeWhile_append_of_pos hall, List.takeWhile_replicate]
  simp

/-- The comparison in the search finds out whether the stored name is the string
    that is looked for. -/
theorem matches_iff (d : dentry_t) (fname : CString) :
    strlen fname = name_length d ∧ strncmp fname.get d.byte (name_length d) = 0 ↔ d.name = fname.bytes := by
  rw [name_length_eq, strlen]
  constructor
  · rintro ⟨hlength, hsame⟩
    have hnul : ∀ k, k < d.name.length → fname.get k ≠ 0#8 := fun k hk => fname.get_ne_zero (hlength ▸ hk)
    rw [strncmp_eq_zero_iff fname.get d.byte _ hnul] at hsame
    apply List.ext_getElem hlength.symm
    intro k hk hk'
    rw [d.name_get hk, ← hsame k hk, fname.get_eq_getElem]
  · intro hname
    have hlength : fname.bytes.length = d.name.length := congrArg List.length hname.symm
    have hnul : ∀ k, k < d.name.length → fname.get k ≠ 0#8 := fun k hk => fname.get_ne_zero (hlength ▸ hk)
    refine ⟨hlength, (strncmp_eq_zero_iff fname.get d.byte _ hnul).mpr fun k hk => ?_⟩
    rw [fname.get_eq_getElem (hlength ▸ hk), ← d.name_get hk]
    simp only [hname]

/-- The directory, as a list of its entries. -/
def Image.entries (img : Image) : List dentry_t := (List.range img.dir_count.toNat).map img.direntries

theorem read_dentry_by_name_loop_eq (img : Image) (fname : CString) (n i : Nat) :
    read_dentry_by_name_loop img fname n i =
      (((List.range' i n).map img.direntries).find? fun d => d.name = fname.bytes).map copy_dentry := by
  induction n generalizing i with
  | zero => rfl
  | succ n ih =>
    rw [read_dentry_by_name_loop, List.range'_succ, List.map_cons, List.find?_cons]
    by_cases hname : (img.direntries i).name = fname.bytes
    · simp only [matches_iff, if_pos hname, decide_eq_true hname, Option.map_some]
    · simp only [matches_iff, if_neg hname, decide_eq_false hname, ih]

/-- The search finds the first entry with the name. -/
theorem read_dentry_by_name_eq (img : Image) (fname : CString) :
    read_dentry_by_name img (some fname) = (img.entries.find? fun d => d.name = fname.bytes).map copy_dentry := by
  rw [read_dentry_by_name, read_dentry_by_name_loop_eq, Image.entries, List.range_eq_range']

end houseam.filesystem
