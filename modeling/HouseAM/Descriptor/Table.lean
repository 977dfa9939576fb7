import HouseAM.Descriptor.Run
import HouseAM.Filesystem.Names
import HouseAM.Support.Refinement

open houseam.lib houseam.filesystem support.refinement

namespace houseam.system_call

variable {img : Image} {pcb : pcb_t}

/-- The descriptors that files are opened on: 2 to 7. -/
abbrev Descriptor : Type := {i : Fin 8 // 2 ≤ i.val}

/-- What an open descriptor stands for. -/
structure OpenFile where
  operations : file_ops_t
  inode : Word
  position : Word

/-- The descriptor table a process sees: which files are open where. -/
abbrev FileTable : Type := Descriptor → Option OpenFile

/-- The operations of the three file types. -/
def operations_of (filetype : Word) : Option file_ops_t :=
  if filetype = 0#32 then some .rtc_operations
  else if filetype = 1#32 then some .dir_operations
  else if filetype = 2#32 then some .file_operations
  else none

/-- The file a name stands for, at its start: that of the first directory entry
    with the name. -/
def Image.file_of (img : Image) (name : List Byte) : Option OpenFile :=
  (img.entries.find? fun d => d.name = name).bind fun d =>
    (operations_of d.filetype).map fun operations => ⟨operations, d.inode_num, 0#32⟩

/-- The calls that change which descriptors are open. -/
inductive Request where
  | sys_open (filename : Option CString)
  | sys_close (fd : Int)

/-- What opening and closing mean on the table: an open takes the smallest
    unused descriptor, and what fails changes nothing. -/
inductive FileTable.Serves (file_of : List Byte → Option OpenFile) (table : FileTable) :
    Request → Int → FileTable → Prop where
  | open_null : Serves file_of table (.sys_open none) (-1) table
  | open_missing {filename : CString} (hmissing : file_of filename.bytes = none) :
      Serves file_of table (.sys_open (some filename)) (-1) table
  | open_full {filename : CString} (hfull : ∀ d, table d ≠ none) :
      Serves file_of table (.sys_open (some filename)) (-1) table
  | opened {filename : CString} {file : OpenFile} {d : Descriptor} (hfile : file_of filename.bytes = some file)
      (hunused : table d = none) (hsmallest : ∀ e < d, table e ≠ none) :
      Serves file_of table (.sys_open (some filename)) d.val.val (Function.update table d (some file))
  | closed {d : Descriptor} (hopen : table d ≠ none) :
      Serves file_of table (.sys_close d.val.val) 0 (Function.update table d none)
  | close_rejected {fd : Int} (hnot : ∀ d : Descriptor, (d.val.val : Int) = fd → table d = none) :
      Serves file_of table (.sys_close fd) (-1) table

/-- The two calls of the code. -/
def serve (img : Image) (pcb : pcb_t) : Request → Int × pcb_t
  | .sys_open filename => sys_open img filename pcb
  | .sys_close fd => sys_close fd pcb

/-- An entry as it is while a file is open on it, or while none is. What a
    closed entry still holds besides its flags does not count. -/
def fd_array_t.Holds (entry : fd_array_t) : Option OpenFile → Prop
  | none => entry.flags = 0#32
  | some file => entry = ⟨1#32, file.inode, file.position, .table file.operations⟩

/-- The descriptors of a PCB stand for a table. -/
def Represents (pcb : pcb_t) (table : FileTable) : Prop := ∀ d : Descriptor, (pcb.fd_arr d.val).Holds (table d)

theorem fd_array_t.Holds.unused_iff {entry : fd_array_t} {file : Option OpenFile} (hholds : entry.Holds file) :
    file = none ↔ entry.flags = 0#32 := by
  cases file with
  | none => exact iff_of_true rfl hholds
  | some file =>
    have hflags : entry.flags = 1#32 := congrArg fd_array_t.flags hholds
    rw [hflags]
    exact iff_of_false (by simp) (by decide)

/-- Changing the entry and the table at one descriptor keeps the others. -/
theorem Represents.update {table : FileTable} (hrepresents : Represents pcb table) (d : Descriptor)
    {entry : fd_array_t} {file : Option OpenFile} (hholds : entry.Holds file) :
    Represents (pcb.setFd d.val entry) (Function.update table d file) := by
  intro e
  by_cases heq : e = d
  · subst heq
    rw [Function.update_self, pcb_t.setFd_same]
    exact hholds
  · have hne : e.val ≠ d.val := fun h => heq (Subtype.ext h)
    rw [Function.update_of_ne heq, pcb_t.setFd_other _ _ hne]
    exact hrepresents e

theorem mem_descriptors {i : Fin 8} (hlo : 2 ≤ i.val) : i ∈ ([2, 3, 4, 5, 6, 7] : List (Fin 8)) := by
  revert i
  decide

theorem first_closed_eq_none (hfirst : first_closed pcb = none) {i : Fin 8} (hlo : 2 ≤ i.val) :
    (pcb.fd_arr i).flags ≠ 0#32 := by
  have hall := List.find?_eq_none.mp hfirst i (mem_descriptors hlo)
  simpa using hall

/-- The search for a closed descriptor finds the smallest one. -/
theorem first_closed_smallest {i : Fin 8} (hfirst : first_closed pcb = some i) {j : Fin 8} (hlo : 2 ≤ j.val)
    (hj : j < i) : (pcb.fd_arr j).flags ≠ 0#32 := by
  obtain ⟨-, before, after, hsplit, hbefore⟩ := List.find?_eq_some_iff_append.mp hfirst
  have hsorted : ([2, 3, 4, 5, 6, 7] : List (Fin 8)).Pairwise (· < ·) := by decide
  have hmem := mem_descriptors hlo
  rw [hsplit] at hsorted hmem
  rcases List.mem_append.mp hmem with hearlier | hlater
  · simpa using hbefore j hearlier
  · have hafter := (List.pairwise_append.mp hsorted).2.1
    rcases List.mem_cons.mp hlater with rfl | hlater
    · exact absurd hj (lt_irrefl j)
    · exact absurd (hj.trans (List.rel_of_pairwise_cons hafter hlater)) (lt_irrefl j)

/-- Every entry of the directory has one of the three file types. -/
def Image.FileTypes (img : Image) : Prop := ∀ i < img.dir_count.toNat,
  (img.direntries i).filetype = 0#32 ∨ (img.direntries i).filetype = 1#32 ∨ (img.direntries i).filetype = 2#32

theorem operations_of_eq {filetype : Word} (htype : filetype = 0#32 ∨ filetype = 1#32 ∨ filetype = 2#32)
    (old : OpsPtr) :
    ∃ operations, operations_of filetype = some operations ∧
      opened_operations filetype old = .table operations := by
  rcases htype with rfl | rfl | rfl
  · exact ⟨_, rfl, rfl⟩
  · exact ⟨_, rfl, rfl⟩
  · exact ⟨_, rfl, rfl⟩

theorem file_of_eq_none {filename : CString} (hmissing : read_dentry_by_name img (some filename) = none) :
    Image.file_of img filename.bytes = none := by
  rw [read_dentry_by_name_eq, Option.map_eq_none_iff] at hmissing
  rw [Image.file_of, hmissing, Option.bind_none]

/-- An open fills in the file that the name stands for. -/
theorem file_of_eq_some (htypes : Image.FileTypes img) {filename : CString} {d : dentry_t}
    (hfound : read_dentry_by_name img (some filename) = some d) (old : fd_array_t) :
    ∃ file, Image.file_of img filename.bytes = some file ∧ (opened_entry d old).Holds (some file) := by
  rw [read_dentry_by_name_eq, Option.map_eq_some_iff] at hfound
  obtain ⟨e, hfirst, rfl⟩ := hfound
  have htype : e.filetype = 0#32 ∨ e.filetype = 1#32 ∨ e.filetype = 2#32 := by
    obtain ⟨i, hi, rfl⟩ := List.mem_map.mp (List.mem_of_find?_eq_some hfirst)
    exact htypes i (List.mem_range.mp hi)
  obtain ⟨operations, hoperations, hopened⟩ := operations_of_eq htype old.file_operations
  refine ⟨⟨operations, e.inode_num, 0#32⟩, ?_, ?_⟩
  · rw [Image.file_of, hfirst, Option.bind_some, hoperations, Option.map_some]
  · rw [fd_array_t.Holds, opened_entry, copy_dentry_filetype, copy_dentry_inode_num, hopened]

/-- The code's open does what the table's does. -/
theorem sys_open_serves (htypes : Image.FileTypes img) {table : FileTable} (hrepresents : Represents pcb table)
    (filename : Option CString) :
    ∃ after, FileTable.Serves (Image.file_of img) table (.sys_open filename) (sys_open img filename pcb).1 after ∧
      Represents (sys_open img filename pcb).2 after := by
  cases filename with
  | none => exact ⟨table, .open_null, hrepresents⟩
  | some filename =>
    cases hfirst : first_closed pcb with
    | none =>
      have hfull : ∀ d, table d ≠ none := fun d h =>
        first_closed_eq_none hfirst d.property ((hrepresents d).unused_iff.mp h)
      have hcall : sys_open img (some filename) pcb = (-1, pcb) := by
        simp only [sys_open, hfirst]
      rw [hcall]
      exact ⟨table, .open_full hfull, hrepresents⟩
    | some i =>
      have hclosed := first_closed_flags hfirst
      cases hfound : read_dentry_by_name img (some filename) with
      | none =>
        have hcall : sys_open img (some filename) pcb = (-1, pcb) := by
          simp [sys_open, hfirst, hclosed, hfound]
        rw [hcall]
        exact ⟨table, .open_missing (file_of_eq_none hfound), hrepresents⟩
      | some e =>
        have hcall : sys_open img (some filename) pcb =
            ((i.val : Int), pcb.setFd i (opened_entry e (pcb.fd_arr i))) := by
          simp [sys_open, hfirst, hclosed, hfound, opened_entry]
        obtain ⟨file, hfile, hholds⟩ := file_of_eq_some htypes hfound (pcb.fd_arr i)
        obtain ⟨d, rfl⟩ : ∃ d : Descriptor, d.val = i := ⟨⟨i, first_closed_ge_two hfirst⟩, rfl⟩
        have hunused : table d = none := (hrepresents d).unused_iff.mpr hclosed
        have hsmallest : ∀ e < d, table e ≠ none := fun e he h =>
          first_closed_smallest hfirst e.property he ((hrepresents e).unused_iff.mp h)
        rw [hcall]
        exact ⟨_, .opened hfile hunused hsmallest, hrepresents.update d hholds⟩

/-- The code's close does what the table's does. -/
theorem sys_close_serves {file_of : List Byte → Option OpenFile} {table : FileTable}
    (hrepresents : Represents pcb table) (fd : Int) :
    ∃ after, FileTable.Serves file_of table (.sys_close fd) (sys_close fd pcb).1 after ∧
      Represents (sys_close fd pcb).2 after := by
  by_cases hrange : fd < 2 ∨ fd > PCB_LENGTH - 1
  · rw [sys_close_rejected pcb hrange]
    refine ⟨table, .close_rejected fun d hd => ?_, hrepresents⟩
    have hlo := d.property
    have hhi := d.val.isLt
    simp only [PCB_LENGTH] at hrange
    omega
  · have hbounds : 2 ≤ fd ∧ fd ≤ 7 := by
      simp only [PCB_LENGTH] at hrange
      omega
    have hval : ((fd_index fd).val : Int) = fd := by
      simp only [fd_index, Fin.val_ofNat]
      omega
    obtain ⟨d, hd⟩ : ∃ d : Descriptor, d.val = fd_index fd := ⟨⟨fd_index fd, by omega⟩, rfl⟩
    have hholds := hrepresents d
    rw [sys_close_eq pcb hrange, ← hd]
    by_cases hflags : (pcb.fd_arr d.val).flags = 0#32
    · have hunused : table d = none := hholds.unused_iff.mpr hflags
      rw [if_pos hflags]
      refine ⟨table, .close_rejected fun e he => ?_, ?_⟩
      · have heq : e = d := Subtype.ext (Fin.ext (by rw [hd]; omega))
        rw [heq, hunused]
      · have hsame : Represents (pcb.setFd d.val (closed_entry (pcb.fd_arr d.val))) (Function.update table d none) :=
          hrepresents.update d rfl
        rwa [← hunused, Function.update_eq_self] at hsame
    · have hopen : table d ≠ none := fun h => hflags (hholds.unused_iff.mp h)
      rw [if_neg hflags]
      refine ⟨Function.update table d none, ?_, hrepresents.update d rfl⟩
      have hclosed : FileTable.Serves file_of table (.sys_close d.val.val) 0 (Function.update table d none) :=
        .closed hopen
      rwa [hd, hval] at hclosed

/-- A call on the code's descriptors is a call on the table. -/
theorem serve_simulates (htypes : Image.FileTypes img) :
    Simulates (serve img) (FileTable.Serves (Image.file_of img)) Represents := by
  intro pcb table request hrepresents
  cases request with
  | sys_open filename => exact sys_open_serves htypes hrepresents filename
  | sys_close fd => exact sys_close_serves hrepresents fd

theorem sys_open_failed (filename : Option CString) (hfailed : (sys_open img filename pcb).1 = -1) :
    (sys_open img filename pcb).2 = pcb := by
  rcases sys_open_cases img filename pcb with h | ⟨i, d, -, -, h⟩
  · rw [h]
  · rw [h] at hfailed
    dsimp only at hfailed
    omega

/-- Over any sequence of opens and closes, a process that starts with all its
    descriptors closed gets the answers of the table of open files, which its
    descriptors stand for, and an open that fails changes nothing at all. -/
theorem descriptors_refine_table (htypes : Image.FileTypes img) {start : pcb_t}
    (hclosed : ∀ i : Fin 8, 2 ≤ i.val → (start.fd_arr i).flags = 0#32) (requests : List Request) :
    (∃ table, Trace (FileTable.Serves (Image.file_of img)) (fun _ => none) requests
        (responses (serve img) start requests) table ∧ Represents (reached (serve img) start requests) table) ∧
      ∀ filename, (sys_open img filename (reached (serve img) start requests)).1 = -1 →
        (sys_open img filename (reached (serve img) start requests)).2 = reached (serve img) start requests := by
  have hempty : Represents start fun _ => none := fun d => hclosed d.val d.property
  exact ⟨(serve_simulates htypes).trace hempty requests, fun filename => sys_open_failed filename⟩

theorem small_image_types : Image.FileTypes small_image := by
  intro i hi
  have hi : i < 3 := hi
  interval_cases i
  · exact Or.inr (Or.inl rfl)
  · exact Or.inr (Or.inr rfl)
  · exact Or.inr (Or.inr rfl)

/-- The directory and a text are opened, the directory is closed, and the text
    is opened again in its place. -/
theorem descriptors_refine_table_small :
    ∃ table, Trace (FileTable.Serves (Image.file_of small_image)) (fun _ => none)
      [.sys_open (some directory_name), .sys_open (some frame0_name), .sys_close 2,
        .sys_open (some frame0_name), .sys_open none] [2, 3, 0, 2, -1] table := by
  have hclosed (i : Fin 8) (_ : 2 ≤ i.val) : (zeroed_pcb.fd_arr i).flags = 0#32 := rfl
  obtain ⟨⟨table, htrace, -⟩, -⟩ := descriptors_refine_table small_image_types hclosed
    [.sys_open (some directory_name), .sys_open (some frame0_name), .sys_close 2, .sys_open (some frame0_name),
      .sys_open none]
  exact ⟨table, htrace⟩

end houseam.system_call
