import HouseAM.Filesystem.Lookup
import HouseAM.Process.Faults
import HouseAM.Process.Startable

open houseam.filesystem houseam.paging houseam.system_call houseam.terminal

namespace houseam.process

variable {m : module_t} {sys : System} {paging : paging_t} {k k' : Kernel} {f : Frame} {q : Fin 6} {c : CString}
  {d : dentry_t} {img : Image} {inode offset : Word} {length : Nat} {fname : CString}

/-- A search of the directory does not fault. -/
def LookupMapped (m : module_t) (sys : System) (paging : paging_t) (fname : CString) : Prop :=
  Present sys paging m.mod_start ∧
    ∀ i ∈ read_dentry_by_name_accesses sys.img fname sys.img.dir_count.toNat 0, Present sys paging (m.direntry i)

instance (m : module_t) (sys : System) (paging : paging_t) (fname : CString) :
    Decidable (LookupMapped m sys paging fname) := inferInstanceAs (Decidable (_ ∧ _))

/-- What a call reads of the module behind its parse does not fault: the search and
    the two reads of the header with the paging it has found, and the load with
    the program's own entry. -/
def ExecuteMapped (m : module_t) (sys : System) (f : Frame) (command : CString) (paging : paging_t)
    (process_id : Fin 6) : Prop :=
  LookupMapped m sys paging (command_word command) ∧
    ∀ holder_dentry ∈ read_dentry_by_name sys.img (some (command_word command)),
      ReadMapped m sys paging holder_dentry.inode_num 0#32 HEADER_BUF_SIZE ∧
        (is_elf sys.img holder_dentry.inode_num f.leftover = true →
          ReadMapped m sys paging holder_dentry.inode_num OFFSET 4 ∧
            (load_mapped m sys (paging.setEntry (page_entry (pid process_id))) holder_dentry.inode_num).isSome)

instance (m : module_t) (sys : System) (f : Frame) (command : CString) (paging : paging_t) (process_id : Fin 6) :
    Decidable (ExecuteMapped m sys f command paging process_id) := inferInstanceAs (Decidable (_ ∧ _))

/-- `sys_execute`, without a result when a read of the module faults, too. -/
def sys_execute_mapped (m : module_t) (sys : System) (f : Frame) (command : Option CString) (k : Kernel) :
    Option (Kernel × Option (Fin 6)) :=
  match command, first_free k.processes with
  | some command, some process_id =>
    if ExecuteMapped m sys f command k.paging process_id then sys_execute sys f (some command) k else none
  | some command, none => sys_execute sys f (some command) k
  | none, _ => sys_execute sys f none k

theorem sys_execute_mapped_some_iff (hfirst : first_free k.processes = some q) {result : Kernel × Option (Fin 6)} :
    sys_execute_mapped m sys f (some c) k = some result ↔
      ExecuteMapped m sys f c k.paging q ∧ sys_execute sys f (some c) k = some result := by
  simp only [sys_execute_mapped, hfirst]
  split
  · rename_i hmapped
    exact (and_iff_right hmapped).symm
  · rename_i hfaults
    exact iff_of_false (fun h => by cases h) fun h => hfaults h.1

/-- The entries a search looks at: up to the first one of the name. -/
theorem lookup_mapped_iff : LookupMapped m sys paging fname ↔ Present sys paging m.mod_start ∧
    ∀ i, i < sys.img.dir_count.toNat → (∀ j, j < i → (sys.img.direntries j).name ≠ fname.bytes) →
      Present sys paging (m.direntry i) := by
  simp only [LookupMapped, mem_read_dentry_by_name_accesses, Nat.zero_le, true_and, forall_const, Nat.zero_add,
    and_imp]

/-- The read of the entry point looks at nothing that the read of the header has
    not looked at. -/
theorem ReadMapped.entry_pt (hheader : ReadMapped m sys paging inode 0#32 HEADER_BUF_SIZE) :
    ReadMapped m sys paging inode OFFSET 4 := by
  obtain ⟨hcounts, hreads⟩ := hheader
  refine ⟨hcounts, ?_⟩
  have hentry := read_data_accesses_entry hreads
  have hblock : OFFSET.toNat / BLOCK_SIZE = 0 := by decide
  by_cases hfirst : sys.img.HasBlock inode 0
  · by_cases hinode : inode.toNat < sys.img.inode_count.toNat
    · have hfront (offset : Word) (length : Nat) (hlength : offset.toNat + length ≤ HEADER_BUF_SIZE) :
          sys.img.Readable inode offset length := by
        refine ⟨hinode, fun j hlooks => ?_⟩
        simp only [Image.LooksAt, BLOCK_SIZE, HEADER_BUF_SIZE] at hlooks hlength
        rw [show j = 0 by omega]
        exact hfirst
      have hpositions := ((hfront 0#32 HEADER_BUF_SIZE (by decide)).accesses_iff (Nat.zero_le _) (by decide)).mp hreads
      simp only [BitVec.toNat_zero, Nat.zero_le, Nat.zero_add, forall_const] at hpositions
      rcases Nat.le_total OFFSET.toNat (sys.img.fileLength inode) with hinside | hbehind
      · refine ((hfront OFFSET 4 (by decide)).accesses_iff hinside (by decide)).mpr fun q _ hhi hq => ?_
        exact hpositions q (Nat.lt_of_lt_of_le hhi (by decide)) hq
      · rw [read_data_accesses_behind hinode (hblock.symm ▸ hfirst) hbehind (by decide), List.forall_mem_cons,
          List.forall_mem_singleton, hblock]
        exact ⟨hentry, (hpositions 0 (by decide) (Nat.zero_le _)).length⟩
    · rw [read_data_accesses_no_inode hinode, List.forall_mem_singleton, hblock]
      exact hentry
  · rw [read_data_accesses_missing (hblock.symm ▸ hfirst), List.forall_mem_singleton, hblock]
    exact hentry

/-! A module in the kernel's page. -/

/-- The header of a valid file. -/
theorem header_mapped (hfilled : Filled sys.layout paging) (hplace : m.InKernelPage sys.img)
    (hfile : sys.img.FileOk inode) : ReadMapped m sys paging inode 0#32 HEADER_BUF_SIZE := by
  have hstart : (0#32).toNat ≤ sys.img.fileLength inode := Nat.zero_le _
  have hreadable := hfile.whole.readable hstart HEADER_BUF_SIZE
  refine ⟨present_counts hfilled hplace, (hreadable.accesses_iff hstart (by decide)).mpr fun q _ _ hq => ?_⟩
  exact (hfile.readsAt hq).imp fun access => present_inside hfilled hplace

/-- A directory that fits the boot block. -/
theorem lookup_mapped (hfilled : Filled sys.layout paging) (hplace : m.InKernelPage sys.img)
    (hdir : sys.img.dir_count.toNat ≤ 63) : LookupMapped m sys paging fname := by
  refine lookup_mapped_iff.mpr ⟨present_counts hfilled hplace, fun i hi _ => ?_⟩
  obtain ⟨hlo, hhi⟩ := hplace.direntry_bounds (show i < 63 by omega)
  exact present_kernel hfilled hlo hhi

/-- The entries are as many as fit the boot block, and lead to valid files that
    end with a program's page. -/
structure EntriesFit (img : Image) : Prop where
  dir_count : img.dir_count.toNat ≤ 63
  files : ∀ i, i < img.dir_count.toNat → img.FileOk (img.direntries i).inode_num
  fits : ∀ i, i < img.dir_count.toNat → img.fileLength (img.direntries i).inode_num ≤ 0x3B8000

/-- With such an image in the kernel's page no read of the module faults. -/
theorem sys_execute_mapped_eq (f : Frame) (hfilled : Filled sys.layout k.paging) (hplace : m.InKernelPage sys.img)
    (hfit : EntriesFit sys.img) (command : Option CString) :
    sys_execute_mapped m sys f command k = sys_execute sys f command k := by
  cases command with
  | none => rfl
  | some c =>
    cases hfirst : first_free k.processes with
    | none => simp only [sys_execute_mapped, hfirst]
    | some q =>
      simp only [sys_execute_mapped, hfirst]
      refine if_pos ⟨lookup_mapped hfilled hplace hfit.dir_count, fun d hfound => ?_⟩
      obtain ⟨i, hi, rfl⟩ := read_dentry_by_name_some hfound
      have hheader := header_mapped hfilled hplace (hfit.files i hi)
      refine ⟨hheader, fun _ => ⟨hheader.entry_pt, load_mapped_isSome_iff.mpr ?_⟩⟩
      exact (loadEnds_fileOk_iff hfilled hplace (hfit.files i hi) q).mpr (hfit.fits i hi)

/-! What a command names. -/

/-- Without a fault of its own, a load's stores do not fault either. -/
theorem LoadEnds.stores (hends : LoadEnds m sys paging inode) : Loads sys paging inode :=
  ⟨hends.terminates, fun hfirst i hi => (hends.bytes hfirst i hi).2⟩

/-- A call that faults in no read returns -1 exactly if no entry of the name has
    the magic number in its header. -/
theorem sys_execute_mapped_returned_iff (m : module_t) (sys : System) (f : Frame)
    (hfirst : first_free k.processes = some q) (hshort : Short BUFFER_SIZE (some c)) :
    (∃ k', sys_execute_mapped m sys f (some c) k = some (k', none)) ↔
      LookupMapped m sys k.paging (command_word c) ∧
        ∀ d, read_dentry_by_name sys.img (some (command_word c)) = some d →
          ReadMapped m sys k.paging d.inode_num 0#32 HEADER_BUF_SIZE ∧
            ¬ HeaderMagic sys.img d.inode_num f.leftover := by
  have hreturned := sys_execute_returned_iff sys f hfirst hshort
  simp only [sys_execute_mapped_some_iff hfirst, exists_and_left, hreturned]
  constructor
  · rintro ⟨⟨hlookup, hmapped⟩, hnone⟩
    exact ⟨hlookup, fun d hfound => ⟨(hmapped d hfound).1, hnone d hfound⟩⟩
  · rintro ⟨hlookup, hall⟩
    refine ⟨⟨hlookup, fun d hfound => ⟨(hall d hfound).1, fun helf => ?_⟩⟩, fun d hfound => (hall d hfound).2⟩
    exact absurd (is_elf_iff.mp helf) (hall d hfound).2

/-- And it starts a program exactly if that entry has it, and its file loads. -/
theorem sys_execute_mapped_started_iff (m : module_t) (sys : System) (f : Frame)
    (hfirst : first_free k.processes = some q) (hshort : Short BUFFER_SIZE (some c)) :
    (∃ k' p, sys_execute_mapped m sys f (some c) k = some (k', some p)) ↔
      LookupMapped m sys k.paging (command_word c) ∧
        ∃ d, read_dentry_by_name sys.img (some (command_word c)) = some d ∧
          ReadMapped m sys k.paging d.inode_num 0#32 HEADER_BUF_SIZE ∧ HeaderMagic sys.img d.inode_num f.leftover ∧
            LoadEnds m sys (k.paging.setEntry (page_entry (pid q))) d.inode_num := by
  have hstarted := sys_execute_started_iff sys f hfirst hshort
  simp only [sys_execute_mapped_some_iff hfirst, exists_and_left, hstarted]
  constructor
  · rintro ⟨⟨hlookup, hmapped⟩, d, hfound, hmagic, -⟩
    obtain ⟨hheader, hload⟩ := hmapped d hfound
    exact ⟨hlookup, d, hfound, hheader, hmagic, load_mapped_isSome_iff.mp (hload (is_elf_iff.mpr hmagic)).2⟩
  · rintro ⟨hlookup, d, hfound, hheader, hmagic, hends⟩
    refine ⟨⟨hlookup, fun other hother => ?_⟩, d, hfound, hmagic, hends.stores⟩
    obtain rfl : d = other := Option.some.inj (hfound.symm.trans hother)
    exact ⟨hheader, fun _ => ⟨hheader.entry_pt, load_mapped_isSome_iff.mpr hends⟩⟩

/-- The command's text before its first space is the name of a regular file of
    the directory that is an ELF file. -/
def NamesElfFile (img : Image) (c : CString) : Prop :=
  ∃ i, i < img.dir_count.toNat ∧ (img.direntries i).name = c.bytes.takeWhile (· ≠ SPACE) ∧
    (img.direntries i).filetype = 2#32 ∧ ElfFile img (img.direntries i).inode_num

/-- A call starts a program exactly when its command names an ELF file, and
    returns -1 otherwise. -/
structure StartsNamed (m : module_t) (sys : System) (f : Frame) (c : CString) (k : Kernel) : Prop where
  starts_iff : (∃ k' p, sys_execute_mapped m sys f (some c) k = some (k', some p)) ↔ NamesElfFile sys.img c
  returns : ¬ NamesElfFile sys.img c → ∃ k', sys_execute_mapped m sys f (some c) k = some (k', none)

/-- Whether it does is decided by the search and the first entry of the name: no
    read of its header faults, which holds the magic number exactly if the command
    names an ELF file, and then its file loads. -/
theorem startsNamed_iff_header (m : module_t) (sys : System) (f : Frame) (hfirst : first_free k.processes = some q)
    (hshort : Short BUFFER_SIZE (some c)) :
    StartsNamed m sys f c k ↔ LookupMapped m sys k.paging (command_word c) ∧
      ∀ i, sys.img.FirstNamed (c.bytes.takeWhile (· ≠ SPACE)) i →
        ReadMapped m sys k.paging (sys.img.direntries i).inode_num 0#32 HEADER_BUF_SIZE ∧
          (HeaderMagic sys.img (sys.img.direntries i).inode_num f.leftover ↔ NamesElfFile sys.img c) ∧
            (HeaderMagic sys.img (sys.img.direntries i).inode_num f.leftover →
              LoadEnds m sys (k.paging.setEntry (page_entry (pid q))) (sys.img.direntries i).inode_num) := by
  have hstarted := sys_execute_mapped_started_iff m sys f hfirst hshort
  have hreturned := sys_execute_mapped_returned_iff m sys f hfirst hshort
  have hlookup (i : Nat) (hi : sys.img.FirstNamed (c.bytes.takeWhile (· ≠ SPACE)) i) :
      read_dentry_by_name sys.img (some (command_word c)) = some (copy_dentry (sys.img.direntries i)) := by
    rw [← command_word_bytes] at hi
    exact hi.found
  constructor
  · rintro ⟨hstarts, hreturns⟩
    by_cases hnamed : NamesElfFile sys.img c
    · obtain ⟨hsearch, d, hfound, hheader, hmagic, hends⟩ := hstarted.mp (hstarts.mpr hnamed)
      refine ⟨hsearch, fun i hi => ?_⟩
      rw [hlookup i hi, Option.some.injEq] at hfound
      subst hfound
      exact ⟨hheader, iff_of_true hmagic hnamed, fun _ => hends⟩
    · obtain ⟨hsearch, hnone⟩ := hreturned.mp (hreturns hnamed)
      refine ⟨hsearch, fun i hi => ?_⟩
      obtain ⟨hheader, hmagic⟩ := hnone _ (hlookup i hi)
      exact ⟨hheader, iff_of_false hmagic hnamed, fun h => absurd h hmagic⟩
  · rintro ⟨hsearch, hall⟩
    by_cases hnamed : NamesElfFile sys.img c
    · have hentry := hnamed
      obtain ⟨i, hlt, hname, -⟩ := hentry
      obtain ⟨j, hj⟩ := Image.exists_firstNamed hlt hname
      obtain ⟨hheader, hdecides, hloads⟩ := hall j hj
      have hmagic := hdecides.mpr hnamed
      exact ⟨iff_of_true (hstarted.mpr ⟨hsearch, _, hlookup j hj, hheader, hmagic, hloads hmagic⟩) hnamed,
        fun h => absurd hnamed h⟩
    · have hnone : ∀ d, read_dentry_by_name sys.img (some (command_word c)) = some d →
          ReadMapped m sys k.paging d.inode_num 0#32 HEADER_BUF_SIZE ∧
            ¬ HeaderMagic sys.img d.inode_num f.leftover := by
        intro d hfound
        obtain ⟨i, hi, rfl⟩ := read_dentry_by_name_firstNamed hfound
        rw [command_word_bytes] at hi
        obtain ⟨hheader, hdecides, -⟩ := hall i hi
        exact ⟨hheader, fun hmagic => hnamed (hdecides.mp hmagic)⟩
      refine ⟨iff_of_false (fun h => ?_) hnamed, fun _ => hreturned.mpr ⟨hsearch, hnone⟩⟩
      obtain ⟨-, d, hfound, -, hmagic, -⟩ := hstarted.mp h
      exact (hnone d hfound).2 hmagic

/-- Behind the first entry of a name there is one more, a regular file that is an
    ELF file. -/
def LaterElfFile (img : Image) (name : List Byte) (i : Nat) : Prop :=
  ∃ j, i < j ∧ j < img.dir_count.toNat ∧ (img.direntries j).name = name ∧ (img.direntries j).filetype = 2#32 ∧
    ElfFile img (img.direntries j).inode_num

theorem namesElfFile_iff {i : Nat} (hfirst : img.FirstNamed (c.bytes.takeWhile (· ≠ SPACE)) i) :
    NamesElfFile img c ↔ (img.direntries i).filetype = 2#32 ∧ ElfFile img (img.direntries i).inode_num ∨
      LaterElfFile img (c.bytes.takeWhile (· ≠ SPACE)) i := by
  constructor
  · rintro ⟨j, hlt, hname, htype, helf⟩
    rcases Nat.lt_trichotomy j i with hbefore | rfl | hbehind
    · exact absurd hname (hfirst.first j hbefore)
    · exact Or.inl ⟨htype, helf⟩
    · exact Or.inr ⟨j, hbehind, hlt, hname, htype, helf⟩
  · rintro (⟨htype, helf⟩ | ⟨j, -, hlt, hname, htype, helf⟩)
    · exact ⟨i, hfirst.lt, hfirst.name_eq, htype, helf⟩
    · exact ⟨j, hlt, hname, htype, helf⟩

/-- The first entry of a name is the right one to start. The read of its header
    does not fault. An ELF file is a regular file; a shorter file does not get the
    magic number from the stack; neither matters when a later entry of the name
    could be started, but then the first one has to pass. What passes loads. -/
structure RightToStart (m : module_t) (sys : System) (paging : paging_t) (q : Fin 6) (leftover : Nat → Byte)
    (name : List Byte) (i : Nat) : Prop where
  header : ReadMapped m sys paging (sys.img.direntries i).inode_num 0#32 HEADER_BUF_SIZE
  regular : ElfFile sys.img (sys.img.direntries i).inode_num →
    (sys.img.direntries i).filetype = 2#32 ∨ LaterElfFile sys.img name i
  fresh : StaleMagic sys.img (sys.img.direntries i).inode_num leftover → LaterElfFile sys.img name i
  unshadowed : LaterElfFile sys.img name i →
    ElfFile sys.img (sys.img.direntries i).inode_num ∨ StaleMagic sys.img (sys.img.direntries i).inode_num leftover
  loads : ElfFile sys.img (sys.img.direntries i).inode_num ∨
    StaleMagic sys.img (sys.img.direntries i).inode_num leftover →
      LoadEnds m sys (paging.setEntry (page_entry (pid q))) (sys.img.direntries i).inode_num

/-- A call starts what its command names, and nothing else, exactly if the search
    does not fault and the first entry of the name is the right one to start. -/
theorem starts_named_iff (m : module_t) (sys : System) (f : Frame) (hfirst : first_free k.processes = some q)
    (hshort : Short BUFFER_SIZE (some c)) :
    StartsNamed m sys f c k ↔ LookupMapped m sys k.paging (command_word c) ∧
      ∀ i, sys.img.FirstNamed (c.bytes.takeWhile (· ≠ SPACE)) i →
        RightToStart m sys k.paging q f.leftover (c.bytes.takeWhile (· ≠ SPACE)) i := by
  rw [startsNamed_iff_header m sys f hfirst hshort]
  refine and_congr_right fun _ => forall_congr' fun i => forall_congr' fun hi => ?_
  rw [headerMagic_iff, namesElfFile_iff hi]
  constructor
  · rintro ⟨hheader, hdecides, hloads⟩
    refine ⟨hheader, fun helf => ?_, fun hstale => ?_, fun hlater => hdecides.mpr (Or.inr hlater), hloads⟩
    · exact (hdecides.mp (Or.inl helf)).imp_left And.left
    · rcases hdecides.mp (Or.inr hstale) with ⟨-, helf⟩ | hlater
      · exact absurd helf hstale.not_elfFile
      · exact hlater
  · intro hright
    refine ⟨hright.header, ⟨?_, ?_⟩, hright.loads⟩
    · rintro (helf | hstale)
      · exact (hright.regular helf).imp_left fun htype => ⟨htype, helf⟩
      · exact Or.inr (hright.fresh hstale)
    · rintro (⟨-, helf⟩ | hlater)
      · exact Or.inl helf
      · exact hright.unshadowed hlater

theorem first_named_small {name : List Byte} {i : Nat} (hi : small_image.FirstNamed name i) :
    i = 0 ∧ name = directory_name.bytes ∨ i = 1 ∧ name = shell_name.bytes ∨ i = 2 ∧ name = frame0_name.bytes := by
  have hlt : i < 3 := hi.lt
  have hname := hi.name_eq
  interval_cases i
  · exact Or.inl ⟨rfl, hname.symm⟩
  · exact Or.inr (Or.inl ⟨rfl, hname.symm⟩)
  · exact Or.inr (Or.inr ⟨rfl, hname.symm⟩)

/-- The shell of the small image. -/
theorem starts_named_iff_shell : StartsNamed small_module small_system (small_frame 0) shell_name boot_kernel := by
  have hfilled : Filled small_system.layout boot_kernel.paging := page_fill_filled _ _
  have hplace : small_module.InKernelPage small_system.img := ⟨by decide, by decide⟩
  apply (starts_named_iff small_module small_system (small_frame 0)
    (show first_free boot_kernel.processes = some 0 by decide) (shell_name_short BUFFER_SIZE)).mpr
  refine ⟨lookup_mapped hfilled hplace (by decide), fun i hi => ?_⟩
  have hfile : small_image.FileOk 1#32 := small_image_wellFormed.files 1 (by decide) rfl
  rcases first_named_small hi with ⟨rfl, hname⟩ | ⟨rfl, -⟩ | ⟨rfl, hname⟩
  · exact absurd hname (by decide)
  · have helf : ElfFile small_image 1#32 := ⟨hfile.inode_lt, hfile.whole.blocks 0 (by decide), by decide, by decide⟩
    exact ⟨header_mapped hfilled hplace hfile, fun _ => Or.inl rfl, fun hstale => absurd hstale.1 (by decide),
      fun _ => Or.inl helf, fun _ => (loadEnds_fileOk_iff hfilled hplace hfile 0).mpr (by decide)⟩
  · exact absurd hname (by decide)

/-- The small image with an empty file frame0. -/
def empty_file_image : Image :=
  { filesystem.small_image with
    inode_start := fun n => if n = 2 then ⟨0#32, fun _ => 1#32⟩ else small_image.inode_start n }

theorem empty_file_image_fits : EntriesFit empty_file_image where
  dir_count := by decide
  files := by
    intro i hi
    have hi : i < 3 := hi
    interval_cases i
    · exact ⟨by decide, by decide, by decide, fun _ _ => show 0 ≤ (1#32).toInt by decide,
        fun _ _ => show (1#32).toInt < (2#32).toInt by decide⟩
    · exact ⟨by decide, by decide, by decide, fun _ _ => show 0 ≤ (0#32).toInt by decide,
        fun _ _ => show (0#32).toInt < (2#32).toInt by decide⟩
    · exact ⟨by decide, by decide, by decide, fun _ _ => show 0 ≤ (1#32).toInt by decide,
        fun _ _ => show (1#32).toInt < (2#32).toInt by decide⟩
  fits := by
    intro i hi
    have hi : i < 3 := hi
    interval_cases i <;> decide

/-- A frame above a stack that still holds the beginning of the shell. -/
def stale_frame : Frame := { small_frame 0 with leftover := fun i => shell_contents.getD i 0#8 }

/-- A file without a byte is started when the stack holds an earlier header. -/
theorem starts_not_named : ¬ ∀ (m : module_t) (sys : System) (f : Frame) (c : CString) (k : Kernel) (q : Fin 6),
    Filled sys.layout k.paging → m.InKernelPage sys.img → first_free k.processes = some q →
      Short BUFFER_SIZE (some c) → StartsNamed m sys f c k := by
  intro hall
  have hshort : Short BUFFER_SIZE (some frame0_name) := short_of_no_text (by decide) (by decide) BUFFER_SIZE
  have hfilled : Filled small_layout boot_kernel.paging := page_fill_filled _ _
  have hplace : small_module.InKernelPage empty_file_image := ⟨by decide, by decide⟩
  have hcall := hall small_module ⟨empty_file_image, small_layout, fun _ _ => 0#32⟩ stale_frame frame0_name boot_kernel
    0 hfilled hplace (by decide) hshort
  have hblocks (j : Nat) : empty_file_image.HasBlock 2#32 j := by
    show (1#32).toInt < (2#32).toInt
    decide
  have hfound : empty_file_image.FirstNamed (command_word frame0_name).bytes 2 :=
    ⟨by decide, by decide, by simp only [Nat.forall_lt_succ_right]; decide⟩
  have hstarts := (sys_execute_started_iff ⟨empty_file_image, small_layout, fun _ _ => 0#32⟩ stale_frame
    (show first_free boot_kernel.processes = some 0 by decide) hshort).mpr
      ⟨_, hfound.found, is_elf_iff.mp (by decide),
        ⟨by decide, fun _ j _ => hblocks j, fun h => absurd (hblocks 0) h⟩,
        fun _ i hi => absurd hi (Nat.not_lt_zero i)⟩
  rw [← sys_execute_mapped_eq stale_frame hfilled hplace empty_file_image_fits] at hstarts
  obtain ⟨i, hlt, hname, -, helf⟩ := hcall.starts_iff.mp hstarts
  have hlt : i < 3 := hlt
  interval_cases i
  · exact absurd hname (by decide)
  · exact absurd hname (by decide)
  · exact absurd helf.length_ge (by decide)

end houseam.process
