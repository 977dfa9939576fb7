import HouseAM.Process.Started

open houseam.filesystem houseam.paging houseam.system_call houseam.terminal support.paging

namespace houseam.process

variable {sys : System} {k k' : Kernel} {f : Frame} {q x : Fin 6} {save_value : Word} {op : Op} {ops : List Op}

/-- What the assignments of a call for a slot leave as it was: everything of the
    other slots that `sys_halt` goes by, and the tables other than the program's
    entry. -/
structure Kept (q : Fin 6) (k k' : Kernel) : Prop where
  processes : ∀ p, p ≠ q → k'.processes p = k.processes p
  numbers : ∀ p, p ≠ q → SameNumbers (k.pcb p) (k'.pcb p)
  words : ∀ address, block address ≠ slot_block q → k'.stack address = k.stack address
  page_dir : ∀ i, i ≠ PAGE_VALUE → k'.paging.page_dir i = k.paging.page_dir i
  page_table : k'.paging.page_table = k.paging.page_table
  term : k'.term = k.term

theorem Kept.refl (q : Fin 6) (k : Kernel) : Kept q k k :=
  ⟨fun _ _ => rfl, fun _ _ => SameNumbers.refl _, fun _ _ => rfl, fun _ _ => rfl, rfl, rfl⟩

theorem Kept.trans {k'' : Kernel} (hfirst : Kept q k k') (hrest : Kept q k' k'') : Kept q k k'' where
  processes := fun p hp => (hrest.processes p hp).trans (hfirst.processes p hp)
  numbers := fun p hp => (hfirst.numbers p hp).trans (hrest.numbers p hp)
  words := fun address haddress => (hrest.words address haddress).trans (hfirst.words address haddress)
  page_dir := fun i hi => (hrest.page_dir i hi).trans (hfirst.page_dir i hi)
  page_table := hrest.page_table.trans hfirst.page_table
  term := hrest.term.trans hfirst.term

/-- An assignment to memory or to the TSS. -/
theorem kept_congr (q : Fin 6) (hprocesses : k'.processes = k.processes) (hpcbs : k'.pcbs = k.pcbs)
    (hstack : k'.stack = k.stack) (hpaging : k'.paging = k.paging) (hterm : k'.term = k.term) : Kept q k k' where
  processes := fun _ _ => by rw [hprocesses]
  numbers := by
    intro p _
    simp only [Kernel.pcb, hpcbs]
    exact SameNumbers.refl _
  words := fun _ _ => by rw [hstack]
  page_dir := fun _ _ => by rw [hpaging]
  page_table := by rw [hpaging]
  term := hterm

/-- An assignment to the PCB of the slot. -/
theorem kept_setPcb (k : Kernel) (q : Fin 6) (pcb : pcb_t) : Kept q k (k.setPcb (proc_block q) pcb) where
  processes := fun _ _ => rfl
  numbers := by
    intro p hp
    rw [Kernel.setPcb_pcb_other k pcb hp]
    exact SameNumbers.refl _
  words := fun _ _ => rfl
  page_dir := fun _ _ => rfl
  page_table := rfl
  term := rfl

theorem kept_setEntry (k : Kernel) (q : Fin 6) (entry : Word) :
    Kept q k { k with paging := k.paging.setEntry entry } where
  processes := fun _ _ => rfl
  numbers := fun _ _ => SameNumbers.refl _
  words := fun _ _ => rfl
  page_dir := fun _ hi => paging_t.setEntry_other _ _ hi
  page_table := rfl
  term := rfl

/-- The assignments before the page directory is written, as far as the text
    does not reach the process number in the slot above. -/
def Op.Early : Op → Prop
  | .claim => True
  | .argument j _ => j < NUMBER_ROOM
  | _ => False

/-- The assignments behind those to the page directory. -/
def Op.Late : Op → Prop
  | .flush_tlb => True
  | .copy va _ => InProgram va
  | .terminal_num => True
  | .proc_num => True
  | .parent_proc_num => True
  | .std _ => True
  | .save_stack => True
  | .esp0 => True
  | _ => False

theorem perform_early (sys : System) (k : Kernel) (save_value : Word) (hother : block f.esp ≠ slot_block q)
    (hq : q ≠ 0)
    (hearly : op.Early) :
    ∃ k', perform sys q f op (k, save_value) = some (k', save_value) ∧ Kept q k k' ∧ k'.paging = k.paging ∧
      k'.memory = k.memory := by
  cases op with
  | claim =>
    refine ⟨_, rfl, ⟨fun p hp => ?_, fun _ _ => SameNumbers.refl _, fun _ _ => rfl, fun _ _ => rfl, rfl, rfl⟩,
      rfl, rfl⟩
    exact Function.update_of_ne hp _ _
  | argument j b =>
    obtain ⟨k', hperform, hstored⟩ := argument_stored sys save_value k hother hq hearly (Nat.le_refl NUMBER_ROOM) b
    have hrest := hstored.rest
    refine ⟨k', hperform, ⟨fun _ _ => by rw [hrest], hstored.numbers, hstored.words, fun _ _ => by rw [hrest],
      by rw [hrest], by rw [hrest]⟩, by rw [hrest], by rw [hrest]⟩
  | _ => exact hearly.elim

/-- While some process's page is installed, the later assignments succeed. -/
theorem perform_late (sys : System) (f : Frame) (q : Fin 6) (k : Kernel) (save_value : Word)
    (hentry : k.paging.page_dir PAGE_VALUE = page_entry (pid x)) (hlate : op.Late) :
    ∃ k', perform sys q f op (k, save_value) = some (k', save_value) ∧ Kept q k k' ∧ k'.paging = k.paging := by
  cases op with
  | flush_tlb => exact ⟨k, rfl, Kept.refl q k, rfl⟩
  | copy va b =>
    obtain ⟨mapping, htranslate, -⟩ := translate_user sys.layout sys.others (pid_lt x) hentry hlate.1 hlate.2
    refine ⟨{ k with memory := Function.update k.memory mapping.physical b }, ?_,
      kept_congr q rfl rfl rfl rfl rfl, rfl⟩
    rw [perform, show k.translate sys va = some mapping from htranslate]
    rfl
  | terminal_num => exact ⟨_, rfl, kept_setPcb k q _, rfl⟩
  | proc_num => exact ⟨_, rfl, kept_setPcb k q _, rfl⟩
  | parent_proc_num =>
    by_cases hq : q = 0
    · exact ⟨k, by rw [perform, if_pos hq], Kept.refl q k, rfl⟩
    · refine ⟨k.setPcb (proc_block q) { k.pcb q with parent_proc_num := (k.pcbs (get_pcb f.esp)).proc_num }, ?_,
        kept_setPcb k q _, rfl⟩
      rw [perform, if_neg hq]
  | std fd => exact ⟨_, rfl, kept_setPcb k q _, rfl⟩
  | save_stack => exact ⟨_, rfl, kept_setPcb k q _, rfl⟩
  | esp0 => exact ⟨{ k with esp0 := kernel_esp (pid q) }, rfl, kept_congr q rfl rfl rfl rfl rfl, rfl⟩
  | _ => exact hlate.elim

theorem perform_all_early (sys : System) (k : Kernel) (save_value : Word) (hother : block f.esp ≠ slot_block q)
    (hq : q ≠ 0) (hearly : ∀ op ∈ ops, op.Early) :
    ∃ k', perform_all sys q f ops (k, save_value) = some (k', save_value) ∧ Kept q k k' ∧ k'.paging = k.paging ∧
      k'.memory = k.memory := by
  induction ops generalizing k with
  | nil => exact ⟨k, rfl, Kept.refl q k, rfl, rfl⟩
  | cons op ops ih =>
    obtain ⟨k', hperform, hkept, hpaging, hmemory⟩ :=
      perform_early sys k save_value hother hq (hearly op List.mem_cons_self)
    obtain ⟨k'', hrest, hkept', hpaging', hmemory'⟩ := ih k' fun op h => hearly op (List.mem_cons_of_mem _ h)
    refine ⟨k'', ?_, hkept.trans hkept', hpaging'.trans hpaging, hmemory'.trans hmemory⟩
    rw [perform_all_cons, hperform]
    exact hrest

theorem perform_all_late (sys : System) (f : Frame) (q : Fin 6) (k : Kernel) (save_value : Word)
    (hentry : k.paging.page_dir PAGE_VALUE = page_entry (pid x)) (hlate : ∀ op ∈ ops, op.Late) :
    ∃ k', perform_all sys q f ops (k, save_value) = some (k', save_value) ∧ Kept q k k' ∧ k'.paging = k.paging := by
  induction ops generalizing k with
  | nil => exact ⟨k, rfl, Kept.refl q k, rfl⟩
  | cons op ops ih =>
    obtain ⟨k', hperform, hkept, hpaging⟩ := perform_late sys f q k save_value hentry (hlate op List.mem_cons_self)
    obtain ⟨k'', hrest, hkept', hpaging'⟩ := ih k' (by rw [hpaging, hentry]) fun op h =>
      hlate op (List.mem_cons_of_mem _ h)
    refine ⟨k'', ?_, hkept.trans hkept', hpaging'.trans hpaging⟩
    rw [perform_all_cons, hperform]
    exact hrest

/-- The assignments of a call before it writes the page directory. -/
def parse_ops (text : Option (List Byte)) : List Op := .claim :: argument_ops text

/-- The assignments behind those to the page directory. -/
def finish_ops (bytes : List Byte) : List Op :=
  .flush_tlb :: copy_ops (chunk 0 bytes) ++
    [.terminal_num, .proc_num, .parent_proc_num, .std 0, .std 1, .save_stack, .esp0]

/-- All the assignments of a call that starts a program, in their order. -/
def execute_ops (text : Option (List Byte)) (bytes : List Byte) : List Op :=
  parse_ops text ++ [.set_entry, .load_entry, .store_entry] ++ finish_ops bytes

theorem execute_ops_eq (text : Option (List Byte)) (bytes : List Byte) :
    execute_ops text bytes = parse_ops text ++ start_ops (chunk 0 bytes) := by
  simp [execute_ops, finish_ops, start_ops_eq, copy_ops]

/-- A call for a valid executable is its assignments and the switch to the
    program. -/
theorem sys_execute_eq_ops {c : CString} {d : dentry_t} (hexecutable : Executable sys.img (command_word c) d)
    (hword : (command_word c).bytes.length < ARG_BUFFER_SIZE) (hfirst : first_free k.processes = some q) :
    sys_execute sys f (some c) k =
      (perform_all sys q f (execute_ops (command_text c) (sys.img.fileBytes d.inode_num)) (k.enter f, 0#32)).map
        fun s => (s.1.context_switch (entry_pt sys.img d.inode_num f.leftover), some q) := by
  have hfirst' : first_free (k.enter f).processes = some q := hfirst
  rw [execute_ops_eq, perform_all_append]
  simp only [sys_execute, hfirst', if_neg (Nat.not_le.mpr hword), hexecutable.found, hexecutable.is_elf, if_true,
    load_spec hexecutable.file, parse_ops]
  cases perform_all sys q f (.claim :: argument_ops (command_text c)) (k.enter f, 0#32) with
  | none => rfl
  | some s =>
    obtain ⟨parsed, save_value⟩ := s
    rw [Option.bind_some]
    dsimp only
    cases perform_all sys q f (start_ops (chunk 0 (sys.img.fileBytes d.inode_num))) (parsed, save_value) <;> rfl

theorem copy_text_early (text : List Byte) {j : Nat} (hfits : j + text.length < NUMBER_ROOM) :
    ∀ op ∈ copy_text j text, op.Early := by
  induction text generalizing j with
  | nil =>
    intro op hop
    rw [List.mem_singleton.mp hop]
    exact hfits
  | cons b text ih =>
    simp only [List.length_cons] at hfits
    intro op hop
    rcases List.mem_cons.mp hop with rfl | hrest
    · exact Nat.lt_of_le_of_lt (Nat.le_add_right j _) hfits
    · exact ih (by omega) op hrest

theorem parse_ops_early {text : Option (List Byte)} (hfits : ∀ t, text = some t → t.length < NUMBER_ROOM) :
    ∀ op ∈ parse_ops text, op.Early := by
  intro op hop
  rcases List.mem_cons.mp hop with rfl | hargument
  · trivial
  · cases text with
    | none => cases hargument
    | some text => exact copy_text_early text (by simpa using hfits text rfl) op hargument

/-- The addresses a program is loaded to. -/
theorem chunk_inProgram (bytes : List Byte) {l : Nat} (hfits : l + bytes.length ≤ 0x3B8000) :
    ∀ store ∈ chunk l bytes, InProgram store.1 := by
  induction bytes generalizing l with
  | nil => exact fun store h => nomatch h
  | cons b bytes ih =>
    simp only [List.length_cons] at hfits
    intro store hstore
    rcases List.mem_cons.mp hstore with rfl | hrest
    · have hva : (VIRTUAL_ADDR + BitVec.ofInt 32 (l : Int)).toNat = 0x8048000 + l := by
        rw [BitVec.toNat_add, BitVec.toNat_ofInt]
        simp only [VIRTUAL_ADDR, BitVec.toNat_ofNat]
        omega
      simp only [InProgram]
      omega
    · exact ih (l := l + 1) (by omega) store (by exact_mod_cast hrest)

theorem finish_ops_late {bytes : List Byte} (hfits : bytes.length ≤ 0x3B8000) : ∀ op ∈ finish_ops bytes, op.Late := by
  intro op hop
  rcases List.mem_append.mp hop with hloading | hlast
  · rcases List.mem_cons.mp hloading with rfl | hcopy
    · trivial
    · obtain ⟨store, hstore, rfl⟩ := List.mem_map.mp hcopy
      exact chunk_inProgram bytes (l := 0) (by omega) store hstore
  · simp only [List.mem_cons, List.not_mem_nil, or_false] at hlast
    rcases hlast with rfl | rfl | rfl | rfl | rfl | rfl | rfl <;> trivial

end houseam.process
