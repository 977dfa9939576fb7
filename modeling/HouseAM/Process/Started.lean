import HouseAM.Process.Load

open houseam.filesystem houseam.paging houseam.system_call houseam.terminal support.paging

namespace houseam.process

variable {sys : System} {k k' : Kernel} {f : Frame} {q : Fin 6} {base : Word}

/-- A command whose word fits `arg_buffer` and whose argument text is below a
    limit. -/
def Short (limit : Nat) (command : Option CString) : Prop :=
  ∀ c, command = some c → (command_word c).bytes.length < ARG_BUFFER_SIZE ∧
    ∀ text, command_text c = some text → text.length < limit

/-- A call stores no text at a limit or behind it: no slot is free, or its
    command is short. -/
def Bounded (limit : Nat) (k : Kernel) (command : Option CString) : Prop :=
  first_free k.processes = none ∨ Short limit command

/-- The call runs on another slot's stack than the one it would claim, or claims
    slot 0 and has no text to store. -/
def Placed (f : Frame) (k : Kernel) (command : Option CString) : Prop :=
  ∀ q, first_free k.processes = some q → (q ≠ 0 ∧ ∃ p, p ≠ q ∧ block f.esp = slot_block p) ∨
    q = 0 ∧ ∀ c, command = some c → command_text c = none

theorem first_free_zero {processes : Fin 6 → Word} (hfirst : first_free processes = some q) :
    processes q = 0#32 := by
  simpa using List.find?_some hfirst

theorem first_free_none {processes : Fin 6 → Word} (hfirst : first_free processes = none) (p : Fin 6) :
    processes p ≠ 0#32 := by
  simpa using List.find?_eq_none.mp hfirst p (List.mem_finRange p)

theorem Bounded.short {limit : Nat} {command : Option CString} (hbounded : Bounded limit k command)
    (hfirst : first_free k.processes = some q) : Short limit command := by
  apply hbounded.resolve_left
  rw [hfirst]
  exact Option.some_ne_none q

/-- The state behind the parse of a command: the slot is claimed, and the text
    is stored. -/
structure Parsed (q : Fin 6) (text : Option (List Byte)) (k k' : Kernel) : Prop where
  stored : TextStored NUMBER_ROOM q { k with processes := Function.update k.processes q 1#32 } k'
  others : (∀ t, text = some t → t.length < SLOT_ROOM) → ∀ p, p ≠ q → k'.pcb p = k.pcb p
  arguments : (∀ t, text = some t → t.length < ARGUMENT_ROOM) → ∀ p, p ≠ q → (k'.pcb p).argument = (k.pcb p).argument
  own : (∀ t, text = some t → t.length < BUFFER_SIZE) →
    k'.pcb q = { k.pcb q with argument := argument_after (k.pcb q).argument text }

theorem parse_spec (sys : System) (k : Kernel) {text : Option (List Byte)}
    (hshort : ∀ t, text = some t → t.length < NUMBER_ROOM)
    (hplace : q ≠ 0 ∧ block f.esp ≠ slot_block q ∨ q = 0 ∧ text = none) :
    ∃ k', perform_all sys q f (.claim :: argument_ops text) (k, 0#32) = some (k', 0#32) ∧ Parsed q text k k' := by
  rw [perform_all_cons, perform, Option.bind_some]
  cases text with
  | none => exact ⟨_, rfl, TextStored.refl NUMBER_ROOM q _, fun _ _ _ => rfl, fun _ _ _ => rfl, fun _ => rfl⟩
  | some text =>
    obtain ⟨hq, hother⟩ : q ≠ 0 ∧ block f.esp ≠ slot_block q := by
      rcases hplace with h | h
      · exact h
      · exact absurd h.2 (by simp)
    have hlimit (limit : Nat) (hfits : text.length < limit) (hle : limit ≤ NUMBER_ROOM) :=
      copy_text_stored sys 0#32
        { k with processes := Function.update k.processes q 1#32 } hother hq text hfits hle
    obtain ⟨k', hperform, hstored⟩ := hlimit NUMBER_ROOM (hshort text rfl) (Nat.le_refl _)
    refine ⟨k', hperform, hstored, fun hfits p hp => ?_, fun hfits p hp => ?_, fun hfits => ?_⟩
    · obtain ⟨same, hsame, hinside⟩ := hlimit SLOT_ROOM (hfits text rfl) (by decide)
      rw [hperform, Option.some.injEq, Prod.mk.injEq] at hsame
      rw [hsame.1]
      exact hinside.others (Nat.le_refl _) p hp
    · obtain ⟨same, hsame, hinside⟩ := hlimit ARGUMENT_ROOM (hfits text rfl) (by decide)
      rw [hperform, Option.some.injEq, Prod.mk.injEq] at hsame
      rw [hsame.1]
      exact hinside.arguments (Nat.le_refl _) p hp
    · have hexact := copy_text_short sys 0#32
        { k with processes := Function.update k.processes q 1#32 } f q text 0
        (by simpa [BUFFER_SIZE] using hfits text rfl)
      rw [hperform, Option.some.injEq, Prod.mk.injEq] at hexact
      rw [hexact.1]
      exact Kernel.setPcb_pcb_same _ q _

/-- The PCB of a process that is about to start. -/
def started_pcb (q : Fin 6) (f : Frame) (parent : Word) (current_terminal : Int) (pcb : pcb_t) : pcb_t :=
  { pcb.set_std with
    terminal_num := BitVec.ofInt 32 current_terminal
    proc_num := pid q
    parent_proc_num := if q = 0 then pcb.parent_proc_num else parent
    esp := f.esp
    ebp := f.ebp }

theorem perform_entry (k : Kernel) (save_value : Word) :
    perform_all sys q f [.set_entry, .load_entry, .store_entry, .flush_tlb] (k, save_value) =
      some ({ k with paging := k.paging.setEntry (page_entry (pid q)) }, page_entry (pid q)) := by
  simp [perform_all, perform]

/-- The assignments behind the load loop. -/
theorem perform_finish (sys : System) (k : Kernel) (save_value : Word)
    (hcaller : q = 0 ∨ get_pcb f.esp ≠ proc_block q) :
    perform_all sys q f [.terminal_num, .proc_num, .parent_proc_num, .std 0, .std 1, .save_stack, .esp0]
        (k, save_value) =
      some ({ k.setPcb (proc_block q) (started_pcb q f (k.pcbs (get_pcb f.esp)).proc_num k.term.current_terminal
        (k.pcb q)) with esp0 := kernel_esp (pid q) }, save_value) := by
  by_cases hq : q = 0
  · simp [perform_all, perform, hq, started_pcb, pcb_t.set_std, Kernel.setPcb, Kernel.pcb, pcb_t.setFd]
  · have hother := hcaller.resolve_left hq
    simp [perform_all, perform, hq, hother, started_pcb, pcb_t.set_std, Kernel.setPcb, Kernel.pcb, pcb_t.setFd]

theorem start_ops_eq (stores : List (Word × Byte)) :
    start_ops stores = [.set_entry, .load_entry, .store_entry, .flush_tlb] ++ copy_ops stores ++
      [.terminal_num, .proc_num, .parent_proc_num, .std 0, .std 1, .save_stack, .esp0] := rfl

/-- The state behind the assignments that start a process, but for memory. -/
def Kernel.started (k : Kernel) (q : Fin 6) (f : Frame) (memory : Word → Byte) : Kernel :=
  { k.setPcb (proc_block q) (started_pcb q f (k.pcbs (get_pcb f.esp)).proc_num k.term.current_terminal (k.pcb q)) with
    paging := k.paging.setEntry (page_entry (pid q))
    memory := memory
    esp0 := kernel_esp (pid q) }

/-- Starting a program succeeds when its copies do. -/
theorem start_ops_spec (k : Kernel) (save_value : Word) {stores : List (Word × Byte)} {memory : Word → Byte}
    (hcaller : q = 0 ∨ get_pcb f.esp ≠ proc_block q)
    (hcopies : perform_all sys q f (copy_ops stores)
        ({ k with paging := k.paging.setEntry (page_entry (pid q)) }, page_entry (pid q)) =
      some ({ k with paging := k.paging.setEntry (page_entry (pid q)), memory := memory }, page_entry (pid q))) :
    perform_all sys q f (start_ops stores) (k, save_value) = some (k.started q f memory, page_entry (pid q)) := by
  rw [start_ops_eq, perform_all_append, perform_all_append, perform_entry, Option.bind_some, hcopies,
    Option.bind_some, perform_finish sys _ _ hcaller]
  rfl

theorem start_ops_inv {save_value save_value' : Word} {stores : List (Word × Byte)}
    (hcaller : q = 0 ∨ get_pcb f.esp ≠ proc_block q)
    (hperform : perform_all sys q f (start_ops stores) (k, save_value) = some (k', save_value')) :
    ∃ memory, k' = k.started q f memory ∧ ∀ physical, memory physical ≠ k.memory physical →
      ∃ va mapping, k'.translate sys va = some mapping ∧ mapping.physical = physical := by
  rw [start_ops_eq, perform_all_append, perform_all_append, perform_entry, Option.bind_some] at hperform
  cases hcopies : perform_all sys q f (copy_ops stores)
      ({ k with paging := k.paging.setEntry (page_entry (pid q)) }, page_entry (pid q)) with
  | none => rw [hcopies] at hperform; cases hperform
  | some s =>
    obtain ⟨copied, save⟩ := s
    obtain ⟨-, memory, rfl, hmapped⟩ := copy_ops_inv hcopies
    rw [hcopies, Option.bind_some, perform_finish sys _ _ hcaller, Option.some.injEq, Prod.mk.injEq] at hperform
    obtain ⟨rfl, -⟩ := hperform
    exact ⟨memory, rfl, hmapped⟩

/-- What a call of `sys_execute` that starts process `q` has done. -/
structure Started (sys : System) (f : Frame) (command : CString) (q : Fin 6) (k k' : Kernel) : Prop where
  first : first_free k.processes = some q
  processes : k'.processes = Function.update k.processes q 1#32
  paging : k'.paging = k.paging.setEntry (page_entry (pid q))
  esp0 : k'.esp0 = kernel_esp (pid q)
  term : k'.term = k.term
  user : k'.cpu.user = true
  proc_num : (k'.pcb q).proc_num = pid q
  saved : (k'.pcb q).esp = f.esp ∧ (k'.pcb q).ebp = f.ebp
  parent : ∀ p, p ≠ q → block f.esp = slot_block p → q ≠ 0 → (k'.pcb q).parent_proc_num = (k.pcb p).proc_num
  numbers : ∀ p, p ≠ q → SameNumbers (k.pcb p) (k'.pcb p)
  words : ∀ address, block address ≠ slot_block q → k'.stack address = (k.enter f).stack address
  memory : ∀ physical, k'.memory physical ≠ k.memory physical →
    ∃ va mapping, k'.translate sys va = some mapping ∧ mapping.physical = physical
  others : Short SLOT_ROOM (some command) → ∀ p, p ≠ q → k'.pcb p = k.pcb p
  arguments : Short ARGUMENT_ROOM (some command) → ∀ p, p ≠ q → (k'.pcb p).argument = (k.pcb p).argument
  argument : Short BUFFER_SIZE (some command) →
    (k'.pcb q).argument = argument_after (k.pcb q).argument (command_text command)

/-- The command names an ELF file of the directory. -/
def Loadable (sys : System) (f : Frame) (command : CString) : Prop :=
  ∃ d, read_dentry_by_name sys.img (some (command_word command)) = some d ∧
    is_elf sys.img d.inode_num f.leftover = true

/-- What a call of `sys_execute` that returned -1 has done. It has claimed no
    slot, or has claimed one for a command that names no ELF file. -/
structure Returned (sys : System) (f : Frame) (command : Option CString) (k k' : Kernel) : Prop where
  cpu : k'.cpu = ⟨false, f.ret, f.ebp + 8#32, f.saved_ebp, NEG_ONE⟩
  processes : k'.processes = k.processes ∧ (command = none ∨ first_free k.processes = none) ∨
    ∃ q c, command = some c ∧ ¬ Loadable sys f c ∧ first_free k.processes = some q ∧
      k'.processes = Function.update k.processes q 1#32
  paging : k'.paging = k.paging
  esp0 : k'.esp0 = k.esp0
  term : k'.term = k.term
  memory : k'.memory = k.memory
  numbers : ∀ p, k.processes p ≠ 0#32 → SameNumbers (k.pcb p) (k'.pcb p)
  words : ∀ address, (∀ q, k.processes q = 0#32 → block address ≠ slot_block q) →
    k'.stack address = (k.enter f).stack address
  others : Bounded SLOT_ROOM k command → ∀ p, k.processes p ≠ 0#32 → k'.pcb p = k.pcb p
  arguments : Bounded ARGUMENT_ROOM k command → ∀ p, k.processes p ≠ 0#32 →
    (k'.pcb p).argument = (k.pcb p).argument

/-- A call that returns without having claimed a slot. -/
theorem returned_unclaimed (sys : System) (f : Frame) (command : Option CString) (k : Kernel)
    (hearly : command = none ∨ first_free k.processes = none) :
    Returned sys f command k ((k.enter f).leave_ret f.ebp NEG_ONE) where
  cpu := by simp only [Kernel.leave_ret, Kernel.enter_stack_ebp, Kernel.enter_stack_ret]
  processes := Or.inl ⟨rfl, hearly⟩
  paging := rfl
  esp0 := rfl
  term := rfl
  memory := rfl
  numbers := fun p _ => SameNumbers.refl (k.pcb p)
  words := fun _ _ => rfl
  others := fun _ _ _ => rfl
  arguments := fun _ _ _ => rfl

/-- A call that returns after it has claimed a slot and stored the text. -/
theorem returned_claimed {command : CString} (hfits : f.Fits base) (hfirst : first_free k.processes = some q)
    (hplace : q ≠ 0 ∧ block f.esp ≠ slot_block q ∨ q = 0 ∧ command_text command = none)
    (hfails : ¬ Loadable sys f command) (hparsed : Parsed q (command_text command) (k.enter f) k')
    (hstays : command_text command = none → k'.stack = (k.enter f).stack) :
    Returned sys f (some command) k (k'.leave_ret f.ebp NEG_ONE) := by
  have hkept : k'.stack f.ebp = f.saved_ebp ∧ k'.stack (f.ebp + 4#32) = f.ret := by
    rcases hplace with ⟨-, hother⟩ | ⟨-, hnone⟩
    · have hebp : block f.ebp ≠ slot_block q := by rw [hfits.block_ebp, ← hfits.block_eq]; exact hother
      have hret : block (f.ebp + 4#32) ≠ slot_block q := by rw [hfits.block_ret, ← hfits.block_eq]; exact hother
      exact ⟨(hparsed.stored.words _ hebp).trans (k.enter_stack_ebp f),
        (hparsed.stored.words _ hret).trans (k.enter_stack_ret f)⟩
    · rw [hstays hnone]
      exact ⟨k.enter_stack_ebp f, k.enter_stack_ret f⟩
  have hbusy (p : Fin 6) (hp : k.processes p ≠ 0#32) : p ≠ q := by
    rintro rfl
    exact hp (first_free_zero hfirst)
  have hrest := hparsed.stored.rest
  refine ⟨?_, Or.inr ⟨q, command, rfl, hfails, hfirst, ?_⟩, ?_, ?_, ?_, ?_, ?_, ?_, ?_, ?_⟩
  · simp only [Kernel.leave_ret, hkept.1, hkept.2]
  · rw [hrest]; rfl
  · rw [hrest]; rfl
  · rw [hrest]; rfl
  · rw [hrest]; rfl
  · rw [hrest]; rfl
  · exact fun p hp => hparsed.stored.numbers p (hbusy p hp)
  · exact fun address haddress => hparsed.stored.words address (haddress q (first_free_zero hfirst))
  · exact fun hbounded p hp => hparsed.others (hbounded.short hfirst command rfl).2 p (hbusy p hp)
  · exact fun hbounded p hp => hparsed.arguments (hbounded.short hfirst command rfl).2 p (hbusy p hp)

variable {command : Option CString}

theorem Placed.text {c : CString} (hplace : Placed f k (some c)) (hfirst : first_free k.processes = some q) :
    q ≠ 0 ∧ block f.esp ≠ slot_block q ∨ q = 0 ∧ command_text c = none := by
  rcases hplace q hfirst with ⟨hq, p, hp, hblock⟩ | ⟨hq, htext⟩
  · refine Or.inl ⟨hq, fun h => hp (slot_block_injective ?_)⟩
    rw [← hblock, h]
  · exact Or.inr ⟨hq, htext c rfl⟩

theorem Placed.caller (hplace : Placed f k command) (hfirst : first_free k.processes = some q) :
    q = 0 ∨ get_pcb f.esp ≠ proc_block q := by
  rcases hplace q hfirst with ⟨-, p, hp, hblock⟩ | ⟨hq, -⟩
  · refine Or.inr fun h => hp (proc_block_injective ?_)
    rw [← h, get_pcb_eq hblock]
  · exact Or.inl hq

/-- The parse stores nothing on any stack when there is no text. -/
theorem perform_claim_stack {s : Kernel × Word}
    (hperform : perform_all sys q f (.claim :: argument_ops none) (k, 0#32) = some s) : s.1.stack = k.stack := by
  cases hperform
  rfl

theorem Kernel.started_own (k : Kernel) (q : Fin 6) (f : Frame) (memory : Word → Byte) (entry : Word) :
    ((k.started q f memory).context_switch entry).pcb q =
      started_pcb q f (k.pcbs (get_pcb f.esp)).proc_num k.term.current_terminal (k.pcb q) := by
  simp [Kernel.started, Kernel.context_switch, Kernel.setPcb, Kernel.pcb]

/-- The started process's state, from the state behind the parse. -/
theorem started_of_parsed {c : CString} {parsed : Kernel} {memory : Word → Byte} (entry : Word)
    (hfirst : first_free k.processes = some q) (hparsed : Parsed q (command_text c) (k.enter f) parsed)
    (hmemory : ∀ physical, memory physical ≠ parsed.memory physical →
      ∃ va mapping, (parsed.started q f memory).translate sys va = some mapping ∧ mapping.physical = physical) :
    Started sys f c q k ((parsed.started q f memory).context_switch entry) := by
  have hrest := hparsed.stored.rest
  have hother (p : Fin 6) (hp : p ≠ q) : ((parsed.started q f memory).context_switch entry).pcb p = parsed.pcb p := by
    have hblocks : proc_block p ≠ proc_block q := fun h => hp (proc_block_injective h)
    simp [Kernel.started, Kernel.context_switch, Kernel.setPcb, Kernel.pcb, hblocks]
  have hown := parsed.started_own q f memory entry
  refine ⟨hfirst, ?_, ?_, rfl, ?_, rfl, ?_, ?_, ?_, ?_, ?_, ?_, ?_, ?_, ?_⟩
  · change parsed.processes = _
    rw [hrest]
    rfl
  · change parsed.paging.setEntry _ = _
    rw [hrest]
    rfl
  · change parsed.term = _
    rw [hrest]
    rfl
  · rw [hown]
    rfl
  · rw [hown]
    exact ⟨rfl, rfl⟩
  · intro p hp hblock hq
    rw [hown, get_pcb_eq hblock, started_pcb]
    simp only [if_neg hq]
    exact (hparsed.stored.numbers p hp).proc_num
  · intro p hp
    rw [hother p hp]
    exact hparsed.stored.numbers p hp
  · exact fun address haddress => hparsed.stored.words address haddress
  · intro physical hchanged
    refine hmemory physical fun h => hchanged (h.trans ?_)
    rw [hrest]
    rfl
  · exact fun hshort p hp => (hother p hp).trans (hparsed.others (hshort c rfl).2 p hp)
  · exact fun hshort p hp => (congrArg pcb_t.argument (hother p hp)).trans (hparsed.arguments (hshort c rfl).2 p hp)
  · intro hshort
    rw [hown, started_pcb, hparsed.own (hshort c rfl).2]
    rfl

/-- How a call that found a free slot ends: it returns -1 for a command that
    names no ELF file, or it starts the process. -/
theorem sys_execute_parsed {c : CString} {r : Option (Fin 6)} (hshort : Short NUMBER_ROOM (some c))
    (hplace : Placed f k (some c)) (hfirst : first_free k.processes = some q)
    (hexecute : sys_execute sys f (some c) k = some (k', r)) :
    ∃ parsed, perform_all sys q f (.claim :: argument_ops (command_text c)) (k.enter f, 0#32) = some (parsed, 0#32) ∧
      Parsed q (command_text c) (k.enter f) parsed ∧
      (r = none ∧ ¬ Loadable sys f c ∧ k' = parsed.leave_ret f.ebp NEG_ONE ∨
        r = some q ∧ Loadable sys f c ∧ ∃ memory entry, k' = (parsed.started q f memory).context_switch entry ∧
          ∀ physical, memory physical ≠ parsed.memory physical →
            ∃ va mapping, (parsed.started q f memory).translate sys va = some mapping ∧
              mapping.physical = physical) := by
  obtain ⟨hword, htext⟩ := hshort c rfl
  obtain ⟨parsed, hperform, hparsed⟩ := parse_spec sys (k.enter f) htext (hplace.text hfirst)
  refine ⟨parsed, hperform, hparsed, ?_⟩
  simp only [sys_execute, Kernel.enter_processes, hfirst, if_neg (Nat.not_le.mpr hword), hperform] at hexecute
  cases hfound : read_dentry_by_name sys.img (some (command_word c)) with
  | none =>
    rw [hfound] at hexecute
    cases hexecute
    refine Or.inl ⟨rfl, ?_, rfl⟩
    rintro ⟨d, hd, -⟩
    rw [hfound] at hd
    cases hd
  | some d =>
    rw [hfound] at hexecute
    dsimp only at hexecute
    split at hexecute
    · rename_i hmagic
      cases hload : load sys.img d.inode_num with
      | none => rw [hload] at hexecute; cases hexecute
      | some stores =>
        rw [hload] at hexecute
        dsimp only at hexecute
        cases hstart : perform_all sys q f (start_ops stores) (parsed, 0#32) with
        | none => rw [hstart] at hexecute; cases hexecute
        | some s =>
          obtain ⟨memory, hstarted, hmemory⟩ := start_ops_inv (hplace.caller hfirst) hstart
          rw [hstart] at hexecute
          cases hexecute
          rw [hstarted] at hmemory ⊢
          exact Or.inr ⟨rfl, ⟨d, hfound, hmagic⟩, memory, _, rfl, hmemory⟩
    · rename_i hmagic
      cases hexecute
      refine Or.inl ⟨rfl, ?_, rfl⟩
      rintro ⟨other, hother, helf⟩
      rw [hfound] at hother
      cases hother
      exact hmagic helf

/-- A call of `sys_execute` that ends has returned -1 or started a process. -/
theorem sys_execute_cases {r : Option (Fin 6)} (hfits : f.Fits base) (hbounded : Bounded NUMBER_ROOM k command)
    (hplace : Placed f k command) (hexecute : sys_execute sys f command k = some (k', r)) :
    (r = none ∧ Returned sys f command k k') ∨ ∃ c q, command = some c ∧ r = some q ∧ Started sys f c q k k' := by
  cases command with
  | none =>
    cases hexecute
    exact Or.inl ⟨rfl, returned_unclaimed sys f none k (Or.inl rfl)⟩
  | some c =>
    cases hfirst : first_free k.processes with
    | none =>
      simp only [sys_execute, Kernel.enter_processes, hfirst] at hexecute
      cases hexecute
      exact Or.inl ⟨rfl, returned_unclaimed sys f (some c) k (Or.inr hfirst)⟩
    | some q =>
      obtain ⟨parsed, hperform, hparsed, hend⟩ :=
        sys_execute_parsed (hbounded.short hfirst) hplace hfirst hexecute
      rcases hend with ⟨rfl, hfails, rfl⟩ | ⟨rfl, -, memory, entry, rfl, hmemory⟩
      · refine Or.inl ⟨rfl, returned_claimed hfits hfirst (hplace.text hfirst) hfails hparsed fun hnone => ?_⟩
        rw [hnone] at hperform
        exact perform_claim_stack hperform
      · exact Or.inr ⟨c, q, rfl, rfl, started_of_parsed entry hfirst hparsed hmemory⟩

/-- With a free slot, a command that names no ELF file returns -1. -/
theorem sys_execute_fails {c : CString} (hshort : Short NUMBER_ROOM (some c)) (hplace : Placed f k (some c))
    (hfails : ¬ Loadable sys f c) (hfirst : first_free k.processes = some q) :
    ∃ k', sys_execute sys f (some c) k = some (k', none) := by
  obtain ⟨hword, htext⟩ := hshort c rfl
  obtain ⟨parsed, hperform, -⟩ := parse_spec sys (k.enter f) htext (hplace.text hfirst)
  have hfirst' : first_free (k.enter f).processes = some q := hfirst
  simp only [sys_execute, hfirst', if_neg (Nat.not_le.mpr hword), hperform]
  cases hfound : read_dentry_by_name sys.img (some (command_word c)) with
  | none => exact ⟨_, rfl⟩
  | some d =>
    have hmagic : ¬ is_elf sys.img d.inode_num f.leftover = true := fun helf => hfails ⟨d, hfound, helf⟩
    dsimp only
    rw [if_neg hmagic]
    exact ⟨_, rfl⟩

/-- A valid executable: a file of the directory that begins with the magic
    number and fits the program's page. -/
structure Executable (img : Image) (name : CString) (d : dentry_t) : Prop where
  found : read_dentry_by_name img (some name) = some d
  file : img.FileOk d.inode_num
  magic : (img.fileBytes d.inode_num).take 4 = [0x7F#8, 0x45#8, 0x4C#8, 0x46#8]
  fits : img.fileLength d.inode_num ≤ 0x3B8000

theorem Executable.is_elf {img : Image} {name : CString} {d : dentry_t} (hexecutable : Executable img name d)
    (leftover : Nat → Byte) : is_elf img d.inode_num leftover = true := by
  have hread := read_data_spec hexecutable.file 0#32 (show (0#32).toNat < 1023 * BLOCK_SIZE by decide) HEADER_BUF_SIZE
  simp only [BitVec.toNat_zero, List.drop_zero] at hread
  have hbytes (i : Nat) (hi : i < 4) : ((img.fileBytes d.inode_num).take HEADER_BUF_SIZE).getD i (leftover i) =
      [0x7F#8, 0x45#8, 0x4C#8, 0x46#8].getD i 0#8 := by
    have hmagic := congrArg (fun bytes => bytes[i]?) hexecutable.magic
    simp only [List.getElem?_take, if_pos hi] at hmagic
    rw [List.getD_eq_getElem?_getD, List.getElem?_take, if_pos (by simp only [HEADER_BUF_SIZE]; omega), hmagic]
    rw [List.getD_eq_getElem?_getD, List.getElem?_eq_getElem (by simpa using hi)]
    rfl
  simp only [process.is_elf, hread, hbytes 0 (by decide), hbytes 1 (by decide), hbytes 2 (by decide),
    hbytes 3 (by decide)]
  decide

theorem Executable.loadable {c : CString} {d : dentry_t} (hexecutable : Executable sys.img (command_word c) d)
    (f : Frame) : Loadable sys f c :=
  ⟨d, hexecutable.found, hexecutable.is_elf f.leftover⟩

/-- With a free slot, a valid executable is started. -/
theorem sys_execute_starts {c : CString} {d : dentry_t} (hshort : Short NUMBER_ROOM (some c))
    (hplace : Placed f k (some c))
    (hexecutable : Executable sys.img (command_word c) d) (hfirst : first_free k.processes = some q) :
    ∃ k', sys_execute sys f (some c) k = some (k', some q) := by
  obtain ⟨hword, htext⟩ := hshort c rfl
  obtain ⟨parsed, hperform, -⟩ := parse_spec sys (k.enter f) htext (hplace.text hfirst)
  obtain ⟨memory, hcopies, -, -⟩ := copy_ops_spec sys f
    { parsed with paging := parsed.paging.setEntry (page_entry (pid q)) } (page_entry (pid q))
    (paging_t.setEntry_same _ _)
    (sys.img.fileBytes d.inode_num) 0 (by simpa using hexecutable.fits)
  have hstart := start_ops_spec parsed 0#32 (hplace.caller hfirst) hcopies
  have hfirst' : first_free (k.enter f).processes = some q := hfirst
  simp only [sys_execute, hfirst', if_neg (Nat.not_le.mpr hword), hperform, hexecutable.found, hexecutable.is_elf,
    if_true, load_spec hexecutable.file]
  simp only [Nat.cast_zero] at hstart
  rw [hstart]
  exact ⟨_, rfl⟩

/-- What the call has done then. -/
theorem sys_execute_started {c : CString} {d : dentry_t} (hfits : f.Fits base) (hshort : Short NUMBER_ROOM (some c))
    (hplace : Placed f k (some c)) (hexecutable : Executable sys.img (command_word c) d)
    (hfirst : first_free k.processes = some q) :
    ∃ k', sys_execute sys f (some c) k = some (k', some q) ∧ Started sys f c q k k' := by
  obtain ⟨k', hcall⟩ := sys_execute_starts hshort hplace hexecutable hfirst
  refine ⟨k', hcall, ?_⟩
  rcases sys_execute_cases hfits (Or.inr hshort) hplace hcall with ⟨hnone, -⟩ | ⟨c', q', hc, hq, hstarted⟩
  · cases hnone
  · cases hc
    cases hq
    exact hstarted

end houseam.process
