import HouseAM.Process.Lineage
import HouseAM.Terminal.Events

open houseam.filesystem houseam.paging houseam.system_call houseam.terminal support.paging support.runs

namespace houseam.process

variable {sys : System} {k k' : Kernel} {f : Frame} {p q : Fin 6} {status : Byte} {a b : Activation}
  {stack rest : List Activation} {c c' : Config} {command : Option CString} {base : Word} {e : Event}
  {log : List (Config × Event)}

theorem first_free_of_zero {processes : Fin 6 → Word} (hzero : processes 0 = 0#32) :
    first_free processes = some 0 := by
  rw [first_free, show List.finRange 6 = 0 :: [1, 2, 3, 4, 5] from rfl, List.find?_cons_of_pos]
  simpa using hzero

theorem short_of_no_text {c : CString} (hword : (command_word c).bytes.length < ARG_BUFFER_SIZE)
    (htext : command_text c = none) (limit : Nat) : Short limit (some c) := by
  intro c' hc
  cases hc
  refine ⟨hword, fun text h => ?_⟩
  rw [htext] at h
  cases h

theorem shell_name_short (limit : Nat) : Short limit (some shell_name) :=
  short_of_no_text (by decide) (by decide) limit

/-- A call that claims slot 0 and runs the shell stores no text. -/
theorem placed_shell (f : Frame) (hzero : k.processes 0 = 0#32) : Placed f k (some shell_name) := by
  intro q hfirst
  rw [first_free_of_zero hzero] at hfirst
  cases hfirst
  refine Or.inr ⟨rfl, fun c hc => ?_⟩
  cases hc
  decide

/-- The first process starts in an empty list of processes. -/
theorem started_first {c : CString} (hfilled : Filled sys.layout k.paging) (hstarted : Started sys f c 0 k k')
    (slot : pcb_t) : Inv sys ⟨[⟨0, f, some c, slot⟩], k'⟩ := by
  refine ⟨⟨⟨⟨?_, hstarted.proc_num⟩, rfl⟩, ?_, ?_⟩, ?_, ?_⟩
  · rw [hstarted.processes]
    exact Function.update_self 0 1#32 k.processes
  · change Filled sys.layout k'.paging
    rw [hstarted.paging]
    exact hfilled.setEntry _
  · rintro b below ⟨rfl, rfl⟩
    change block k'.base = slot_block 0
    rw [Kernel.base, if_pos hstarted.user, hstarted.esp0]
    exact kernel_esp_block 0
  · rintro b below ⟨rfl, rfl⟩
    change k'.paging.page_dir PAGE_VALUE = page_entry (pid 0)
    rw [hstarted.paging, paging_t.setEntry_same]
  · rintro b below ⟨rfl, rfl⟩
    exact hstarted.esp0

/-- The outcomes of a call of `sys_execute`, for the list of processes. -/
theorem execute_cases (hfits : f.Fits base) (hbounded : Bounded NUMBER_ROOM k command) (hplace : Placed f k command)
    (hexecute : execute sys f command stack k = some c') :
    (∃ k', c' = ⟨stack, k'⟩ ∧ Returned sys f command k k') ∨
      ∃ c q k', command = some c ∧ Started sys f c q k k' ∧
        c' = ⟨⟨q, f, some c, k.pcb q⟩ :: stack, k'⟩ := by
  unfold execute at hexecute
  split at hexecute
  · cases hexecute
  · rename_i k' hcall
    cases hexecute
    rcases sys_execute_cases hfits hbounded hplace hcall with ⟨-, hreturned⟩ | ⟨c, q, -, hnone, -⟩
    · exact Or.inl ⟨k', rfl, hreturned⟩
    · cases hnone
  · rename_i k' q hcall
    cases hexecute
    rcases sys_execute_cases hfits hbounded hplace hcall with ⟨hnone, -⟩ | ⟨c, q', rfl, hsome, hstarted⟩
    · cases hnone
    · cases hsome
      exact Or.inr ⟨c, q, k', rfl, hstarted, rfl⟩

/-- The boot call starts the first shell as process 0. -/
theorem booted_cases (hbooted : Booted sys c) : ∃ k f k', Boot sys k ∧ Started sys f shell_name 0 k k' ∧
    c = ⟨[⟨0, f, some shell_name, k.pcb 0⟩], k'⟩ := by
  obtain ⟨k, f, hboot, hfits, hexecute, hne⟩ := hbooted
  have hzero : k.processes 0 = 0#32 := by rw [hboot.processes]
  rcases execute_cases hfits (Or.inr (shell_name_short NUMBER_ROOM)) (placed_shell f hzero) hexecute with
    ⟨k', rfl, -⟩ | ⟨c, q, k', hc, hstarted, rfl⟩
  · exact absurd rfl hne
  · cases hc
    have hfirst := hstarted.first
    rw [first_free_of_zero hzero] at hfirst
    cases hfirst
    exact ⟨k, f, k', hboot, hstarted, rfl⟩

theorem Booted.inv (hbooted : Booted sys c) : Inv sys c := by
  obtain ⟨k, f, k', hboot, hstarted, rfl⟩ := booted_cases hbooted
  exact started_first hboot.paging hstarted _

/-- The invariant does not look at memory, the terminal and the rest of the PCBs. -/
theorem Inv.congr (hinv : Inv sys ⟨stack, k⟩) (hprocesses : k'.processes = k.processes)
    (hnumbers : ∀ p, SameNumbers (k.pcb p) (k'.pcb p)) (hstack : k'.stack = k.stack) (hpaging : k'.paging = k.paging)
    (hesp0 : k'.esp0 = k.esp0) (hcpu : k'.cpu = k.cpu) : Inv sys ⟨stack, k'⟩ := by
  have hbase : k'.base = k.base := by simp only [Kernel.base, hcpu, hesp0]
  refine ⟨⟨hinv.linked.frame (fun a _ => by rw [hprocesses]) (fun a _ => hnumbers a.process_id)
    (fun a _ address _ => by rw [hstack]), ?_, ?_⟩, ?_, ?_⟩
  · change Filled sys.layout k'.paging
    rw [hpaging]
    exact hinv.filled
  · intro a rest hne
    change block k'.base = _
    rw [hbase]
    exact hinv.place a rest hne
  · intro a rest hne
    change k'.paging.page_dir PAGE_VALUE = _
    rw [hpaging]
    exact hinv.entry a rest hne
  · intro a rest hne
    change k'.esp0 = _
    rw [hesp0]
    exact hinv.esp0 a rest hne

/-- What a halt by a process with a caller leaves: the caller's page, stack and
    registers as its call of `sys_execute` saved them. -/
structure Resumed (a b : Activation) (f : Frame) (status : Byte) (k k' : Kernel) : Prop where
  processes : k'.processes = Function.update k.processes a.process_id 0#32
  paging : k'.paging = k.paging.setEntry (page_entry (pid b.process_id))
  esp0 : k'.esp0 = kernel_esp (pid b.process_id)
  cpu : k'.cpu = ⟨false, a.frame.ret, a.frame.ebp + 8#32, a.frame.saved_ebp, status.setWidth 32⟩
  pcbs : ∀ p, p ≠ a.process_id → k'.pcb p = k.pcb p
  cleared : k'.pcb a.process_id = (k.pcb a.process_id).clear_fds
  stack : k'.stack = (k.enter f).stack
  memory : k'.memory = k.memory
  term : k'.term = k.term

/-- A process other than the bottom one halts into the one below it. -/
theorem Inv.halt_child (hinv : Inv sys ⟨a :: b :: rest, k⟩) (hfits : f.Fits k.base) (status : Byte) :
    ∃ k', halt sys f status (a :: b :: rest) k = some ⟨b :: rest, k'⟩ ∧ Resumed a b f status k k' := by
  have hplace := hinv.place a (b :: rest) rfl
  have hchild := hinv.linked.2.2.1
  obtain ⟨zero, hzeroMem, hzero⟩ := hinv.linked.tail.zero_mem (List.cons_ne_nil b rest)
  have hp : a.process_id ≠ 0 := by
    rw [← hzero]
    exact (hinv.linked.ne_head hzeroMem).symm
  refine ⟨(k.halted f a.process_id).resume (k.pcb a.process_id).clear_fds status, ?_, ?_⟩
  · rw [halt, sys_halt_eq (hfits.block_eq.trans hplace) hinv.linked.head.proc_num, if_neg hp]
    rfl
  · have hb : b.process_id ≠ a.process_id := hinv.linked.ne_head List.mem_cons_self
    have hslot (address : Word) (haddress : block address = slot_block b.process_id) :
        (k.enter f).stack address = k.stack address := by
      apply hfits.enter_stack k
      rw [haddress, hplace]
      exact fun h => hb (slot_block_injective h)
    have hparent : (k.pcb a.process_id).clear_fds.parent_proc_num = pid b.process_id := hchild.parent
    have hebp : (k.pcb a.process_id).clear_fds.ebp = a.frame.ebp := hchild.ebp
    refine ⟨rfl, ?_, ?_, ?_, ?_, ?_, rfl, rfl, rfl⟩
    · rw [Kernel.resume_paging, Kernel.halted_paging, hparent]
    · rw [Kernel.resume_esp0, hparent]
    · rw [Kernel.resume_cpu, Kernel.halted_stack, hebp, hslot _ hchild.block_ebp, hslot _ hchild.block_ret,
        hchild.saved_ebp, hchild.ret]
    · exact fun p hne => Kernel.pcb_update_other (k.halted_pcbs f a.process_id) hne
    · exact Kernel.pcb_update_same (k.halted_pcbs f a.process_id)

theorem Inv.resumed (hinv : Inv sys ⟨a :: b :: rest, k⟩) (hfits : f.Fits k.base)
    (hresumed : Resumed a b f status k k') :
    Inv sys ⟨b :: rest, k'⟩ := by
  have hplace := hinv.place a (b :: rest) rfl
  have hchild := hinv.linked.2.2.1
  have hne (d : Activation) (hd : d ∈ b :: rest) : d.process_id ≠ a.process_id := hinv.linked.ne_head hd
  refine ⟨⟨hinv.linked.tail.frame (fun d hd => ?_) (fun d hd => ?_) (fun d hd address haddress => ?_), ?_, ?_⟩, ?_, ?_⟩
  · rw [hresumed.processes, Function.update_of_ne (hne d hd)]
  · rw [hresumed.pcbs _ (hne d hd)]
    exact SameNumbers.refl _
  · rw [hresumed.stack]
    apply hfits.enter_stack k
    rw [haddress, hplace]
    exact fun h => hne d (List.mem_cons_of_mem b hd) (slot_block_injective h)
  · change Filled sys.layout k'.paging
    rw [hresumed.paging]
    exact hinv.filled.setEntry _
  · rintro d below ⟨rfl, rfl⟩
    change block k'.base = slot_block b.process_id
    rw [Kernel.base, hresumed.cpu]
    exact hchild.block_after
  · rintro d below ⟨rfl, rfl⟩
    change k'.paging.page_dir PAGE_VALUE = _
    rw [hresumed.paging, paging_t.setEntry_same]
  · rintro d below ⟨rfl, rfl⟩
    exact hresumed.esp0

/-- Process 0 halts: its slot is free again and it executes the shell. -/
theorem Inv.halt_first_eq (hinv : Inv sys ⟨[a], k⟩) (hfits : f.Fits k.base) (status : Byte) :
    halt sys f status [a] k =
      match sys_execute sys f (some shell_name) (k.halted f 0) with
      | none => none
      | some (k', some q) => some ⟨[⟨q, f, some shell_name, k.pcb q⟩], k'⟩
      | some (k', none) => some ⟨[], k'.resume (k'.pcb 0) status⟩ := by
  have hzero : a.process_id = 0 := hinv.linked.2
  have hplace := hinv.place a [] rfl
  have hnum := hinv.linked.head.proc_num
  rw [hzero] at hplace hnum
  rw [halt, sys_halt_eq (hfits.block_eq.trans hplace) hnum, if_pos rfl]
  cases sys_execute sys f (some shell_name) (k.halted f 0) with
  | none => rfl
  | some result =>
    obtain ⟨k', r⟩ := result
    cases r <;> rfl

theorem halted_zero (k : Kernel) (f : Frame) : (k.halted f 0).processes 0 = 0#32 := by
  simp [Kernel.halted]

/-- A halt by process 0 restarts the shell in slot 0, or leaves no process. -/
theorem Inv.halt_first (hinv : Inv sys ⟨[a], k⟩) (hfits : f.Fits k.base)
    (hhalt : halt sys f status [a] k = some c') :
    (∃ k', c' = ⟨[⟨0, f, some shell_name, k.pcb 0⟩], k'⟩ ∧
        Started sys f shell_name 0 (k.halted f 0) k') ∨
      ∃ k', c' = ⟨[], k'⟩ ∧ Filled sys.layout k'.paging ∧ ¬ Loadable sys f shell_name := by
  rw [hinv.halt_first_eq hfits] at hhalt
  have hplace := placed_shell (k := k.halted f 0) f (halted_zero k f)
  split at hhalt
  · cases hhalt
  · rename_i k' q hcall
    cases hhalt
    rcases sys_execute_cases hfits (Or.inr (shell_name_short NUMBER_ROOM)) hplace hcall with
      ⟨hnone, -⟩ | ⟨c, q', hc, hsome, hstarted⟩
    · cases hnone
    · cases hc
      cases hsome
      have hfirst := hstarted.first
      rw [first_free_of_zero (halted_zero k f)] at hfirst
      cases hfirst
      exact Or.inl ⟨k', rfl, hstarted⟩
  · rename_i k' hcall
    cases hhalt
    rcases sys_execute_cases hfits (Or.inr (shell_name_short NUMBER_ROOM)) hplace hcall with
      ⟨-, hreturned⟩ | ⟨c, q', -, hsome, -⟩
    · refine Or.inr ⟨_, rfl, ?_, ?_⟩
      · change Filled sys.layout (k'.paging.setEntry _)
        rw [hreturned.paging]
        exact Filled.setEntry hinv.filled _
      · rcases hreturned.processes with ⟨-, hnone | hfull⟩ | ⟨q, c, hc, hfails, -⟩
        · cases hnone
        · rw [first_free_of_zero (halted_zero k f)] at hfull
          cases hfull
        · cases hc
          exact hfails
    · cases hsome

theorem Inv.empty (hfilled : Filled sys.layout k.paging) : Inv sys ⟨[], k⟩ :=
  ⟨⟨trivial, hfilled, fun _ _ h => (List.cons_ne_nil _ _ h.symm).elim⟩,
    fun _ _ h => (List.cons_ne_nil _ _ h.symm).elim, fun _ _ h => (List.cons_ne_nil _ _ h.symm).elim⟩

/-- A call on descriptors works on the running process's PCB. -/
theorem Inv.call_eq (hinv : Inv sys ⟨a :: rest, k⟩) {call : Call} (hcall : k.call sys call = some k') :
    ∃ s, system_call.step sys.img ⟨k.pcb a.process_id, k.term⟩ call = some s ∧
      k' = { k.setPcb (proc_block a.process_id) s.pcb with term := s.term } := by
  have hpcb := get_pcb_eq (hinv.place a rest rfl)
  rw [Kernel.call] at hcall
  simp only [show get_pcb k.base = proc_block a.process_id from hpcb] at hcall
  obtain ⟨s, hs, rfl⟩ := Option.map_eq_some_iff.mp hcall
  exact ⟨s, hs, rfl⟩

theorem Inv.call (hinv : Inv sys ⟨a :: rest, k⟩) {call : Call} (hcall : k.call sys call = some k') :
    Inv sys ⟨a :: rest, k'⟩ := by
  obtain ⟨s, hs, hk'⟩ := hinv.call_eq hcall
  have hsame := step_sameButFds hs
  have hpcbs : k'.pcbs = Function.update k.pcbs (proc_block a.process_id) s.pcb := by rw [hk']; rfl
  refine hinv.congr (by rw [hk']; rfl) (fun p => ?_) (by rw [hk']; rfl) (by rw [hk']; rfl) (by rw [hk']; rfl)
    (by rw [hk']; rfl)
  by_cases hp : p = a.process_id
  · subst hp
    rw [Kernel.pcb_update_same hpcbs]
    exact ⟨hsame.proc_num, hsame.parent_proc_num, hsame.ebp, hsame.esp⟩
  · rw [Kernel.pcb_update_other hpcbs hp]
    exact SameNumbers.refl _

theorem compute_cases {cpu : cpu_t} {words : Word → Word} (hcompute : k.compute cpu words = some k') :
    (cpu.user = true ∨ block cpu.esp = block k.base) ∧ k' = { k with
      cpu := cpu
      stack := fun address => if block address = block k.base then words address else k.stack address } := by
  unfold Kernel.compute at hcompute
  split at hcompute
  · rename_i hplace
    cases hcompute
    exact ⟨hplace.imp_right And.left, rfl⟩
  · cases hcompute

theorem Inv.compute (hinv : Inv sys ⟨a :: rest, k⟩) {cpu : cpu_t} {words : Word → Word}
    (hcompute : k.compute cpu words = some k') : Inv sys ⟨a :: rest, k'⟩ := by
  have hplace := hinv.place a rest rfl
  have hesp0 := hinv.esp0 a rest rfl
  obtain ⟨hstays, rfl⟩ := compute_cases hcompute
  refine ⟨⟨hinv.linked.frame (fun _ _ => rfl) (fun _ _ => SameNumbers.refl _) (fun b hb address haddress => ?_),
    hinv.filled, ?_⟩, hinv.entry, hinv.esp0⟩
  · apply if_neg
    rw [haddress, hplace]
    exact fun h => hinv.linked.ne_head hb (slot_block_injective h)
  · rintro b below ⟨rfl, rfl⟩
    change block (if cpu.user then k.esp0 else cpu.esp) = slot_block a.process_id
    split
    · rw [show k.esp0 = kernel_esp (pid a.process_id) from hesp0]
      exact kernel_esp_block a.process_id
    · rename_i hkernel
      exact (hstays.resolve_left hkernel).trans hplace

theorem store_cases {va : Word} {b : Byte} (hstore : k.store sys va b = some k') :
    ∃ mapping, k.translate sys va = some mapping ∧ mapping.user = true ∧
      k' = { k with memory := Function.update k.memory mapping.physical b } := by
  unfold Kernel.store at hstore
  split at hstore
  · cases hstore
  · rename_i mapping htranslate
    split at hstore
    · rename_i haccess
      cases hstore
      exact ⟨mapping, htranslate, haccess.2.1, rfl⟩
    · cases hstore

/-- A step that executes a command stores no text at a limit or behind it. -/
def Event.Bounded (limit : Nat) (k : Kernel) : Event → Prop
  | .execute _ command => process.Bounded limit k command
  | _ => True

theorem Bounded.mono {limit larger : Nat} (hle : limit ≤ larger) (hbounded : process.Bounded limit k command) :
    process.Bounded larger k command :=
  hbounded.imp_right fun hshort c hc =>
    ⟨(hshort c hc).1, fun text htext => Nat.lt_of_lt_of_le ((hshort c hc).2 text htext) hle⟩

theorem Event.Bounded.mono {limit larger : Nat} (hle : limit ≤ larger) (hbounded : e.Bounded limit k) :
    e.Bounded larger k := by
  cases e with
  | execute f command => exact process.Bounded.mono hle hbounded
  | _ => trivial

/-- The step calls `sys_execute`, from a system call or the keyboard handler. -/
def Event.Calls (k : Kernel) (f : Frame) (command : Option CString) : Event → Prop
  | .execute f' command' => f' = f ∧ command' = command
  | .key f' garbage temp => f' = f ∧ command = some shell_name ∧ (keyboard_interrupt k.term garbage temp).2 = true
  | _ => False

theorem Event.Calls.bounded {limit : Nat} (hcalls : e.Calls k f command) (hbounded : e.Bounded limit k) :
    process.Bounded limit k command := by
  cases e with
  | execute f' command' => exact hcalls.2 ▸ hbounded
  | key f' garbage temp => exact hcalls.2.1 ▸ Or.inr (shell_name_short limit)
  | _ => exact hcalls.elim

/-- What one step does while process `a` runs. It stays with its own PCB and
    page; a call of `sys_execute` returns or starts a process; or a halt resumes
    the process below, restarts the first shell, or leaves no process. -/
inductive Effect (sys : System) (a : Activation) (rest : List Activation) (k : Kernel) (e : Event) :
    Config → Prop where
  | own {k' : Kernel} (hinv : Inv sys ⟨a :: rest, k'⟩) (hprocesses : k'.processes = k.processes)
      (hothers : ∀ p, p ≠ a.process_id → k'.pcb p = k.pcb p)
      (hown : SameButFds (k.pcb a.process_id) (k'.pcb a.process_id))
      (hmemory : ∀ physical, k'.memory physical ≠ k.memory physical →
        ∃ va mapping, k.translate sys va = some mapping ∧ mapping.user = true ∧ mapping.physical = physical) :
      Effect sys a rest k e ⟨a :: rest, k'⟩
  | returned {f : Frame} {command : Option CString} {k' : Kernel} (term : terminal_t) (hcalls : e.Calls k f command)
      (hfits : f.Fits k.base) (hreturned : Returned sys f command { k with term := term } k') :
      Effect sys a rest k e ⟨a :: rest, k'⟩
  | started {f : Frame} {c : CString} {q : Fin 6} {k' : Kernel} (term : terminal_t) (hcalls : e.Calls k f (some c))
      (hfits : f.Fits k.base) (hstarted : Started sys f c q { k with term := term } k') :
      Effect sys a rest k e ⟨⟨q, f, some c, k.pcb q⟩ :: a :: rest, k'⟩
  | resumed {b : Activation} {below : List Activation} {f : Frame} {status : Byte} {k' : Kernel}
      (hrest : rest = b :: below) (he : e = .halt f status) (hfits : f.Fits k.base)
      (hresumed : Resumed a b f status k k') : Effect sys a rest k e ⟨rest, k'⟩
  | restarted {f : Frame} {status : Byte} {k' : Kernel} (hrest : rest = [])
      (he : e = .halt f status) (hfits : f.Fits k.base) (hstarted : Started sys f shell_name 0 (k.halted f 0) k') :
      Effect sys a rest k e ⟨[⟨0, f, some shell_name, k.pcb 0⟩], k'⟩
  | emptied {f : Frame} {status : Byte} {k' : Kernel} (hrest : rest = []) (he : e = .halt f status)
      (hfits : f.Fits k.base) (hfilled : Filled sys.layout k'.paging) (hfails : ¬ Loadable sys f shell_name) :
      Effect sys a rest k e ⟨[], k'⟩

/-- A call of `sys_execute` by the running process, after the keyboard handler
    has changed the terminal or with it unchanged. -/
theorem execute_effect {term : terminal_t} (hinv : Inv sys ⟨a :: rest, k⟩) (hfits : f.Fits k.base)
    (hcalls : e.Calls k f command) (hbounded : process.Bounded NUMBER_ROOM k command)
    (hexecute : process.execute sys f command (a :: rest) { k with term := term } = some c') :
    Effect sys a rest k e c' := by
  have hplaced : Placed f { k with term := term } command := hinv.placed hfits command
  have hbounded : process.Bounded NUMBER_ROOM { k with term := term } command := hbounded
  rcases execute_cases hfits hbounded hplaced hexecute with ⟨k', rfl, hreturned⟩ | ⟨c, q, k', rfl, hstarted, rfl⟩
  · exact .returned term hcalls hfits hreturned
  · exact .started term hcalls hfits hstarted

theorem halt_effect (hinv : Inv sys ⟨a :: rest, k⟩) (hfits : f.Fits k.base)
    (hhalt : process.halt sys f status (a :: rest) k = some c') : Effect sys a rest k (.halt f status) c' := by
  cases rest with
  | nil =>
    rcases hinv.halt_first hfits hhalt with ⟨k', rfl, hstarted⟩ | ⟨k', rfl, hfilled, hfails⟩
    · exact .restarted rfl rfl hfits hstarted
    · exact .emptied rfl rfl hfits hfilled hfails
  | cons b rest =>
    obtain ⟨k', hresult, hresumed⟩ := hinv.halt_child hfits status
    rw [hresult] at hhalt
    cases hhalt
    exact .resumed rfl rfl hfits hresumed

/-- Every step has one of these effects, as long as no argument text reaches the
    process number in the slot above the one it is for. -/
theorem step_effect (hinv : Inv sys ⟨a :: rest, k⟩) (hbounded : e.Bounded NUMBER_ROOM k)
    (hstep : step sys ⟨a :: rest, k⟩ e = some c') : Effect sys a rest k e c' := by
  simp only [step, reduceCtorEq, if_false] at hstep
  cases e with
  | execute f command =>
    obtain ⟨hfits, hexecute⟩ := Option.ite_none_right_eq_some.mp hstep
    have hexecute : process.execute sys f command (a :: rest) { k with term := k.term } = some c' := hexecute
    exact execute_effect hinv hfits ⟨rfl, rfl⟩ hbounded hexecute
  | halt f status =>
    obtain ⟨hfits, hhalt⟩ := Option.ite_none_right_eq_some.mp hstep
    exact halt_effect hinv hfits hhalt
  | key f garbage temp =>
    obtain ⟨hfits, hkey⟩ := Option.ite_none_right_eq_some.mp hstep
    split at hkey
    · rename_i hflagged
      exact execute_effect hinv hfits ⟨rfl, rfl, hflagged⟩ (Or.inr (shell_name_short NUMBER_ROOM)) hkey
    · cases hkey
      refine .own (hinv.congr rfl (fun _ => SameNumbers.refl _) rfl rfl rfl rfl) rfl (fun _ _ => rfl)
        (SameButFds.refl _) fun _ h => absurd rfl h
  | call call =>
    obtain ⟨k', hcall, rfl⟩ := Option.map_eq_some_iff.mp hstep
    obtain ⟨s, hs, hk'⟩ := hinv.call_eq hcall
    have hpcbs : k'.pcbs = Function.update k.pcbs (proc_block a.process_id) s.pcb := by rw [hk']; rfl
    refine .own (hinv.call hcall) (by rw [hk']; rfl) (fun p hp => Kernel.pcb_update_other hpcbs hp) ?_ ?_
    · rw [Kernel.pcb_update_same hpcbs]
      exact step_sameButFds hs
    · exact fun _ h => absurd (by rw [hk']; rfl) h
  | compute cpu words =>
    obtain ⟨k', hcompute, rfl⟩ := Option.map_eq_some_iff.mp hstep
    have hinv' := hinv.compute hcompute
    obtain ⟨-, rfl⟩ := compute_cases hcompute
    exact .own hinv' rfl (fun _ _ => rfl) (SameButFds.refl _) fun _ h => absurd rfl h
  | store va b =>
    obtain ⟨k', hstore, rfl⟩ := Option.map_eq_some_iff.mp hstep
    obtain ⟨mapping, htranslate, huser, rfl⟩ := store_cases hstore
    refine .own (hinv.congr rfl (fun _ => SameNumbers.refl _) rfl rfl rfl rfl) rfl (fun _ _ => rfl)
      (SameButFds.refl _) fun physical hchanged => ⟨va, mapping, htranslate, huser, ?_⟩
    by_contra hne
    exact hchanged (Function.update_of_ne (Ne.symm hne) b k.memory)

/-- Every step keeps the invariant, as long as no argument text goes that far. -/
theorem Inv.step (hinv : Inv sys c) (hbounded : e.Bounded NUMBER_ROOM c.kernel)
    (hstep : process.step sys c e = some c') :
    Inv sys c' := by
  obtain ⟨stack, k⟩ := c
  cases stack with
  | nil => cases hstep
  | cons a rest =>
    have hterm (term : terminal_t) : Inv sys ⟨a :: rest, { k with term := term }⟩ :=
      hinv.congr rfl (fun _ => SameNumbers.refl _) rfl rfl rfl rfl
    cases step_effect hinv hbounded hstep with
    | own hinv' => exact hinv'
    | returned term _ hfits hreturned => exact (hterm term).returned hfits hreturned
    | started term _ hfits hstarted => exact (hterm term).started hfits hstarted _
    | resumed hrest _ hfits hresumed =>
      subst hrest
      exact hinv.resumed hfits hresumed
    | restarted _ _ _ hstarted =>
      exact started_first (show Filled sys.layout (k.halted _ 0).paging from hinv.filled) hstarted _
    | emptied _ _ _ hfilled _ => exact Inv.empty hfilled

/-- The invariant holds in every state reached from boot. -/
theorem run_inv {start : Config} (hbooted : Booted sys start)
    (run : Run (process.step sys) (fun c e => e.Bounded NUMBER_ROOM c.kernel) start log c) : Inv sys c := by
  refine run.invariant (motive := fun _ c => Inv sys c) hbooted.inv ?_
  intro log c e c' _ hinv hbounded hstep
  exact hinv.step hbounded hstep

/-- A valid executable is started when a slot is free. -/
theorem Inv.execute_starts {c : CString} {d : dentry_t} (hinv : Inv sys ⟨a :: rest, k⟩) (hfits : f.Fits k.base)
    (hshort : process.Short NUMBER_ROOM (some c)) (hexecutable : Executable sys.img (command_word c) d)
    (hfirst : first_free k.processes = some q) :
    ∃ k', process.step sys ⟨a :: rest, k⟩ (.execute f (some c)) =
        some ⟨⟨q, f, some c, k.pcb q⟩ :: a :: rest, k'⟩ ∧ Started sys f c q k k' := by
  obtain ⟨k', hcall, hstarted⟩ := sys_execute_started hfits hshort (hinv.placed hfits (some c)) hexecutable hfirst
  exact ⟨k', by rw [step_execute hfits, execute, hcall], hstarted⟩

theorem command_word_shell : command_word shell_name = shell_name := by decide

/-- With a valid shell in the image, a key press that marks a terminal starts it
    when a slot is free. -/
theorem Resting.shell_starts {d : dentry_t} {garbage : Byte} {temp : Nat} (hrest : Resting sys ⟨a :: rest, k⟩)
    (hfits : f.Fits k.base) (hshell : Executable sys.img shell_name d)
    (hflagged : (keyboard_interrupt k.term garbage temp).2 = true) (hfirst : first_free k.processes = some q) :
    ∃ k', process.step sys ⟨a :: rest, k⟩ (.key f garbage temp) =
        some ⟨⟨q, f, some shell_name, k.pcb q⟩ :: a :: rest, k'⟩ ∧
      Started sys f shell_name q { k with term := (keyboard_interrupt k.term garbage temp).1 } k' := by
  have hplaced : Placed f { k with term := (keyboard_interrupt k.term garbage temp).1 } (some shell_name) :=
    hrest.placed hfits (some shell_name)
  obtain ⟨k', hcall, hstarted⟩ := sys_execute_started hfits (shell_name_short NUMBER_ROOM) hplaced
    (command_word_shell.symm ▸ hshell) hfirst
  refine ⟨k', ?_, hstarted⟩
  rw [step_key hfits hflagged, execute, hcall]
  rfl

/-- With a valid shell in the image, the boot call starts it. -/
theorem boot_starts {d : dentry_t} (hshell : Executable sys.img shell_name d) (hboot : Boot sys k)
    (hfits : f.Fits k.base) :
    ∃ k', Booted sys ⟨[⟨0, f, some shell_name, k.pcb 0⟩], k'⟩ ∧ Started sys f shell_name 0 k k' := by
  have hzero : k.processes 0 = 0#32 := by rw [hboot.processes]
  obtain ⟨k', hcall, hstarted⟩ := sys_execute_started hfits (shell_name_short NUMBER_ROOM) (placed_shell f hzero)
    (command_word_shell.symm ▸ hshell) (first_free_of_zero hzero)
  refine ⟨k', ⟨k, f, hboot, hfits, ?_, List.cons_ne_nil _ _⟩, hstarted⟩
  simp only [execute, hcall]

/-- With a valid shell in the image, a halt by process 0 starts it again. -/
theorem Inv.restarts {d : dentry_t} (hshell : Executable sys.img shell_name d) (hinv : Inv sys ⟨[a], k⟩)
    (hfits : f.Fits k.base) (status : Byte) :
    ∃ k', process.step sys ⟨[a], k⟩ (.halt f status) = some ⟨[⟨0, f, some shell_name, k.pcb 0⟩], k'⟩ ∧
      Started sys f shell_name 0 (k.halted f 0) k' := by
  obtain ⟨k', hcall, hstarted⟩ := sys_execute_started hfits (shell_name_short NUMBER_ROOM)
    (placed_shell f (halted_zero k f)) (command_word_shell.symm ▸ hshell) (first_free_of_zero (halted_zero k f))
  exact ⟨k', by rw [step_halt hfits, hinv.halt_first_eq hfits, hcall], hstarted⟩

/-- A process that has just been started takes calls at the top of its stack. -/
theorem Started.base_eq {c : CString} (hstarted : Started sys f c q k k') : k'.base = kernel_esp (pid q) := by
  rw [Kernel.base, if_pos hstarted.user, hstarted.esp0]

/-- The command that runs the shell with an argument text. -/
def shell_command (text : List Byte) (htext : 0#8 ∉ text) : CString :=
  ⟨shell_name.bytes ++ SPACE :: text, by
    simp only [List.mem_append, List.mem_cons, not_or]
    exact ⟨shell_name.nul_free, by decide, htext⟩⟩

theorem command_word_shell_command (text : List Byte) (htext : 0#8 ∉ text) :
    command_word (shell_command text htext) = shell_name := by
  have hword : (parse_loop (shell_name.bytes ++ SPACE :: text)).1 = shell_name.bytes := rfl
  simp only [command_word, shell_command, hword]

theorem command_text_shell_command (text : List Byte) (htext : 0#8 ∉ text) :
    command_text (shell_command text htext) = some text := rfl

theorem shell_command_short {limit : Nat} {text : List Byte} (htext : 0#8 ∉ text) (hfits : text.length < limit) :
    Short limit (some (shell_command text htext)) := by
  intro c hc
  cases hc
  refine ⟨?_, fun r hr => ?_⟩
  · rw [command_word_shell_command]
    decide
  · cases hr
    exact hfits

/-- The kernel of a small system just before its boot call. -/
def boot_kernel : Kernel where
  processes := fun _ => 0#32
  pcbs := fun _ => zeroed_pcb
  stack := fun _ => 0#32
  paging := page_fill small_layout ⟨fun _ => 0#32, fun _ => 0#32, fun _ => 0#32⟩
  esp0 := 0x800000#32
  term := booted zeroed
  memory := fun _ => 0#8
  cpu := ⟨false, 0x400000#32, 0x7FFFC0#32, 0x7FFFE0#32, 0#32⟩

def small_system : System := ⟨small_image, small_layout, fun _ _ => 0#32⟩

/-- A frame near the top of a process's kernel stack. -/
def small_frame (p : Fin 6) : Frame :=
  ⟨kernel_esp (pid p) - 0x400#32, kernel_esp (pid p) - 0x100#32, 0#32, 0#32, fun _ => 0#8⟩

theorem small_frame_fits : ∀ p, (small_frame p).Fits (kernel_esp (pid p)) := by decide

theorem boot_kernel_boot : Boot small_system boot_kernel :=
  ⟨rfl, page_fill_filled small_layout _, rfl, by decide⟩

theorem small_shell_executable : Executable small_image shell_name (copy_dentry (small_image.direntries 1)) where
  found := rfl
  file := small_image_wellFormed.files 1 (by decide) rfl
  magic := by decide
  fits := by decide

def small_shell : Activation := ⟨0, small_frame 0, some shell_name, zeroed_pcb⟩

/-- The small system boots into its shell. -/
theorem small_boot : ∃ k', Booted small_system ⟨[small_shell], k'⟩ ∧
    Started small_system (small_frame 0) shell_name 0 boot_kernel k' :=
  boot_starts small_shell_executable boot_kernel_boot (by decide)

/-- Its user presses Alt. -/
theorem small_alt_step (hstarted : Started small_system (small_frame 0) shell_name 0 boot_kernel k) :
    process.step small_system ⟨[small_shell], k⟩ (.key (small_frame 0) 0#8 SCAN_ALT) =
      some ⟨[small_shell], { k with term := (keyboard_interrupt k.term 0#8 SCAN_ALT).1 }⟩ := by
  have hquiet : (keyboard_interrupt k.term 0#8 SCAN_ALT).2 = false := by
    rw [hstarted.term]
    rfl
  have hfits : (small_frame 0).Fits k.base := hstarted.base_eq ▸ small_frame_fits 0
  simp only [process.step, reduceCtorEq, if_false, if_pos hfits, hquiet, Bool.false_eq_true]

/-- The first shell executes the shell, which halts again. -/
theorem small_steps : ∃ start u c a b, Booted small_system start ∧ u.stack = [a, b] ∧
    process.step small_system start (.execute (small_frame 0) (some shell_name)) = some u ∧
    process.step small_system u (.halt (small_frame 1) 3#8) = some c := by
  obtain ⟨k, hbooted, hstarted⟩ := small_boot
  have hfirst : first_free k.processes = some 1 := by
    rw [hstarted.processes]
    decide
  have hshort := shell_name_short NUMBER_ROOM
  obtain ⟨k', hstep, hstarted'⟩ := hbooted.inv.execute_starts (hstarted.base_eq ▸ small_frame_fits 0) hshort
    (command_word_shell.symm ▸ small_shell_executable) hfirst
  have hfits : (small_frame 1).Fits k'.base := hstarted'.base_eq ▸ small_frame_fits 1
  have hbounded : (Event.execute (small_frame 0) (some shell_name)).Bounded NUMBER_ROOM k := Or.inr hshort
  obtain ⟨k'', hresult, -⟩ := (hbooted.inv.step hbounded hstep).halt_child hfits 3#8
  exact ⟨_, _, _, _, _, hbooted, rfl, hstep, (step_halt hfits).trans hresult⟩

theorem small_run (allowed : Config → Event → Prop)
    (hexecute : ∀ c, allowed c (.execute (small_frame 0) (some shell_name)))
    (hhalt : ∀ c, allowed c (.halt (small_frame 1) 3#8)) :
    ∃ start log c, Booted small_system start ∧ Run (process.step small_system) allowed start log c ∧
      log.map (·.2) = [.execute (small_frame 0) (some shell_name), .halt (small_frame 1) 3#8] := by
  obtain ⟨start, u, c, a, b, hbooted, -, hexecuted, hhalted⟩ := small_steps
  exact ⟨start, _, c, hbooted, (Run.start.step (hexecute _) hexecuted).step (hhalt _) hhalted, rfl⟩

end houseam.process
