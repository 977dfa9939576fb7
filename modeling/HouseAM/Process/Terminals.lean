import HouseAM.Process.Assignments
import HouseAM.Process.Invariant
import HouseAM.Terminal.Marks

open houseam.filesystem houseam.paging houseam.system_call houseam.terminal support.paging support.runs

namespace houseam.process

variable {sys : System} {k k' : Kernel} {f : Frame} {p q : Fin 6} {status : Byte} {a b : Activation}
  {stack rest : List Activation} {start c c' : Config} {command : Option CString} {e : Event}
  {log : List (Config × Event)}

/-! `sys_execute` gives the terminal that is shown to the process it starts, and
leaves the other processes on theirs. -/

/-- The terminal number comes behind the process number in a PCB. -/
theorem pcb_write_byte_terminal_num (pcb : pcb_t) {offset : Nat} (hoffset : offset < 256) (b : Byte) :
    (pcb_write_byte pcb offset b).terminal_num = pcb.terminal_num := by
  unfold pcb_write_byte
  by_cases hfds : offset < 128
  · rw [if_pos hfds]
    rfl
  · rw [if_neg hfds, if_pos hoffset]

theorem ArgumentEffect.terminal_num {j : Nat} {byte : Byte} (heffect : ArgumentEffect q j byte k k') (hp : p ≠ q) :
    (k'.pcb p).terminal_num = (k.pcb p).terminal_num := by
  cases heffect with
  | own pcb => rw [Kernel.setPcb_pcb_other k pcb hp]
  | stack value hblock => rfl
  | @above above hlo hhi habove =>
    simp only [SLOT_ROOM, NUMBER_ROOM] at hlo hhi
    by_cases hhere : p = above
    · subst hhere
      rw [Kernel.setPcb_pcb_same]
      exact pcb_write_byte_terminal_num _ (show j - 8064 < 256 by omega) byte
    · rw [Kernel.setPcb_pcb_other k _ hhere]

/-- The assignments before the page directory is written leave the other
    processes on their terminals. -/
theorem perform_all_early_terminal_num {ops : List Op} {save_value : Word} {s : Kernel × Word}
    (hother : block f.esp ≠ slot_block q) (hq : q ≠ 0) (hearly : ∀ op ∈ ops, op.Early)
    (hperform : perform_all sys q f ops (k, save_value) = some s) (hp : p ≠ q) :
    (s.1.pcb p).terminal_num = (k.pcb p).terminal_num := by
  induction ops generalizing k with
  | nil =>
    cases hperform
    rfl
  | cons op ops ih =>
    have hfirst := hearly op List.mem_cons_self
    have hrest : ∀ op ∈ ops, op.Early := fun op hop => hearly op (List.mem_cons_of_mem _ hop)
    rw [perform_all_cons] at hperform
    cases op with
    | claim =>
      rw [perform, Option.bind_some] at hperform
      exact ih (k := { k with processes := Function.update k.processes q 1#32 }) hrest hperform
    | argument j byte =>
      obtain ⟨k', hstore, heffect⟩ := argument_effect sys save_value k hother hq hfirst byte
      rw [hstore, Option.bind_some] at hperform
      exact (ih hrest hperform).trans (heffect.terminal_num hp)
    | _ => exact hfirst.elim

theorem parse_terminal_num {text : Option (List Byte)} {parsed : Kernel}
    (hshort : ∀ t, text = some t → t.length < NUMBER_ROOM)
    (hplace : q ≠ 0 ∧ block f.esp ≠ slot_block q ∨ q = 0 ∧ text = none)
    (hperform : perform_all sys q f (.claim :: argument_ops text) (k, 0#32) = some (parsed, 0#32)) (hp : p ≠ q) :
    (parsed.pcb p).terminal_num = (k.pcb p).terminal_num := by
  rcases hplace with ⟨hq, hother⟩ | ⟨-, rfl⟩
  · exact perform_all_early_terminal_num hother hq (parse_ops_early hshort) hperform hp
  · cases hperform
    rfl

/-- A call finds a free slot and a command that names an ELF file. -/
def Startable (sys : System) (f : Frame) (command : Option CString) (k : Kernel) : Prop :=
  first_free k.processes ≠ none ∧ ∃ c, command = some c ∧ Loadable sys f c

/-- What a call of `sys_execute` does about terminals. -/
structure GivesTerminal (sys : System) (f : Frame) (command : Option CString) (k k' : Kernel) (r : Option (Fin 6)) :
    Prop where
  term : k'.term = k.term
  others : ∀ p, k.processes p ≠ 0#32 → (k'.pcb p).terminal_num = (k.pcb p).terminal_num
  started : ∀ q, r = some q → Startable sys f command k ∧ first_free k.processes = some q ∧
    (k'.pcb q).terminal_num = BitVec.ofInt 32 k.term.current_terminal
  failed : r = none → ¬ Startable sys f command k

theorem sys_execute_gives_terminal {r : Option (Fin 6)} (hbounded : Bounded NUMBER_ROOM k command)
    (hplace : Placed f k command) (hexecute : sys_execute sys f command k = some (k', r)) :
    GivesTerminal sys f command k k' r := by
  cases command with
  | none =>
    cases hexecute
    refine ⟨rfl, fun _ _ => rfl, (fun _ h => by cases h), ?_⟩
    rintro - ⟨-, c, hc, -⟩
    cases hc
  | some c =>
    cases hfirst : first_free k.processes with
    | none =>
      simp only [sys_execute, Kernel.enter_processes, hfirst] at hexecute
      cases hexecute
      exact ⟨rfl, fun _ _ => rfl, (fun _ h => by cases h), fun _ hstartable => hstartable.1 hfirst⟩
    | some q =>
      have hshort := hbounded.short hfirst
      obtain ⟨parsed, hperform, hparsed, hend⟩ := sys_execute_parsed hshort hplace hfirst hexecute
      have hterm : parsed.term = k.term := by
        rw [hparsed.stored.rest]
        rfl
      have hothers (p : Fin 6) (hp : k.processes p ≠ 0#32) :
          p ≠ q ∧ (parsed.pcb p).terminal_num = (k.pcb p).terminal_num := by
        have hne : p ≠ q := by
          rintro rfl
          exact hp (first_free_zero hfirst)
        exact ⟨hne, parse_terminal_num (k := k.enter f) (hshort c rfl).2 (hplace.text hfirst) hperform hne⟩
      rcases hend with ⟨rfl, hfails, rfl⟩ | ⟨rfl, hloadable, memory, entry, rfl, -⟩
      · refine ⟨hterm, fun p hp => (hothers p hp).2, (fun _ h => by cases h), ?_⟩
        rintro - ⟨-, c', hc, hloadable⟩
        cases hc
        exact hfails hloadable
      · refine ⟨hterm, fun p hp => ?_, fun q' hq' => ?_, fun h => by cases h⟩
        · have hblocks : proc_block p ≠ proc_block q := fun h => (hothers p hp).1 (proc_block_injective h)
          rw [← (hothers p hp).2]
          simp [Kernel.started, Kernel.context_switch, Kernel.setPcb, Kernel.pcb, hblocks]
        · cases hq'
          refine ⟨⟨by rw [hfirst]; exact Option.some_ne_none q, c, rfl, hloadable⟩, hfirst, ?_⟩
          rw [Kernel.started_own, hterm]
          rfl

/-- The number of the terminal a process is on. -/
def Kernel.terminal (k : Kernel) (a : Activation) : Word := (k.pcb a.process_id).terminal_num

/-- A terminal's number as the kernel's words hold it. -/
def terminal_word (i : Fin 3) : Word := BitVec.ofInt 32 (terminal_number i)

theorem terminal_word_injective : ∀ i j : Fin 3, terminal_word i = terminal_word j → i = j := by decide

/-- A live process is on the terminal. -/
def HasProcess (c : Config) (i : Fin 3) : Prop := ∃ a ∈ c.stack, c.kernel.terminal a = terminal_word i

theorem hasProcess_cons {i : Fin 3} :
    HasProcess ⟨a :: rest, k⟩ i ↔ k.terminal a = terminal_word i ∨ HasProcess ⟨rest, k⟩ i :=
  List.exists_mem_cons_iff _ _ _

/-- A process that is alone on terminal 1 leaves the other terminals without one. -/
theorem not_hasProcess_alone {i : Fin 3} (hfirst : k.terminal a = terminal_word 0) (hi : i ≠ 0) :
    ¬ HasProcess ⟨[a], k⟩ i := by
  rintro ⟨b, hb, hnumber⟩
  rw [List.mem_singleton.mp hb, hfirst] at hnumber
  exact hi (terminal_word_injective 0 i hnumber).symm

theorem hasProcess_congr {i : Fin 3} (hkept : ∀ b ∈ stack, k'.terminal b = k.terminal b) :
    HasProcess ⟨stack, k'⟩ i ↔ HasProcess ⟨stack, k⟩ i := by
  constructor
  · rintro ⟨b, hb, hnumber⟩
    exact ⟨b, hb, (hkept b hb).symm.trans hnumber⟩
  · rintro ⟨b, hb, hnumber⟩
    exact ⟨b, hb, (hkept b hb).trans hnumber⟩

/-- The terminal as the keyboard handler leaves it to a call of `sys_execute`. -/
def Event.handled (k : Kernel) : Event → terminal_t
  | .key _ garbage temp => (keyboard_interrupt k.term garbage temp).1
  | _ => k.term

/-- The step is a key press that marks a terminal, for which it calls
    `sys_execute`. -/
def Event.flagged (k : Kernel) : Event → Bool
  | .key _ garbage temp => (keyboard_interrupt k.term garbage temp).2
  | _ => false

theorem handled_marks (k : Kernel) (e : Event) : MarksEffect k.term (e.handled k) (e.flagged k) := by
  cases e with
  | key f garbage temp => exact keyboard_interrupt_marks k.term garbage temp
  | _ => exact .stays rfl rfl rfl

/-- The steps but for the calls on descriptors. -/
def Event.Plain : Event → Prop
  | .call _ => False
  | _ => True

/-- What a step does to the terminals of the live processes. -/
inductive TerminalEffect (sys : System) (a : Activation) (rest : List Activation) (k : Kernel) (e : Event) :
    Config → Prop where
  | stays {k' : Kernel} (hterm : k'.term = e.handled k) (hkept : ∀ b ∈ a :: rest, k'.terminal b = k.terminal b)
      (hhalt : ∀ f status, e ≠ .halt f status)
      (hfails : ∀ f command, e.Calls k f command → ¬ Startable sys f command k) :
      TerminalEffect sys a rest k e ⟨a :: rest, k'⟩
  | starts {f : Frame} {command : Option CString} {new : Activation} {k' : Kernel} (hterm : k'.term = e.handled k)
      (hkept : ∀ b ∈ a :: rest, k'.terminal b = k.terminal b) (hcalls : e.Calls k f command)
      (hstartable : Startable sys f command k)
      (hnew : k'.terminal new = BitVec.ofInt 32 (e.handled k).current_terminal) :
      TerminalEffect sys a rest k e ⟨new :: a :: rest, k'⟩
  | halts {f : Frame} {status : Byte} {k' : Kernel} (hterm : k'.term = k.term)
      (hkept : ∀ b ∈ rest, k'.terminal b = k.terminal b)
      (he : e = .halt f status) : TerminalEffect sys a rest k e ⟨rest, k'⟩
  | restarts {f : Frame} {status : Byte} {new : Activation} {k' : Kernel} (hterm : k'.term = k.term)
      (he : e = .halt f status)
      (hrest : rest = []) (hnew : k'.terminal new = BitVec.ofInt 32 k.term.current_terminal) :
      TerminalEffect sys a rest k e ⟨[new], k'⟩

theorem Event.Calls.unique {f' : Frame} {command' : Option CString} (hcalls : e.Calls k f command)
    (hcalls' : e.Calls k f' command') : f' = f ∧ command' = command := by
  cases e with
  | execute g name => exact ⟨hcalls'.1.symm.trans hcalls.1, hcalls'.2.symm.trans hcalls.2⟩
  | key g garbage temp => exact ⟨hcalls'.1.symm.trans hcalls.1, hcalls'.2.1.trans hcalls.2.1.symm⟩
  | _ => exact hcalls.elim

theorem Event.Calls.not_halt (hcalls : e.Calls k f command) (f' : Frame) (status : Byte) : e ≠ .halt f' status := by
  rintro rfl
  exact hcalls

theorem execute_terminals {term : terminal_t} (hinv : Inv sys ⟨a :: rest, k⟩) (hfits : f.Fits k.base)
    (hcalls : e.Calls k f command) (hterm : term = e.handled k) (hbounded : process.Bounded NUMBER_ROOM k command)
    (hexecute : process.execute sys f command (a :: rest) { k with term := term } = some c') :
    TerminalEffect sys a rest k e c' := by
  have hplaced : Placed f { k with term := term } command := hinv.placed hfits command
  have hbounded : process.Bounded NUMBER_ROOM { k with term := term } command := hbounded
  unfold process.execute at hexecute
  split at hexecute
  · cases hexecute
  · rename_i k' hcall
    cases hexecute
    have hgives := sys_execute_gives_terminal hbounded hplaced hcall
    refine .stays (hgives.term.trans hterm) (fun b hb => hgives.others _ (hinv.linked.busy hb)) hcalls.not_halt ?_
    intro f' command' hcalls'
    obtain ⟨rfl, rfl⟩ := hcalls.unique hcalls'
    exact hgives.failed rfl
  · rename_i k' q hcall
    cases hexecute
    have hgives := sys_execute_gives_terminal hbounded hplaced hcall
    obtain ⟨hstartable, -, hnew⟩ := hgives.started q rfl
    exact .starts (hgives.term.trans hterm) (fun b hb => hgives.others _ (hinv.linked.busy hb)) hcalls hstartable
      (hterm ▸ hnew)

theorem halt_terminals (hinv : Inv sys ⟨a :: rest, k⟩) (hfits : f.Fits k.base)
    (hhalt : process.halt sys f status (a :: rest) k = some c') : TerminalEffect sys a rest k (.halt f status) c' := by
  cases rest with
  | nil =>
    rw [hinv.halt_first_eq hfits] at hhalt
    have hplaced := placed_shell (k := k.halted f 0) f (halted_zero k f)
    split at hhalt
    · cases hhalt
    · rename_i k' q hcall
      cases hhalt
      have hgives := sys_execute_gives_terminal (Or.inr (shell_name_short NUMBER_ROOM)) hplaced hcall
      exact .restarts hgives.term rfl rfl (hgives.started q rfl).2.2
    · rename_i k' hcall
      cases hhalt
      have hgives := sys_execute_gives_terminal (Or.inr (shell_name_short NUMBER_ROOM)) hplaced hcall
      exact .halts hgives.term (fun _ hb => absurd hb List.not_mem_nil) rfl
  | cons b rest =>
    obtain ⟨k', hresult, hresumed⟩ := hinv.halt_child hfits status
    rw [hresult] at hhalt
    cases hhalt
    refine .halts hresumed.term (fun d hd => ?_) rfl
    exact congrArg pcb_t.terminal_num (hresumed.pcbs _ (hinv.linked.ne_head hd))

/-- Every such step has one of these effects, as long as no argument text reaches
    the process number in the slot above. -/
theorem terminal_effect (hinv : Inv sys ⟨a :: rest, k⟩) (hbounded : e.Bounded NUMBER_ROOM k) (hplain : e.Plain)
    (hstep : process.step sys ⟨a :: rest, k⟩ e = some c') : TerminalEffect sys a rest k e c' := by
  simp only [process.step, reduceCtorEq, if_false] at hstep
  cases e with
  | execute f command =>
    obtain ⟨hfits, hexecute⟩ := Option.ite_none_right_eq_some.mp hstep
    exact execute_terminals hinv hfits ⟨rfl, rfl⟩ rfl hbounded hexecute
  | halt f status =>
    obtain ⟨hfits, hhalt⟩ := Option.ite_none_right_eq_some.mp hstep
    exact halt_terminals hinv hfits hhalt
  | key f garbage temp =>
    obtain ⟨hfits, hkey⟩ := Option.ite_none_right_eq_some.mp hstep
    split at hkey
    · rename_i hflagged
      exact execute_terminals hinv hfits ⟨rfl, rfl, hflagged⟩ rfl (Or.inr (shell_name_short NUMBER_ROOM)) hkey
    · rename_i hquiet
      cases hkey
      exact .stays rfl (fun _ _ => rfl) (fun _ _ he => by cases he) fun f' command' hcalls => absurd hcalls.2.2 hquiet
  | call call => exact hplain.elim
  | compute cpu words =>
    obtain ⟨k', hcompute, rfl⟩ := Option.map_eq_some_iff.mp hstep
    obtain ⟨-, rfl⟩ := compute_cases hcompute
    exact .stays rfl (fun _ _ => rfl) (fun _ _ he => by cases he) fun _ _ hcalls => hcalls.elim
  | store va b =>
    obtain ⟨k', hstore, rfl⟩ := Option.map_eq_some_iff.mp hstep
    obtain ⟨mapping, -, -, rfl⟩ := store_cases hstore
    exact .stays rfl (fun _ _ => rfl) (fun _ _ he => by cases he) fun _ _ hcalls => hcalls.elim

/-- Terminals 2 and 3 have their marks exactly when a live process is on them. -/
structure Served (c : Config) : Prop where
  used_iff : ∀ i, i ≠ 0 → (c.kernel.term.terminal_used i = 1 ↔ HasProcess c i)

/-- What the marks are for: they tell which terminals have a process, and the
    key press that ended a run has not switched to a terminal without one. -/
structure TerminalsServed (log : List (Config × Event)) (c : Config) : Prop extends Served c where
  pressed : ∀ before u f garbage temp i, log = before ++ [(u, .key f garbage temp)] → i ≠ 0 →
    switch_target u.kernel.term temp = some (terminal_number i) →
    c.kernel.term.current_terminal = terminal_number i ∧ HasProcess c i

/-- The first process of a list is not the last one on terminal 2 or 3. -/
structure NotLast (a : Activation) (rest : List Activation) (k : Kernel) : Prop where
  others : ∀ i, i ≠ 0 → k.terminal a = terminal_word i → HasProcess ⟨rest, k⟩ i

/-- The steps after which the marks are still right: a key press that marks a
    terminal finds a free slot and a valid shell, and no process of terminal 2 or 3
    halts as the last one on it. -/
def Event.Serves (sys : System) (c : Config) : Event → Prop
  | .key f garbage temp => (keyboard_interrupt c.kernel.term garbage temp).2 = true →
      Startable sys f (some shell_name) c.kernel
  | .halt _ _ => ∀ a rest, c.stack = a :: rest → NotLast a rest c.kernel
  | _ => True

theorem Event.Serves.startable (hserves : e.Serves sys c) (hflagged : e.flagged c.kernel = true) :
    ∃ f, e.Calls c.kernel f (some shell_name) ∧ Startable sys f (some shell_name) c.kernel := by
  cases e with
  | key f garbage temp => exact ⟨f, ⟨rfl, rfl, hflagged⟩, hserves hflagged⟩
  | _ => exact absurd hflagged (by simp [Event.flagged])

/-- The invariant: the marks are right, and process 0 is on terminal 1. -/
structure Tended (c : Config) : Prop extends Served c where
  marked : Marked c.kernel.term
  first : ∀ a ∈ c.stack, a.process_id = 0 → c.kernel.terminal a = terminal_word 0

/-- The terminal that is shown has a process, if it is not terminal 1. -/
theorem Tended.shown {i : Fin 3} (htended : Tended c) (hcurrent : c.kernel.term.current_terminal = terminal_number i)
    (hi : i ≠ 0) : HasProcess c i := by
  obtain ⟨j, hj, hused⟩ := htended.marked.shown
  obtain rfl := terminal_number_injective (hcurrent.symm.trans hj)
  exact (htended.used_iff i hi).mp (hused.resolve_left hi)

/-- While only process 0 is live, terminal 1 is shown. -/
theorem Tended.alone (htended : Tended ⟨[a], k⟩) (hzero : a.process_id = 0) :
    k.term.current_terminal = terminal_number 0 ∧ ∀ i, i ≠ 0 → k.term.terminal_used i ≠ 1 := by
  have hnone (i : Fin 3) (hi : i ≠ 0) : ¬ HasProcess ⟨[a], k⟩ i :=
    not_hasProcess_alone (htended.first a (List.mem_singleton_self a) hzero) hi
  obtain ⟨j, hj, hused⟩ := htended.marked.shown
  by_cases hj0 : j = 0
  · subst hj0
    exact ⟨hj, fun i hi h => hnone i hi ((htended.used_iff i hi).mp h)⟩
  · exact absurd (htended.shown hj hj0) (hnone j hj0)

theorem Tended.stays (htended : Tended ⟨a :: rest, k⟩) (hterm : k'.term = e.handled k)
    (hkept : ∀ b ∈ a :: rest, k'.terminal b = k.terminal b) (hquiet : e.flagged k = false) :
    Tended ⟨a :: rest, k'⟩ := by
  have hmarks := handled_marks k e
  refine ⟨⟨fun i hi => ?_⟩, hterm ▸ hmarks.marked htended.marked,
    fun b hb hzero => (hkept b hb).trans (htended.first b hb hzero)⟩
  rw [hasProcess_congr hkept, ← htended.used_iff i hi]
  change _ ↔ k.term.terminal_used i = 1
  rw [hterm, hmarks.used_iff, hquiet, or_iff_left_iff_imp]
  rintro ⟨hflagged, -⟩
  cases hflagged

/-- A new process is on the terminal that is shown, which has its mark. -/
theorem Tended.starts {new : Activation} (htended : Tended ⟨a :: rest, k⟩) (hterm : k'.term = e.handled k)
    (hkept : ∀ b ∈ a :: rest, k'.terminal b = k.terminal b) (hlater : new.process_id ≠ 0)
    (hnew : k'.terminal new = BitVec.ofInt 32 (e.handled k).current_terminal) : Tended ⟨new :: a :: rest, k'⟩ := by
  have hmarks := handled_marks k e
  have hmarked := hmarks.marked htended.marked
  obtain ⟨j, hj, hused⟩ := hmarked.shown
  have hnumber : k'.terminal new = terminal_word j := by
    rw [hnew, hj]
    rfl
  refine ⟨⟨fun i hi => ?_⟩, hterm ▸ hmarked, fun b hb hzero => ?_⟩
  · rw [hasProcess_cons, hasProcess_congr hkept, ← htended.used_iff i hi, hnumber]
    change _ ↔ _ ∨ k.term.terminal_used i = 1
    rw [hterm]
    constructor
    · intro husedi
      rcases hmarks.used_iff.mp husedi with hbefore | ⟨-, hcurrent⟩
      · exact Or.inr hbefore
      · exact Or.inl (congrArg terminal_word (terminal_number_injective (hj.symm.trans hcurrent)))
    · rintro (hword | hbefore)
      · obtain rfl := terminal_word_injective j i hword
        exact hused.resolve_left hi
      · exact hmarks.used_iff.mpr (Or.inl hbefore)
  · rcases List.mem_cons.mp hb with rfl | hmem
    · exact absurd hzero hlater
    · exact (hkept b hmem).trans (htended.first b hmem hzero)

theorem Tended.halts (htended : Tended ⟨a :: rest, k⟩) (hterm : k'.term = k.term)
    (hkept : ∀ b ∈ rest, k'.terminal b = k.terminal b) (hothers : NotLast a rest k) : Tended ⟨rest, k'⟩ := by
  refine ⟨⟨fun i hi => ?_⟩, hterm ▸ htended.marked, fun b hb hzero => ?_⟩
  · rw [hasProcess_congr hkept, hterm]
    apply (htended.used_iff i hi).trans
    rw [hasProcess_cons, or_iff_right_iff_imp]
    exact hothers.others i hi
  · exact (hkept b hb).trans (htended.first b (List.mem_cons_of_mem a hb) hzero)

/-- The first shell starts again on terminal 1. -/
theorem Tended.restarts {new : Activation} (htended : Tended ⟨[a], k⟩) (hzero : a.process_id = 0)
    (hterm : k'.term = k.term) (hnew : k'.terminal new = BitVec.ofInt 32 k.term.current_terminal) :
    Tended ⟨[new], k'⟩ := by
  obtain ⟨hcurrent, hnone⟩ := htended.alone hzero
  have hnumber : k'.terminal new = terminal_word 0 := by
    rw [hnew, hcurrent]
    rfl
  refine ⟨⟨fun i hi => ?_⟩, hterm ▸ htended.marked, fun b hb _ => ?_⟩
  · change k'.term.terminal_used i = 1 ↔ _
    rw [hterm]
    exact iff_of_false (hnone i hi) (not_hasProcess_alone hnumber hi)
  · rw [List.mem_singleton.mp hb]
    exact hnumber

theorem Tended.step (htended : Tended ⟨a :: rest, k⟩) (hinv : Inv sys ⟨a :: rest, k⟩) (hinv' : Inv sys c')
    (hserves : e.Serves sys ⟨a :: rest, k⟩) (heffect : TerminalEffect sys a rest k e c') : Tended c' := by
  cases heffect with
  | stays hterm hkept _ hfails =>
    apply htended.stays hterm hkept
    rw [Bool.eq_false_iff]
    intro hflagged
    obtain ⟨f, hcalls, hstartable⟩ := hserves.startable hflagged
    exact hfails f _ hcalls hstartable
  | starts hterm hkept _ _ hnew =>
    obtain ⟨zero, hzeroMem, hzero⟩ := hinv.linked.zero_mem (List.cons_ne_nil a rest)
    exact htended.starts hterm hkept (fun h => hinv'.linked.ne_head hzeroMem (hzero.trans h.symm)) hnew
  | halts hterm hkept he =>
    subst he
    exact htended.halts hterm hkept (hserves a rest rfl)
  | restarts hterm _ hrest hnew =>
    subst hrest
    exact htended.restarts hinv.linked.2 hterm hnew

/-- Behind any other step, some mark is wrong. -/
theorem Tended.spoiled (htended : Tended ⟨a :: rest, k⟩) (hinv : Inv sys ⟨a :: rest, k⟩)
    (hserves : ¬ e.Serves sys ⟨a :: rest, k⟩) (heffect : TerminalEffect sys a rest k e c') : ¬ Served c' := by
  intro hserved
  cases e with
  | key f garbage temp =>
    obtain ⟨hflagged, hfails⟩ := Classical.not_imp.mp hserves
    have hcalls : (Event.key f garbage temp).Calls k f (some shell_name) := ⟨rfl, rfl, hflagged⟩
    cases heffect with
    | stays hterm hkept =>
      have hmarks := handled_marks k (.key f garbage temp)
      rw [show (Event.key f garbage temp).flagged k = true from hflagged] at hmarks
      obtain ⟨i, hi, hfresh, hused⟩ := hmarks.fresh
      rw [← hterm] at hused
      have hbefore := (htended.used_iff i hi).mpr ((hasProcess_congr hkept).mp ((hserved.used_iff i hi).mp hused))
      exact absurd (hfresh.symm.trans hbefore) (by decide)
    | starts _ _ hcalls' hstartable =>
      obtain ⟨rfl, rfl⟩ := hcalls.unique hcalls'
      exact hfails hstartable
    | halts _ _ he => cases he
    | restarts _ he => cases he
  | halt f status =>
    refine hserves fun b below hstack => ⟨fun i hi hnumber => ?_⟩
    cases hstack
    by_contra hlast
    cases heffect with
    | stays _ _ hhalt => exact hhalt f status rfl
    | starts _ _ hcalls => exact hcalls
    | halts hterm hkept =>
      have hused := (htended.used_iff i hi).mpr ⟨a, List.mem_cons_self, hnumber⟩
      rw [← hterm] at hused
      exact hlast ((hasProcess_congr hkept).mp ((hserved.used_iff i hi).mp hused))
    | restarts _ _ hrest =>
      subst hrest
      refine hi (terminal_word_injective 0 i ?_).symm
      exact (htended.first a List.mem_cons_self hinv.linked.2).symm.trans hnumber
  | _ => exact hserves trivial

/-- The state in which the first shell runs on terminal 1. -/
theorem booted_tended {memory : terminal_t} (hbooted : Booted sys start) (hterm : start.kernel.term = booted memory) :
    Tended start := by
  obtain ⟨k, f, hboot, hfits, hexecute, hne⟩ := hbooted
  have hzero : k.processes 0 = 0#32 := by rw [hboot.processes]
  unfold process.execute at hexecute
  split at hexecute
  · cases hexecute
  · cases hexecute
    exact absurd rfl hne
  · rename_i k' q hcall
    cases hexecute
    have hgives := sys_execute_gives_terminal (Or.inr (shell_name_short NUMBER_ROOM)) (placed_shell f hzero) hcall
    have hnumber : (k'.pcb q).terminal_num = terminal_word 0 := by
      rw [(hgives.started q rfl).2.2, ← hgives.term, hterm]
      rfl
    refine ⟨⟨fun i hi => ?_⟩, hterm ▸ booted_marked memory, fun b hb _ => ?_⟩
    · rw [hterm, booted_terminal_used memory hi]
      exact iff_of_false (by decide) (not_hasProcess_alone hnumber hi)
    · rw [List.mem_singleton.mp hb]
      exact hnumber

/-- The steps of the runs: key presses, executes, halts and computing, without an
    argument text that reaches the process number in the slot above. -/
def TerminalStep (c : Config) (e : Event) : Prop := e.Bounded NUMBER_ROOM c.kernel ∧ e.Plain

theorem key_terminalStep (c : Config) (f : Frame) (garbage : Byte) (temp : Nat) :
    TerminalStep c (.key f garbage temp) := ⟨trivial, trivial⟩

/-- As long as every step serves the terminals, the marks stay right. -/
theorem run_tended {memory : terminal_t} (hbooted : Booted sys start) (hterm : start.kernel.term = booted memory)
    (run : Run (step sys) (fun c e => TerminalStep c e ∧ e.Serves sys c) start log c) : Tended c := by
  refine run.invariant (motive := fun _ c => Tended c) (booted_tended hbooted hterm) ?_
  intro log c e c' hrun htended hallowed hstep
  obtain ⟨⟨hbounded, hplain⟩, hserves⟩ := hallowed
  have hinv := run_inv hbooted (hrun.mono fun _ _ hallowed => hallowed.1.1)
  obtain ⟨stack, k⟩ := c
  cases stack with
  | nil => cases hstep
  | cons a rest =>
    exact htended.step hinv (hinv.step hbounded hstep) hserves (terminal_effect hinv hbounded hplain hstep)

/-- A step leaves the terminal as the keyboard handler does. -/
theorem TerminalEffect.term_eq (heffect : TerminalEffect sys a rest k e c') : c'.kernel.term = e.handled k := by
  cases heffect with
  | stays hterm => exact hterm
  | starts hterm => exact hterm
  | halts hterm _ he =>
    subst he
    exact hterm
  | restarts hterm he =>
    subst he
    exact hterm

/-- In such a run, a key press that switches to terminal 2 or 3 finds a process
    there. -/
theorem run_served {memory : terminal_t} (hbooted : Booted sys start) (hterm : start.kernel.term = booted memory)
    (run : Run (step sys) (fun c e => TerminalStep c e ∧ e.Serves sys c) start log c) : TerminalsServed log c := by
  have htended := run_tended hbooted hterm run
  refine ⟨htended.toServed, fun before u f garbage temp i hlog hi htarget => ?_⟩
  obtain ⟨hbefore, ⟨hbounded, hplain⟩, -⟩ := run.before hlog
  obtain ⟨v, hstep, hafter⟩ := run.after hlog
  have hinv := run_inv hbooted (hbefore.mono fun _ _ hallowed => hallowed.1.1)
  have hcurrent : c.kernel.term.current_terminal = terminal_number i := by
    rw [hafter.eq_start]
    obtain ⟨stack, k⟩ := u
    cases stack with
    | nil => cases hstep
    | cons a rest =>
      rw [(terminal_effect hinv hbounded hplain hstep).term_eq]
      exact keyboard_interrupt_shows htarget garbage
  exact ⟨hcurrent, htended.shown hcurrent hi⟩

/-- In a run from boot of key presses, executes and halts, the marks are right and
    the switches to terminal 2 or 3 find a process there, exactly if every key press
    that marks a terminal starts a shell and no process of terminal 2 or 3 halts as
    the last one on it. -/
theorem terminals_served_iff {memory : terminal_t} (hbooted : Booted sys start)
    (hterm : start.kernel.term = booted memory) (run : Run (step sys) TerminalStep start log c) :
    (∀ before u, before <+: log → Run (step sys) TerminalStep start before u → TerminalsServed before u) ↔
      ∀ taken ∈ log, taken.2.Serves sys taken.1 := by
  constructor
  · intro hserved
    induction run with
    | start => exact fun _ h => absurd h List.not_mem_nil
    | @step log s s' e run hallowed hstep ih =>
      have hearlier := ih fun before u hbefore => hserved before u (hbefore.trans (List.prefix_append _ _))
      intro taken htaken
      rcases List.mem_append.mp htaken with hmem | hlast
      · exact hearlier taken hmem
      · rw [List.mem_singleton.mp hlast]
        by_contra hspoils
        have htended := run_tended hbooted hterm (run.restrict_and hearlier)
        have hinv := run_inv hbooted (run.mono fun _ _ hallowed => hallowed.1)
        obtain ⟨stack, k⟩ := s
        cases stack with
        | nil => cases hstep
        | cons a rest =>
          have heffect := terminal_effect hinv hallowed.1 hallowed.2 hstep
          exact htended.spoiled hinv hspoils heffect
            (hserved _ s' (List.prefix_refl _) (run.step hallowed hstep)).toServed
  · intro hserves before u hbefore hrun
    exact run_served hbooted hterm (hrun.restrict_and fun taken htaken => hserves taken (hbefore.subset htaken))

/-- The user of the small system presses Alt and Alt+F2, which starts a shell on
    terminal 2. -/
theorem small_second : ∃ start log k shell, Booted small_system start ∧ start.kernel.term = booted zeroed ∧
    Run (step small_system) TerminalStep start log ⟨[shell, small_shell], k⟩ ∧
    log.map (·.2) = [.key (small_frame 0) 0#8 SCAN_ALT, .key (small_frame 0) 0#8 SCAN_FTWO] ∧
    (∀ taken ∈ log, taken.2.Serves small_system taken.1) ∧ k.base = kernel_esp (pid 1) ∧
    k.term.current_terminal = terminal_number 1 := by
  obtain ⟨k, hbooted, hstarted⟩ := small_boot
  have hterm : k.term = booted zeroed := hstarted.term
  have halt := small_alt_step hstarted
  rw [hterm] at halt
  have hinv := hbooted.inv.step (key_terminalStep _ _ 0#8 SCAN_ALT).1 halt
  have hfits : (small_frame 0).Fits k.base := hstarted.base_eq ▸ small_frame_fits 0
  have hfirst : first_free k.processes = some 1 := by
    rw [hstarted.processes]
    decide
  have hflagged : (keyboard_interrupt (keyboard_interrupt (booted zeroed) 0#8 SCAN_ALT).1 0#8 SCAN_FTWO).2 = true :=
    rfl
  obtain ⟨k', hpress, hstarted'⟩ := hinv.toResting.shell_starts hfits small_shell_executable hflagged hfirst
  have hrun :=
    (Run.start.step (key_terminalStep _ _ 0#8 SCAN_ALT) halt).step (key_terminalStep _ _ 0#8 SCAN_FTWO) hpress
  refine ⟨_, _, k', _, hbooted, hterm, hrun, rfl, ?_, hstarted'.base_eq, ?_⟩
  · intro taken htaken
    simp only [List.nil_append, List.cons_append, List.mem_cons, List.not_mem_nil, or_false] at htaken
    rcases htaken with rfl | rfl
    · intro hflag
      rw [show (⟨[small_shell], k⟩ : Config).kernel.term = booted zeroed from hterm] at hflag
      exact absurd hflag (by decide)
    · intro _
      refine ⟨?_, shell_name, rfl, Executable.loadable (command_word_shell.symm ▸ small_shell_executable) _⟩
      change first_free k.processes ≠ none
      rw [hfirst]
      exact Option.some_ne_none 1
  · rw [hstarted'.term]
    rfl

/-- The second shell's terminal is marked, and so it has a process. -/
theorem terminals_served_iff_second : ∃ start log c, Booted small_system start ∧ start.kernel.term = booted zeroed ∧
    Run (step small_system) TerminalStep start log c ∧
    log.map (·.2) = [.key (small_frame 0) 0#8 SCAN_ALT, .key (small_frame 0) 0#8 SCAN_FTWO] ∧
    TerminalsServed log c := by
  obtain ⟨start, log, k, shell, hbooted, hterm, run, hlog, hserves, -, -⟩ := small_second
  exact ⟨start, log, _, hbooted, hterm, run, hlog,
    (terminals_served_iff hbooted hterm run).mpr hserves log _ (List.prefix_refl log) run⟩

/-- In general the marks are not right: when the second shell halts, its terminal
    stays marked, and no process is on it. -/
theorem terminals_not_served : ∃ start log c, Booted small_system start ∧ start.kernel.term = booted zeroed ∧
    Run (step small_system) TerminalStep start log c ∧
    log.map (·.2) =
      [.key (small_frame 0) 0#8 SCAN_ALT, .key (small_frame 0) 0#8 SCAN_FTWO, .halt (small_frame 1) 3#8] ∧
    ¬ TerminalsServed log c := by
  obtain ⟨start, log, k, shell, hbooted, hterm, run, hlog, hserves, hbase, hcurrent⟩ := small_second
  have htended := run_tended hbooted hterm (run.restrict_and hserves)
  have hinv := run_inv hbooted (run.mono fun _ _ hallowed => hallowed.1)
  have hfits : (small_frame 1).Fits k.base := hbase ▸ small_frame_fits 1
  obtain ⟨k', hhalt, -⟩ := hinv.halt_child hfits 3#8
  have hstep := (step_halt hfits).trans hhalt
  have hallowed : TerminalStep ⟨[shell, small_shell], k⟩ (.halt (small_frame 1) 3#8) := ⟨trivial, trivial⟩
  refine ⟨start, _, _, hbooted, hterm, run.step hallowed hstep, by rw [List.map_append, hlog]; rfl, fun hserved => ?_⟩
  have hfirst : k.terminal small_shell = terminal_word 0 :=
    htended.first small_shell (List.mem_cons_of_mem shell (List.mem_singleton_self small_shell)) rfl
  have hnone : ¬ HasProcess ⟨[small_shell], k⟩ 1 := not_hasProcess_alone hfirst (by decide)
  have hshell : k.terminal shell = terminal_word 1 :=
    (hasProcess_cons.mp (htended.shown hcurrent (by decide))).resolve_right hnone
  refine htended.spoiled hinv (fun hspoils => ?_) (terminal_effect hinv hallowed.1 hallowed.2 hstep) hserved.toServed
  exact hnone ((hspoils shell [small_shell] rfl).others 1 (by decide) hshell)

end houseam.process
