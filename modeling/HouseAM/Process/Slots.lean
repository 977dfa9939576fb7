import HouseAM.Process.Invariant

open houseam.filesystem houseam.paging houseam.system_call houseam.terminal support.paging support.runs

namespace houseam.process

variable {sys : System} {k k' : Kernel} {f : Frame} {e : Event} {command : Option CString} {a : Activation}
  {rest : List Activation} {start c c' : Config} {log : List (Config × Event)}

/-- A step whose call of `sys_execute`, if it makes one, claims no slot that it
    would have to give back: there is no command or no free slot, or the command
    is short and names an ELF file. -/
def Event.Keeps (sys : System) (k : Kernel) (e : Event) : Prop :=
  e.Bounded NUMBER_ROOM k ∧
  (∀ f c, e.Calls k f (some c) → first_free k.processes = none ∨ Loadable sys f c) ∧
  ∀ f status, e = .halt f status → (k.pcbs (get_pcb f.esp)).proc_num = 0#32 → Loadable sys f shell_name

/-- Slots that no live process has are free. -/
def Exact (c : Config) : Prop :=
  ∀ i, (∀ a ∈ c.stack, a.process_id ≠ i) → c.kernel.processes i = 0#32

theorem Booted.exact (hbooted : Booted sys c) : Exact c := by
  obtain ⟨k, f, k', hboot, hstarted, rfl⟩ := booted_cases hbooted
  intro i hi
  have hne : i ≠ 0 := (hi _ (List.mem_singleton_self _)).symm
  change k'.processes i = 0#32
  rw [hstarted.processes, Function.update_of_ne hne, hboot.processes]

/-- A started process has the slot its call claimed. -/
theorem Exact.started {command : CString} {q : Fin 6} {rest : List Activation} (hexact : Exact ⟨rest, k⟩)
    (hstarted : Started sys f command q k k')
    (started : Activation) (hq : started.process_id = q) : Exact ⟨started :: rest, k'⟩ := by
  intro i hi
  have hne : i ≠ q := by
    rw [← hq]
    exact (hi started List.mem_cons_self).symm
  change k'.processes i = 0#32
  rw [hstarted.processes, Function.update_of_ne hne]
  exact hexact i fun b hb => hi b (List.mem_cons_of_mem started hb)

/-- After the only process has freed its slot, all six are free. -/
theorem Exact.halted (hexact : Exact ⟨[a], k⟩) (hzero : a.process_id = 0) (f : Frame) : Exact ⟨[], k.halted f 0⟩ := by
  intro i _
  change Function.update k.processes 0 0#32 i = 0#32
  by_cases hi : i = 0
  · rw [hi, Function.update_self]
  · rw [Function.update_of_ne hi]
    refine hexact i fun b hb => ?_
    rw [List.mem_singleton.mp hb, hzero]
    exact fun h => hi h.symm

/-- A call that returned -1 without a claim leaves the table alone. -/
theorem Returned.processes_eq (hreturned : Returned sys f command k k')
    (hkeeps : ∀ c, command = some c → first_free k.processes = none ∨ Loadable sys f c) :
    k'.processes = k.processes := by
  rcases hreturned.processes with ⟨heq, -⟩ | ⟨q, c, hc, hfails, hfirst, -⟩
  · exact heq
  · rcases hkeeps c hc with hfull | hloadable
    · rw [hfirst] at hfull
      cases hfull
    · exact absurd hloadable hfails

theorem Exact.step (hexact : Exact c) (hinv : Inv sys c) (hkeeps : e.Keeps sys c.kernel)
    (hstep : process.step sys c e = some c') : Exact c' := by
  obtain ⟨stack, k⟩ := c
  cases stack with
  | nil => cases hstep
  | cons a rest =>
    cases step_effect hinv hkeeps.1 hstep with
    | own _ hprocesses =>
      intro i hi
      exact (congrFun hprocesses i).trans (hexact i hi)
    | returned term hcalls _ hreturned =>
      have hsame := hreturned.processes_eq fun c hc => hkeeps.2.1 _ c (hc ▸ hcalls)
      intro i hi
      exact (congrFun hsame i).trans (hexact i hi)
    | started term _ _ hstarted =>
      exact Exact.started (k := { k with term := term }) hexact hstarted _ rfl
    | resumed _ _ _ hresumed =>
      intro i hi
      change _ = 0#32
      rw [hresumed.processes]
      by_cases hown : i = a.process_id
      · rw [hown, Function.update_self]
      · rw [Function.update_of_ne hown]
        refine hexact i fun b hb => ?_
        rcases List.mem_cons.mp hb with rfl | hmem
        · exact fun h => hown h.symm
        · exact hi b hmem
    | restarted hrest _ _ hstarted =>
      subst hrest
      exact (hexact.halted hinv.linked.2 _).started hstarted _ rfl
    | emptied hrest he hfits _ hfails =>
      subst hrest
      refine absurd (hkeeps.2.2 _ _ he ?_) hfails
      have hpcb := get_pcb_eq (hfits.block_eq.trans (hinv.place a [] rfl))
      have hnum : (k.pcb a.process_id).proc_num = pid 0 := hinv.linked.2 ▸ hinv.linked.head.proc_num
      rw [hpcb]
      exact hnum

/-- What the process table is for: an entry is 1 exactly when the slot holds a
    process that was started and has not halted, a failed call leaves the table
    alone, and no slot is free only when six processes are live. -/
structure SlotTable (sys : System) (c : Config) : Prop where
  claimed : ∀ i, c.kernel.processes i = 1#32 ↔ ∃ a ∈ c.stack, a.process_id = i
  free : ∀ i, c.kernel.processes i = 0#32 ↔ ¬ ∃ a ∈ c.stack, a.process_id = i
  failed : ∀ f command k', c.stack ≠ [] → f.Fits c.kernel.base → (Event.execute f command).Keeps sys c.kernel →
    sys_execute sys f command c.kernel = some (k', none) → k'.processes = c.kernel.processes
  full : first_free c.kernel.processes = none → c.stack.length = 6

/-- The entries of the live processes are 1, and of the other slots 0. -/
theorem Exact.claimed_iff (hexact : Exact c) (hinv : Inv sys c) (i : Fin 6) :
    c.kernel.processes i = 1#32 ↔ ∃ a ∈ c.stack, a.process_id = i := by
  constructor
  · intro hclaimed
    by_contra hnone
    rw [hexact i fun a ha h => hnone ⟨a, ha, h⟩] at hclaimed
    exact absurd hclaimed (by decide)
  · rintro ⟨a, ha, rfl⟩
    exact (hinv.linked.live ha).claimed

theorem Exact.free_iff (hexact : Exact c) (hinv : Inv sys c) (i : Fin 6) :
    c.kernel.processes i = 0#32 ↔ ¬ ∃ a ∈ c.stack, a.process_id = i := by
  constructor
  · rintro hfree ⟨a, ha, hi⟩
    exact hinv.linked.ne_free ha hfree hi
  · exact fun hnone => hexact i fun a ha h => hnone ⟨a, ha, h⟩

/-- Without a free slot all six processes are live. -/
theorem Exact.full (hexact : Exact c) (hinv : Inv sys c) (hfirst : first_free c.kernel.processes = none) :
    c.stack.length = 6 := by
  have hlive : List.finRange 6 ⊆ c.stack.map (·.process_id) := by
    intro i _
    by_contra hnone
    refine first_free_none hfirst i (hexact i fun a ha h => hnone ?_)
    exact h ▸ List.mem_map_of_mem ha
  have hmost := (hinv.linked.nodup.subperm fun i _ => List.mem_finRange i).length_le
  have hleast := ((List.nodup_finRange 6).subperm hlive).length_le
  simp only [List.length_map, List.length_finRange] at hmost hleast
  omega

/-- In every run from boot whose calls of `sys_execute` are NULL, find no free
    slot, or are short and name an ELF file, the table says which processes are
    live. -/
theorem slot_table (hbooted : Booted sys start)
    (run : Run (step sys) (fun c e => e.Keeps sys c.kernel) start log c) : SlotTable sys c := by
  have hinv := run_inv hbooted (run.mono fun _ _ hkeeps => hkeeps.1)
  have hexact : Exact c := by
    refine run.invariant (motive := fun _ c => Exact c) hbooted.exact ?_
    intro log s e s' run' hexact hkeeps hstep
    exact hexact.step (run_inv hbooted (run'.mono fun _ _ h => h.1)) hkeeps hstep
  refine ⟨hexact.claimed_iff hinv, hexact.free_iff hinv, ?_, hexact.full hinv⟩
  obtain ⟨stack, k⟩ := c
  intro f command k' hne hfits hkeeps hcall
  cases stack with
  | nil => exact absurd rfl hne
  | cons a rest =>
    rcases sys_execute_cases hfits hkeeps.1 (hinv.placed hfits command) hcall with ⟨-, hreturned⟩ | ⟨_, _, -, hsome, -⟩
    · exact hreturned.processes_eq fun c hc => hkeeps.2.1 f c ⟨rfl, hc⟩
    · cases hsome

/-- With a free slot, a command that names no ELF file returns -1 and leaves the
    slot claimed. -/
theorem Inv.execute_leaks {c : CString} {q : Fin 6} (hinv : Inv sys ⟨a :: rest, k⟩) (hfits : f.Fits k.base)
    (hshort : Short NUMBER_ROOM (some c)) (hfails : ¬ Loadable sys f c) (hfirst : first_free k.processes = some q) :
    ∃ k', process.step sys ⟨a :: rest, k⟩ (.execute f (some c)) = some ⟨a :: rest, k'⟩ ∧
      k'.processes = Function.update k.processes q 1#32 := by
  have hplaced := hinv.placed hfits (some c)
  obtain ⟨k', hcall⟩ := sys_execute_fails hshort hplaced hfails hfirst
  refine ⟨k', by rw [step_execute hfits, execute, hcall], ?_⟩
  rcases sys_execute_cases hfits (Or.inr hshort) hplaced hcall with ⟨-, hreturned⟩ | ⟨_, _, -, hsome, -⟩
  · rcases hreturned.processes with ⟨-, hnone | hfull⟩ | ⟨q', c', -, -, hfirst', hprocesses⟩
    · cases hnone
    · rw [hfirst] at hfull
      cases hfull
    · rw [hfirst] at hfirst'
      cases hfirst'
      exact hprocesses
  · cases hsome

/-- The text in the small image is no ELF file. -/
theorem frame0_not_loadable (f : Frame) : ¬ Loadable small_system f frame0_name := by
  rintro ⟨d, hfound, helf⟩
  have hentry : read_dentry_by_name small_system.img (some (command_word frame0_name)) =
      some (copy_dentry (small_image.direntries 2)) := rfl
  rw [hentry] at hfound
  cases hfound
  have hread : read_data small_system.img (copy_dentry (small_image.direntries 2)).inode_num 0#32 HEADER_BUF_SIZE =
      (3, [0x61#8, 0x62#8, 0x63#8]) := by decide
  simp only [is_elf, hread] at helf
  simp at helf

/-- The shell executes the shell, which halts again. -/
theorem slot_table_shell : ∃ start log c, Booted small_system start ∧
    Run (step small_system) (fun c e => e.Keeps small_system c.kernel) start log c ∧
    log.map (·.2) = [.execute (small_frame 0) (some shell_name), .halt (small_frame 1) 3#8] ∧
    SlotTable small_system c := by
  have hloadable (f : Frame) : Loadable small_system f shell_name :=
    Executable.loadable (command_word_shell.symm ▸ small_shell_executable) f
  have hexecute (k : Kernel) : (Event.execute (small_frame 0) (some shell_name)).Keeps small_system k := by
    refine ⟨Or.inr (shell_name_short NUMBER_ROOM), ?_, fun f status h => nomatch h⟩
    rintro f c ⟨-, hc⟩
    cases hc
    exact Or.inr (hloadable f)
  have hhalt (k : Kernel) : (Event.halt (small_frame 1) 3#8).Keeps small_system k :=
    ⟨trivial, fun _ _ h => h.elim, fun f _ _ _ => hloadable f⟩
  obtain ⟨start, log, c, hbooted, run, hlog⟩ := small_run (fun c e => e.Keeps small_system c.kernel)
    (fun c => hexecute c.kernel) fun c => hhalt c.kernel
  exact ⟨start, log, c, hbooted, run, hlog, slot_table hbooted run⟩

/-- In general the table is not kept: a command that names a file other than an
    executable leaves slot 1 claimed for no process. -/
theorem slot_table_leaks : ∃ start log c, Booted small_system start ∧
    Run (step small_system) (fun _ _ => True) start log c ∧
    log.map (·.2) = [.execute (small_frame 0) (some frame0_name)] ∧ ¬ SlotTable small_system c := by
  obtain ⟨k, hbooted, hstarted⟩ := small_boot
  have hfirst : first_free k.processes = some 1 := by
    rw [hstarted.processes]
    decide
  obtain ⟨k', hstep, hprocesses⟩ := hbooted.inv.execute_leaks (hstarted.base_eq ▸ small_frame_fits 0)
    (short_of_no_text (by decide) (by decide) NUMBER_ROOM) (frame0_not_loadable _) hfirst
  refine ⟨_, _, _, hbooted, Run.start.step trivial hstep, rfl, fun htable => ?_⟩
  obtain ⟨b, hb, hone⟩ := (htable.claimed 1).mp (by rw [hprocesses, Function.update_self])
  rw [List.mem_singleton.mp hb] at hone
  exact absurd hone (by decide)

end houseam.process
