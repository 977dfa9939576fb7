import HouseAM.Process.Invariant

open houseam.filesystem houseam.paging houseam.system_call houseam.terminal support.paging support.runs

namespace houseam.process

variable {sys : System} {k k' : Kernel} {f : Frame} {e : Event} {command : Option CString} {a b : Activation}
  {rest : List Activation} {start c c' : Config} {log : List (Config × Event)} {status : Byte}

/-- Process `a` was started by a call of `sys_execute` in the log, which process
    `b` has been in since then: the state the call was made in, and no later
    state without `a` on top of `b`. -/
structure StartedAt (log : List (Config × Event)) (a b : Activation) (rest : List Activation) (u : Config) : Prop where
  caller : u.stack = b :: rest
  logged : ∃ before e after, log = before ++ (u, e) :: after ∧ e.Calls u.kernel a.frame a.command ∧
    ∀ later ∈ after, a :: b :: rest <:+ later.1.stack

/-- Each live process but the first is in the call that started the one above
    it, with the PCB it had then. -/
def Waiting (log : List (Config × Event)) (c : Config) : Prop :=
  ∀ a b rest, a :: b :: rest <:+ c.stack →
    ∃ u, StartedAt log a b rest u ∧ c.kernel.pcb b.process_id = u.kernel.pcb b.process_id

theorem StartedAt.later {u : Config} (hstarted : StartedAt log a b rest u) (hstack : a :: b :: rest <:+ c.stack)
    (e : Event) : StartedAt (log ++ [(c, e)]) a b rest u := by
  obtain ⟨before, call, after, hlog, hcalls, hlater⟩ := hstarted.logged
  refine ⟨hstarted.caller, before, call, after ++ [(c, e)], by simp [hlog], hcalls, ?_⟩
  intro later hmem
  rcases List.mem_append.mp hmem with h | h
  · exact hlater later h
  · rw [List.mem_singleton.mp h]
    exact hstack

theorem mem_tail_of_suffix {stack : List Activation} (hsuffix : a :: b :: rest <:+ stack) : b ∈ stack.tail := by
  obtain ⟨before, rfl⟩ := hsuffix
  cases before with
  | nil => exact List.mem_cons_self
  | cons first before => exact List.mem_append_right _ (List.mem_cons_of_mem a List.mem_cons_self)

/-- A step that starts no process keeps the PCBs of the waiting processes. -/
theorem Waiting.keep (hwaiting : Waiting log c) (e : Event) (hstack : c'.stack <:+ c.stack)
    (hpcbs : ∀ b ∈ c'.stack.tail, c'.kernel.pcb b.process_id = c.kernel.pcb b.process_id) :
    Waiting (log ++ [(c, e)]) c' := by
  intro a b rest hsuffix
  obtain ⟨u, hstarted, hpcb⟩ := hwaiting a b rest (hsuffix.trans hstack)
  exact ⟨u, hstarted.later (hsuffix.trans hstack) e, (hpcbs b (mem_tail_of_suffix hsuffix)).trans hpcb⟩

/-- A started process is on top of the one that made the call. -/
theorem Waiting.started {started : Activation} (hwaiting : Waiting log ⟨a :: rest, k⟩)
    (hcalls : e.Calls k started.frame started.command)
    (hpcbs : ∀ b ∈ a :: rest, k'.pcb b.process_id = k.pcb b.process_id) :
    Waiting (log ++ [(⟨a :: rest, k⟩, e)]) ⟨started :: a :: rest, k'⟩ := by
  intro upper lower below hsuffix
  rcases List.suffix_cons_iff.mp hsuffix with hall | hold
  · cases hall
    refine ⟨⟨a :: rest, k⟩, ⟨rfl, log, e, [], rfl, hcalls, ?_⟩, hpcbs a List.mem_cons_self⟩
    exact fun later hmem => nomatch hmem
  · have hkept : Waiting (log ++ [(⟨a :: rest, k⟩, e)]) ⟨a :: rest, k'⟩ :=
      hwaiting.keep e (List.suffix_refl _) fun b hb => hpcbs b (List.mem_cons_of_mem a hb)
    exact hkept upper lower below hold

theorem Waiting.short {stack : List Activation} (hshort : stack.length ≤ 1) (log : List (Config × Event))
    (k : Kernel) :
    Waiting log ⟨stack, k⟩ := by
  intro a b rest hsuffix
  have hle := hsuffix.length_le
  simp only [List.length_cons] at hle
  omega

theorem Waiting.step (hwaiting : Waiting log c) (hinv : Inv sys c) (hbounded : e.Bounded BUFFER_SIZE c.kernel)
    (hstep : process.step sys c e = some c') : Waiting (log ++ [(c, e)]) c' := by
  obtain ⟨stack, k⟩ := c
  cases stack with
  | nil => cases hstep
  | cons a rest =>
    have hother (b : Activation) (hb : b ∈ rest) : b.process_id ≠ a.process_id := hinv.linked.ne_head hb
    cases step_effect hinv (hbounded.mono (by decide)) hstep with
    | own _ _ hothers =>
      exact hwaiting.keep e (List.suffix_refl _) fun b hb => hothers _ (hother b hb)
    | returned term hcalls _ hreturned =>
      have hroom : process.Bounded SLOT_ROOM k _ := hcalls.bounded (hbounded.mono (by decide))
      refine hwaiting.keep e (List.suffix_refl _) fun b hb => hreturned.others hroom _ ?_
      exact hinv.linked.busy (List.mem_cons_of_mem a hb)
    | started term hcalls _ hstarted =>
      have hroom : process.Bounded SLOT_ROOM k _ := hcalls.bounded (hbounded.mono (by decide))
      refine hwaiting.started hcalls fun b hb => hstarted.others (hroom.short hstarted.first) _ ?_
      exact hinv.linked.ne_free hb (first_free_zero hstarted.first)
    | @resumed b below _ _ _ hrest _ _ hresumed =>
      refine hwaiting.keep e (List.suffix_cons a rest) fun d hd => hresumed.pcbs _ (hother d (List.mem_of_mem_tail hd))
    | restarted _ _ _ _ => exact Waiting.short (by simp) _ _
    | emptied _ _ _ _ _ => exact Waiting.short (by simp) _ _

/-- The processes whose calls of `sys_execute` a run has not ended yet. -/
theorem run_waiting (hbooted : Booted sys start)
    (run : Run (process.step sys) (fun c e => e.Bounded BUFFER_SIZE c.kernel) start log c) : Waiting log c := by
  refine run.invariant (motive := fun log c => Waiting log c) ?_ ?_
  · obtain ⟨k, f, k', -, -, rfl⟩ := booted_cases hbooted
    exact Waiting.short (by simp) [] k'
  · intro log s e s' run' hwaiting hbounded hstep
    exact hwaiting.step (run_inv hbooted (run'.mono fun _ _ h => h.mono (by decide))) hbounded hstep

/-- Process `a` halts into the call of `sys_execute` that started it: that call
    returns the status on the caller's kernel stack, with the caller's PCB as it
    was when the call was made. -/
structure Resumes (log : List (Config × Event)) (a b : Activation) (rest : List Activation) (status : Byte)
    (k' : Kernel) : Prop where
  call : ∃ u, StartedAt log a b rest u ∧ k'.pcb b.process_id = u.kernel.pcb b.process_id
  returns : k'.cpu = ⟨false, a.frame.ret, a.frame.ebp + 8#32, a.frame.saved_ebp, status.setWidth 32⟩
  esp0 : k'.esp0 = EIGHTMB - EIGHTKB * pid b.process_id - 4#32
  get_pcb : ∀ esp, block esp = block k'.cpu.esp → get_pcb esp = proc_block b.process_id
  proc_num : (k'.pcb b.process_id).proc_num = pid b.process_id

/-- The live processes as a stack: there is always one, a halt resumes the
    process below, and a halt of the last one restarts the shell in slot 0. -/
structure HaltsResume (sys : System) (log : List (Config × Event)) (c : Config) : Prop where
  running : c.stack ≠ []
  distinct : (c.stack.map (·.process_id)).Nodup
  resumes : ∀ a b rest f status, c.stack = a :: b :: rest → f.Fits c.kernel.base →
    a.process_id ≠ 0 ∧ ∃ k', step sys c (.halt f status) = some ⟨b :: rest, k'⟩ ∧ Resumes log a b rest status k'
  restarts : ∀ a f status, c.stack = [a] → f.Fits c.kernel.base →
    a.process_id = 0 ∧ ∃ k', step sys c (.halt f status) = some ⟨[⟨0, f, some shell_name, c.kernel.pcb 0⟩], k'⟩ ∧
      Started sys f shell_name 0 (c.kernel.halted f 0) k'

theorem Inv.running {d : dentry_t} (hinv : Inv sys c) (hshell : Executable sys.img shell_name d)
    (hbounded : e.Bounded NUMBER_ROOM c.kernel) (hstep : process.step sys c e = some c') : c'.stack ≠ [] := by
  obtain ⟨stack, k⟩ := c
  cases stack with
  | nil => cases hstep
  | cons a rest =>
    cases step_effect hinv hbounded hstep with
    | own => exact List.cons_ne_nil a rest
    | returned => exact List.cons_ne_nil a rest
    | started => exact List.cons_ne_nil _ _
    | resumed hrest => exact hrest ▸ List.cons_ne_nil _ _
    | restarted => exact List.cons_ne_nil _ _
    | emptied _ _ _ _ hfails =>
      exact absurd (Executable.loadable (command_word_shell.symm ▸ hshell) _) hfails

theorem Inv.resumes {status : Byte} (hinv : Inv sys ⟨a :: b :: rest, k⟩) (hwaiting : Waiting log ⟨a :: b :: rest, k⟩)
    (hresumed : Resumed a b f status k k') : Resumes log a b rest status k' := by
  have hb : b.process_id ≠ a.process_id := hinv.linked.ne_head List.mem_cons_self
  have hpcb := hresumed.pcbs b.process_id hb
  obtain ⟨u, hstarted, hsame⟩ := hwaiting a b rest (List.suffix_refl _)
  refine ⟨⟨u, hstarted, hpcb.trans hsame⟩, hresumed.cpu, hresumed.esp0, ?_, ?_⟩
  · intro esp hblock
    rw [hresumed.cpu] at hblock
    exact get_pcb_eq (hblock.trans hinv.linked.2.2.1.block_after)
  · rw [hpcb]
    exact hinv.linked.tail.head.proc_num

/-- In every run from boot of an image with a valid shell, with command words
    under 1000 and argument texts under 128 characters. -/
theorem halts_resume {d : dentry_t} (hshell : Executable sys.img shell_name d) (hbooted : Booted sys start)
    (run : Run (step sys) (fun c e => e.Bounded BUFFER_SIZE c.kernel) start log c) : HaltsResume sys log c := by
  have hinv := run_inv hbooted (run.mono fun _ _ h => h.mono (by decide))
  have hwaiting := run_waiting hbooted run
  have hrunning : c.stack ≠ [] := by
    refine run.invariant (motive := fun _ c => c.stack ≠ []) ?_ ?_
    · obtain ⟨k, f, k', -, -, rfl⟩ := booted_cases hbooted
      exact List.cons_ne_nil _ _
    · intro log s e s' run' _ hbounded hstep
      have hinv' := run_inv hbooted (run'.mono fun _ _ h => h.mono (by decide))
      exact hinv'.running hshell (hbounded.mono (by decide)) hstep
  refine ⟨hrunning, hinv.linked.nodup, ?_, ?_⟩
  · obtain ⟨stack, k⟩ := c
    rintro a b rest f status rfl hfits
    obtain ⟨zero, hzeroMem, hzero⟩ := hinv.linked.tail.zero_mem (List.cons_ne_nil b rest)
    obtain ⟨k', hhalt, hresumed⟩ := hinv.halt_child hfits status
    refine ⟨?_, k', (step_halt hfits).trans hhalt, hinv.resumes hwaiting hresumed⟩
    rw [← hzero]
    exact (hinv.linked.ne_head hzeroMem).symm
  · obtain ⟨stack, k⟩ := c
    rintro a f status rfl hfits
    exact ⟨hinv.linked.2, hinv.restarts hshell hfits status⟩

/-- The shell executes the shell, which halts again: with two live processes, and
    with one. -/
theorem halts_resume_shell : ∃ start u c a b, Booted small_system start ∧ u.stack = [a, b] ∧
    Run (step small_system) (fun c e => e.Bounded BUFFER_SIZE c.kernel) start
      [(start, .execute (small_frame 0) (some shell_name)), (u, .halt (small_frame 1) 3#8)] c ∧
    HaltsResume small_system [(start, .execute (small_frame 0) (some shell_name))] u ∧
    HaltsResume small_system
      [(start, .execute (small_frame 0) (some shell_name)), (u, .halt (small_frame 1) 3#8)] c := by
  obtain ⟨start, u, c, a, b, hbooted, hstack, hexecuted, hhalted⟩ := small_steps
  have hearlier : Run (step small_system) (fun c e => e.Bounded BUFFER_SIZE c.kernel) start
      [(start, .execute (small_frame 0) (some shell_name))] u :=
    Run.start.step (Or.inr (shell_name_short BUFFER_SIZE)) hexecuted
  have hhalts : (Event.halt (small_frame 1) 3#8).Bounded BUFFER_SIZE u.kernel := trivial
  have run := hearlier.step hhalts hhalted
  exact ⟨start, u, c, a, b, hbooted, hstack, run, halts_resume small_shell_executable hbooted hearlier,
    halts_resume small_shell_executable hbooted run⟩

end houseam.process
