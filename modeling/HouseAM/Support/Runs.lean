import Mathlib.Data.List.Basic

namespace support.runs

variable {State Event : Type} {step : State → Event → Option State}
  {allowed permitted : State → Event → Prop} {start : State}

/-- The finite runs of a machine from a start state whose every step is
    allowed in the state it is taken from. The log lists each step's state and
    event, oldest first. -/
inductive Run (step : State → Event → Option State) (allowed : State → Event → Prop) (start : State) :
    List (State × Event) → State → Prop where
  | start : Run step allowed start [] start
  | step {log : List (State × Event)} {s s' : State} {e : Event} (run : Run step allowed start log s)
      (hallowed : allowed s e) (hstep : step s e = some s') : Run step allowed start (log ++ [(s, e)]) s'

/-- A property of the log and the state that every allowed step keeps holds in
    every state reached. -/
theorem Run.invariant {motive : List (State × Event) → State → Prop} (hstart : motive [] start)
    (hkeep : ∀ log s e s', Run step allowed start log s → motive log s → allowed s e → step s e = some s' →
      motive (log ++ [(s, e)]) s')
    {log : List (State × Event)} {s : State} (run : Run step allowed start log s) : motive log s := by
  induction run with
  | start => exact hstart
  | step run hallowed hstep ih => exact hkeep _ _ _ _ run ih hallowed hstep

/-- Each step in the log was allowed, and taken from a state that the steps
    before it reach. -/
theorem Run.before {log : List (State × Event)} {s : State} (run : Run step allowed start log s)
    {before after : List (State × Event)} {u : State} {e : Event} (hlog : log = before ++ (u, e) :: after) :
    Run step allowed start before u ∧ allowed u e := by
  induction run generalizing after with
  | start => simp at hlog
  | @step log s s' last run hallowed hstep ih =>
    rcases List.eq_nil_or_concat after with rfl | ⟨rest, taken, rfl⟩
    · obtain ⟨rfl, hlast⟩ := List.append_inj' hlog rfl
      simp only [List.cons.injEq, Prod.mk.injEq, and_true] at hlast
      obtain ⟨rfl, rfl⟩ := hlast
      exact ⟨run, hallowed⟩
    · have hsplit : log ++ [(s, last)] = (before ++ (u, e) :: rest) ++ [taken] := by simpa using hlog
      exact ih (List.append_inj' hsplit rfl).1

/-- What follows a step of the log is a run from the state the step led to. -/
theorem Run.after {log : List (State × Event)} {s : State} (run : Run step allowed start log s)
    {before after : List (State × Event)} {u : State} {e : Event} (hlog : log = before ++ (u, e) :: after) :
    ∃ v, step u e = some v ∧ Run step allowed v after s := by
  induction run generalizing after with
  | start => simp at hlog
  | @step log s s' last run hallowed hstep ih =>
    rcases List.eq_nil_or_concat after with rfl | ⟨rest, taken, rfl⟩
    · obtain ⟨rfl, hlast⟩ := List.append_inj' hlog rfl
      simp only [List.cons.injEq, Prod.mk.injEq, and_true] at hlast
      obtain ⟨rfl, rfl⟩ := hlast
      exact ⟨s', hstep, .start⟩
    · have hsplit : log ++ [(s, last)] = (before ++ (u, e) :: rest) ++ [taken] := by simpa using hlog
      obtain ⟨hrest, hlast⟩ := List.append_inj' hsplit rfl
      obtain ⟨v, hfirst, hrun⟩ := ih hrest
      simp only [List.cons.injEq, and_true] at hlast
      subst hlast
      exact ⟨v, hfirst, by simpa using hrun.step hallowed hstep⟩

/-- A run of no steps ends where it starts. -/
theorem Run.eq_start {s : State} (run : Run step allowed start [] s) : s = start := by
  generalize hlog : [] = log at run
  cases run with
  | start => rfl
  | step => simp at hlog

/-- One run behind another. -/
theorem Run.trans {earlier log : List (State × Event)} {s s' : State} (run : Run step allowed start earlier s)
    (later : Run step allowed s log s') : Run step allowed start (earlier ++ log) s' := by
  induction later with
  | start => rwa [List.append_nil]
  | step later hallowed hstep ih =>
    rw [← List.append_assoc]
    exact ih.step hallowed hstep

/-- The last step of a run. -/
theorem Run.last {log : List (State × Event)} {s s' : State} {e : Event}
    (run : Run step allowed start (log ++ [(s, e)]) s') :
    Run step allowed start log s ∧ allowed s e ∧ step s e = some s' := by
  obtain ⟨hearlier, hallowed⟩ := run.before rfl
  obtain ⟨v, hstep, hrest⟩ := run.after rfl
  rw [hrest.eq_start]
  exact ⟨hearlier, hallowed, hstep⟩

/-- A run whose every logged step meets a condition is a run under it. -/
theorem Run.restrict {log : List (State × Event)} {s : State} (run : Run step allowed start log s)
    (hlog : ∀ taken ∈ log, permitted taken.1 taken.2) : Run step permitted start log s := by
  induction run with
  | start => exact .start
  | step run hallowed hstep ih =>
    exact .step (ih fun taken htaken => hlog taken (List.mem_append_left _ htaken))
      (hlog _ (List.mem_append_right _ (List.mem_singleton_self _))) hstep

/-- Its steps still meet the condition they were taken under. -/
theorem Run.restrict_and {log : List (State × Event)} {s : State} (run : Run step allowed start log s)
    (hlog : ∀ taken ∈ log, permitted taken.1 taken.2) :
    Run step (fun s e => allowed s e ∧ permitted s e) start log s := by
  induction run with
  | start => exact .start
  | step run hallowed hstep ih =>
    exact .step (ih fun taken htaken => hlog taken (List.mem_append_left _ htaken))
      ⟨hallowed, hlog _ (List.mem_append_right _ (List.mem_singleton_self _))⟩ hstep

/-- Allowing more steps only adds runs. -/
theorem Run.mono (hweaker : ∀ s e, allowed s e → permitted s e)
    {log : List (State × Event)} {s : State} (run : Run step allowed start log s) :
    Run step permitted start log s := by
  induction run with
  | start => exact .start
  | step run hallowed hstep ih => exact .step ih (hweaker _ _ hallowed) hstep

end support.runs
