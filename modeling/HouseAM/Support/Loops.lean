import Mathlib.Data.Nat.Init

namespace support.loops

variable {State : Type} {running : State → Prop} {body : State → State} {s s' s'' : State} {m n : Nat}

/-- The loop `while (running s) s = body s`, started in a state, ends in another
    after so many passes. -/
inductive Ends (running : State → Prop) (body : State → State) : State → Nat → State → Prop where
  | stop {s : State} (hstop : ¬ running s) : Ends running body s 0 s
  | pass {s s' : State} {n : Nat} (hrunning : running s) (rest : Ends running body (body s) n s') :
      Ends running body s (n + 1) s'

theorem Ends.not_running (ends : Ends running body s n s') : ¬ running s' := by
  induction ends with
  | stop hstop => exact hstop
  | pass _ _ ih => exact ih

/-- A loop ends in one way. -/
theorem Ends.unique (ends : Ends running body s n s') (other : Ends running body s m s'') : n = m ∧ s' = s'' := by
  induction ends generalizing m with
  | stop hstop =>
    cases other with
    | stop => exact ⟨rfl, rfl⟩
    | pass hrunning => exact absurd hrunning hstop
  | pass hrunning _ ih =>
    cases other with
    | stop hstop => exact absurd hrunning hstop
    | pass _ rest =>
      obtain ⟨hpasses, hstate⟩ := ih rest
      exact ⟨congrArg _ hpasses, hstate⟩

/-- Where a loop ends is the one state that it ends in. -/
theorem Ends.ends_iff (ends : Ends running body s n s') : (∃ m, Ends running body s m s'') ↔ s'' = s' := by
  constructor
  · rintro ⟨m, other⟩
    exact (other.unique ends).2
  · rintro rfl
    exact ⟨n, ends⟩

/-- What the passes keep holds where the loop ends. -/
theorem Ends.invariant {motive : State → Prop} (ends : Ends running body s n s')
    (hkeep : ∀ s, motive s → running s → motive (body s)) (hstart : motive s) : motive s' := by
  induction ends with
  | stop => exact hstart
  | pass hrunning _ ih => exact ih (hkeep _ hstart hrunning)

/-- A loop whose passes keep an invariant and decrease a measure ends, in no more
    passes than the measure of the state it starts in. -/
theorem ends_of_decreasing (invariant : State → Prop) (measure : State → Nat)
    (hkeep : ∀ s, invariant s → running s → invariant (body s) ∧ measure (body s) < measure s)
    (hstart : invariant s) : ∃ n s', Ends running body s n s' ∧ invariant s' ∧ n ≤ measure s := by
  induction hmeasure : measure s using Nat.strongRecOn generalizing s with
  | ind size ih =>
    by_cases hrunning : running s
    · obtain ⟨hnext, hless⟩ := hkeep s hstart hrunning
      obtain ⟨n, s', ends, hend, hn⟩ := ih (measure (body s)) (hmeasure ▸ hless) hnext rfl
      exact ⟨n + 1, s', .pass hrunning ends, hend, by omega⟩
    · exact ⟨0, s, .stop hrunning, hstart, Nat.zero_le _⟩

/-- A loop that keeps running under an invariant never ends. -/
theorem not_ends (invariant : State → Prop) (hkeep : ∀ s, invariant s → running s ∧ invariant (body s))
    (hstart : invariant s) : ¬ Ends running body s n s' := by
  intro ends
  induction ends with
  | stop hstop => exact hstop (hkeep _ hstart).1
  | pass _ _ ih => exact ih (hkeep _ hstart).2

/-- The loop, given up after so many passes. -/
def loop (running : State → Prop) [DecidablePred running] (body : State → State) : Nat → State → Option State
  | 0, s => if running s then none else some s
  | n + 1, s => if running s then loop running body n (body s) else some s

/-- It gives what the loop ends in, if that is soon enough. -/
theorem loop_eq_some_iff [DecidablePred running] :
    loop running body n s = some s' ↔ ∃ m, m ≤ n ∧ Ends running body s m s' := by
  induction n generalizing s with
  | zero =>
    unfold loop
    split
    · rename_i hrunning
      refine iff_of_false (fun h => by cases h) ?_
      rintro ⟨m, hm, ends⟩
      cases ends with
      | stop hstop => exact hstop hrunning
      | pass => omega
    · rename_i hstop
      constructor
      · rintro ⟨⟩
        exact ⟨0, Nat.le_refl 0, .stop hstop⟩
      · rintro ⟨m, -, ends⟩
        exact congrArg some ((Ends.stop hstop).unique ends).2
  | succ n ih =>
    unfold loop
    split
    · rename_i hrunning
      rw [ih]
      constructor
      · rintro ⟨m, hm, ends⟩
        exact ⟨m + 1, Nat.succ_le_succ hm, .pass hrunning ends⟩
      · rintro ⟨m, hm, ends⟩
        cases ends with
        | stop hstop => exact absurd hrunning hstop
        | pass _ rest => exact ⟨_, Nat.le_of_succ_le_succ hm, rest⟩
    · rename_i hstop
      constructor
      · rintro ⟨⟩
        exact ⟨0, Nat.zero_le _, .stop hstop⟩
      · rintro ⟨m, -, ends⟩
        exact congrArg some ((Ends.stop hstop).unique ends).2

/-! Passes that can fault. -/

/-- What runs once a pass has faulted runs for ever. -/
def stillRunning (running : State → Prop) : Option State → Prop
  | none => True
  | some s => running s

instance [DecidablePred running] : DecidablePred (stillRunning running)
  | none => isTrue trivial
  | some s => inferInstanceAs (Decidable (running s))

/-- A pass that its state lets through, or the fault that it takes instead. -/
def guarded (fits : State → Prop) [DecidablePred fits] (body : State → State) : Option State → Option State
  | none => none
  | some s => if fits s then some (body s) else none

/-- The loop as above, with a fault in every pass that does not fit. -/
def FaultingEnds (fits : State → Prop) [DecidablePred fits] (running : State → Prop) (body : State → State)
    (s : State) (n : Nat) (s' : State) : Prop :=
  Ends (stillRunning running) (guarded fits body) (some s) n (some s')

section Faulting

variable {fits : State → Prop} [DecidablePred fits]

/-- A fault is never over. -/
theorem not_ends_fault {o : Option State} : ¬ Ends (stillRunning running) (guarded fits body) none n o :=
  not_ends (fun o => o = none) (fun o ho => by rw [ho]; exact ⟨trivial, rfl⟩) rfl

/-- A loop that ends has made the passes of the one without faults, and each one
    has fitted. -/
theorem FaultingEnds.ends (ends : FaultingEnds fits running body s n s') : Ends running body s n s' := by
  induction n generalizing s with
  | zero =>
    cases ends with
    | stop hstop => exact .stop hstop
  | succ n ih =>
    cases ends with
    | pass hrunning rest =>
      rw [guarded] at rest
      split at rest
      · exact .pass hrunning (ih rest)
      · exact absurd rest not_ends_fault

/-- A loop whose passes fit under an invariant ends where it does without faults. -/
theorem Ends.faulting (ends : Ends running body s n s') (invariant : State → Prop)
    (hkeep : ∀ s, invariant s → running s → fits s ∧ invariant (body s)) (hstart : invariant s) :
    FaultingEnds fits running body s n s' := by
  induction ends with
  | stop hstop => exact .stop hstop
  | pass hrunning _ ih =>
    obtain ⟨hfits, hnext⟩ := hkeep _ hstart hrunning
    refine .pass hrunning ?_
    rw [guarded, if_pos hfits]
    exact ih hnext

/-- A loop never ends that keeps running under an invariant for as long as its
    passes fit. -/
theorem not_faultingEnds (invariant : State → Prop)
    (hkeep : ∀ s, invariant s → running s ∧ (fits s → invariant (body s))) (hstart : invariant s) :
    ¬ FaultingEnds fits running body s n s' := by
  refine not_ends (fun o => ∀ s, o = some s → invariant s) (fun o ho => ?_) (fun s hs => by cases hs; exact hstart)
  cases o with
  | none => exact ⟨trivial, fun s hs => by cases hs⟩
  | some s =>
    obtain ⟨hrunning, hnext⟩ := hkeep s (ho s rfl)
    refine ⟨hrunning, fun next hmade => ?_⟩
    rw [guarded] at hmade
    split at hmade
    · rename_i hfits
      cases hmade
      exact hnext hfits
    · cases hmade

end Faulting

end support.loops
