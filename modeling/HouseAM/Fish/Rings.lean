import HouseAM.Fish.Blinkers
import HouseAM.Support.Runs

open support.loops support.chains support.runs

namespace houseam.fish

variable {s s' u : fish_t} {cells : List (Fin 2000)} {i : Fin 2000} {log : List (fish_t × Request)} {e : Request}
  {vmem : Nat → Byte}

/-- A call that returns. -/
def step (s : fish_t) (e : Request) : Option fish_t := (serve s e).map (·.2)

/-- The list comes to a null pointer. -/
def ListEnds (s : fish_t) : Prop := ∃ cells, Chain s.links s.mp1_list_head cells

/-- An add is given a structure that is on the list. -/
def Overwrites (s : fish_t) (e : Request) : Prop :=
  ∃ arg i cells, e = .add arg ∧ arg.location.toNat < SCREEN_CELLS ∧ mp1_malloc s = some i ∧
    Chain s.links s.mp1_list_head cells ∧ i ∈ cells

/-- The clock gets through the lists that end, and no others. -/
theorem tasklet_returns_iff (s : fish_t) : (mp1_rtc_tasklet s).isSome ↔ ListEnds s := by
  constructor
  · intro hreturns
    obtain ⟨s', htasklet⟩ := Option.isSome_iff_exists.mp hreturns
    obtain ⟨w, hloop, -⟩ := Option.map_eq_some_iff.mp htasklet
    obtain ⟨n, -, ends⟩ := loop_eq_some_iff.mp hloop
    exact chain_of_walk_ends tasklet_pass_links ends
  · rintro ⟨cells, chain⟩
    have ends := chain.walk_ends tasklet_pass_links
    have hlength : cells.length ≤ 2000 := by simpa using chain.length_le
    rw [mp1_rtc_tasklet, loop_eq_some_iff.mpr ⟨_, hlength, ends⟩]
    rfl

/-- An add that overwrites a structure closes a ring. -/
theorem Overwrites.ring (hoverwrites : Overwrites s e) (hstep : step s e = some s') : ¬ ListEnds s' := by
  obtain ⟨arg, i, cells, rfl, hlocation, hmalloc, chain, hi⟩ := hoverwrites
  obtain ⟨-, hhead, hlinks, -, -⟩ := add_eq hlocation hmalloc
  cases hstep
  rintro ⟨trail, ring⟩
  rw [hhead, hlinks] at ring
  exact chain.not_push hi ring

theorem Linked.step (hlinked : Linked s cells) (hkept : ¬ Overwrites s e) (hstep : fish.step s e = some s') :
    ∃ cells', Linked s' cells' := by
  cases e with
  | add arg =>
    cases hstep
    by_cases hlocation : arg.location.toNat < SCREEN_CELLS
    · cases hmalloc : mp1_malloc s with
      | none =>
        rw [mp1_ioctl_add, if_neg (Nat.not_le.mpr hlocation), hmalloc]
        exact ⟨cells, hlinked⟩
      | some i =>
        have hfresh : i ∉ cells := fun hi => hkept ⟨arg, i, cells, rfl, hlocation, hmalloc, hlinked.chain, hi⟩
        exact ⟨_, hlinked.add hlocation hmalloc hfresh⟩
    · rw [mp1_ioctl_add, if_pos (Nat.not_lt.mp hlocation)]
      exact ⟨cells, hlinked⟩
  | remove arg =>
    rcases hlinked.remove_cases arg with ⟨-, hremove⟩ | ⟨before, a, after, s'', rfl, -, -, hremove, hafter, -⟩
    · rw [fish.step, serve, hremove] at hstep
      cases hstep
      exact ⟨cells, hlinked⟩
    · rw [fish.step, serve, hremove] at hstep
      cases hstep
      exact ⟨_, hafter⟩
  | find location =>
    rw [fish.step, serve, mp1_ioctl_find, hlinked.find_helper] at hstep
    refine ⟨cells, ?_⟩
    cases hfirst : cells.find? fun i => At location (s.blink i) with
    | none =>
      rw [hfirst] at hstep
      cases hstep
      exact hlinked
    | some a =>
      rw [hfirst] at hstep
      cases hstep
      exact hlinked
  | sync arg =>
    rcases hlinked.sync_cases arg with ⟨-, hsync⟩ | ⟨a, b, s'', -, -, hsync, hafter, -⟩
    · rw [fish.step, serve, hsync] at hstep
      cases hstep
      exact ⟨cells, hlinked⟩
    · rw [fish.step, serve, hsync] at hstep
      cases hstep
      exact ⟨cells, hafter⟩
  | tasklet =>
    rw [fish.step, serve, hlinked.tasklet_eq] at hstep
    cases hstep
    exact ⟨cells, hlinked.ticked.1⟩

/-- As long as no add overwrites a structure, the list ends. -/
theorem run_linked (run : Run step (fun s e => ¬ Overwrites s e) (fish_start vmem) log s) : ∃ cells, Linked s cells :=
  run.invariant (motive := fun _ s => ∃ cells, Linked s cells) ⟨[], (fish_start_holds vmem).toLinked⟩
    fun _ _ _ _ _ hlinked hkept hstep => hlinked.elim fun _ hlinked => hlinked.step hkept hstep

/-- In every run, the clock gets through the list in every state reached, exactly
    if no add is given a structure that is on the list. -/
theorem lists_end_iff (run : Run step (fun _ _ => True) (fish_start vmem) log s) :
    (∀ before u, before <+: log → Run step (fun _ _ => True) (fish_start vmem) before u →
        (mp1_rtc_tasklet u).isSome) ↔ ∀ taken ∈ log, ¬ Overwrites taken.1 taken.2 := by
  constructor
  · intro hends taken htaken hoverwrites
    obtain ⟨before, after, rfl⟩ := List.append_of_mem htaken
    obtain ⟨hearlier, -⟩ := run.before rfl
    obtain ⟨u, hstep, -⟩ := run.after rfl
    have hprefix : before ++ [taken] <+: before ++ taken :: after := ⟨after, by simp⟩
    exact hoverwrites.ring hstep
      ((tasklet_returns_iff u).mp (hends _ u hprefix (hearlier.step trivial hstep)))
  · intro hkept before u hbefore hrun
    obtain ⟨cells, hlinked⟩ := run_linked (hrun.restrict fun taken htaken => hkept taken (hbefore.subset htaken))
    exact (tasklet_returns_iff u).mpr ⟨cells, hlinked.chain⟩

theorem malloc_zero (hfirst : (s.blink 0).location = 0#16) : mp1_malloc s = some 0 := by
  have hrange : List.finRange 2000 = 0 :: (List.finRange 1999).map Fin.succ := List.finRange_succ
  rw [mp1_malloc, hrange, List.find?_cons_of_pos]
  exact decide_eq_true hfirst

theorem add_step (s : fish_t) (arg : mp1_blink_struct) : step s (.add arg) = some (mp1_ioctl_add s arg).2 := rfl

/-- A character at a location of the screen. -/
def letter (location : BitVec 16) : mp1_blink_struct := ⟨⟨location, 73#8, 77#8, 7#16, 6#16, 0#16, 0#16⟩, none⟩

/-- A character at location 0, and the structure is given out once more. -/
theorem lists_end_iff_zero : ∃ log s, Run step (fun _ _ => True) (fish_start fun _ => 0#8) log s ∧
    log.map (·.2) = [.add (letter 0#16), .add (letter 5#16)] ∧
    ¬ ∀ before u, before <+: log → Run step (fun _ _ => True) (fish_start fun _ => 0#8) before u →
      (mp1_rtc_tasklet u).isSome := by
  have hstart : Run step (fun _ _ => True) (fish_start fun _ => 0#8) [] (fish_start fun _ => 0#8) := .start
  have hzero := hstart.step trivial (add_step _ (letter 0#16))
  have hfree : mp1_malloc (fish_start fun _ => 0#8) = some 0 := malloc_zero rfl
  have hscreen : (letter 0#16).location.toNat < SCREEN_CELLS := by decide
  have hlinked := (fish_start_holds fun _ => 0#8).toLinked.add hscreen hfree List.not_mem_nil
  have hagain : mp1_malloc (mp1_ioctl_add (fish_start fun _ => 0#8) (letter 0#16)).2 = some 0 := by
    apply malloc_zero
    rw [(add_eq hscreen hfree).2.2.2.1, Function.update_self]
    rfl
  have hoverwrites : Overwrites (mp1_ioctl_add (fish_start fun _ => 0#8) (letter 0#16)).2 (.add (letter 5#16)) :=
    ⟨letter 5#16, 0, [0], rfl, by decide, hagain, hlinked.chain, List.mem_cons_self⟩
  generalize (mp1_ioctl_add (fish_start fun _ => 0#8) (letter 0#16)).2 = s at hzero hoverwrites
  have hfive := hzero.step trivial (add_step s (letter 5#16))
  refine ⟨_, _, hfive, rfl, fun hends => ?_⟩
  exact (lists_end_iff hfive).mp hends _ (List.mem_append_right _ List.mem_cons_self) hoverwrites

end houseam.fish
