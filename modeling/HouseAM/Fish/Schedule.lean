import HouseAM.Fish.Display
import Mathlib.Dynamics.PeriodicPts.Defs

open support.chains support.runs

namespace houseam.fish

variable {s s' u : fish_t} {i : Fin 2000} {log before after : List (fish_t × Request)} {e : Request}
  {vmem : Nat → Byte} {arg : mp1_blink_struct} {location : BitVec 16} {b : blink_t} {k : Nat}

/-- How many ticks a length lasts. The countdown is a signed number behind its
    first tick, and a length of 0 or behind 32768 is over then. -/
def duration (length : BitVec 16) : Nat :=
  if 2 ≤ length.toNat ∧ length.toNat ≤ 0x8000 then length.toNat else 1

theorem duration_pos (length : BitVec 16) : 0 < duration length := by
  unfold duration
  split <;> omega

theorem countdown_running (countdown : BitVec 16) :
    0 < (countdown - 1#16).toInt ↔ 2 ≤ countdown.toNat ∧ countdown.toNat ≤ 0x8000 := by
  have hlt := countdown.isLt
  rw [BitVec.toInt_eq_toNat_cond, BitVec.toNat_sub]
  simp only [BitVec.toNat_ofNat]
  split <;> omega

theorem duration_of_running {length : BitVec 16} (hrunning : 0 < (length - 1#16).toInt) :
    duration length = duration (length - 1#16) + 1 := by
  rw [countdown_running] at hrunning
  have hprevious : (length - 1#16).toNat = length.toNat - 1 := by
    rw [BitVec.toNat_sub]
    simp only [BitVec.toNat_ofNat]
    omega
  unfold duration
  rw [if_pos hrunning, hprevious]
  split <;> omega

theorem duration_of_over {length : BitVec 16} (hover : ¬ 0 < (length - 1#16).toInt) : duration length = 1 := by
  rw [countdown_running] at hover
  exact if_neg hover

/-- A character whose time has passed. -/
def turned (b : blink_t) : blink_t :=
  { b with
    countdown := if b.status &&& 1#16 = 0#16 then b.on_length else b.off_length
    status := b.status ^^^ 1#16 }

theorem tick_over (hover : ¬ 0 < (b.countdown - 1#16).toInt) : tick b = turned b := if_neg hover

/-- Until its time has passed a character is shown as it is, and then it turns. -/
theorem tick_iterate (b : blink_t) :
    tick^[duration b.countdown] b = turned b ∧ ∀ k, k < duration b.countdown → shown (tick^[k] b) = shown b := by
  induction hduration : duration b.countdown generalizing b with
  | zero => exact absurd hduration (duration_pos b.countdown).ne'
  | succ n ih =>
    by_cases hrunning : 0 < (b.countdown - 1#16).toInt
    · have htick := tick_running hrunning
      have hrest : duration (tick b).countdown = n := by
        rw [duration_of_running hrunning] at hduration
        rw [htick]
        exact Nat.succ.inj hduration
      obtain ⟨hturned, hshown⟩ := ih (tick b) hrest
      refine ⟨?_, fun k hk => ?_⟩
      · rw [Function.iterate_succ_apply, hturned, htick]
        rfl
      · cases k with
        | zero => rfl
        | succ k =>
          rw [Function.iterate_succ_apply, hshown k (Nat.lt_of_succ_lt_succ hk), htick]
          rfl
    · rw [duration_of_over hrunning] at hduration
      obtain rfl : n = 0 := (Nat.succ.inj hduration).symm
      refine ⟨tick_over hrunning, fun k hk => ?_⟩
      obtain rfl : k = 0 := Nat.lt_one_iff.mp hk
      rfl

/-- A character in the second half of its period. -/
def darkened (arg : blink_t) : blink_t := { arg with status := 0#16, countdown := arg.off_length }

theorem turned_started (arg : blink_t) : turned (started arg) = darkened arg := by
  simp [turned, started, darkened]

theorem turned_darkened (arg : blink_t) : turned (darkened arg) = started arg := by
  simp [turned, started, darkened]

theorem started_iterate (arg : blink_t) : tick^[duration arg.on_length] (started arg) = darkened arg := by
  rw [← turned_started]
  exact (tick_iterate (started arg)).1

theorem darkened_iterate (arg : blink_t) : tick^[duration arg.off_length] (darkened arg) = started arg := by
  rw [← turned_darkened]
  exact (tick_iterate (darkened arg)).1

theorem shown_darkened (arg : blink_t) : shown (darkened arg) = arg.off_char := by
  have hoff : 0#16 &&& 1#16 = 0#16 := by decide
  exact if_pos hoff

def period (arg : blink_t) : Nat := duration arg.on_length + duration arg.off_length

theorem started_periodic (arg : blink_t) : Function.IsPeriodicPt tick (period arg) (started arg) := by
  rw [Function.IsPeriodicPt, Function.IsFixedPt, period, Nat.add_comm, Function.iterate_add_apply, started_iterate,
    darkened_iterate]

/-- A character is on for its first length and off for its second one, over and
    over. -/
theorem shown_iterate (arg : blink_t) (n : Nat) :
    shown (tick^[n] (started arg)) =
      if n % period arg < duration arg.on_length then arg.on_char else arg.off_char := by
  rw [← (started_periodic arg).iterate_mod_apply]
  have hlt : n % period arg < period arg := Nat.mod_lt _ (Nat.add_pos_left (duration_pos arg.on_length) _)
  split
  · rename_i hon
    rw [(tick_iterate (started arg)).2 _ hon, shown_started]
  · rename_i hoff
    obtain ⟨k, hk⟩ := Nat.exists_eq_add_of_le (Nat.not_lt.mp hoff)
    have hrest : k < duration (darkened arg).countdown := by
      rw [hk, period] at hlt
      exact Nat.lt_of_add_lt_add_left hlt
    rw [hk, Nat.add_comm, Function.iterate_add_apply, started_iterate, (tick_iterate (darkened arg)).2 k hrest,
      shown_darkened]

/-! A character over a run. -/

/-- The calls that remove a character or change its timing. -/
def Request.Concerns (location : BitVec 16) : Request → Prop
  | .remove arg => arg.setWidth 16 = location
  | .sync arg => (arg &&& 0xFFFF#32).setWidth 16 = location
  | _ => False

/-- How often the clock has ticked. -/
def clock (log : List (fish_t × Request)) : Nat :=
  log.countP fun taken =>
    match taken.2 with
    | .tasklet => true
    | _ => false

/-- A character is at its place in memory and on the screen. -/
def Blinks (s : fish_t) (b : blink_t) : Prop :=
  ∃ i, s.blink i = b ∧ b.location ≠ 0#16 ∧ DisplayedAt s i

/-- What a call leaves of a character that it does not concern. -/
def passed (b : blink_t) : Request → blink_t
  | .tasklet => tick b
  | _ => b

theorem Blinks.step (hblinks : Blinks s b) (hseparate : Separate s) (hfresh : e.Fresh s)
    (halone : ¬ e.Concerns b.location) (hchange : Change s e s') : Blinks s' (passed b e) := by
  obtain ⟨i, rfl, hused, hdisplayed⟩ := hblinks
  cases hchange with
  | @same e _ hclock hblink hvmem =>
    have hpassed : passed (s.blink i) e = s.blink i := by
      cases e with
      | tasklet => exact absurd rfl hclock
      | _ => rfl
    rw [hpassed]
    refine ⟨i, by rw [hblink], hused, ?_⟩
    rw [DisplayedAt, hblink, hvmem]
    exact hdisplayed
  | @added arg k _ hunused hblink hvmem =>
    have hne : i ≠ k := fun h => hused (h ▸ hunused)
    have hother : (s.blink i).location ≠ (started arg.toblink_t).location := hfresh.2 i
    refine ⟨i, ?_, hused, hdisplayed.other hne hother hblink hvmem⟩
    rw [hblink, Function.update_of_ne hne]
    rfl
  | @removed arg k _ hat hblink hvmem =>
    have hne : i ≠ k := fun h => halone (h ▸ hat.symm)
    refine ⟨i, ?_, hused, ?_⟩
    · rw [hblink, Function.update_of_ne hne]
      rfl
    · rw [DisplayedAt, hblink, hvmem, Function.update_of_ne hne]
      exact hdisplayed
  | @synced arg k l _ _ _ _ hat hblink hvmem =>
    have hne : i ≠ l := fun h => halone (h ▸ hat.symm)
    have hother : (s.blink i).location ≠ (timed (s.blink k) (s.blink l)).location := fun h =>
      hne (hseparate i l hused h)
    refine ⟨i, ?_, hused, hdisplayed.other hne hother hblink hvmem⟩
    rw [hblink, Function.update_of_ne hne]
    rfl
  | @ticked cells hcells hnodup =>
    refine ⟨i, ?_, ?_, hdisplayed.passes hused hseparate cells⟩
    · rw [foldl_visit tasklet_pass_blink hnodup, if_pos ((hcells i).mpr hused)]
      rfl
    · rw [passed, tick_location]
      exact hused

theorem iterate_clock (log : List (fish_t × Request)) (s : fish_t) (e : Request) (b : blink_t) :
    tick^[clock (log ++ [(s, e)])] b = passed (tick^[clock log] b) e := by
  rw [clock, List.countP_append, Nat.add_comm, Function.iterate_add_apply]
  cases e <;> rfl

theorem iterate_location (n : Nat) (b : blink_t) : (tick^[n] b).location = b.location := by
  induction n with
  | zero => rfl
  | succ n ih => rw [Function.iterate_succ_apply', tick_location, ih]

/-- A character that was added blinks from then on. -/
theorem blinks_added {arg : mp1_blink_struct} (hfresh : (Request.add arg).Fresh u)
    (hadded : (mp1_ioctl_add u arg).1 = 0) : Blinks (mp1_ioctl_add u arg).2 (started arg.toblink_t) := by
  by_cases hlocation : arg.location.toNat < SCREEN_CELLS
  · cases hmalloc : mp1_malloc u with
    | none =>
      rw [mp1_ioctl_add, if_neg (Nat.not_le.mpr hlocation), hmalloc] at hadded
      cases hadded
    | some i =>
      obtain ⟨-, -, -, hblink, hvmem⟩ := add_eq hlocation hmalloc
      refine ⟨i, by rw [hblink, Function.update_self], hfresh.1, ?_⟩
      rw [DisplayedAt, hblink, hvmem, Function.update_self, shown_started]
      exact Function.update_self _ _ _
  · rw [mp1_ioctl_add, if_pos (Nat.not_lt.mp hlocation)] at hadded
    cases hadded

/-- In every run that adds characters only where there is none, and none at
    location 0, a character whose add was accepted and that no later call removes
    or times anew blinks as it was added: its first character for the duration of
    its first length, the second for that of its second length, over and over. -/
theorem blinks_on_schedule {arg : mp1_blink_struct} (run : Run step (fun s e => e.Fresh s) (fish_start vmem) log s)
    (hlog : log = before ++ (u, .add arg) :: after) (hadded : (mp1_ioctl_add u arg).1 = 0)
    (halone : ∀ taken ∈ after, ¬ taken.2.Concerns arg.location) :
    s.vmem (2 * arg.location.toNat) =
      if clock after % period arg.toblink_t < duration arg.on_length then arg.on_char else arg.off_char := by
  obtain ⟨hearlier, hfresh⟩ := run.before hlog
  obtain ⟨v, hstep, hlater⟩ := run.after hlog
  have hv := run_separate (hearlier.step hfresh hstep)
  obtain rfl : (mp1_ioctl_add u arg).2 = v := Option.some.inj hstep
  have hkept : Run step (fun s e => e.Fresh s ∧ ¬ e.Concerns arg.location) _ after s := hlater.restrict_and halone
  have hblinks : (∃ cells blinkers, Holds s cells blinkers) ∧ Separate s ∧
      Blinks s (tick^[clock after] (started arg.toblink_t)) := by
    refine hkept.invariant (motive := fun after s => (∃ cells blinkers, Holds s cells blinkers) ∧ Separate s ∧
      Blinks s (tick^[clock after] (started arg.toblink_t))) ⟨hv.1, hv.2, blinks_added hfresh hadded⟩ ?_
    rintro after s e s' - ⟨⟨cells, blinkers, hholds⟩, hseparate, hblinks⟩ ⟨hfresh, hconcerns⟩ hstep
    have hchange := hholds.change hstep
    obtain ⟨response, w, cells', hserve, -, hafter⟩ := hholds.serve hfresh.placed
    rw [step, hserve] at hstep
    cases hstep
    refine ⟨⟨cells', _, hafter⟩, hseparate.step hfresh hchange, ?_⟩
    rw [iterate_clock]
    refine hblinks.step hseparate hfresh ?_ hchange
    rw [iterate_location]
    exact hconcerns
  obtain ⟨i, hi, -, hdisplayed⟩ := hblinks.2.2
  rw [DisplayedAt, hi, iterate_location, shown_iterate] at hdisplayed
  exact hdisplayed

/-- A character with a first length of one, after one tick. -/
theorem blinks_on_schedule_letter : ∃ log s, Run step (fun s e => e.Fresh s) (fish_start fun _ => 0#8) log s ∧
    log.map (·.2) = [.add { letter 540#16 with on_length := 1#16 }, .tasklet] ∧ s.vmem 1080 = 77#8 := by
  have hstart : Run step (fun s e => e.Fresh s) (fish_start fun _ => 0#8) [] (fish_start fun _ => 0#8) := .start
  generalize harg : { letter 540#16 with on_length := 1#16 } = arg
  have hlocation : arg.location = 540#16 := by
    rw [← harg]
    rfl
  have hfresh : (Request.add arg).Fresh (fish_start fun _ => 0#8) := by
    refine ⟨?_, fun i => ?_⟩
    · rw [hlocation]
      decide
    · rw [hlocation]
      exact fun h : 0#16 = 540#16 => absurd h (by decide)
  have hscreen : arg.location.toNat < SCREEN_CELLS := by
    rw [hlocation]
    decide
  have haccepted := (add_eq hscreen (malloc_zero (s := fish_start fun _ => 0#8) rfl)).1
  have hadded := hstart.step hfresh (add_step _ arg)
  obtain ⟨⟨cells, blinkers, hholds⟩, -⟩ := run_separate hadded
  generalize (mp1_ioctl_add (fish_start fun _ => 0#8) arg).2 = v at hadded hholds
  have hticked : step v .tasklet = some (cells.foldl tasklet_pass v) := by
    rw [step, fish.serve, hholds.tasklet_eq]
    rfl
  have hclock : Request.tasklet.Fresh v := trivial
  have hrun := hadded.step hclock hticked
  have halone : ∀ taken ∈ [(v, Request.tasklet)], ¬ taken.2.Concerns arg.location := by
    intro taken htaken
    rw [List.mem_singleton.mp htaken]
    exact not_false
  have hlog : [(fish_start fun _ => 0#8, Request.add arg)] ++ [(v, Request.tasklet)] =
      [] ++ (fish_start fun _ => 0#8, Request.add arg) :: [(v, Request.tasklet)] := rfl
  have hshown := blinks_on_schedule hrun hlog haccepted halone
  refine ⟨_, _, hrun, rfl, ?_⟩
  have hplace : 2 * arg.location.toNat = 1080 := by rw [hlocation]; rfl
  rw [hplace, ← harg] at hshown
  exact hshown

end houseam.fish
