import HouseAM.Support.Runs
import HouseAM.Terminal.Views

open support.runs

namespace houseam.terminal

/-- A call of one of the switch functions, or any change at all of the live
    screen, cursor and line between two of them. -/
inductive Visit where
  | terminalone
  | terminaltwo
  | terminalthree
  | live (changed : saved_t)

/-- The terminal that a switch function shows. -/
def Visit.shows : Visit → Option Int
  | .terminalone => some 1
  | .terminaltwo => some 2
  | .terminalthree => some 3
  | .live _ => none

def visit (t : terminal_t) : Visit → Option terminal_t
  | .terminalone => some (terminalone t)
  | .terminaltwo => some (terminaltwo t)
  | .terminalthree => some (terminalthree t)
  | .live changed => some { t with
      video_mem := changed.video_buffer
      screen_x := changed.screen_x
      screen_y := changed.screen_y
      keyboard_buffer := changed.keyboard_buffer
      end_buf_idx := changed.end_buf_idx }

variable {log : List (terminal_t × Visit)} {start s u v : terminal_t} {e : Visit} {shown number : Int}

theorem Visit.shows_isTerminal (hshows : e.shows = some shown) : IsTerminal shown := by
  cases e with
  | terminalone => exact Or.inl (Option.some.inj hshows).symm
  | terminaltwo => exact Or.inr (Or.inl (Option.some.inj hshows).symm)
  | terminalthree => exact Or.inr (Or.inr (Option.some.inj hshows).symm)
  | live changed => cases hshows

theorem visit_shows (hshows : e.shows = some shown) (hvisit : visit u e = some v) : v = switch_to u shown := by
  cases e with
  | terminalone =>
    cases hshows
    cases hvisit
    exact terminalone_eq u
  | terminaltwo =>
    cases hshows
    cases hvisit
    exact terminaltwo_eq u
  | terminalthree =>
    cases hshows
    cases hvisit
    exact terminalthree_eq u
  | live changed => cases hshows

/-- A terminal that is not current keeps its save variables. -/
theorem visit_saved (hother : u.current_terminal ≠ number) (hnumber : IsTerminal number)
    (hvisit : visit u e = some v) : v.saved number = u.saved number := by
  cases hshows : e.shows with
  | none =>
    cases e with
    | live changed =>
      cases hvisit
      rfl
    | _ => cases hshows
  | some shown =>
    have hkept : (terminal_switch u).saved number = u.saved number := by
      unfold terminal_switch
      rcases hnumber with rfl | rfl | rfl
      · rw [if_neg hother]
        split
        · rfl
        · split <;> rfl
      · rw [if_neg hother]
        split
        · rfl
        · split <;> rfl
      · rw [if_neg hother]
        split
        · rfl
        · split <;> rfl
    rw [visit_shows hshows hvisit]
    exact hkept

/-- What a terminal that is not current holds stays through every step, the one
    that shows it included. -/
theorem visit_view (hcurrent : IsTerminal u.current_terminal) (hother : u.current_terminal ≠ number)
    (hnumber : IsTerminal number) (hvisit : visit u e = some v) : SameView (v.view number) (u.view number) := by
  cases hshows : e.shows with
  | none =>
    cases e with
    | live changed =>
      cases hvisit
      simp only [terminal_t.view, if_neg hother]
      exact SameView.refl _
    | _ => cases hshows
  | some shown =>
    rw [visit_shows hshows hvisit]
    exact switch_to_view hcurrent hnumber

theorem visit_isTerminal (hcurrent : IsTerminal u.current_terminal) (hvisit : visit u e = some v) :
    IsTerminal v.current_terminal := by
  cases hshows : e.shows with
  | none =>
    cases e with
    | live changed =>
      cases hvisit
      exact hcurrent
    | _ => cases hshows
  | some shown =>
    rw [visit_shows hshows hvisit]
    exact e.shows_isTerminal hshows

/-- Whatever was done on the others, a terminal that becomes current again shows
    what it showed when it was switched away from, and its saved state was left
    alone in between. -/
structure TerminalsKept (log : List (terminal_t × Visit)) (s : terminal_t) : Prop where
  restored : ∀ before u e mid, log = before ++ (u, e) :: mid → e.shows ≠ none →
    (∀ taken ∈ mid, taken.1.current_terminal ≠ u.current_terminal) →
    s.current_terminal = u.current_terminal → SameView s.live u.live
  saved : ∀ before u e mid v number, log = before ++ (u, e) :: mid → visit u e = some v → IsTerminal number →
    u.current_terminal ≠ number → v.saved number = u.saved number

theorem run_isTerminal (hstart : IsTerminal start.current_terminal) (run : Run visit (fun _ _ => True) start log s) :
    IsTerminal s.current_terminal :=
  run.invariant (motive := fun _ s => IsTerminal s.current_terminal) hstart
    fun _ _ _ _ _ hcurrent _ hvisit => visit_isTerminal hcurrent hvisit

/-- Terminals are kept over every sequence of switches and live changes. -/
theorem terminals_kept (run : Run visit (fun _ _ => True) start log s) : TerminalsKept log s := by
  refine ⟨fun before u e mid hlog hswitch haway hback => ?_, fun before u e mid v number _ hvisit hnumber hother =>
    visit_saved hother hnumber hvisit⟩
  obtain ⟨v, hvisit, hrest⟩ := run.after hlog
  obtain ⟨shown, hshows⟩ := Option.ne_none_iff_exists'.mp hswitch
  have hshown : IsTerminal v.current_terminal := by
    rw [visit_shows hshows hvisit]
    exact e.shows_isTerminal hshows
  have hnumber : IsTerminal u.current_terminal := hback ▸ run_isTerminal hshown hrest
  have haround : SameView (v.view u.current_terminal) (u.view u.current_terminal) := by
    rw [visit_shows hshows hvisit]
    exact switch_to_view hnumber hnumber
  have hkept : SameView (s.view u.current_terminal) (u.view u.current_terminal) := by
    have haway : Run visit (fun t _ => t.current_terminal ≠ u.current_terminal) v mid s := hrest.restrict haway
    refine (haway.invariant (motive := fun _ s => IsTerminal s.current_terminal ∧
      SameView (s.view u.current_terminal) (u.view u.current_terminal)) ⟨hshown, haround⟩ ?_).2
    intro _ w e' w' _ hkept hother hvisit
    exact ⟨visit_isTerminal hkept.1 hvisit, (visit_view hkept.1 hother hnumber hvisit).trans hkept.2⟩
  rwa [terminal_t.view_of_current hback, terminal_t.view_of_current rfl] at hkept

/-- A character is typed on terminal 1, and two others are visited before it is
    shown again. -/
theorem terminals_kept_zeroed : ∃ log s,
    Run visit (fun _ _ => True) (terminal_init zeroed) log s ∧
      log.map (·.2) = [.live ⟨1, 0, fun _ => 0x61#8, fun _ => 0x61#8, 1⟩, .terminaltwo, .terminalthree,
        .live ⟨0, 1, fun _ => 0#8, fun _ => 0#8, 0⟩, .terminalone] ∧
      TerminalsKept log s := by
  have hstart : Run visit (fun _ _ => True) (terminal_init zeroed) [] _ := .start
  have htyped := hstart.step trivial
    (show visit _ (.live ⟨1, 0, fun _ => 0x61#8, fun _ => 0x61#8, 1⟩) = _ from rfl)
  have htwo := htyped.step trivial (show visit _ .terminaltwo = _ from rfl)
  have hthree := htwo.step trivial (show visit _ .terminalthree = _ from rfl)
  have hcleared := hthree.step trivial (show visit _ (.live ⟨0, 1, fun _ => 0#8, fun _ => 0#8, 0⟩) = _ from rfl)
  have hone := hcleared.step trivial (show visit _ .terminalone = _ from rfl)
  exact ⟨_, _, hone, rfl, terminals_kept hone⟩

end houseam.terminal
