import HouseAM.Terminal.Keyboard

namespace houseam.terminal

/-- The numbered save variables of a terminal. -/
def terminal_t.saved (t : terminal_t) (number : Int) : saved_t :=
  if number = 1 then t.saved1 else if number = 2 then t.saved2 else t.saved3

/-- The numbers of the three terminals. -/
def IsTerminal (number : Int) : Prop := number = 1 ∨ number = 2 ∨ number = 3

/-- What a terminal's screen, cursor and line buffer hold: the live ones while
    it is shown, the saved ones otherwise. -/
def terminal_t.view (t : terminal_t) (number : Int) : saved_t :=
  if t.current_terminal = number then
    ⟨t.screen_x, t.screen_y, t.keyboard_buffer, t.video_mem, t.end_buf_idx⟩
  else t.saved number

/-- The live screen, cursor and line. -/
def terminal_t.live (t : terminal_t) : saved_t :=
  ⟨t.screen_x, t.screen_y, t.keyboard_buffer, t.video_mem, t.end_buf_idx⟩

theorem terminal_t.view_of_current {t : terminal_t} {number : Int} (hcurrent : t.current_terminal = number) :
    t.view number = t.live := by
  rw [terminal_t.view, if_pos hcurrent, terminal_t.live]

theorem terminal_t.view_of_other {t : terminal_t} {number : Int} (hother : t.current_terminal ≠ number) :
    t.view number = t.saved number := by
  rw [terminal_t.view, if_neg hother]

/-- Two views hold the same screen, cursor, line and line length; array
    elements past the ends do not count. -/
structure SameView (a b : saved_t) : Prop where
  screen_x : a.screen_x = b.screen_x
  screen_y : a.screen_y = b.screen_y
  keyboard_buffer : ∀ i : Int, 0 ≤ i → i < 128 → a.keyboard_buffer i = b.keyboard_buffer i
  video_buffer : ∀ i : Int, 0 ≤ i → i < 4096 → a.video_buffer i = b.video_buffer i
  end_buf_idx : a.end_buf_idx = b.end_buf_idx

theorem SameView.refl (a : saved_t) : SameView a a := ⟨rfl, rfl, fun _ _ _ => rfl, fun _ _ _ => rfl, rfl⟩

theorem SameView.trans {a b c : saved_t} (hab : SameView a b) (hbc : SameView b c) : SameView a c where
  screen_x := hab.screen_x.trans hbc.screen_x
  screen_y := hab.screen_y.trans hbc.screen_y
  keyboard_buffer := fun i hlo hhi => (hab.keyboard_buffer i hlo hhi).trans (hbc.keyboard_buffer i hlo hhi)
  video_buffer := fun i hlo hhi => (hab.video_buffer i hlo hhi).trans (hbc.video_buffer i hlo hhi)
  end_buf_idx := hab.end_buf_idx.trans hbc.end_buf_idx

/-- The three switch functions are one: the live state goes to the current
    terminal's save variables and the new terminal's come back. -/
def switch_to (t : terminal_t) (number : Int) : terminal_t :=
  show_terminal (terminal_switch t) number ((terminal_switch t).saved number)

theorem terminalone_eq (t : terminal_t) : terminalone t = switch_to t 1 := rfl

theorem terminaltwo_eq (t : terminal_t) : terminaltwo t = switch_to t 2 := rfl

theorem terminalthree_eq (t : terminal_t) : terminalthree t = switch_to t 3 := rfl

@[simp] theorem switch_to_current (t : terminal_t) (number : Int) :
    (switch_to t number).current_terminal = number := rfl

theorem terminal_switch_enter_pressed (t : terminal_t) :
    (terminal_switch t).enter_pressed = t.enter_pressed := by
  unfold terminal_switch
  repeat' split
  all_goals rfl

@[simp] theorem switch_to_enter_pressed (t : terminal_t) (number : Int) :
    (switch_to t number).enter_pressed = t.enter_pressed := terminal_switch_enter_pressed t

/-- Saving writes the live state to the current terminal's variables and
    leaves the others alone. -/
theorem terminal_switch_saved {t : terminal_t} (hcurrent : IsTerminal t.current_terminal) {number : Int}
    (hnumber : IsTerminal number) :
    (terminal_switch t).saved number =
      if t.current_terminal = number then save_live t (t.saved number) else t.saved number := by
  rcases hcurrent with h | h | h <;> rcases hnumber with rfl | rfl | rfl <;>
    simp [terminal_switch, terminal_t.saved, h]

/-- A switch keeps what each of the three terminals holds. -/
theorem switch_to_view {t : terminal_t} (hcurrent : IsTerminal t.current_terminal) {shown number : Int}
    (hnumber : IsTerminal number) :
    SameView ((switch_to t shown).view number) (t.view number) := by
  have hsaved := terminal_switch_saved hcurrent hnumber
  have hlive : SameView (save_live t (t.saved number))
      ⟨t.screen_x, t.screen_y, t.keyboard_buffer, t.video_mem, t.end_buf_idx⟩ :=
    ⟨rfl, rfl, fun i hlo hhi => copyInto_inside _ _ _ hlo hhi,
      fun i hlo hhi => copyInto_inside _ _ _ hlo hhi, rfl⟩
  have hsource : SameView ((terminal_switch t).saved number) (t.view number) := by
    rw [hsaved, terminal_t.view]
    split
    · exact hlive
    · exact SameView.refl _
  by_cases hsame : shown = number
  · subst hsame
    have hview : (switch_to t shown).view shown =
        ⟨((terminal_switch t).saved shown).screen_x, ((terminal_switch t).saved shown).screen_y,
          copyInto KEYBOARD_BUFFER_SIZE ((terminal_switch t).saved shown).keyboard_buffer
            (terminal_switch t).keyboard_buffer,
          copyInto VIDEO_BUFFER_SIZE ((terminal_switch t).saved shown).video_buffer (terminal_switch t).video_mem,
          ((terminal_switch t).saved shown).end_buf_idx⟩ := by
      simp [terminal_t.view, switch_to, show_terminal]
    rw [hview]
    refine ⟨hsource.screen_x, hsource.screen_y, ?_, ?_, hsource.end_buf_idx⟩
    · intro i hlo hhi
      exact (copyInto_inside _ _ _ hlo hhi).trans (hsource.keyboard_buffer i hlo hhi)
    · intro i hlo hhi
      exact (copyInto_inside _ _ _ hlo hhi).trans (hsource.video_buffer i hlo hhi)
  · have hview : (switch_to t shown).view number = (terminal_switch t).saved number := by
      simp [terminal_t.view, switch_to, show_terminal, hsame, terminal_t.saved]
    rw [hview]
    exact hsource

/-- The terminal a key press switches to, if it is one of the Alt+F keys. -/
def switch_target (t : terminal_t) (temp : Nat) : Option Int :=
  if t.alt_on = 1 ∧ temp = SCAN_FONE then some 1
  else if t.alt_on = 1 ∧ temp = SCAN_FTWO then some 2
  else if t.alt_on = 1 ∧ temp = SCAN_FTHREE then some 3
  else none

theorem switch_target_isTerminal {t : terminal_t} {temp : Nat} {number : Int}
    (htarget : switch_target t temp = some number) : IsTerminal number := by
  unfold switch_target at htarget
  split at htarget
  · exact Or.inl (Option.some.inj htarget).symm
  · split at htarget
    · exact Or.inr (Or.inl (Option.some.inj htarget).symm)
    · split at htarget
      · exact Or.inr (Or.inr (Option.some.inj htarget).symm)
      · cases htarget

/-- Apart from the marks in `terminal_used`, the function-key tests switch to
    the target terminal or do nothing. -/
theorem switch_keys_cases (t : terminal_t) (temp : Nat) :
    (switch_target t temp = none ∧ (switch_keys t temp).1 = t) ∨
    ∃ number used, switch_target t temp = some number ∧
      (switch_keys t temp).1 = { switch_to t number with terminal_used := used } := by
  unfold switch_target switch_keys
  by_cases hone : t.alt_on = 1 ∧ temp = SCAN_FONE
  · rw [if_pos hone, if_pos hone]
    exact Or.inr ⟨1, _, rfl, rfl⟩
  · rw [if_neg hone, if_neg hone]
    by_cases htwo : t.alt_on = 1 ∧ temp = SCAN_FTWO
    · rw [if_pos htwo, if_pos htwo]
      dsimp only
      split
      · exact Or.inr ⟨2, _, rfl, rfl⟩
      · exact Or.inr ⟨2, _, rfl, rfl⟩
    · rw [if_neg htwo, if_neg htwo]
      by_cases hthree : t.alt_on = 1 ∧ temp = SCAN_FTHREE
      · rw [if_pos hthree, if_pos hthree]
        dsimp only
        split
        · exact Or.inr ⟨3, _, rfl, rfl⟩
        · exact Or.inr ⟨3, _, rfl, rfl⟩
      · rw [if_neg hthree, if_neg hthree]
        exact Or.inl ⟨rfl, rfl⟩

theorem switch_keys_of_none {t : terminal_t} {temp : Nat} (htarget : switch_target t temp = none) :
    (switch_keys t temp).1 = t := by
  rcases switch_keys_cases t temp with ⟨-, hstay⟩ | ⟨number, used, hnumber, -⟩
  · exact hstay
  · rw [htarget] at hnumber
    cases hnumber

theorem switch_target_key {t : terminal_t} {temp : Nat} {number : Int}
    (htarget : switch_target t temp = some number) :
    temp = SCAN_FONE ∨ temp = SCAN_FTWO ∨ temp = SCAN_FTHREE := by
  unfold switch_target at htarget
  split at htarget
  · rename_i h
    exact Or.inl h.2
  · split at htarget
    · rename_i h
      exact Or.inr (Or.inl h.2)
    · split at htarget
      · rename_i h
        exact Or.inr (Or.inr h.2)
      · cases htarget

/-- A function key is none of the keys of the rest of the handler. -/
theorem switch_target_quiet {t : terminal_t} {temp : Nat} {number : Int}
    (htarget : switch_target t temp = some number) :
    temp ≠ SCAN_L ∧ temp ≠ SCAN_ENTER ∧ temp ≠ SCAN_BACKSPACE ∧ ¬ Printable temp := by
  rcases switch_target_key htarget with rfl | rfl | rfl <;> decide

theorem line_keys_of_switch_target {t u : terminal_t} {temp : Nat} {number : Int}
    (htarget : switch_target t temp = some number) (garbage : Byte) : line_keys u garbage temp = u := by
  obtain ⟨hclear, henter, hbackspace, hprintable⟩ := switch_target_quiet htarget
  rw [line_keys, if_neg (fun h => hclear h.2), if_neg henter, if_neg hbackspace, if_neg hprintable]

/-- The codes of the modifier keys. -/
def modifier_codes : List Nat :=
  [SCAN_CTRL, SCAN_CTRL_RELEASE, SCAN_LSHIFT, SCAN_LSHIFT_RELEASE, SCAN_RSHIFT, SCAN_RSHIFT_RELEASE, SCAN_CAPS,
    SCAN_ALT, SCAN_ALT_RELEASE]

theorem set_keyboard_flags_other {code : Nat} (hother : code ∉ modifier_codes) (t : terminal_t) :
    set_keyboard_flags t code = t := by
  simp only [modifier_codes, List.mem_cons, List.not_mem_nil, or_false, not_or] at hother
  obtain ⟨hctrl, hctrl', hlshift, hlshift', hrshift, hrshift', hcaps, halt, halt'⟩ := hother
  rw [set_keyboard_flags, if_neg hctrl, if_neg hctrl', if_neg hlshift, if_neg hlshift', if_neg hrshift,
    if_neg hrshift', if_neg hcaps, if_neg halt, if_neg halt']

/-- The modifier flags are all that `set_keyboard_flags` changes. -/
theorem set_keyboard_flags_only (t : terminal_t) (scan : Nat) :
    set_keyboard_flags t scan = { t with
      caps_lock_on := (set_keyboard_flags t scan).caps_lock_on
      shift_on := (set_keyboard_flags t scan).shift_on
      ctrl_on := (set_keyboard_flags t scan).ctrl_on
      alt_on := (set_keyboard_flags t scan).alt_on } := by
  by_cases hmodifier : scan ∈ modifier_codes
  · simp only [modifier_codes, List.mem_cons, List.not_mem_nil, or_false] at hmodifier
    rcases hmodifier with rfl | rfl | rfl | rfl | rfl | rfl | rfl | rfl | rfl
    all_goals rfl
  · rw [set_keyboard_flags_other hmodifier]

theorem set_keyboard_flags_sameLine (t : terminal_t) (scan : Nat) : SameLine t (set_keyboard_flags t scan) := by
  rw [set_keyboard_flags_only]
  exact ⟨rfl, rfl, rfl, rfl, rfl, rfl, rfl⟩

theorem set_keyboard_flags_live (t : terminal_t) (scan : Nat) : (set_keyboard_flags t scan).live = t.live := by
  rw [set_keyboard_flags_only]
  rfl

/-- A function key changes no modifier flag. -/
theorem set_keyboard_flags_of_switch_target {u : terminal_t} {temp : Nat} {number : Int}
    (htarget : switch_target u temp = some number) (t : terminal_t) : set_keyboard_flags t temp = t := by
  rcases switch_target_key htarget with rfl | rfl | rfl <;> rfl

/-- An interrupt runs the rest of the handler behind the flags, or, for a
    function key, does no more than switch. -/
theorem keyboard_interrupt_cases (t : terminal_t) (garbage : Byte) (temp : Nat) :
    (switch_target (set_keyboard_flags t temp) temp = none ∧
      (keyboard_interrupt t garbage temp).1 = line_keys (set_keyboard_flags t temp) garbage temp) ∨
    ∃ number used, set_keyboard_flags t temp = t ∧ switch_target t temp = some number ∧
      (keyboard_interrupt t garbage temp).1 = { switch_to t number with terminal_used := used } := by
  rcases switch_keys_cases (set_keyboard_flags t temp) temp with ⟨htarget, hstay⟩ | ⟨number, used, htarget, hswitch⟩
  · refine Or.inl ⟨htarget, ?_⟩
    simp only [keyboard_interrupt, hstay]
  · have hsame := set_keyboard_flags_of_switch_target htarget t
    rw [hsame] at htarget hswitch
    refine Or.inr ⟨number, used, hsame, htarget, ?_⟩
    simp only [keyboard_interrupt, hsame, hswitch, line_keys_of_switch_target htarget]

end houseam.terminal
