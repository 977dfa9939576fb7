import HouseAM.Terminal.Events

namespace houseam.terminal

variable {t : terminal_t} {temp : Nat} {number : Int}

/-! Only the keys that switch to a terminal for the first time mark it in
`terminal_used`. -/

theorem set_keyboard_flags_terminal_used (t : terminal_t) (scan : Nat) :
    (set_keyboard_flags t scan).terminal_used = t.terminal_used := by
  rw [set_keyboard_flags_only]

theorem terminal_switch_terminal_used (t : terminal_t) : (terminal_switch t).terminal_used = t.terminal_used := by
  unfold terminal_switch
  repeat' split
  all_goals rfl

theorem line_keys_current (t : terminal_t) (garbage : Byte) (temp : Nat) :
    (line_keys t garbage temp).current_terminal = t.current_terminal := by
  unfold line_keys
  split
  · rfl
  · split
    · exact (enter_key_lineStep none t).current_terminal
    · split
      · exact (backspace_key_lineStep none t).current_terminal
      · split
        · exact (character_key_lineStep t _).current_terminal
        · rfl

/-- The terminal's index in `terminal_used`, and its number. -/
def terminal_number (i : Fin 3) : Int := i.val + 1

/-- What a key press does with the current terminal and the marks: nothing; it
    shows terminal 1 or a terminal that has its mark; or it marks the terminal it
    shows, for which it then calls `sys_execute`. -/
inductive MarksEffect (before after : terminal_t) (flagged : Bool) : Prop where
  | stays (hflag : flagged = false) (hcurrent : after.current_terminal = before.current_terminal)
      (hused : after.terminal_used = before.terminal_used)
  | shows (i : Fin 3) (hflag : flagged = false) (hcurrent : after.current_terminal = terminal_number i)
      (hmarked : i = 0 ∨ before.terminal_used i ≠ 0) (hused : after.terminal_used = before.terminal_used)
  | marks (i : Fin 3) (hflag : flagged = true) (hi : i ≠ 0) (hcurrent : after.current_terminal = terminal_number i)
      (hfresh : before.terminal_used i = 0) (hused : after.terminal_used = Function.update before.terminal_used i 1)

/-- The test of one function key: its terminal is shown, and marked on the first
    visit. -/
theorem switch_keys_marks (t : terminal_t) (temp : Nat) :
    MarksEffect t (switch_keys t temp).1 (switch_keys t temp).2 := by
  have hused := terminal_switch_terminal_used t
  unfold switch_keys
  by_cases hone : t.alt_on = 1 ∧ temp = SCAN_FONE
  · rw [if_pos hone]
    exact .shows 0 rfl rfl (Or.inl rfl) hused
  · rw [if_neg hone]
    by_cases htwo : t.alt_on = 1 ∧ temp = SCAN_FTWO
    · rw [if_pos htwo]
      have hkept : (terminaltwo t).terminal_used = t.terminal_used := hused
      dsimp only
      by_cases hfresh : (terminaltwo t).terminal_used 1 = 0
      · rw [if_pos hfresh]
        refine .marks 1 rfl (by decide) rfl (hkept ▸ hfresh) ?_
        dsimp only
        rw [hkept]
      · rw [if_neg hfresh]
        exact .shows 1 rfl rfl (Or.inr (hkept ▸ hfresh)) hkept
    · rw [if_neg htwo]
      by_cases hthree : t.alt_on = 1 ∧ temp = SCAN_FTHREE
      · rw [if_pos hthree]
        have hkept : (terminalthree t).terminal_used = t.terminal_used := hused
        dsimp only
        by_cases hfresh : (terminalthree t).terminal_used 2 = 0
        · rw [if_pos hfresh]
          refine .marks 2 rfl (by decide) rfl (hkept ▸ hfresh) ?_
          dsimp only
          rw [hkept]
        · rw [if_neg hfresh]
          exact .shows 2 rfl rfl (Or.inr (hkept ▸ hfresh)) hkept
      · rw [if_neg hthree]
        exact .stays rfl rfl rfl

theorem keyboard_interrupt_marks (t : terminal_t) (garbage : Byte) (temp : Nat) :
    MarksEffect t (keyboard_interrupt t garbage temp).1 (keyboard_interrupt t garbage temp).2 := by
  have hflags := (set_keyboard_flags_sameLine t temp).current_terminal
  have hflagsUsed := set_keyboard_flags_terminal_used t temp
  have hline (u : terminal_t) := line_keys_current u garbage temp
  have hlineUsed (u : terminal_t) := (line_keys_sameModes u garbage temp).terminal_used
  cases switch_keys_marks (set_keyboard_flags t temp) temp with
  | stays hflag hcurrent hused =>
    exact .stays hflag ((hline _).trans (hcurrent.trans hflags)) ((hlineUsed _).trans (hused.trans hflagsUsed))
  | shows i hflag hcurrent hmarked hused =>
    rw [hflagsUsed] at hmarked
    exact .shows i hflag ((hline _).trans hcurrent) hmarked ((hlineUsed _).trans (hused.trans hflagsUsed))
  | marks i hflag hi hcurrent hfresh hused =>
    rw [hflagsUsed] at hfresh hused
    exact .marks i hflag hi ((hline _).trans hcurrent) hfresh ((hlineUsed _).trans hused)

theorem terminal_number_injective {i j : Fin 3} (hij : terminal_number i = terminal_number j) : i = j := by
  apply Fin.ext
  simp only [terminal_number] at hij
  omega

/-- The marks are flags, and the terminal that is shown is terminal 1 or has
    its mark. -/
structure Marked (t : terminal_t) : Prop where
  flag : ∀ i, i ≠ 0 → t.terminal_used i = 0 ∨ t.terminal_used i = 1
  shown : ∃ i, t.current_terminal = terminal_number i ∧ (i = 0 ∨ t.terminal_used i = 1)

theorem booted_terminal_used (memory : terminal_t) {i : Fin 3} (hi : i ≠ 0) : (booted memory).terminal_used i = 0 := by
  have hclear : ∀ i : Fin 3, i ≠ 0 → (![1, 0, 0] : Fin 3 → Int) i = 0 := by decide
  exact hclear i hi

theorem booted_marked (memory : terminal_t) : Marked (booted memory) :=
  ⟨fun _ hi => Or.inl (booted_terminal_used memory hi), 0, rfl, Or.inl rfl⟩

section Effect

variable {before after : terminal_t} {flagged : Bool} {i : Fin 3}

theorem MarksEffect.marked (heffect : MarksEffect before after flagged) (hmarked : Marked before) : Marked after := by
  cases heffect with
  | stays hflag hcurrent hused =>
    refine ⟨?_, ?_⟩
    · rw [hused]
      exact hmarked.flag
    · rw [hused, hcurrent]
      exact hmarked.shown
  | shows i hflag hcurrent hvisited hused =>
    refine ⟨?_, i, hcurrent, ?_⟩
    · rw [hused]
      exact hmarked.flag
    · rw [hused]
      by_cases hi : i = 0
      · exact Or.inl hi
      · exact Or.inr ((hmarked.flag i hi).resolve_left (hvisited.resolve_left hi))
  | marks i hflag hi hcurrent hfresh hused =>
    refine ⟨fun j hj => ?_, i, hcurrent, ?_⟩
    · rw [hused]
      by_cases hji : j = i
      · rw [hji, Function.update_self]
        exact Or.inr rfl
      · rw [Function.update_of_ne hji]
        exact hmarked.flag j hj
    · rw [hused, Function.update_self]
      exact Or.inr rfl

/-- A terminal has its mark when it had it before, or when the key press gave it
    the mark. -/
theorem MarksEffect.used_iff (heffect : MarksEffect before after flagged) :
    after.terminal_used i = 1 ↔
      before.terminal_used i = 1 ∨ flagged = true ∧ after.current_terminal = terminal_number i := by
  cases heffect with
  | stays hflag hcurrent hused => simp [hused, hflag]
  | shows j hflag hcurrent hvisited hused => simp [hused, hflag]
  | marks j hflag hj hcurrent hfresh hused =>
    rw [hused, hcurrent]
    by_cases hij : i = j
    · subst hij
      simp [hflag]
    · have hnumber : terminal_number j ≠ terminal_number i := fun h => hij (terminal_number_injective h).symm
      simp [hflag, Function.update_of_ne hij, hnumber]

/-- The mark is new, and it is that of the terminal shown. -/
theorem MarksEffect.fresh (heffect : MarksEffect before after true) :
    ∃ i, i ≠ 0 ∧ before.terminal_used i = 0 ∧ after.terminal_used i = 1 := by
  cases heffect with
  | stays hflag => cases hflag
  | shows i hflag => cases hflag
  | marks i hflag hi hcurrent hfresh hused => exact ⟨i, hi, hfresh, by rw [hused, Function.update_self]⟩

end Effect

/-- A function key shows its terminal. -/
theorem keyboard_interrupt_shows (htarget : switch_target t temp = some number) (garbage : Byte) :
    (keyboard_interrupt t garbage temp).1.current_terminal = number := by
  rcases keyboard_interrupt_cases t garbage temp with ⟨hnone, -⟩ | ⟨shown, used, -, hshown, hafter⟩
  · rw [set_keyboard_flags_of_switch_target htarget, htarget] at hnone
    cases hnone
  · rw [htarget] at hshown
    cases hshown
    rw [hafter]
    exact switch_to_current t number

end houseam.terminal
