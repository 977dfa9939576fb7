import HouseAM.Terminal.Views

namespace houseam.terminal

/-- What happens to the terminal code: a key interrupt with its scan code, or a
    completed write or read by a process whose PCB carries a terminal number. -/
inductive Event where
  | key (garbage : Byte) (temp : Nat)
  | write (terminal_num : Int) (buf : List Byte)
  | read (terminal_num : Int) (nbytes : Int)

def step (t : terminal_t) : Event → Option terminal_t
  | .key garbage temp => some (keyboard_interrupt t garbage temp).1
  | .write _ buf => some (terminal_write t buf)
  | .read _ nbytes => (terminal_read t nbytes).map (·.2.2)

/-- The state in which `terminal_init` starts the first shell. -/
def booted (memory : terminal_t) : terminal_t := terminal_init (keyboard_init (clear memory))

/-- The character a key press types: Enter types the newline, and the
    characters are translated with the flags the press leaves behind. -/
def typed_char (t : terminal_t) : Event → Option Byte
  | .key garbage temp =>
    let t := set_keyboard_flags t temp
    if t.ctrl_on = 1 ∧ temp = SCAN_L then none
    else if temp = SCAN_ENTER then some NEWLINE
    else if temp = SCAN_BACKSPACE then none
    else if Printable temp then some (scan_code_to_char t garbage temp)
    else none
  | _ => none

/-- The characters typed so far while a terminal was the current one. -/
def typedOn (number : Int) (log : List (terminal_t × Event)) : List Byte :=
  log.filterMap fun taken => if taken.1.current_terminal = number then typed_char taken.1 taken.2 else none

def Event.IsRead : Event → Prop
  | .read _ _ => True
  | _ => False

/-- Enter was typed while the terminal was current, and no read has completed
    since. -/
def EnterPending (number : Int) (log : List (terminal_t × Event)) : Prop :=
  ∃ before t garbage after, log = before ++ (t, .key garbage SCAN_ENTER) :: after ∧
    t.current_terminal = number ∧ ∀ taken ∈ after, ¬ taken.2.IsRead

/-- Isolation of the step an event takes: a write leaves every other terminal's
    screen and cursor alone, and a read returns only characters typed on its
    own terminal, after an Enter typed there. -/
def Isolated (log : List (terminal_t × Event)) (t : terminal_t) : Event → Prop
  | .key _ _ => True
  | .write number buf => ∀ other, IsTerminal other → other ≠ number →
      ((terminal_write t buf).view other).video_buffer = (t.view other).video_buffer ∧
      ((terminal_write t buf).view other).screen_x = (t.view other).screen_x ∧
      ((terminal_write t buf).view other).screen_y = (t.view other).screen_y
  | .read number nbytes => ∀ count line after, terminal_read t nbytes = some (count, line, after) →
      (∀ c ∈ line, c ∈ typedOn number log) ∧ EnterPending number log

/-- The steps the code isolates: a process reads and writes while its own
    terminal is shown, a read stops inside the line buffer, and no switch to
    another terminal leaves a typed Enter behind. -/
def OnOwnTerminal (t : terminal_t) : Event → Prop
  | .key _ temp => ∀ number, switch_target t temp = some number →
      number = t.current_terminal ∨ t.enter_pressed = 0
  | .write number buf => buf = [] ∨ number = t.current_terminal
  | .read number nbytes => number = t.current_terminal ∧
      (nbytes ≤ 128 ∨ ∃ i : Int, 0 ≤ i ∧ i < 128 ∧ t.keyboard_buffer i = 0#8)

/-- How a step that does not switch terminals may change the line buffer: each
    byte stays, or becomes NUL, a newline or the character being typed. -/
structure LineStep (c : Option Byte) (before after : terminal_t) : Prop where
  current_terminal : after.current_terminal = before.current_terminal
  saved : ∀ number, after.saved number = before.saved number
  keyboard_buffer : ∀ i, after.keyboard_buffer i = before.keyboard_buffer i ∨
    after.keyboard_buffer i = 0#8 ∨ after.keyboard_buffer i = NEWLINE ∨ some (after.keyboard_buffer i) = c

theorem SameLine.lineStep {before after : terminal_t} (hsame : SameLine before after) (c : Option Byte) :
    LineStep c before after where
  current_terminal := hsame.current_terminal
  saved := fun number => by simp only [terminal_t.saved, hsame.saved1, hsame.saved2, hsame.saved3]
  keyboard_buffer := fun i => Or.inl (by rw [hsame.keyboard_buffer])

theorem LineStep.trans {c : Option Byte} {t u v : terminal_t} (htu : LineStep c t u) (huv : LineStep c u v) :
    LineStep c t v where
  current_terminal := huv.current_terminal.trans htu.current_terminal
  saved := fun number => (huv.saved number).trans (htu.saved number)
  keyboard_buffer := fun i => by
    rcases huv.keyboard_buffer i with h | h
    · rw [h]
      exact htu.keyboard_buffer i
    · exact Or.inr h

/-- What a read that completes leaves behind: an empty line. -/
def after_read (t : terminal_t) : terminal_t :=
  { t with
    enter_pressed := 0
    keyboard_buffer := copyInto KEYBOARD_BUFFER_SIZE (fun _ => 0#8) t.keyboard_buffer
    end_buf_idx := 0 }

theorem terminal_read_eq (t : terminal_t) (nbytes : Int) (hpressed : t.enter_pressed ≠ 0) :
    terminal_read t nbytes =
      let line := read_line_loop t.keyboard_buffer nbytes.toNat 0
      some ((line.length : Int), line, after_read t) := by
  rw [terminal_read, if_neg hpressed, after_read]

theorem key_step (t : terminal_t) (garbage : Byte) (temp : Nat) :
    step t (.key garbage temp) = some (keyboard_interrupt t garbage temp).1 := rfl

theorem step_read {t t' : terminal_t} {number nbytes : Int} (hstep : step t (.read number nbytes) = some t') :
    t.enter_pressed ≠ 0 ∧ t' = after_read t := by
  by_cases hpressed : t.enter_pressed = 0
  · rw [step, terminal_read, if_pos hpressed] at hstep
    cases hstep
  · rw [step, terminal_read_eq t nbytes hpressed] at hstep
    exact ⟨hpressed, (Option.some.inj hstep).symm⟩

theorem after_read_lineStep (c : Option Byte) (t : terminal_t) : LineStep c t (after_read t) where
  current_terminal := rfl
  saved := fun _ => rfl
  keyboard_buffer := fun i => by
    simp only [after_read, copyInto]
    split
    · exact Or.inr (Or.inl rfl)
    · exact Or.inl rfl

theorem store_key_lineStep {c : Option Byte} (t : terminal_t) (index : Int) {stored : Byte}
    (hstored : stored = 0#8 ∨ stored = NEWLINE ∨ some stored = c) : LineStep c t (store_key t index stored) where
  current_terminal := rfl
  saved := fun _ => rfl
  keyboard_buffer := fun i => by
    by_cases hi : i = index
    · exact Or.inr (by simpa [store_key, hi] using hstored)
    · exact Or.inl (by simp [store_key, hi])

theorem enter_key_lineStep (c : Option Byte) (t : terminal_t) : LineStep c t (enter_key t) := by
  have hflag : LineStep c t { t with enter_pressed := 1 } := ⟨rfl, fun _ => rfl, fun _ => Or.inl rfl⟩
  have hstore : LineStep c t (store_key { t with enter_pressed := 1 } t.end_buf_idx NEWLINE) :=
    hflag.trans (store_key_lineStep _ t.end_buf_idx (Or.inr (Or.inl rfl)))
  unfold enter_key
  dsimp only
  split
  · exact hstore.trans ((scroll_up_sameLine _).lineStep c)
  · exact hstore.trans ⟨rfl, fun _ => rfl, fun _ => Or.inl rfl⟩

theorem backspace_key_lineStep (c : Option Byte) (t : terminal_t) : LineStep c t (backspace_key t) := by
  unfold backspace_key
  dsimp only
  split
  · refine LineStep.trans ?_ (store_key_lineStep _ _ (Or.inl rfl))
    exact ⟨rfl, fun _ => rfl, fun _ => Or.inl rfl⟩
  · exact (SameLine.refl t).lineStep c

theorem buffer_key_lineStep (t : terminal_t) (c : Byte) : LineStep (some c) t (buffer_key t c) := by
  have htyped : LineStep (some c) t { store_key t t.end_buf_idx c with end_buf_idx := t.end_buf_idx + 1 } :=
    (store_key_lineStep t t.end_buf_idx (Or.inr (Or.inr rfl))).trans ⟨rfl, fun _ => rfl, fun _ => Or.inl rfl⟩
  unfold buffer_key
  split
  · exact htyped
  · split
    · exact htyped.trans (store_key_lineStep _ _ (Or.inr (Or.inl rfl)))
    · exact (SameLine.refl t).lineStep _

theorem character_key_lineStep (t : terminal_t) (c : Byte) : LineStep (some c) t (character_key t c) := by
  have hbuffer := buffer_key_lineStep t c
  unfold character_key
  dsimp only
  split
  · exact hbuffer
  · split
    · exact (hbuffer.trans ((scroll_up_sameLine _).lineStep _)).trans ((putc_sameLine _ c).lineStep _)
    · exact hbuffer.trans ((putc_sameLine _ c).lineStep _)

/-- The part of the handler behind the function keys stores nothing but NUL, a
    newline and the typed character. -/
theorem line_keys_lineStep (t : terminal_t) (garbage : Byte) (temp : Nat) :
    LineStep (typed_char t (.key garbage temp)) (set_keyboard_flags t temp)
      (line_keys (set_keyboard_flags t temp) garbage temp) := by
  unfold line_keys typed_char
  dsimp only
  split
  · exact ⟨rfl, fun _ => rfl, fun _ => Or.inl rfl⟩
  · split
    · exact enter_key_lineStep _ _
    · split
      · exact backspace_key_lineStep _ _
      · split
        · exact character_key_lineStep _ _
        · exact (SameLine.refl _).lineStep _

theorem character_key_sameModes (t : terminal_t) (c : Byte) : SameModes t (character_key t c) := by
  have hbuffer : SameModes t (buffer_key t c) := by
    unfold buffer_key
    repeat' split
    all_goals exact ⟨⟨rfl, rfl, rfl, rfl⟩, rfl⟩
  unfold character_key
  dsimp only
  split
  · exact hbuffer
  · split
    · exact (hbuffer.trans (scroll_up_sameModes _)).trans (putc_sameModes _ c)
    · exact hbuffer.trans (putc_sameModes _ c)

/-- It leaves the modifier flags and the marks alone. -/
theorem line_keys_sameModes (t : terminal_t) (garbage : Byte) (temp : Nat) :
    SameModes t (line_keys t garbage temp) := by
  unfold line_keys
  split
  · exact ⟨⟨rfl, rfl, rfl, rfl⟩, rfl⟩
  · split
    · unfold enter_key
      dsimp only
      split <;> exact ⟨⟨rfl, rfl, rfl, rfl⟩, rfl⟩
    · split
      · unfold backspace_key
        dsimp only
        split <;> exact ⟨⟨rfl, rfl, rfl, rfl⟩, rfl⟩
      · split
        · exact character_key_sameModes t _
        · exact SameModes.refl t

/-- What the three terminals hold, live or saved, has a property. -/
structure AllViews (holds : saved_t → Prop) (t : terminal_t) : Prop where
  current : IsTerminal t.current_terminal
  views : ∀ number, IsTerminal number → holds (t.view number)

theorem AllViews.live {holds : saved_t → Prop} {t : terminal_t} (hviews : AllViews holds t) : holds t.live := by
  have hcurrent := hviews.views t.current_terminal hviews.current
  rwa [terminal_t.view_of_current rfl] at hcurrent

/-- A step that shows no other terminal changes only what is live. -/
theorem AllViews.of_live {holds : saved_t → Prop} {t u : terminal_t} {typed : Option Byte} (hviews : AllViews holds t)
    (hstep : LineStep typed t u) (hlive : holds u.live) : AllViews holds u := by
  have hcurrent : IsTerminal u.current_terminal := hstep.current_terminal ▸ hviews.current
  refine ⟨hcurrent, fun number hnumber => ?_⟩
  by_cases hshown : u.current_terminal = number
  · rw [terminal_t.view_of_current hshown]
    exact hlive
  · have hother := hviews.views number hnumber
    rw [terminal_t.view_of_other (hstep.current_terminal ▸ hshown)] at hother
    rw [terminal_t.view_of_other hshown, hstep.saved number]
    exact hother

/-- A switch keeps what the terminals hold. -/
theorem AllViews.switched {holds : saved_t → Prop} {t : terminal_t} (hviews : AllViews holds t)
    (hsame : ∀ a b, SameView a b → holds b → holds a) {number : Int} (hnumber : IsTerminal number)
    (used : Fin 3 → Int) : AllViews holds { switch_to t number with terminal_used := used } := by
  refine ⟨hnumber, fun other hother => ?_⟩
  have hview : SameView (({ switch_to t number with terminal_used := used } : terminal_t).view other)
      (t.view other) := switch_to_view hviews.current hother
  exact hsame _ _ hview (hviews.views other hother)

end houseam.terminal
