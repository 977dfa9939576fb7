import HouseAM.Terminal.State

namespace houseam.terminal

/-- The address in video memory of the character at a row and column. -/
def cell (row col : Int) : Int := (NUM_COLS * row + col) * 2

/-- Storing one character and its attribute at the cursor. -/
def put_cell (t : terminal_t) (c : Byte) : terminal_t :=
  { t with
    video_mem := fun offset =>
      if offset = cell t.screen_y t.screen_x then c
      else if offset = cell t.screen_y t.screen_x + 1 then ATTRIB
      else t.video_mem offset }

/-- Video memory after the characters, but not the attributes, of rows 1 to 24
    moved up one row and the last row was emptied. -/
def scrolled (video_mem : Int → Byte) : Int → Byte := fun offset =>
  if offset % 2 = 0 ∧ 0 ≤ offset ∧ offset < cell (NUM_ROWS - 1) 0 then video_mem (offset + cell 1 0)
  else if offset % 2 = 0 ∧ cell (NUM_ROWS - 1) 0 ≤ offset ∧ offset < cell NUM_ROWS 0 then 0#8
  else video_mem offset

def scroll_up (t : terminal_t) : terminal_t :=
  { t with video_mem := scrolled t.video_mem, screen_x := 0, screen_y := NUM_ROWS - 1 }

def clear (t : terminal_t) : terminal_t :=
  { t with
    video_mem := fun offset =>
      if 0 ≤ offset ∧ offset < cell NUM_ROWS 0 then (if offset % 2 = 0 then SPACE else ATTRIB)
      else t.video_mem offset
    screen_x := 0
    screen_y := 0 }

/-- The column is reduced with C's signed remainder. The row is reduced modulo
    the number of rows first, so this branch's own scroll test never holds. -/
def putc (t : terminal_t) (c : Byte) : terminal_t :=
  if c = NEWLINE ∨ c = CARRIAGE_RETURN then
    let t := { t with screen_y := t.screen_y + 1, screen_x := 0 }
    if NUM_ROWS ≤ t.screen_y then scroll_up t else t
  else
    let t := put_cell t c
    let t := { t with screen_x := t.screen_x + 1 }
    let t := if NUM_COLS ≤ t.screen_x then { t with screen_y := t.screen_y + 1 } else t
    let t := { t with screen_x := t.screen_x.tmod NUM_COLS }
    let t := { t with screen_y := (t.screen_y + t.screen_x.tdiv NUM_COLS).tmod NUM_ROWS }
    if NUM_ROWS ≤ t.screen_y then scroll_up t else t

def terminal_write (t : terminal_t) (buf : List Byte) : terminal_t := buf.foldl putc t

/-- The screen operations touch only video memory and the cursor. -/
structure SameLine (before after : terminal_t) : Prop where
  keyboard_buffer : after.keyboard_buffer = before.keyboard_buffer
  end_buf_idx : after.end_buf_idx = before.end_buf_idx
  enter_pressed : after.enter_pressed = before.enter_pressed
  current_terminal : after.current_terminal = before.current_terminal
  saved1 : after.saved1 = before.saved1
  saved2 : after.saved2 = before.saved2
  saved3 : after.saved3 = before.saved3

theorem SameLine.refl (t : terminal_t) : SameLine t t := ⟨rfl, rfl, rfl, rfl, rfl, rfl, rfl⟩

theorem SameLine.trans {a b c : terminal_t} (hab : SameLine a b) (hbc : SameLine b c) : SameLine a c where
  keyboard_buffer := hbc.keyboard_buffer.trans hab.keyboard_buffer
  end_buf_idx := hbc.end_buf_idx.trans hab.end_buf_idx
  enter_pressed := hbc.enter_pressed.trans hab.enter_pressed
  current_terminal := hbc.current_terminal.trans hab.current_terminal
  saved1 := hbc.saved1.trans hab.saved1
  saved2 := hbc.saved2.trans hab.saved2
  saved3 := hbc.saved3.trans hab.saved3

theorem scroll_up_sameLine (t : terminal_t) : SameLine t (scroll_up t) := ⟨rfl, rfl, rfl, rfl, rfl, rfl, rfl⟩

theorem putc_sameLine (t : terminal_t) (c : Byte) : SameLine t (putc t c) := by
  unfold putc
  dsimp only
  split
  · split
    · exact SameLine.trans ⟨rfl, rfl, rfl, rfl, rfl, rfl, rfl⟩ (scroll_up_sameLine _)
    · exact ⟨rfl, rfl, rfl, rfl, rfl, rfl, rfl⟩
  · split <;> split <;> exact ⟨rfl, rfl, rfl, rfl, rfl, rfl, rfl⟩

theorem terminal_write_sameLine (t : terminal_t) (buf : List Byte) : SameLine t (terminal_write t buf) := by
  induction buf generalizing t with
  | nil => exact SameLine.refl t
  | cons c buf ih => exact (putc_sameLine t c).trans (ih (putc t c))

structure SameFlags (before after : terminal_t) : Prop where
  shift_on : after.shift_on = before.shift_on
  ctrl_on : after.ctrl_on = before.ctrl_on
  alt_on : after.alt_on = before.alt_on
  caps_lock_on : after.caps_lock_on = before.caps_lock_on

theorem SameFlags.trans {a b c : terminal_t} (hab : SameFlags a b) (hbc : SameFlags b c) : SameFlags a c where
  shift_on := hbc.shift_on.trans hab.shift_on
  ctrl_on := hbc.ctrl_on.trans hab.ctrl_on
  alt_on := hbc.alt_on.trans hab.alt_on
  caps_lock_on := hbc.caps_lock_on.trans hab.caps_lock_on

/-- Only the modifier and function keys touch the flags and the marks. -/
structure SameModes (before after : terminal_t) : Prop extends SameFlags before after where
  terminal_used : after.terminal_used = before.terminal_used

theorem SameModes.refl (t : terminal_t) : SameModes t t := ⟨⟨rfl, rfl, rfl, rfl⟩, rfl⟩

theorem SameModes.trans {a b c : terminal_t} (hab : SameModes a b) (hbc : SameModes b c) : SameModes a c where
  toSameFlags := hab.toSameFlags.trans hbc.toSameFlags
  terminal_used := hbc.terminal_used.trans hab.terminal_used

theorem scroll_up_sameModes (t : terminal_t) : SameModes t (scroll_up t) := ⟨⟨rfl, rfl, rfl, rfl⟩, rfl⟩

theorem putc_sameModes (t : terminal_t) (c : Byte) : SameModes t (putc t c) := by
  unfold putc
  dsimp only
  split
  · split
    · exact SameModes.trans ⟨⟨rfl, rfl, rfl, rfl⟩, rfl⟩ (scroll_up_sameModes _)
    · exact ⟨⟨rfl, rfl, rfl, rfl⟩, rfl⟩
  · split <;> split <;> exact ⟨⟨rfl, rfl, rfl, rfl⟩, rfl⟩

theorem terminal_write_sameModes (t : terminal_t) (buf : List Byte) : SameModes t (terminal_write t buf) := by
  induction buf generalizing t with
  | nil => exact SameModes.refl t
  | cons c buf ih => exact (putc_sameModes t c).trans (ih (putc t c))

end houseam.terminal
