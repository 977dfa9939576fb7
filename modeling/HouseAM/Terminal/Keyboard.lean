import HouseAM.Terminal.Screen

namespace houseam.terminal

def SCAN_ENTER : Nat := 0x1C
def SCAN_BACKSPACE : Nat := 0x0E
def SCAN_L : Nat := 0x26
def SCAN_LSHIFT : Nat := 0x2A
def SCAN_LSHIFT_RELEASE : Nat := 0xAA
def SCAN_RSHIFT : Nat := 0x36
def SCAN_RSHIFT_RELEASE : Nat := 0xB6
def SCAN_CTRL : Nat := 0x1D
def SCAN_CTRL_RELEASE : Nat := 0x9D
def SCAN_CAPS : Nat := 0x3A
def SCAN_TAB : Nat := 0x0F
def SCAN_ESC : Nat := 0x01
def SCAN_ALT : Nat := 0x38
def SCAN_ALT_RELEASE : Nat := 0xB8
def SCAN_FONE : Nat := 0x3B
def SCAN_FTWO : Nat := 0x3C
def SCAN_FTHREE : Nat := 0x3D
def DUMMY : Nat := 0x3A

/-! The translation tables: each character code next to its scan code. -/

def scan_code_set : List (Byte × Nat) := [
  (48, 0x0B), (49, 0x02), (50, 0x03), (51, 0x04), (52, 0x05), (53, 0x06),
  (54, 0x07), (55, 0x08), (56, 0x09), (57, 0x0A), (97, 0x1E), (98, 0x30),
  (99, 0x2E), (100, 0x20), (101, 0x12), (102, 0x21), (103, 0x22), (104, 0x23),
  (105, 0x17), (106, 0x24), (107, 0x25), (108, 0x26), (109, 0x32), (110, 0x31),
  (111, 0x18), (112, 0x19), (113, 0x10), (114, 0x13), (115, 0x1F), (116, 0x14),
  (117, 0x16), (118, 0x2F), (119, 0x11), (120, 0x2D), (121, 0x15), (122, 0x2C),
  (96, 0x29), (45, 0x0C), (61, 0x0D), (91, 0x1A), (93, 0x1B), (92, 0x2B),
  (59, 0x27), (39, 0x28), (44, 0x33), (46, 0x34), (47, 0x35), (32, 0x39)]

def scan_code_set_caps : List (Byte × Nat) := [
  (48, 0x0B), (49, 0x02), (50, 0x03), (51, 0x04), (52, 0x05), (53, 0x06),
  (54, 0x07), (55, 0x08), (56, 0x09), (57, 0x0A), (65, 0x1E), (66, 0x30),
  (67, 0x2E), (68, 0x20), (69, 0x12), (70, 0x21), (71, 0x22), (72, 0x23),
  (73, 0x17), (74, 0x24), (75, 0x25), (76, 0x26), (77, 0x32), (78, 0x31),
  (79, 0x18), (80, 0x19), (81, 0x10), (82, 0x13), (83, 0x1F), (84, 0x14),
  (85, 0x16), (86, 0x2F), (87, 0x11), (88, 0x2D), (89, 0x15), (90, 0x2C),
  (96, 0x29), (45, 0x0C), (61, 0x0D), (91, 0x1A), (93, 0x1B), (92, 0x2B),
  (59, 0x27), (39, 0x28), (44, 0x33), (46, 0x34), (47, 0x35), (32, 0x39)]

def scan_code_set_shift : List (Byte × Nat) := [
  (41, 0x0B), (33, 0x02), (64, 0x03), (35, 0x04), (36, 0x05), (37, 0x06),
  (94, 0x07), (38, 0x08), (42, 0x09), (40, 0x0A), (65, 0x1E), (66, 0x30),
  (67, 0x2E), (68, 0x20), (69, 0x12), (70, 0x21), (71, 0x22), (72, 0x23),
  (73, 0x17), (74, 0x24), (75, 0x25), (76, 0x26), (77, 0x32), (78, 0x31),
  (79, 0x18), (80, 0x19), (81, 0x10), (82, 0x13), (83, 0x1F), (84, 0x14),
  (85, 0x16), (86, 0x2F), (87, 0x11), (88, 0x2D), (89, 0x15), (90, 0x2C),
  (126, 0x29), (95, 0x0C), (43, 0x0D), (123, 0x1A), (125, 0x1B), (124, 0x2B),
  (58, 0x27), (34, 0x28), (60, 0x33), (62, 0x34), (63, 0x35), (32, 0x39)]

def scan_code_set_shift_caps : List (Byte × Nat) := [
  (41, 0x0B), (33, 0x02), (64, 0x03), (35, 0x04), (36, 0x05), (37, 0x06),
  (94, 0x07), (38, 0x08), (42, 0x09), (40, 0x0A), (97, 0x1E), (98, 0x30),
  (99, 0x2E), (100, 0x20), (101, 0x12), (102, 0x21), (103, 0x22), (104, 0x23),
  (105, 0x17), (106, 0x24), (107, 0x25), (108, 0x26), (109, 0x32), (110, 0x31),
  (111, 0x18), (112, 0x19), (113, 0x10), (114, 0x13), (115, 0x1F), (116, 0x14),
  (117, 0x16), (118, 0x2F), (119, 0x11), (120, 0x2D), (121, 0x15), (122, 0x2C),
  (126, 0x29), (95, 0x0C), (43, 0x0D), (123, 0x1A), (125, 0x1B), (124, 0x2B),
  (58, 0x27), (34, 0x28), (60, 0x33), (62, 0x34), (63, 0x35), (32, 0x39)]

/-- Which table the modifier flags select. -/
def selected_set (t : terminal_t) : List (Byte × Nat) :=
  if t.shift_on = 1 ∧ t.caps_lock_on = 1 then scan_code_set_shift_caps
  else if t.shift_on = 0 ∧ t.caps_lock_on = 1 then scan_code_set_caps
  else if t.shift_on = 1 ∧ t.caps_lock_on = 0 then scan_code_set_shift
  else scan_code_set

/-- The character is an uninitialised local until a scan code matches, so
    `garbage` is returned for a code that no table entry has. -/
def scan_code_to_char (t : terminal_t) (garbage : Byte) (scan : Nat) : Byte :=
  (scan_code_set.zip (selected_set t)).foldl
    (fun c entry => if entry.1.2 = scan then entry.2.1 else c) garbage

def set_keyboard_flags (t : terminal_t) (scan : Nat) : terminal_t :=
  if scan = SCAN_CTRL then { t with ctrl_on := 1 }
  else if scan = SCAN_CTRL_RELEASE then { t with ctrl_on := 0 }
  else if scan = SCAN_LSHIFT then { t with shift_on := 1 }
  else if scan = SCAN_LSHIFT_RELEASE then { t with shift_on := 0 }
  else if scan = SCAN_RSHIFT then { t with shift_on := 1 }
  else if scan = SCAN_RSHIFT_RELEASE then { t with shift_on := 0 }
  else if scan = SCAN_CAPS then { t with caps_lock_on := 1 - t.caps_lock_on }
  else if scan = SCAN_ALT then { t with alt_on := 1 }
  else if scan = SCAN_ALT_RELEASE then { t with alt_on := 0 }
  else t

/-- The live screen, cursor and line as one `case` of `terminal_switch` saves
    them over an older set. -/
def save_live (t : terminal_t) (old : saved_t) : saved_t where
  screen_x := t.screen_x
  screen_y := t.screen_y
  keyboard_buffer := copyInto KEYBOARD_BUFFER_SIZE t.keyboard_buffer old.keyboard_buffer
  video_buffer := copyInto VIDEO_BUFFER_SIZE t.video_mem old.video_buffer
  end_buf_idx := t.end_buf_idx

def terminal_switch (t : terminal_t) : terminal_t :=
  if t.current_terminal = 1 then { t with saved1 := save_live t t.saved1 }
  else if t.current_terminal = 2 then { t with saved2 := save_live t t.saved2 }
  else if t.current_terminal = 3 then { t with saved3 := save_live t t.saved3 }
  else t

/-- The common body of `terminalone`, `terminaltwo` and `terminalthree` after
    the live state has been saved. -/
def show_terminal (t : terminal_t) (number : Int) (saved : saved_t) : terminal_t :=
  { t with
    current_terminal := number
    video_mem := copyInto VIDEO_BUFFER_SIZE saved.video_buffer t.video_mem
    screen_x := saved.screen_x
    screen_y := saved.screen_y
    keyboard_buffer := copyInto KEYBOARD_BUFFER_SIZE saved.keyboard_buffer t.keyboard_buffer
    end_buf_idx := saved.end_buf_idx }

def terminalone (t : terminal_t) : terminal_t :=
  let t := terminal_switch t
  show_terminal t 1 t.saved1

def terminaltwo (t : terminal_t) : terminal_t :=
  let t := terminal_switch t
  show_terminal t 2 t.saved2

def terminalthree (t : terminal_t) : terminal_t :=
  let t := terminal_switch t
  show_terminal t 3 t.saved3

/-- The Alt+F1, Alt+F2 and Alt+F3 tests. The flag tells that this key press
    calls `sys_execute("shell")`, which happens on the first visit to terminal
    2 or 3. -/
def switch_keys (t : terminal_t) (temp : Nat) : terminal_t × Bool :=
  if t.alt_on = 1 ∧ temp = SCAN_FONE then (terminalone t, false)
  else if t.alt_on = 1 ∧ temp = SCAN_FTWO then
    let t := terminaltwo t
    if t.terminal_used 1 = 0 then ({ t with terminal_used := Function.update t.terminal_used 1 1 }, true)
    else (t, false)
  else if t.alt_on = 1 ∧ temp = SCAN_FTHREE then
    let t := terminalthree t
    if t.terminal_used 2 = 0 then ({ t with terminal_used := Function.update t.terminal_used 2 1 }, true)
    else (t, false)
  else (t, false)

def store_key (t : terminal_t) (index : Int) (c : Byte) : terminal_t :=
  { t with keyboard_buffer := Function.update t.keyboard_buffer index c }

def enter_key (t : terminal_t) : terminal_t :=
  let t := store_key { t with enter_pressed := 1 } t.end_buf_idx NEWLINE
  if t.screen_y = NUM_ROWS - 1 then scroll_up t
  else { t with screen_y := t.screen_y + 1, screen_x := 0 }

/-- The column is decremented and reduced with C's signed remainder, so it
    stays at -1 when it was 0, and the row does not change. -/
def backspace_key (t : terminal_t) : terminal_t :=
  if 0 < t.end_buf_idx then
    let t := { t with screen_x := (t.screen_x - 1).tmod NUM_COLS }
    let t := { t with screen_y := (t.screen_y + t.screen_x.tdiv NUM_COLS).tmod NUM_ROWS }
    let t := put_cell t 0#8
    let t := { t with end_buf_idx := t.end_buf_idx - 1 }
    store_key t t.end_buf_idx 0#8
  else t

/-- Storing a typed character. The last place but one also gets the newline
    behind it, and leaves the index at 127. -/
def buffer_key (t : terminal_t) (c : Byte) : terminal_t :=
  if t.end_buf_idx < KEYBOARD_BUFFER_SIZE - 2 then
    { store_key t t.end_buf_idx c with end_buf_idx := t.end_buf_idx + 1 }
  else if t.end_buf_idx = KEYBOARD_BUFFER_SIZE - 2 then
    store_key { store_key t t.end_buf_idx c with end_buf_idx := t.end_buf_idx + 1 } (t.end_buf_idx + 1) NEWLINE
  else t

theorem buffer_key_room {t : terminal_t} (hroom : t.end_buf_idx < 126) (c : Byte) :
    buffer_key t c = { store_key t t.end_buf_idx c with end_buf_idx := t.end_buf_idx + 1 } := by
  rw [buffer_key, if_pos (by simp only [KEYBOARD_BUFFER_SIZE]; omega)]

theorem buffer_key_fills {t : terminal_t} (hfills : t.end_buf_idx = 126) (c : Byte) :
    buffer_key t c = store_key { store_key t t.end_buf_idx c with end_buf_idx := 127 } 127 NEWLINE := by
  rw [buffer_key, if_neg (by simp only [KEYBOARD_BUFFER_SIZE]; omega),
    if_pos (by simp only [KEYBOARD_BUFFER_SIZE]; omega), hfills]
  rfl

theorem buffer_key_full {t : terminal_t} (hfull : 126 < t.end_buf_idx) (c : Byte) : buffer_key t c = t := by
  rw [buffer_key, if_neg (by simp only [KEYBOARD_BUFFER_SIZE]; omega),
    if_neg (by simp only [KEYBOARD_BUFFER_SIZE]; omega)]

def character_key (t : terminal_t) (c : Byte) : terminal_t :=
  let t := buffer_key t c
  if t.end_buf_idx > KEYBOARD_BUFFER_SIZE - 2 then t
  else
    let t := if t.screen_x = NUM_COLS - 1 ∧ t.screen_y = NUM_ROWS - 1 then scroll_up t else t
    putc t c

/-- The scan codes that reach the character branch. -/
def Printable (temp : Nat) : Prop :=
  temp < DUMMY ∧ temp ≠ SCAN_LSHIFT ∧ temp ≠ SCAN_RSHIFT ∧ temp ≠ SCAN_CTRL ∧ temp ≠ SCAN_TAB ∧
    temp ≠ SCAN_ESC ∧ temp ≠ SCAN_ALT

instance (temp : Nat) : Decidable (Printable temp) :=
  inferInstanceAs (Decidable (temp < DUMMY ∧ temp ≠ SCAN_LSHIFT ∧ temp ≠ SCAN_RSHIFT ∧ temp ≠ SCAN_CTRL ∧
    temp ≠ SCAN_TAB ∧ temp ≠ SCAN_ESC ∧ temp ≠ SCAN_ALT))

/-- The rest of the handler: Ctrl+L, Enter, Backspace and characters. -/
def line_keys (t : terminal_t) (garbage : Byte) (temp : Nat) : terminal_t :=
  if t.ctrl_on = 1 ∧ temp = SCAN_L then { clear t with screen_x := 0, screen_y := 0 }
  else if temp = SCAN_ENTER then enter_key t
  else if temp = SCAN_BACKSPACE then backspace_key t
  else if Printable temp then character_key t (scan_code_to_char t garbage temp)
  else t

/-- The handler for scan code `temp`. When the flag is set, `sys_execute` runs
    on the returned state; nothing after it in the handler matches the code of
    a function key. -/
def keyboard_interrupt (t : terminal_t) (garbage : Byte) (temp : Nat) : terminal_t × Bool :=
  let t := set_keyboard_flags t temp
  let switched := switch_keys t temp
  (line_keys switched.1 garbage temp, switched.2)

/-- The bytes `terminal_read` copies, from index `i` with `n` still wanted. -/
def read_line_loop (keyboard_buffer : Int → Byte) : Nat → Nat → List Byte
  | 0, _ => []
  | n + 1, i =>
    if keyboard_buffer i = 0#8 then []
    else keyboard_buffer i :: read_line_loop keyboard_buffer n (i + 1)

/-- The return value, the bytes stored from `buf[0]` on and the state after the
    call. `none` while the read still waits for Enter. -/
def terminal_read (t : terminal_t) (nbytes : Int) : Option (Int × List Byte × terminal_t) :=
  if t.enter_pressed = 0 then none
  else
    let line := read_line_loop t.keyboard_buffer nbytes.toNat 0
    some (line.length, line, { t with
      enter_pressed := 0
      keyboard_buffer := copyInto KEYBOARD_BUFFER_SIZE (fun _ => 0#8) t.keyboard_buffer
      end_buf_idx := 0 })

end houseam.terminal
