import HouseAM.Support.Runs
import HouseAM.Terminal.Events

open support.runs

namespace houseam.terminal

variable {log : List (terminal_t × Event)} {t t' : terminal_t} {e : Event} {c : Byte} {offset : Int}

/-- The cursor is on the screen. -/
structure saved_t.CursorInside (view : saved_t) : Prop where
  column_nonneg : 0 ≤ view.screen_x
  column_lt : view.screen_x < NUM_COLS
  row_nonneg : 0 ≤ view.screen_y
  row_lt : view.screen_y < NUM_ROWS

/-! The offsets in video memory that the functions store to, in the order of
their stores. -/

def put_cell_stores (t : terminal_t) : List Int :=
  [cell t.screen_y t.screen_x, cell t.screen_y t.screen_x + 1]

def scroll_up_stores : List Int :=
  (List.range 2000).map fun i : Nat => (2 * i : Int)

def clear_stores : List Int :=
  (List.range 4000).map fun i : Nat => (i : Int)

/-- The branch for characters never gets to its scroll. -/
def putc_stores (t : terminal_t) (c : Byte) : List Int :=
  if c = NEWLINE ∨ c = CARRIAGE_RETURN then
    (if NUM_ROWS ≤ t.screen_y + 1 then scroll_up_stores else [])
  else put_cell_stores t

def terminal_write_stores : terminal_t → List Byte → List Int
  | _, [] => []
  | t, c :: buf => putc_stores t c ++ terminal_write_stores (putc t c) buf

def enter_key_stores (t : terminal_t) : List Int :=
  if t.screen_y = NUM_ROWS - 1 then scroll_up_stores else []

/-- The cell is erased at the cursor that the key leaves behind. -/
def backspace_key_stores (t : terminal_t) : List Int :=
  if 0 < t.end_buf_idx then put_cell_stores (backspace_key t) else []

def character_key_stores (t : terminal_t) (c : Byte) : List Int :=
  let t := buffer_key t c
  if t.end_buf_idx > KEYBOARD_BUFFER_SIZE - 2 then []
  else if t.screen_x = NUM_COLS - 1 ∧ t.screen_y = NUM_ROWS - 1 then
    scroll_up_stores ++ putc_stores (scroll_up t) c
  else putc_stores t c

def line_keys_stores (t : terminal_t) (garbage : Byte) (temp : Nat) : List Int :=
  if t.ctrl_on = 1 ∧ temp = SCAN_L then clear_stores
  else if temp = SCAN_ENTER then enter_key_stores t
  else if temp = SCAN_BACKSPACE then backspace_key_stores t
  else if Printable temp then character_key_stores t (scan_code_to_char t garbage temp)
  else []

/-- A switch copies the whole page of the terminal it shows, which runs on past
    the last cell. -/
def switch_keys_stores (t : terminal_t) (temp : Nat) : List Int :=
  if (switch_target t temp).isSome then (List.range VIDEO_BUFFER_SIZE).map fun i : Nat => (i : Int) else []

def stores (t : terminal_t) : Event → List Int
  | .key garbage temp =>
    let t := set_keyboard_flags t temp
    switch_keys_stores t temp ++ line_keys_stores (switch_keys t temp).1 garbage temp
  | .write _ buf => terminal_write_stores t buf
  | .read _ _ => []

/-- Video memory changed at most at some offsets. -/
def ChangedOnly (offsets : List Int) (before after : terminal_t) : Prop :=
  ∀ offset, offset ∉ offsets → after.video_mem offset = before.video_mem offset

theorem ChangedOnly.refl (offsets : List Int) (t : terminal_t) : ChangedOnly offsets t t := fun _ _ => rfl

theorem ChangedOnly.append {a b : List Int} {t u v : terminal_t} (htu : ChangedOnly a t u)
    (huv : ChangedOnly b u v) : ChangedOnly (a ++ b) t v := by
  intro offset hoffset
  rw [List.mem_append, not_or] at hoffset
  rw [huv offset hoffset.2, htu offset hoffset.1]

theorem ChangedOnly.of_video_mem {a : List Int} {t u v : terminal_t} (hsame : u.video_mem = t.video_mem)
    (huv : ChangedOnly a u v) : ChangedOnly a t v := by
  intro offset hoffset
  rw [huv offset hoffset, hsame]

theorem put_cell_changedOnly (t : terminal_t) (c : Byte) : ChangedOnly (put_cell_stores t) t (put_cell t c) := by
  intro offset hoffset
  simp only [put_cell_stores, List.mem_cons, List.not_mem_nil, or_false, not_or] at hoffset
  simp only [put_cell, if_neg hoffset.1, if_neg hoffset.2]

theorem mem_scroll_up_stores : offset ∈ scroll_up_stores ↔ offset % 2 = 0 ∧ 0 ≤ offset ∧ offset < 4000 := by
  simp only [scroll_up_stores, List.mem_map, List.mem_range]
  constructor
  · rintro ⟨i, hi, rfl⟩
    omega
  · rintro ⟨heven, hlo, hhi⟩
    exact ⟨(offset / 2).toNat, by omega, by omega⟩

theorem mem_clear_stores : offset ∈ clear_stores ↔ 0 ≤ offset ∧ offset < 4000 := by
  simp only [clear_stores, List.mem_map, List.mem_range]
  constructor
  · rintro ⟨i, hi, rfl⟩
    omega
  · rintro ⟨hlo, hhi⟩
    exact ⟨offset.toNat, by omega, by omega⟩

theorem scroll_up_changedOnly (t : terminal_t) : ChangedOnly scroll_up_stores t (scroll_up t) := by
  intro offset hoffset
  rw [mem_scroll_up_stores] at hoffset
  have hmoved : ¬ (offset % 2 = 0 ∧ 0 ≤ offset ∧ offset < cell (NUM_ROWS - 1) 0) := by
    simp only [cell, NUM_ROWS, NUM_COLS]
    omega
  have hemptied : ¬ (offset % 2 = 0 ∧ cell (NUM_ROWS - 1) 0 ≤ offset ∧ offset < cell NUM_ROWS 0) := by
    simp only [cell, NUM_ROWS, NUM_COLS]
    omega
  simp only [scroll_up, scrolled, if_neg hmoved, if_neg hemptied]

theorem clear_changedOnly (t : terminal_t) : ChangedOnly clear_stores t (clear t) := by
  intro offset hoffset
  rw [mem_clear_stores] at hoffset
  have houtside : ¬ (0 ≤ offset ∧ offset < cell NUM_ROWS 0) := by
    simp only [cell, NUM_ROWS, NUM_COLS]
    omega
  simp only [clear, if_neg houtside]

/-- A character goes to the cell at the cursor, which moves on. -/
theorem putc_character (t : terminal_t) (hc : ¬ (c = NEWLINE ∨ c = CARRIAGE_RETURN)) :
    putc t c = { put_cell t c with
      screen_x := (t.screen_x + 1).tmod NUM_COLS
      screen_y := ((if NUM_COLS ≤ t.screen_x + 1 then t.screen_y + 1 else t.screen_y) +
        ((t.screen_x + 1).tmod NUM_COLS).tdiv NUM_COLS).tmod NUM_ROWS } := by
  have hrow (y : Int) : ¬ NUM_ROWS ≤ y.tmod NUM_ROWS :=
    Int.not_le.mpr (Int.tmod_lt_of_pos y (by simp only [NUM_ROWS]; omega))
  unfold putc
  by_cases hfull : NUM_COLS ≤ t.screen_x + 1
  · simp only [put_cell, hc, hfull, hrow, ↓reduceIte]
  · simp only [put_cell, hc, hfull, hrow, ↓reduceIte]

theorem putc_newline (t : terminal_t) (hc : c = NEWLINE ∨ c = CARRIAGE_RETURN) :
    putc t c = if NUM_ROWS ≤ t.screen_y + 1 then scroll_up { t with screen_y := t.screen_y + 1, screen_x := 0 }
      else { t with screen_y := t.screen_y + 1, screen_x := 0 } := by
  unfold putc
  rw [if_pos hc]

theorem putc_changedOnly (t : terminal_t) (c : Byte) : ChangedOnly (putc_stores t c) t (putc t c) := by
  unfold putc_stores
  by_cases hc : c = NEWLINE ∨ c = CARRIAGE_RETURN
  · rw [if_pos hc, putc_newline t hc]
    split
    · exact scroll_up_changedOnly _
    · exact fun _ _ => rfl
  · rw [if_neg hc, putc_character t hc]
    exact put_cell_changedOnly t c

theorem terminal_write_changedOnly (t : terminal_t) (buf : List Byte) :
    ChangedOnly (terminal_write_stores t buf) t (terminal_write t buf) := by
  induction buf generalizing t with
  | nil => exact ChangedOnly.refl _ t
  | cons c buf ih => exact (putc_changedOnly t c).append (ih (putc t c))

theorem enter_key_changedOnly (t : terminal_t) : ChangedOnly (enter_key_stores t) t (enter_key t) := by
  unfold enter_key enter_key_stores
  dsimp only [store_key]
  split
  · exact scroll_up_changedOnly _
  · exact fun _ _ => rfl

theorem backspace_key_changedOnly (t : terminal_t) :
    ChangedOnly (backspace_key_stores t) t (backspace_key t) := by
  unfold backspace_key_stores
  by_cases hempty : 0 < t.end_buf_idx
  · rw [if_pos hempty]
    simp only [backspace_key, if_pos hempty]
    intro offset hoffset
    exact put_cell_changedOnly { t with
      screen_x := (t.screen_x - 1).tmod NUM_COLS
      screen_y := (t.screen_y + ((t.screen_x - 1).tmod NUM_COLS).tdiv NUM_COLS).tmod NUM_ROWS } 0#8 offset hoffset
  · rw [if_neg hempty, backspace_key, if_neg hempty]
    exact ChangedOnly.refl _ t

theorem buffer_key_video_mem (t : terminal_t) (c : Byte) : (buffer_key t c).video_mem = t.video_mem := by
  unfold buffer_key
  repeat' split
  all_goals rfl

theorem character_key_changedOnly (t : terminal_t) (c : Byte) :
    ChangedOnly (character_key_stores t c) t (character_key t c) := by
  apply ChangedOnly.of_video_mem (buffer_key_video_mem t c)
  unfold character_key character_key_stores
  by_cases hfull : (buffer_key t c).end_buf_idx > KEYBOARD_BUFFER_SIZE - 2
  · simp only [if_pos hfull]
    exact ChangedOnly.refl _ _
  · simp only [if_neg hfull]
    split
    · exact (scroll_up_changedOnly _).append (putc_changedOnly _ c)
    · exact putc_changedOnly _ c

theorem line_keys_changedOnly (t : terminal_t) (garbage : Byte) (temp : Nat) :
    ChangedOnly (line_keys_stores t garbage temp) t (line_keys t garbage temp) := by
  unfold line_keys line_keys_stores
  split
  · exact clear_changedOnly t
  · split
    · exact enter_key_changedOnly t
    · split
      · exact backspace_key_changedOnly t
      · split
        · exact character_key_changedOnly t _
        · exact ChangedOnly.refl _ t

theorem switch_keys_changedOnly (t : terminal_t) (temp : Nat) :
    ChangedOnly (switch_keys_stores t temp) t (switch_keys t temp).1 := by
  unfold switch_keys_stores
  rcases switch_keys_cases t temp with ⟨htarget, hstay⟩ | ⟨number, used, htarget, hswitch⟩
  · rw [hstay]
    exact ChangedOnly.refl _ t
  · rw [hswitch, htarget]
    intro offset hoffset
    have houtside : ¬ (0 ≤ offset ∧ offset < VIDEO_BUFFER_SIZE) := by
      rintro ⟨hlo, hhi⟩
      exact hoffset (List.mem_map.mpr ⟨offset.toNat, List.mem_range.mpr (by omega), Int.toNat_of_nonneg hlo⟩)
    have hkept : (terminal_switch t).video_mem = t.video_mem := by
      unfold terminal_switch
      repeat' split
      all_goals rfl
    simp only [switch_to, show_terminal, copyInto, if_neg houtside, hkept]

/-- A step changes video memory at most at the offsets it stores to. -/
theorem step_changedOnly (hstep : step t e = some t') : ChangedOnly (stores t e) t t' := by
  cases e with
  | key garbage temp =>
    cases hstep
    have hflags : (set_keyboard_flags t temp).video_mem = t.video_mem :=
      congrArg saved_t.video_buffer (set_keyboard_flags_live t temp)
    apply ChangedOnly.of_video_mem hflags
    exact (switch_keys_changedOnly _ temp).append (line_keys_changedOnly _ garbage temp)
  | write number buf =>
    cases hstep
    exact terminal_write_changedOnly t buf
  | read number nbytes =>
    obtain ⟨-, rfl⟩ := step_read hstep
    exact ChangedOnly.refl _ t

/-- From a cursor on the screen, a character moves the cursor along the row, and
    from the last column to the row below, the last row's being the first. -/
theorem putc_character_inside (hinside : t.live.CursorInside) (hc : ¬ (c = NEWLINE ∨ c = CARRIAGE_RETURN)) :
    putc t c = { put_cell t c with
      screen_x := if t.screen_x = 79 then 0 else t.screen_x + 1
      screen_y := if t.screen_x = 79 then (if t.screen_y = 24 then 0 else t.screen_y + 1) else t.screen_y } := by
  obtain ⟨hxlo, hxhi, hylo, hyhi⟩ := hinside
  simp only [terminal_t.live, NUM_COLS, NUM_ROWS] at hxlo hxhi hylo hyhi
  rw [putc_character t hc]
  by_cases hlast : t.screen_x = 79
  · have hfull : NUM_COLS ≤ t.screen_x + 1 := by
      simp only [NUM_COLS]
      omega
    have hcolumn : (t.screen_x + 1).tmod NUM_COLS = 0 := by
      rw [hlast]
      rfl
    have hrow : (t.screen_y + 1).tmod NUM_ROWS = if t.screen_y = 24 then 0 else t.screen_y + 1 := by
      by_cases hbottom : t.screen_y = 24
      · rw [if_pos hbottom, hbottom]
        rfl
      · rw [if_neg hbottom]
        exact Int.tmod_eq_of_lt (by omega) (show t.screen_y + 1 < 25 by omega)
    rw [hcolumn, if_pos hfull, if_pos hlast, if_pos hlast, Int.zero_tdiv, Int.add_zero, hrow]
  · have hroom : ¬ NUM_COLS ≤ t.screen_x + 1 := by
      simp only [NUM_COLS]
      omega
    have hcolumn : (t.screen_x + 1).tmod NUM_COLS = t.screen_x + 1 :=
      Int.tmod_eq_of_lt (by omega) (show t.screen_x + 1 < 80 by omega)
    have hrow : (t.screen_x + 1).tdiv NUM_COLS = 0 :=
      Int.tdiv_eq_zero_of_lt (by omega) (show t.screen_x + 1 < 80 by omega)
    have hsame : t.screen_y.tmod NUM_ROWS = t.screen_y := Int.tmod_eq_of_lt hylo hyhi
    rw [hcolumn, if_neg hroom, if_neg hlast, if_neg hlast, hrow, Int.add_zero, hsame]

theorem put_cell_stores_inside (hinside : t.live.CursorInside) (hoffset : offset ∈ put_cell_stores t) :
    0 ≤ offset ∧ offset < 4000 := by
  obtain ⟨hxlo, hxhi, hylo, hyhi⟩ := hinside
  simp only [terminal_t.live, NUM_COLS, NUM_ROWS] at hxlo hxhi hylo hyhi
  simp only [put_cell_stores, cell, NUM_COLS, List.mem_cons, List.not_mem_nil, or_false] at hoffset
  omega

theorem scroll_up_stores_inside (hoffset : offset ∈ scroll_up_stores) : 0 ≤ offset ∧ offset < 4000 :=
  (mem_scroll_up_stores.mp hoffset).2

theorem scroll_up_inside (t : terminal_t) : (scroll_up t).live.CursorInside := by
  refine ⟨?_, ?_, ?_, ?_⟩ <;> simp [scroll_up, terminal_t.live, NUM_ROWS, NUM_COLS]

theorem clear_inside (t : terminal_t) : (clear t).live.CursorInside := by
  refine ⟨?_, ?_, ?_, ?_⟩ <;> simp [clear, terminal_t.live, NUM_ROWS, NUM_COLS]

theorem putc_inside (hinside : t.live.CursorInside) (c : Byte) : (putc t c).live.CursorInside := by
  have hcursor := hinside
  obtain ⟨hxlo, hxhi, hylo, hyhi⟩ := hcursor
  simp only [terminal_t.live, NUM_COLS, NUM_ROWS] at hxlo hxhi hylo hyhi
  by_cases hc : c = NEWLINE ∨ c = CARRIAGE_RETURN
  · rw [putc_newline t hc]
    split
    · exact scroll_up_inside _
    · rename_i hroom
      simp only [NUM_ROWS] at hroom
      refine ⟨?_, ?_, ?_, ?_⟩ <;> simp only [terminal_t.live, NUM_ROWS, NUM_COLS] <;> omega
  · rw [putc_character_inside hinside hc]
    refine ⟨?_, ?_, ?_, ?_⟩ <;> simp only [terminal_t.live, NUM_ROWS, NUM_COLS]
    · split <;> omega
    · split <;> omega
    · repeat' split
      all_goals omega
    · repeat' split
      all_goals omega

theorem putc_stores_inside (hinside : t.live.CursorInside) (hoffset : offset ∈ putc_stores t c) :
    0 ≤ offset ∧ offset < 4000 := by
  unfold putc_stores at hoffset
  split at hoffset
  · split at hoffset
    · exact scroll_up_stores_inside hoffset
    · exact absurd hoffset List.not_mem_nil
  · exact put_cell_stores_inside hinside hoffset

theorem terminal_write_inside (hinside : t.live.CursorInside) (buf : List Byte) :
    (terminal_write t buf).live.CursorInside := by
  induction buf generalizing t with
  | nil => exact hinside
  | cons c buf ih => exact ih (putc_inside hinside c)

theorem terminal_write_stores_inside (hinside : t.live.CursorInside) {buf : List Byte}
    (hoffset : offset ∈ terminal_write_stores t buf) : 0 ≤ offset ∧ offset < 4000 := by
  induction buf generalizing t with
  | nil => exact absurd hoffset List.not_mem_nil
  | cons c buf ih =>
    rcases List.mem_append.mp hoffset with hfirst | hrest
    · exact putc_stores_inside hinside hfirst
    · exact ih (putc_inside hinside c) hrest

theorem enter_key_inside (hinside : t.live.CursorInside) : (enter_key t).live.CursorInside := by
  obtain ⟨hxlo, hxhi, hylo, hyhi⟩ := hinside
  simp only [terminal_t.live, NUM_COLS, NUM_ROWS] at hxlo hxhi hylo hyhi
  unfold enter_key
  dsimp only [store_key]
  split
  · exact scroll_up_inside _
  · rename_i hbottom
    simp only [NUM_ROWS] at hbottom
    refine ⟨?_, ?_, ?_, ?_⟩ <;> simp only [terminal_t.live, NUM_ROWS, NUM_COLS] <;> omega

/-- Behind the first column, an erased character leaves the cursor in its row. -/
theorem backspace_key_cursor (hinside : t.live.CursorInside) (htyped : 0 < t.end_buf_idx) (hcolumn : t.screen_x ≠ 0) :
    (backspace_key t).screen_x = t.screen_x - 1 ∧ (backspace_key t).screen_y = t.screen_y := by
  obtain ⟨hxlo, hxhi, hylo, hyhi⟩ := hinside
  simp only [terminal_t.live, NUM_COLS, NUM_ROWS] at hxlo hxhi hylo hyhi
  have hleft : (t.screen_x - 1).tmod 80 = t.screen_x - 1 := Int.tmod_eq_of_lt (by omega) (by omega)
  have hrow : (t.screen_y + (t.screen_x - 1).tdiv 80).tmod 25 = t.screen_y := by
    rw [Int.tdiv_eq_zero_of_lt (by omega) (by omega), Int.add_zero, Int.tmod_eq_of_lt hylo hyhi]
  simp only [backspace_key, if_pos htyped, store_key, put_cell, NUM_COLS, NUM_ROWS, hleft, hrow, and_self]

theorem keyboard_interrupt_backspace (t : terminal_t) (garbage : Byte) :
    (keyboard_interrupt t garbage SCAN_BACKSPACE).1 = backspace_key t := by
  simp [keyboard_interrupt, set_keyboard_flags, switch_keys, line_keys, SCAN_BACKSPACE, SCAN_CTRL, SCAN_CTRL_RELEASE,
    SCAN_LSHIFT, SCAN_LSHIFT_RELEASE, SCAN_RSHIFT, SCAN_RSHIFT_RELEASE, SCAN_CAPS, SCAN_ALT, SCAN_ALT_RELEASE,
    SCAN_FONE, SCAN_FTWO, SCAN_FTHREE, SCAN_L, SCAN_ENTER]

/-- In the first column, it takes the cursor off the screen. -/
theorem backspace_key_column_zero (htyped : 0 < t.end_buf_idx) (hcolumn : t.screen_x = 0) :
    (backspace_key t).screen_x = -1 := by
  simp only [backspace_key, if_pos htyped, store_key, put_cell, hcolumn]
  rfl

theorem backspace_key_inside (hinside : t.live.CursorInside) (herase : ¬ (0 < t.end_buf_idx ∧ t.screen_x = 0)) :
    (backspace_key t).live.CursorInside := by
  by_cases htyped : 0 < t.end_buf_idx
  · have hcolumn : t.screen_x ≠ 0 := fun h => herase ⟨htyped, h⟩
    obtain ⟨hx, hy⟩ := backspace_key_cursor hinside htyped hcolumn
    obtain ⟨hxlo, hxhi, hylo, hyhi⟩ := hinside
    simp only [terminal_t.live] at hxlo hxhi hylo hyhi
    refine ⟨?_, ?_, ?_, ?_⟩ <;> simp only [terminal_t.live, hx, hy] <;> omega
  · rw [backspace_key, if_neg htyped]
    exact hinside

theorem buffer_key_inside (hinside : t.live.CursorInside) (c : Byte) : (buffer_key t c).live.CursorInside := by
  obtain ⟨hxlo, hxhi, hylo, hyhi⟩ := hinside
  unfold buffer_key
  repeat' split
  all_goals exact ⟨hxlo, hxhi, hylo, hyhi⟩

theorem character_key_inside (hinside : t.live.CursorInside) (c : Byte) :
    (character_key t c).live.CursorInside := by
  unfold character_key
  dsimp only
  split
  · exact buffer_key_inside hinside c
  · apply putc_inside
    split
    · exact scroll_up_inside _
    · exact buffer_key_inside hinside c

theorem character_key_stores_inside (hinside : t.live.CursorInside)
    (hoffset : offset ∈ character_key_stores t c) : 0 ≤ offset ∧ offset < 4000 := by
  unfold character_key_stores at hoffset
  dsimp only at hoffset
  split at hoffset
  · exact absurd hoffset List.not_mem_nil
  · split at hoffset
    · rcases List.mem_append.mp hoffset with hscroll | hput
      · exact scroll_up_stores_inside hscroll
      · exact putc_stores_inside (scroll_up_inside _) hput
    · exact putc_stores_inside (buffer_key_inside hinside c) hoffset

/-- The key that erases a character while the cursor is in the first column. -/
def ErasesColumnZero (t : terminal_t) : Event → Prop
  | .key _ temp => temp = SCAN_BACKSPACE ∧ 0 < t.end_buf_idx ∧ t.screen_x = 0
  | _ => False

theorem line_keys_inside (hinside : t.live.CursorInside) {garbage : Byte} {temp : Nat}
    (herase : ¬ ErasesColumnZero t (.key garbage temp)) : (line_keys t garbage temp).live.CursorInside := by
  unfold line_keys
  split
  · exact clear_inside t
  · split
    · exact enter_key_inside hinside
    · split
      · rename_i hbackspace
        exact backspace_key_inside hinside fun h => herase ⟨hbackspace, h⟩
      · split
        · exact character_key_inside hinside _
        · exact hinside

theorem line_keys_stores_inside (hinside : t.live.CursorInside) {garbage : Byte} {temp : Nat}
    (herase : ¬ ErasesColumnZero t (.key garbage temp)) (hoffset : offset ∈ line_keys_stores t garbage temp) :
    0 ≤ offset ∧ offset < 4000 := by
  unfold line_keys_stores at hoffset
  split at hoffset
  · exact mem_clear_stores.mp hoffset
  · split at hoffset
    · unfold enter_key_stores at hoffset
      split at hoffset
      · exact scroll_up_stores_inside hoffset
      · exact absurd hoffset List.not_mem_nil
    · split at hoffset
      · rename_i hbackspace
        unfold backspace_key_stores at hoffset
        split at hoffset
        · exact put_cell_stores_inside (backspace_key_inside hinside fun h => herase ⟨hbackspace, h⟩) hoffset
        · exact absurd hoffset List.not_mem_nil
      · split at hoffset
        · exact character_key_stores_inside hinside hoffset
        · exact absurd hoffset List.not_mem_nil

/-- The cursors of all three terminals are on the screen. -/
structure CursorsInside (t : terminal_t) : Prop where
  current : IsTerminal t.current_terminal
  inside : ∀ number, IsTerminal number → (t.view number).CursorInside

theorem cursorsInside_iff : CursorsInside t ↔ AllViews saved_t.CursorInside t :=
  ⟨fun h => ⟨h.current, h.inside⟩, fun h => ⟨h.current, h.views⟩⟩

theorem CursorsInside.live (hcursors : CursorsInside t) : t.live.CursorInside :=
  (cursorsInside_iff.mp hcursors).live

theorem booted_cursorsInside (memory : terminal_t) : CursorsInside (booted memory) where
  current := Or.inl rfl
  inside := by
    intro number hnumber
    rcases hnumber with rfl | rfl | rfl
    all_goals refine ⟨?_, ?_, ?_, ?_⟩
    all_goals simp [booted, terminal_init, keyboard_init, terminal_t.view, terminal_t.saved, saved_t.clear, NUM_COLS,
      NUM_ROWS]

/-- A step that shows no other terminal moves only the live cursor. -/
theorem CursorsInside.of_live {u : terminal_t} {typed : Option Byte} (hcursors : CursorsInside t)
    (hstep : LineStep typed t u) (hlive : u.live.CursorInside) : CursorsInside u :=
  cursorsInside_iff.mpr ((cursorsInside_iff.mp hcursors).of_live hstep hlive)

theorem CursorsInside.switched (hcursors : CursorsInside t) {number : Int} (hnumber : IsTerminal number)
    (used : Fin 3 → Int) : CursorsInside { switch_to t number with terminal_used := used } := by
  apply cursorsInside_iff.mpr
  refine (cursorsInside_iff.mp hcursors).switched ?_ hnumber used
  intro a b hview hinside
  obtain ⟨hxlo, hxhi, hylo, hyhi⟩ := hinside
  rw [← hview.screen_x] at hxlo hxhi
  rw [← hview.screen_y] at hylo hyhi
  exact ⟨hxlo, hxhi, hylo, hyhi⟩

theorem switch_keys_stores_inside {temp : Nat} (hoffset : offset ∈ switch_keys_stores t temp) :
    switch_target t temp ≠ none ∧ 0 ≤ offset ∧ offset < VIDEO_BUFFER_SIZE := by
  unfold switch_keys_stores at hoffset
  split at hoffset
  · rename_i htarget
    obtain ⟨i, hi, rfl⟩ := List.mem_map.mp hoffset
    rw [List.mem_range] at hi
    exact ⟨Option.isSome_iff_ne_none.mp htarget, by omega, by omega⟩
  · exact absurd hoffset List.not_mem_nil

/-- A switch to another terminal copies its page, whose bytes from 4000 on
    belong to no cell of the screen. -/
def Switches (t : terminal_t) : Event → Prop
  | .key _ temp => switch_target t temp ≠ none
  | _ => False

/-- Where the stores of a step may be: in a cell of the screen, or behind the
    last cell where a switch copies a page. -/
def StoresInside (t : terminal_t) (e : Event) : Prop :=
  ∀ offset ∈ stores t e, 0 ≤ offset ∧ (offset < 4000 ∨ Switches t e ∧ offset < VIDEO_BUFFER_SIZE)

/-- A key that does not erase in column 0 keeps the cursors on the screen. -/
theorem CursorsInside.key (hcursors : CursorsInside t) {garbage : Byte} {temp : Nat}
    (herase : ¬ ErasesColumnZero t (.key garbage temp)) :
    CursorsInside (keyboard_interrupt t garbage temp).1 ∧ StoresInside t (.key garbage temp) := by
  have hlive := set_keyboard_flags_live t temp
  have hinside : (set_keyboard_flags t temp).live.CursorInside := hlive ▸ hcursors.live
  have herase' : ¬ ErasesColumnZero (set_keyboard_flags t temp) (.key garbage temp) := by
    rintro ⟨hbackspace, htyped, hcolumn⟩
    have hend : (set_keyboard_flags t temp).end_buf_idx = t.end_buf_idx := congrArg saved_t.end_buf_idx hlive
    have hx : (set_keyboard_flags t temp).screen_x = t.screen_x := congrArg saved_t.screen_x hlive
    exact herase ⟨hbackspace, hend ▸ htyped, hx ▸ hcolumn⟩
  rcases keyboard_interrupt_cases t garbage temp with ⟨htarget, hafter⟩ | ⟨shown, used, hsame, htarget, hafter⟩
  · have hstay : (switch_keys (set_keyboard_flags t temp) temp).1 = set_keyboard_flags t temp :=
      switch_keys_of_none htarget
    constructor
    · rw [hafter]
      apply hcursors.of_live
        (((set_keyboard_flags_sameLine t temp).lineStep _).trans (line_keys_lineStep t garbage temp))
      exact line_keys_inside hinside herase'
    · intro offset hoffset
      simp only [stores, switch_keys_stores, htarget, Option.isSome_none, Bool.false_eq_true, if_false,
        List.nil_append, hstay] at hoffset
      obtain ⟨hlo, hhi⟩ := line_keys_stores_inside hinside herase' hoffset
      exact ⟨hlo, Or.inl hhi⟩
  · constructor
    · rw [hafter]
      exact hcursors.switched (switch_target_isTerminal htarget) used
    · intro offset hoffset
      obtain ⟨hclear, henter, hbackspace, hprintable⟩ := switch_target_quiet htarget
      have hquiet : line_keys_stores (switch_keys t temp).1 garbage temp = [] := by
        rw [line_keys_stores, if_neg (fun h => hclear h.2), if_neg henter, if_neg hbackspace, if_neg hprintable]
      simp only [stores, hsame, hquiet, List.append_nil] at hoffset
      obtain ⟨hswitches, hlo, hhi⟩ := switch_keys_stores_inside hoffset
      exact ⟨hlo, Or.inr ⟨hswitches, hhi⟩⟩

/-- What one step keeps and where it stores, unless it erases in column 0. -/
theorem CursorsInside.step (hcursors : CursorsInside t) (herase : ¬ ErasesColumnZero t e)
    (hstep : terminal.step t e = some t') : CursorsInside t' ∧ StoresInside t e := by
  cases e with
  | key garbage temp =>
    cases hstep
    exact hcursors.key herase
  | write number buf =>
    cases hstep
    constructor
    · apply hcursors.of_live ((terminal_write_sameLine t buf).lineStep none)
      exact terminal_write_inside hcursors.live buf
    · intro offset hoffset
      obtain ⟨hlo, hhi⟩ := terminal_write_stores_inside hcursors.live hoffset
      exact ⟨hlo, Or.inl hhi⟩
  | read number nbytes =>
    obtain ⟨-, rfl⟩ := step_read hstep
    constructor
    · apply hcursors.of_live (after_read_lineStep none t)
      obtain ⟨hxlo, hxhi, hylo, hyhi⟩ := hcursors.live
      exact ⟨hxlo, hxhi, hylo, hyhi⟩
    · intro offset hoffset
      exact absurd hoffset List.not_mem_nil

/-- After every step of a run the cursor is on the screen, and the step stored
    only there. -/
def OnScreen (log : List (terminal_t × Event)) : Prop :=
  ∀ taken ∈ log, ∀ t', step taken.1 taken.2 = some t' → t'.live.CursorInside ∧ StoresInside taken.1 taken.2

/-- A run from boot stays on the screen exactly if none of its keys erases a
    character while the cursor is in column 0. -/
theorem on_screen_iff (memory : terminal_t) (run : Run step (fun _ _ => True) (booted memory) log t) :
    OnScreen log ↔ ∀ taken ∈ log, ¬ ErasesColumnZero taken.1 taken.2 := by
  constructor
  · intro hinside taken htaken herase
    rcases taken with ⟨u, e⟩
    cases e with
    | key garbage temp =>
      obtain ⟨hbackspace, htyped, hcolumn⟩ := herase
      subst hbackspace
      obtain ⟨hcursor, -⟩ := hinside _ htaken _ rfl
      have hleft : (keyboard_interrupt u garbage SCAN_BACKSPACE).1.screen_x = -1 := by
        rw [keyboard_interrupt_backspace]
        exact backspace_key_column_zero htyped hcolumn
      have hnonneg := hcursor.column_nonneg
      simp only [terminal_t.live, hleft] at hnonneg
      omega
    | write number buf => exact herase
    | read number nbytes => exact herase
  · intro hnone taken htaken t' hstep
    obtain ⟨before, after, hlog⟩ := List.append_of_mem htaken
    have hkept : Run step (fun t e => ¬ ErasesColumnZero t e) (booted memory) log t := run.restrict hnone
    obtain ⟨hearlier, herase⟩ := hkept.before hlog
    have hcursors : CursorsInside taken.1 := by
      refine hearlier.invariant (motive := fun _ t => CursorsInside t) (booted_cursorsInside memory) ?_
      intro _ _ _ _ _ hcursors herase hstep
      exact (hcursors.step herase hstep).1
    obtain ⟨hafter, hstores⟩ := hcursors.step herase hstep
    exact ⟨hafter.live, hstores⟩

/-- A letter is typed and erased again. -/
theorem on_screen_iff_typed : ∃ log t, Run step (fun _ _ => True) (booted zeroed) log t ∧
    log.map (·.2) = [.key 0#8 0x1E, .key 0#8 SCAN_BACKSPACE] ∧ OnScreen log := by
  have hboot : Run step (fun _ _ => True) (booted zeroed) [] (booted zeroed) := .start
  have htyped := hboot.step trivial (key_step _ 0#8 0x1E)
  have herased := htyped.step trivial (key_step _ 0#8 SCAN_BACKSPACE)
  refine ⟨_, _, herased, rfl, (on_screen_iff zeroed herased).mpr ?_⟩
  intro taken htaken
  simp only [List.nil_append, List.cons_append, List.mem_cons, List.not_mem_nil, or_false] at htaken
  rcases htaken with rfl | rfl
  · exact fun h => absurd h.1 (by decide)
  · exact fun h => absurd h.2.2 (by decide)

/-- A run does not always stay on the screen: when a letter is typed, the screen
    is cleared and the letter is erased, the erasing stores in front of video
    memory. -/
theorem run_leaves_screen : ¬ ∀ (memory : terminal_t) (log : List (terminal_t × Event)) (t : terminal_t),
    Run step (fun _ _ => True) (booted memory) log t → OnScreen log := by
  intro hinside
  have hboot : Run step (fun _ _ => True) (booted zeroed) [] (booted zeroed) := .start
  have htyped := hboot.step trivial (key_step _ 0#8 0x1E)
  have hctrl := htyped.step trivial (key_step _ 0#8 SCAN_CTRL)
  have hcleared := hctrl.step trivial (key_step _ 0#8 SCAN_L)
  have herased := hcleared.step trivial (key_step _ 0#8 SCAN_BACKSPACE)
  obtain ⟨-, hstores⟩ := hinside zeroed _ _ herased _ (List.mem_append_right _ (List.mem_singleton_self _)) _ rfl
  have hoffset := hstores (-2) (by decide)
  omega

end houseam.terminal
