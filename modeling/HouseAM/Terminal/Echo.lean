import HouseAM.Terminal.Bounds
import HouseAM.Terminal.Editing

open support.runs

namespace houseam.terminal

variable {log : List (terminal_t × Event)} {t t' start : terminal_t} {e : Event} {garbage c : Byte} {temp : Nat}

/-- The cell of the cursor, counted from the first one of the screen. -/
def position (t : terminal_t) : Int := NUM_COLS * t.screen_y + t.screen_x

/-- From the cell the line began at, the screen shows the line and then the
    cursor, and nothing in front of it has changed. -/
structure Echoes (start t : terminal_t) : Prop where
  shown : ∀ i : Int, 0 ≤ i → i < t.end_buf_idx → t.video_mem ((position start + i) * 2) = t.keyboard_buffer i
  cursor : position t = position start + t.end_buf_idx
  before : ∀ offset, offset < position start * 2 → t.video_mem offset = start.video_mem offset

/-- The keys the screen does not follow: the one that fills the line, and
    Backspace when the column would become -80. -/
def StopsEcho (t : terminal_t) : Event → Prop
  | .key garbage temp =>
    ((typed_char t (.key garbage temp)).isSome ∧ t.end_buf_idx = 126) ∨
      temp = SCAN_BACKSPACE ∧ 0 < t.end_buf_idx ∧ t.screen_x = -79
  | .write _ _ => False
  | .read _ _ => False

/-- An echoed line of at most 126 characters, with a cursor that may be left of
    column 0 but not below the last row but one. -/
structure Echoing (start t : terminal_t) : Prop where
  echoes : Echoes start t
  index_nonneg : 0 ≤ t.end_buf_idx
  index_le : t.end_buf_idx ≤ 126
  column_gt : -80 < t.screen_x
  column_lt : t.screen_x < 80
  row_nonneg : 0 ≤ t.screen_y
  row_le : t.screen_y ≤ 23

/-! C's signed remainder and quotient by the number of columns. -/

theorem column_tmod {x : Int} (hlo : -80 < x) (hhi : x < 80) : x.tmod NUM_COLS = x := by
  rw [NUM_COLS]
  by_cases hx : 0 ≤ x
  · exact Int.tmod_eq_of_lt hx hhi
  · have hneg : (-x).tmod 80 = -x := Int.tmod_eq_of_lt (by omega) (by omega)
    rw [Int.neg_tmod] at hneg
    omega

theorem column_tdiv {x : Int} (hlo : -80 < x) (hhi : x < 80) : x.tdiv NUM_COLS = 0 := by
  rw [NUM_COLS]
  by_cases hx : 0 ≤ x
  · exact Int.tdiv_eq_zero_of_lt hx hhi
  · have hneg : (-x).tdiv 80 = 0 := Int.tdiv_eq_zero_of_lt (by omega) (by omega)
    rw [Int.neg_tdiv] at hneg
    omega

theorem row_tmod {y : Int} (hlo : 0 ≤ y) (hhi : y < 25) : y.tmod NUM_ROWS = y := by
  rw [NUM_ROWS]
  exact Int.tmod_eq_of_lt hlo hhi

/-- A key that only sets flags. -/
theorem Echoing.flags (hecho : Echoing start t) (temp : Nat) : Echoing start (set_keyboard_flags t temp) := by
  have hlive := set_keyboard_flags_live t temp
  have hx : (set_keyboard_flags t temp).screen_x = t.screen_x := congrArg saved_t.screen_x hlive
  have hy : (set_keyboard_flags t temp).screen_y = t.screen_y := congrArg saved_t.screen_y hlive
  have hbuffer : (set_keyboard_flags t temp).keyboard_buffer = t.keyboard_buffer :=
    congrArg saved_t.keyboard_buffer hlive
  have hvideo : (set_keyboard_flags t temp).video_mem = t.video_mem := congrArg saved_t.video_buffer hlive
  have hindex : (set_keyboard_flags t temp).end_buf_idx = t.end_buf_idx := congrArg saved_t.end_buf_idx hlive
  obtain ⟨⟨hshown, hcursor, hbefore⟩, hlo, hhi, hxlo, hxhi, hylo, hyhi⟩ := hecho
  refine ⟨⟨?_, ?_, ?_⟩, ?_, ?_, ?_, ?_, ?_, ?_⟩
  · rw [hbuffer, hvideo, hindex]
    exact hshown
  · rw [position, hx, hy, hindex]
    exact hcursor
  · rw [hvideo]
    exact hbefore
  all_goals simp only [hindex, hx, hy, hlo, hhi, hxlo, hxhi, hylo, hyhi]

theorem put_cell_same (t : terminal_t) (c : Byte) :
    (put_cell t c).video_mem (cell t.screen_y t.screen_x) = c := if_pos rfl

theorem put_cell_before (t : terminal_t) (c : Byte) {offset : Int} (hbefore : offset < cell t.screen_y t.screen_x) :
    (put_cell t c).video_mem offset = t.video_mem offset := by
  simp only [put_cell]
  rw [if_neg (by omega), if_neg (by omega)]

/-- Behind column -79, Backspace erases the cell in front of the cursor. -/
theorem backspace_key_screen (hline : 0 < t.end_buf_idx) (hxlo : -79 < t.screen_x) (hxhi : t.screen_x < 80)
    (hylo : 0 ≤ t.screen_y) (hyhi : t.screen_y ≤ 23) :
    (backspace_key t).screen_x = t.screen_x - 1 ∧ (backspace_key t).screen_y = t.screen_y ∧
      (backspace_key t).video_mem = (put_cell { t with screen_x := t.screen_x - 1 } 0#8).video_mem := by
  have hx : (t.screen_x - 1).tmod NUM_COLS = t.screen_x - 1 := column_tmod (by omega) (by omega)
  have hy : (t.screen_y + (t.screen_x - 1).tdiv NUM_COLS).tmod NUM_ROWS = t.screen_y := by
    rw [column_tdiv (by omega) (by omega), Int.add_zero, row_tmod hylo (by omega)]
  simp only [backspace_key, if_pos hline, hx, hy, store_key, put_cell, and_self]

/-- Backspace goes back one cell, in front of column 0 as well. -/
theorem Echoing.backspace (hecho : Echoing start t) (hcolumn : ¬ (0 < t.end_buf_idx ∧ t.screen_x = -79)) :
    Echoing start (backspace_key t) := by
  obtain ⟨herase, hnothing⟩ := backspace_key_line t
  by_cases hline : 0 < t.end_buf_idx
  · obtain ⟨⟨hshown, hcursor, hbefore⟩, hlo, hhi, hxlo, hxhi, hylo, hyhi⟩ := hecho
    obtain ⟨hbuffer, hindex⟩ := herase hline
    obtain ⟨hx, hy, hvideo⟩ := backspace_key_screen hline (by omega) hxhi hylo hyhi
    simp only [position, NUM_COLS] at hcursor
    have hcell : (position start + (t.end_buf_idx - 1)) * 2 = cell t.screen_y (t.screen_x - 1) := by
      simp only [position, cell, NUM_COLS]
      omega
    have hkept (offset : Int) (hoffset : offset < (position start + (t.end_buf_idx - 1)) * 2) :
        (backspace_key t).video_mem offset = t.video_mem offset := by
      rw [hvideo]
      exact put_cell_before _ _ (hcell ▸ hoffset)
    refine ⟨⟨fun i hi hend => ?_, ?_, fun offset hoffset => ?_⟩, ?_, ?_, ?_, ?_, ?_, ?_⟩
    · rw [hindex] at hend
      rw [hkept _ (by omega), hbuffer, Function.update_of_ne (by omega), hshown i hi (by omega)]
    · simp only [position, hx, hy, hindex, NUM_COLS]
      omega
    · rw [hkept _ (by omega), hbefore offset hoffset]
    all_goals simp only [hindex, hx, hy]; omega
  · rw [hnothing hline]
    exact hecho

/-- From column -79 it goes to column 0 of the same row. -/
theorem Echoing.backspace_stops (hecho : Echoing start t) (hline : 0 < t.end_buf_idx) (hcolumn : t.screen_x = -79) :
    ¬ Echoes start (backspace_key t) := by
  intro hafter
  have hcursor := hecho.echoes.cursor
  have hnext := hafter.cursor
  have hx : (backspace_key t).screen_x = 0 := by
    simp only [backspace_key, if_pos hline, store_key, put_cell, hcolumn]
    rfl
  have hy : (backspace_key t).screen_y = t.screen_y := by
    have hrow : (t.screen_y + ((-79 - 1 : Int).tmod NUM_COLS).tdiv NUM_COLS).tmod NUM_ROWS = t.screen_y := by
      rw [show ((-79 - 1 : Int).tmod NUM_COLS).tdiv NUM_COLS = 0 by decide, Int.add_zero]
      exact row_tmod hecho.row_nonneg (by have hrow := hecho.row_le; omega)
    simp only [backspace_key, if_pos hline, store_key, put_cell, hcolumn, hrow]
  rw [position, hx, hy, ((backspace_key_line t).1 hline).2] at hnext
  rw [position, hcolumn] at hcursor
  omega

/-- A character goes to the cell at the cursor, which moves on. -/
theorem putc_screen (hxlo : -80 < t.screen_x) (hxhi : t.screen_x < 80) (hylo : 0 ≤ t.screen_y)
    (hyhi : t.screen_y ≤ 23) (hend : 80 * t.screen_y + t.screen_x < 80 * 24 - 1)
    (hc : c ≠ NEWLINE ∧ c ≠ CARRIAGE_RETURN) :
    position (putc t c) = position t + 1 ∧ (putc t c).video_mem = (put_cell t c).video_mem ∧
      -80 < (putc t c).screen_x ∧ (putc t c).screen_x < 80 ∧ 0 ≤ (putc t c).screen_y ∧ (putc t c).screen_y ≤ 23 := by
  have hput := putc_character t (not_or.mpr hc)
  by_cases hwraps : t.screen_x = 79
  · have hx : (79 + 1 : Int).tmod NUM_COLS = 0 := by decide
    have hy : (t.screen_y + 1).tmod NUM_ROWS = t.screen_y + 1 := row_tmod (by omega) (by omega)
    rw [hwraps, hx, Int.zero_tdiv, Int.add_zero, if_pos (by decide), hy] at hput
    rw [hput]
    refine ⟨?_, rfl, ?_, ?_, ?_, ?_⟩
    all_goals simp only [position, NUM_COLS]; omega
  · have hx : (t.screen_x + 1).tmod NUM_COLS = t.screen_x + 1 := column_tmod (by omega) (by omega)
    have hy : t.screen_y.tmod NUM_ROWS = t.screen_y := row_tmod (by omega) (by omega)
    rw [hx, column_tdiv (by omega) (by omega), Int.add_zero, if_neg (by simp only [NUM_COLS]; omega), hy] at hput
    rw [hput]
    refine ⟨?_, rfl, ?_, ?_, ?_, ?_⟩
    all_goals simp only [position, NUM_COLS]; omega

/-- A character that leaves the line short of full is stored and shown. -/
theorem character_key_short (hline : t.end_buf_idx < 126) (hrow : t.screen_y ≤ 23) (c : Byte) :
    character_key t c = putc { store_key t t.end_buf_idx c with end_buf_idx := t.end_buf_idx + 1 } c := by
  have hbuffered := buffer_key_room hline c
  have hshort : ¬ (buffer_key t c).end_buf_idx > KEYBOARD_BUFFER_SIZE - 2 := by
    rw [hbuffered]
    simp only [KEYBOARD_BUFFER_SIZE]
    omega
  have hcorner : ¬ ((buffer_key t c).screen_x = NUM_COLS - 1 ∧ (buffer_key t c).screen_y = NUM_ROWS - 1) := by
    rw [hbuffered]
    simp only [store_key, NUM_ROWS]
    omega
  rw [character_key]
  simp only [if_neg hshort, if_neg hcorner]
  rw [hbuffered]

theorem Echoing.character (hecho : Echoing start t) (hroom : position start + 128 < NUM_COLS * 24)
    (hline : t.end_buf_idx < 126) (hc : c ≠ NEWLINE ∧ c ≠ CARRIAGE_RETURN) : Echoing start (character_key t c) := by
  obtain ⟨⟨hshown, hcursor, hbefore⟩, hlo, hhi, hxlo, hxhi, hylo, hyhi⟩ := hecho
  rw [position] at hcursor
  rw [NUM_COLS] at hcursor hroom
  have hkey := character_key_short hline hyhi c
  have hsame := putc_sameLine { store_key t t.end_buf_idx c with end_buf_idx := t.end_buf_idx + 1 } c
  obtain ⟨hmoved, hvideo, hxlo', hxhi', hylo', hyhi'⟩ := putc_screen (t := { store_key t t.end_buf_idx c with
    end_buf_idx := t.end_buf_idx + 1 }) hxlo hxhi hylo hyhi (by simp only [store_key]; omega) hc
  rw [← hkey] at hsame hmoved hvideo hxlo' hxhi' hylo' hyhi'
  have hbuffer : (character_key t c).keyboard_buffer = Function.update t.keyboard_buffer t.end_buf_idx c :=
    hsame.keyboard_buffer
  have hindex : (character_key t c).end_buf_idx = t.end_buf_idx + 1 := hsame.end_buf_idx
  have hcell : (position start + t.end_buf_idx) * 2 = cell t.screen_y t.screen_x := by
    simp only [cell, NUM_COLS]
    omega
  have hkept (offset : Int) (hoffset : offset < (position start + t.end_buf_idx) * 2) :
      (character_key t c).video_mem offset = t.video_mem offset := by
    rw [hvideo]
    exact put_cell_before _ _ (hcell ▸ hoffset)
  refine ⟨⟨fun i hi hend => ?_, ?_, fun offset hoffset => ?_⟩, ?_, ?_, hxlo', hxhi', hylo', hyhi'⟩
  · rw [hindex] at hend
    rw [hbuffer]
    by_cases hlast : i = t.end_buf_idx
    · rw [hlast, Function.update_self, hcell, hvideo]
      exact put_cell_same _ c
    · rw [Function.update_of_ne hlast, hkept _ (by omega), hshown i hi (by omega)]
  · rw [hmoved, hindex]
    simp only [position, store_key, NUM_COLS] at hcursor ⊢
    omega
  · rw [hkept _ (by omega), hbefore offset hoffset]
  · rw [hindex]
    omega
  · rw [hindex]
    omega

/-- The character that fills the line is not shown. -/
theorem Echoes.character_stops (hechoes : Echoes start t) (hline : t.end_buf_idx = 126) (c : Byte) :
    ¬ Echoes start (character_key t c) := by
  intro hafter
  have hcursor := hechoes.cursor
  have hnext := hafter.cursor
  obtain ⟨hposition, hindex⟩ :
      position (buffer_key t c) = position t ∧ (buffer_key t c).end_buf_idx = t.end_buf_idx + 1 := by
    rw [buffer_key_fills hline, hline]
    exact ⟨rfl, rfl⟩
  have hfull : (buffer_key t c).end_buf_idx > KEYBOARD_BUFFER_SIZE - 2 := by
    rw [hindex]
    simp only [KEYBOARD_BUFFER_SIZE]
    omega
  have hkey : character_key t c = buffer_key t c := if_pos hfull
  rw [hkey, hposition, hindex] at hnext
  omega

/-- One key more: the screen follows exactly if it is not one of the two. -/
theorem Echoing.key (hecho : Echoing start t) (hroom : position start + 128 < NUM_COLS * 24)
    (hkey : EditKey t (.key garbage temp)) :
    (¬ StopsEcho t (.key garbage temp) → Echoing start (keyboard_interrupt t garbage temp).1) ∧
      (StopsEcho t (.key garbage temp) → ¬ Echoes start (keyboard_interrupt t garbage temp).1) := by
  have hflags := hecho.flags temp
  have hlive := set_keyboard_flags_live t temp
  have hindex : (set_keyboard_flags t temp).end_buf_idx = t.end_buf_idx := congrArg saved_t.end_buf_idx hlive
  have hcolumn : (set_keyboard_flags t temp).screen_x = t.screen_x := congrArg saved_t.screen_x hlive
  rcases edit_key_cases hkey with ⟨hother, hquiet, hafter⟩ | ⟨hbackspace, hquiet, hafter⟩ |
    ⟨c, hother, htyped, hafter, -, hc⟩
  · rw [hafter, StopsEcho, hquiet]
    refine ⟨fun _ => hflags, ?_⟩
    rintro (⟨htyped, -⟩ | ⟨hbackspace, -⟩)
    · cases htyped
    · exact absurd hbackspace hother
  · rw [hafter, StopsEcho, hquiet, ← hindex, ← hcolumn]
    constructor
    · intro hgoes
      exact hflags.backspace fun h => hgoes (Or.inr ⟨hbackspace, h⟩)
    · rintro (⟨htyped, -⟩ | ⟨-, hline, hleft⟩)
      · cases htyped
      · exact hflags.backspace_stops hline hleft
  · rw [hafter, StopsEcho, htyped, ← hindex]
    constructor
    · intro hgoes
      have hshort : (set_keyboard_flags t temp).end_buf_idx ≠ 126 := fun h => hgoes (Or.inl ⟨rfl, h⟩)
      have hle := hflags.index_le
      exact hflags.character hroom (by omega) hc
    · rintro (⟨-, hfills⟩ | ⟨hbackspace, -⟩)
      · exact hflags.echoes.character_stops hfills c
      · exact absurd hbackspace hother

theorem Echoing.step (hecho : Echoing start t) (hroom : position start + 128 < NUM_COLS * 24) (hkey : EditKey t e)
    (hstep : terminal.step t e = some t') :
    (¬ StopsEcho t e → Echoing start t') ∧ (StopsEcho t e → ¬ Echoes start t') := by
  cases e with
  | key garbage temp =>
    cases hstep
    exact hecho.key hroom hkey
  | write number buf => exact hkey.elim
  | read number nbytes => exact hkey.elim

theorem echoing_start (hindex : start.end_buf_idx = 0) (hinside : start.live.CursorInside)
    (hroom : position start + 128 < NUM_COLS * 24) : Echoing start start := by
  obtain ⟨hxlo, hxhi, hylo, hyhi⟩ := hinside
  simp only [terminal_t.live, NUM_COLS, NUM_ROWS] at hxlo hxhi hylo hyhi
  simp only [position, NUM_COLS] at hroom
  refine ⟨⟨fun i hi hend => ?_, ?_, fun _ _ => rfl⟩, ?_, ?_, ?_, hxhi, hylo, ?_⟩
  · omega
  · rw [hindex, Int.add_zero]
  all_goals omega

/-- A run of editing keys that are none of the two is echoed. -/
theorem run_echoing (hindex : start.end_buf_idx = 0) (hinside : start.live.CursorInside)
    (hroom : position start + 128 < NUM_COLS * 24)
    (run : Run step (fun t e => EditKey t e ∧ ¬ StopsEcho t e) start log t) : Echoing start t := by
  refine run.invariant (motive := fun _ t => Echoing start t) (echoing_start hindex hinside hroom) ?_
  intro _ _ _ _ _ hecho hallowed hstep
  exact (hecho.step hroom hallowed.1 hstep).1 hallowed.2

/-- A line typed with room for it on the screen is always shown as the buffer
    holds it, with the cursor behind it, exactly if no key fills it and no
    Backspace is pressed in column -79. -/
theorem echo_iff (hindex : start.end_buf_idx = 0) (hinside : start.live.CursorInside)
    (hroom : position start + 128 < NUM_COLS * 24) (run : Run step EditKey start log t) :
    (∀ before u, before <+: log → Run step EditKey start before u → Echoes start u) ↔
      ∀ taken ∈ log, ¬ StopsEcho taken.1 taken.2 := by
  constructor
  · intro hechoes
    induction run with
    | start => exact fun _ h => absurd h List.not_mem_nil
    | @step log s s' e run hkey hstep ih =>
      have hearlier := ih fun before u hbefore => hechoes before u (hbefore.trans (List.prefix_append _ _))
      intro taken htaken
      rcases List.mem_append.mp htaken with hmem | hlast
      · exact hearlier taken hmem
      · rw [List.mem_singleton.mp hlast]
        have hecho := run_echoing hindex hinside hroom (run.restrict_and hearlier)
        exact fun hstops =>
          (hecho.step hroom hkey hstep).2 hstops (hechoes _ s' (List.prefix_refl _) (run.step hkey hstep))
  · intro hnone before u hbefore hrun
    exact (run_echoing hindex hinside hroom (hrun.restrict_and fun taken htaken =>
      hnone taken (hbefore.subset htaken))).echoes

/-- Two characters are typed, and one of them is erased. -/
theorem echo_iff_erased : ∃ log t, Run step EditKey (booted zeroed) log t ∧
    log.map (·.2) = [.key 0#8 0x1E, .key 0#8 0x30, .key 0#8 SCAN_BACKSPACE] ∧ Echoes (booted zeroed) t := by
  have hboot : Run step EditKey (booted zeroed) [] (booted zeroed) := .start
  have ha := hboot.step (editKey_character (by decide) (by decide) _ 0#8) (key_step _ 0#8 0x1E)
  have hb := ha.step (editKey_character (by decide) (by decide) _ 0#8) (key_step _ 0#8 0x30)
  have hback := hb.step (editKey_backspace _ 0#8) (key_step _ 0#8 SCAN_BACKSPACE)
  have hinside := (booted_cursorsInside zeroed).live
  refine ⟨_, _, hback, rfl, (echo_iff rfl hinside (by decide) hback).mpr ?_ _ _ (List.prefix_refl _) hback⟩
  intro taken htaken
  simp only [List.nil_append, List.cons_append, List.mem_cons, List.not_mem_nil, or_false] at htaken
  rcases htaken with rfl | rfl | rfl
  · rintro (⟨-, hfills⟩ | ⟨hbackspace, -⟩)
    · exact absurd hfills (by decide)
    · exact absurd hbackspace (by decide)
  · rintro (⟨-, hfills⟩ | ⟨hbackspace, -⟩)
    · exact absurd hfills (by decide)
    · exact absurd hbackspace (by decide)
  · rintro (⟨-, hfills⟩ | ⟨-, -, hleft⟩)
    · exact absurd hfills (by decide)
    · exact absurd hleft (by decide)

theorem keyboard_interrupt_a (t : terminal_t) :
    (keyboard_interrupt t 0#8 0x1E).1 = character_key t (scan_code_to_char t 0#8 0x1E) := by
  simp [keyboard_interrupt, set_keyboard_flags, switch_keys, line_keys, Printable, DUMMY, SCAN_BACKSPACE, SCAN_CTRL,
    SCAN_CTRL_RELEASE, SCAN_LSHIFT, SCAN_LSHIFT_RELEASE, SCAN_RSHIFT, SCAN_RSHIFT_RELEASE, SCAN_CAPS, SCAN_ALT,
    SCAN_ALT_RELEASE, SCAN_FONE, SCAN_FTWO, SCAN_FTHREE, SCAN_L, SCAN_ENTER, SCAN_TAB, SCAN_ESC]

/-- The 127th character of a line is not shown. -/
theorem echo_stops : ¬ ∀ (start : terminal_t) (log : List (terminal_t × Event)) (t : terminal_t),
    start.end_buf_idx = 0 → start.live.CursorInside → position start + 128 < NUM_COLS * 24 →
      Run step EditKey start log t → Echoes start t := by
  intro hall
  have hinside := (booted_cursorsInside zeroed).live
  obtain ⟨log, t, run, hlength⟩ := exists_typed (booted zeroed) (show 126 ≤ 127 by decide)
  have hindex := (run_edits (booted_empty zeroed) rfl run).index
  rw [hlength] at hindex
  have hlast := run.step (editKey_character (by decide) (by decide) t 0#8) (key_step t 0#8 0x1E)
  have hbefore := hall (booted zeroed) log t rfl hinside (by decide) run
  have hafter := hall (booted zeroed) _ _ rfl hinside (by decide) hlast
  rw [keyboard_interrupt_a] at hafter
  exact hbefore.character_stops hindex _ hafter

end houseam.terminal
