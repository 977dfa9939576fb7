import HouseAM.Support.TextPage
import HouseAM.Terminal.Bounds
import Mathlib.Data.List.Induction

open support.text_page

namespace houseam.terminal

variable {t : terminal_t} {page : Page Byte} {c : Byte} {buf : List Byte}

def Blank (c : Byte) : Prop := c = SPACE ∨ c = 0#8

/-- The space and the NUL character look the same. -/
def SameGlyph (a b : Byte) : Prop := a = b ∨ Blank a ∧ Blank b

theorem SameGlyph.refl (c : Byte) : SameGlyph c c := Or.inl rfl

def IsNewline (c : Byte) : Prop := c = NEWLINE ∨ c = CARRIAGE_RETURN

instance (c : Byte) : Decidable (IsNewline c) := inferInstanceAs (Decidable (c = NEWLINE ∨ c = CARRIAGE_RETURN))

/-- The reference terminal's page after one more byte. -/
def write_page (page : Page Byte) (c : Byte) : Page Byte :=
  if IsNewline c then page.new_row else page.put 80 c

/-- A text laid out on the unbounded page. -/
def layout (buf : List Byte) : Page Byte := buf.foldl write_page (.empty 0#8)

/-- The screen and the cursor are those of the window of 25 rows on the page. -/
structure Shows (t : terminal_t) (page : Page Byte) : Prop where
  column : t.screen_x = page.column
  row : t.screen_y = (page.row - page.top 25 : Nat)
  glyphs : ∀ r c : Nat, r < 25 → c < 80 → SameGlyph (t.video_mem (cell r c)) (page.window 25 r c)

/-- The character that fills the last column of the page's row 24 or of a row
    below. -/
def FillsBottomRow (page : Page Byte) (c : Byte) : Prop :=
  ¬ IsNewline c ∧ page.column = 79 ∧ 24 ≤ page.row

/-- No byte of a text fills a row at the bottom of the window. -/
def FitsWindow (buf : List Byte) : Prop :=
  ∀ before c after, buf = before ++ c :: after → ¬ FillsBottomRow (layout before) c

theorem cell_eq_iff {y x : Int} {r c : Nat} (hc : c < 80) (hxlo : 0 ≤ x) (hxhi : x < 80) :
    cell r c = cell y x ↔ (r : Int) = y ∧ (c : Int) = x := by
  simp only [cell, NUM_COLS]
  constructor
  · intro h
    omega
  · rintro ⟨rfl, rfl⟩
    rfl

theorem cell_ne_attribute {y x : Int} {r c : Nat} : cell r c ≠ cell y x + 1 := by
  simp only [cell]
  omega

theorem put_cell_glyph (hxlo : 0 ≤ t.screen_x) (hxhi : t.screen_x < 80) (ch : Byte) {r c : Nat} (hc : c < 80) :
    (put_cell t ch).video_mem (cell r c) =
      if (r : Int) = t.screen_y ∧ (c : Int) = t.screen_x then ch else t.video_mem (cell r c) := by
  simp only [put_cell, cell_eq_iff hc hxlo hxhi, if_neg cell_ne_attribute]

theorem scrolled_glyph (video_mem : Int → Byte) {r c : Nat} (hr : r < 25) (hc : c < 80) :
    scrolled video_mem (cell r c) = if r < 24 then video_mem (cell (r + 1 : Nat) c) else 0#8 := by
  have heven : cell r c % 2 = 0 := by
    simp only [cell]
    omega
  by_cases hlast : r < 24
  · have hmoved : cell r c % 2 = 0 ∧ 0 ≤ cell r c ∧ cell r c < cell (NUM_ROWS - 1) 0 := by
      refine ⟨heven, ?_, ?_⟩ <;> simp only [cell, NUM_ROWS, NUM_COLS] <;> omega
    have hbelow : cell r c + cell 1 0 = cell (r + 1 : Nat) c := by
      simp only [cell, NUM_COLS]
      omega
    rw [scrolled, if_pos hmoved, if_pos hlast, hbelow]
  · have hstays : ¬ (cell r c % 2 = 0 ∧ 0 ≤ cell r c ∧ cell r c < cell (NUM_ROWS - 1) 0) := by
      simp only [cell, NUM_ROWS, NUM_COLS]
      omega
    have hemptied : cell r c % 2 = 0 ∧ cell (NUM_ROWS - 1) 0 ≤ cell r c ∧ cell r c < cell NUM_ROWS 0 := by
      refine ⟨heven, ?_, ?_⟩ <;> simp only [cell, NUM_ROWS, NUM_COLS] <;> omega
    rw [scrolled, if_neg hstays, if_pos hemptied, if_neg hlast]

/-- A cleared screen shows the empty page. -/
theorem clear_shows (t : terminal_t) : Shows (clear t) (layout []) := by
  refine ⟨rfl, rfl, fun r c hr hc => Or.inr ⟨Or.inl ?_, Or.inr rfl⟩⟩
  have hinside : 0 ≤ cell r c ∧ cell r c < cell NUM_ROWS 0 := by
    constructor <;> simp only [cell, NUM_ROWS, NUM_COLS] <;> omega
  have heven : cell r c % 2 = 0 := by
    simp only [cell]
    omega
  simp only [clear, if_pos hinside, if_pos heven]

theorem Shows.cursorInside (hshows : Shows t page) (hclean : page.Clean 0#8 80) : t.live.CursorInside := by
  have hx := hshows.column
  have hy := hshows.row
  have hcolumn := hclean.column_lt
  simp only [Page.top] at hy
  refine ⟨?_, ?_, ?_, ?_⟩ <;> simp only [terminal_t.live, NUM_COLS, NUM_ROWS] <;> omega

/-- A character stored at the cursor appears there on the page. -/
theorem Shows.put_cell (hshows : Shows t page) (hclean : page.Clean 0#8 80) (ch : Byte) :
    Shows (put_cell t ch) (page.set ch) := by
  refine ⟨hshows.column, hshows.row, fun r c hr hc => ?_⟩
  have hx := hshows.column
  have hy := hshows.row
  have hcolumn := hclean.column_lt
  have htop : page.top 25 ≤ page.row := by
    simp only [Page.top]
    omega
  rw [put_cell_glyph (by omega) (by omega) ch hc, Page.window_set]
  by_cases hcursor : (r : Int) = t.screen_y ∧ (c : Int) = t.screen_x
  · rw [if_pos hcursor, if_pos (by omega)]
    exact SameGlyph.refl ch
  · rw [if_neg hcursor, if_neg (by omega)]
    exact hshows.glyphs r c hr hc

/-- A new row inside the window. -/
theorem Shows.next_row (hshows : Shows t page) (hroom : page.row < 24) :
    Shows { t with screen_y := t.screen_y + 1, screen_x := 0 } page.new_row := by
  refine ⟨rfl, ?_, fun r c hr hc => ?_⟩
  · have hy := hshows.row
    simp only [Page.top, Page.new_row] at hy ⊢
    omega
  · rw [Page.window_new_row (by omega)]
    exact hshows.glyphs r c hr hc

/-- A new row below the window scrolls it. -/
theorem Shows.scrolled (hshows : Shows t page) (hclean : page.Clean 0#8 80) (hfull : 24 ≤ page.row) :
    Shows (scroll_up t) page.new_row := by
  refine ⟨rfl, ?_, fun r c hr hc => ?_⟩
  · simp only [scroll_up, NUM_ROWS, Page.top, Page.new_row]
    omega
  · have hglyph : (scroll_up t).video_mem (cell r c) =
        if r < 24 then t.video_mem (cell (r + 1 : Nat) c) else 0#8 := scrolled_glyph t.video_mem hr hc
    rw [hglyph, Page.window_scrolled (by omega)]
    by_cases hlast : r < 24
    · rw [if_pos hlast]
      exact hshows.glyphs (r + 1) c (by omega) hc
    · have hbottom : r + 1 = 25 := by omega
      rw [if_neg hlast, hbottom, hclean.window_last (by omega)]
      exact SameGlyph.refl _

theorem Shows.newline (hshows : Shows t page) (hclean : page.Clean 0#8 80) (hc : IsNewline c) :
    Shows (putc t c) page.new_row := by
  have hy := hshows.row
  simp only [Page.top] at hy
  rw [putc_newline t hc]
  by_cases hfull : NUM_ROWS ≤ t.screen_y + 1
  · rw [if_pos hfull]
    simp only [NUM_ROWS] at hfull
    obtain ⟨hcolumn, hrow, hglyphs⟩ := hshows.scrolled hclean (by omega)
    exact ⟨hcolumn, hrow, hglyphs⟩
  · rw [if_neg hfull]
    simp only [NUM_ROWS] at hfull
    exact hshows.next_row (by omega)

/-- A character that leaves room in its row, or a row below it in the window. -/
theorem Shows.character (hshows : Shows t page) (hclean : page.Clean 0#8 80) (hc : ¬ IsNewline c)
    (hfits : ¬ FillsBottomRow page c) : Shows (putc t c) (page.put 80 c) := by
  have hput := hshows.put_cell hclean c
  have hx := hshows.column
  have hy := hshows.row
  simp only [Page.top] at hy
  rw [putc_character_inside (hshows.cursorInside hclean) hc]
  by_cases hlast : page.column + 1 = 80
  · have hroom : page.row < 24 := by
      by_contra hbottom
      exact hfits ⟨hc, by omega, by omega⟩
    rw [Page.put_last hlast, if_pos (by omega), if_pos (by omega), if_neg (by omega)]
    exact hput.next_row hroom
  · rw [Page.put_inside hlast, if_neg (by omega), if_neg (by omega)]
    refine ⟨?_, hput.row, hput.glyphs⟩
    dsimp only
    omega

theorem layout_append (buf : List Byte) (c : Byte) : layout (buf ++ [c]) = write_page (layout buf) c := by
  rw [layout, List.foldl_append]
  rfl

theorem terminal_write_append (t : terminal_t) (buf : List Byte) (c : Byte) :
    terminal_write t (buf ++ [c]) = putc (terminal_write t buf) c := by
  rw [terminal_write, List.foldl_append]
  rfl

theorem layout_clean (buf : List Byte) : (layout buf).Clean 0#8 80 := by
  induction buf using List.reverseRecOn with
  | nil => exact Page.empty_clean (by omega)
  | append_singleton buf c ih =>
    rw [layout_append, write_page]
    split
    · exact ih.new_row
    · exact ih.put c

theorem FitsWindow.earlier {later : List Byte} (hfits : FitsWindow (buf ++ later)) : FitsWindow buf := by
  intro before c after hbuf
  exact hfits before c (after ++ later) (by simp [hbuf])

/-- A text that fits is shown as it is laid out. -/
theorem terminal_write_shows (t : terminal_t) (hfits : FitsWindow buf) :
    Shows (terminal_write (clear t) buf) (layout buf) := by
  induction buf using List.reverseRecOn with
  | nil => exact clear_shows t
  | append_singleton buf c ih =>
    have hshows := ih hfits.earlier
    rw [layout_append, terminal_write_append, write_page]
    by_cases hc : IsNewline c
    · rw [if_pos hc]
      exact hshows.newline (layout_clean buf) hc
    · rw [if_neg hc]
      exact hshows.character (layout_clean buf) hc (hfits buf c [] rfl)

/-- At the end of the bottom row the cursor goes to the top of the screen. -/
theorem Shows.wraps (hshows : Shows t page) (hclean : page.Clean 0#8 80) (hfills : FillsBottomRow page c) :
    ¬ Shows (putc t c) (write_page page c) := by
  obtain ⟨hc, hcolumn, hbottom⟩ := hfills
  intro hafter
  have hx := hshows.column
  have hy := hshows.row
  simp only [Page.top] at hy
  have hrow := hafter.row
  rw [putc_character_inside (hshows.cursorInside hclean) hc, write_page, if_neg hc,
    Page.put_last (by omega)] at hrow
  simp only [if_pos (show t.screen_x = 79 by omega), if_pos (show t.screen_y = 24 by omega), Page.new_row, Page.set,
    Page.top] at hrow
  omega

/-- The writes one after the other are one write of all their bytes. -/
theorem terminal_writes_flatten (t : terminal_t) (written : List (List Byte)) :
    written.foldl terminal_write t = terminal_write t written.flatten := by
  induction written generalizing t with
  | nil => rfl
  | cons buf written ih =>
    rw [List.foldl_cons, ih, List.flatten_cons]
    simp only [terminal_write, List.foldl_append]

/-- From a cleared screen, all that a sequence of writes puts out, byte for
    byte, is shown like on the reference terminal exactly if no character fills
    the last column of row 24 of the page or of a row below. -/
theorem screen_shows_page_iff (t : terminal_t) (bufs : List (List Byte)) :
    (∀ written : List (List Byte), written.flatten <+: bufs.flatten →
      Shows (written.foldl terminal_write (clear t)) (layout written.flatten)) ↔ FitsWindow bufs.flatten := by
  constructor
  · intro hshows before c after hbytes hfills
    have hbefore := hshows [before] (by simp [hbytes])
    have hafter := hshows [before, [c]] (by simp [hbytes])
    rw [terminal_writes_flatten] at hbefore hafter
    simp only [List.flatten_cons, List.flatten_nil, List.append_nil] at hbefore hafter
    rw [terminal_write_append, layout_append] at hafter
    exact hbefore.wraps (layout_clean before) hfills hafter
  · intro hfits written hwritten
    obtain ⟨later, hlater⟩ := hwritten
    rw [terminal_writes_flatten]
    rw [← hlater] at hfits
    exact terminal_write_shows t hfits.earlier

/-- A text that goes down to the bottom row and fills it. -/
def bottom_row : List Byte := List.replicate 24 NEWLINE ++ List.replicate 80 0x61#8

/-- Not every text is shown as on the reference terminal: the cursor is back in
    row 0 behind a full bottom row. -/
theorem screen_differs : ¬ ∀ (t : terminal_t) (bufs : List (List Byte)),
    Shows (bufs.foldl terminal_write (clear t)) (layout bufs.flatten) := by
  intro hshows
  have hrow := (hshows zeroed [bottom_row]).row
  have hscreen : ([bottom_row].foldl terminal_write (clear zeroed)).screen_y = 0 := by
    decide +kernel
  have hpage : (layout [bottom_row].flatten).row = 25 := by
    decide +kernel
  rw [hscreen, Page.top, hpage] at hrow
  omega

end houseam.terminal
