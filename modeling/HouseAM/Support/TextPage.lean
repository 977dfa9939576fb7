import Mathlib.Data.List.Basic

namespace support.text_page

variable {Glyph : Type} {blank : Glyph} {columns rows : Nat}

/-- An unbounded page of text, row by row from the top, and the place where the
    next glyph goes. -/
structure Page (Glyph : Type) where
  text : Nat → Nat → Glyph
  row : Nat
  column : Nat

def Page.empty (blank : Glyph) : Page Glyph := ⟨fun _ _ => blank, 0, 0⟩

def Page.new_row (page : Page Glyph) : Page Glyph := { page with row := page.row + 1, column := 0 }

/-- The page with a glyph where the cursor is. -/
def Page.set (page : Page Glyph) (glyph : Glyph) : Page Glyph :=
  { page with text := fun r c => if r = page.row ∧ c = page.column then glyph else page.text r c }

/-- A glyph in the last column is followed by a new row. -/
def Page.put (columns : Nat) (page : Page Glyph) (glyph : Glyph) : Page Glyph :=
  if page.column + 1 = columns then (page.set glyph).new_row
  else { page.set glyph with column := page.column + 1 }

/-- The first row of a window that ends at the cursor's row, or starts with the
    page while the rows used fit in it. -/
def Page.top (rows : Nat) (page : Page Glyph) : Nat := page.row + 1 - rows

/-- What a window of so many rows shows. -/
def Page.window (rows : Nat) (page : Page Glyph) (r c : Nat) : Glyph := page.text (page.top rows + r) c

/-- The cursor is in a column of the page, and nothing was written below it. -/
structure Page.Clean (blank : Glyph) (columns : Nat) (page : Page Glyph) : Prop where
  column_lt : page.column < columns
  below : ∀ r c, page.row < r → page.text r c = blank

theorem Page.empty_clean (hcolumns : 0 < columns) : (Page.empty blank).Clean blank columns :=
  ⟨hcolumns, fun _ _ _ => rfl⟩

theorem Page.Clean.new_row {page : Page Glyph} (hclean : page.Clean blank columns) :
    page.new_row.Clean blank columns where
  column_lt := Nat.zero_lt_of_lt hclean.column_lt
  below := fun r c hr => hclean.below r c (Nat.lt_of_succ_lt hr)

theorem Page.put_last {page : Page Glyph} (hlast : page.column + 1 = columns) (glyph : Glyph) :
    page.put columns glyph = (page.set glyph).new_row := by
  rw [Page.put, if_pos hlast]

theorem Page.put_inside {page : Page Glyph} (hroom : page.column + 1 ≠ columns) (glyph : Glyph) :
    page.put columns glyph = { page.set glyph with column := page.column + 1 } := by
  rw [Page.put, if_neg hroom]

theorem Page.Clean.set {page : Page Glyph} (hclean : page.Clean blank columns) (glyph : Glyph) :
    (page.set glyph).Clean blank columns where
  column_lt := hclean.column_lt
  below := fun r c hr => by
    have hrow : ¬ (r = page.row ∧ c = page.column) := fun h => Nat.ne_of_gt hr h.1
    rw [Page.set]
    simp only [if_neg hrow]
    exact hclean.below r c hr

theorem Page.Clean.put {page : Page Glyph} (hclean : page.Clean blank columns) (glyph : Glyph) :
    (page.put columns glyph).Clean blank columns := by
  by_cases hlast : page.column + 1 = columns
  · rw [Page.put_last hlast]
    exact (hclean.set glyph).new_row
  · rw [Page.put_inside hlast]
    exact ⟨Nat.lt_of_le_of_ne hclean.column_lt hlast, (hclean.set glyph).below⟩

theorem Page.window_set (page : Page Glyph) (glyph : Glyph) (r c : Nat) :
    (page.set glyph).window rows r c =
      if page.top rows + r = page.row ∧ c = page.column then glyph else page.window rows r c := rfl

/-- While the new row is still in the window, the window stays. -/
theorem Page.window_new_row {page : Page Glyph} (hroom : page.row + 1 < rows) (r c : Nat) :
    page.new_row.window rows r c = page.window rows r c := by
  have htop : page.new_row.top rows = page.top rows := by
    simp only [Page.top, Page.new_row]
    omega
  rw [Page.window, Page.window, htop]
  rfl

/-- Past its last row the window moves down by one. -/
theorem Page.window_scrolled {page : Page Glyph} (hfull : rows ≤ page.row + 1) (r c : Nat) :
    page.new_row.window rows r c = page.window rows (r + 1) c := by
  have htop : page.new_row.top rows + r = page.top rows + (r + 1) := by
    simp only [Page.top, Page.new_row]
    omega
  rw [Page.window, Page.window, htop]
  rfl

/-- The row that a scroll brings into the window is blank. -/
theorem Page.Clean.window_last {page : Page Glyph} (hclean : page.Clean blank columns) (hfull : rows ≤ page.row + 1)
    (c : Nat) : page.window rows rows c = blank := by
  rw [Page.window]
  apply hclean.below
  simp only [Page.top]
  omega

end support.text_page
