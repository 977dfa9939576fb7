import Mathlib.Data.List.Infix

namespace support.lines

variable {Symbol Output : Type} [DecidableEq Symbol] {mark : Symbol} {line rest text : List Symbol} {n : Nat}
  {shown : List Symbol → List Output}

/-- No line of a text is longer than so much. -/
def Fits (mark : Symbol) (n : Nat) (text : List Symbol) : Prop := ∀ line ∈ text.splitOn mark, line.length ≤ n

/-- What is shown of a text, line by line. -/
def report (mark : Symbol) (shown : List Symbol → List Output) (text : List Symbol) : List Output :=
  (text.splitOn mark).flatMap shown

/-- A text is one line, or starts with one and a mark behind it. -/
theorem line_cases (mark : Symbol) (text : List Symbol) :
    mark ∉ text ∨ ∃ line rest, text = line ++ mark :: rest ∧ mark ∉ line := by
  by_cases hmem : mark ∈ text
  · obtain ⟨line, rest, htext, hline⟩ := List.eq_append_cons_of_mem hmem
    exact .inr ⟨line, rest, htext, hline⟩
  · exact .inl hmem

theorem fits_line (hline : mark ∉ line) : Fits mark n line ↔ line.length ≤ n := by
  rw [Fits, List.splitOn_eq_singleton hline, List.forall_mem_singleton]

theorem fits_append (hline : mark ∉ line) :
    Fits mark n (line ++ mark :: rest) ↔ line.length ≤ n ∧ Fits mark n rest := by
  rw [Fits, List.splitOn_append_cons_self_of_not_mem hline, List.forall_mem_cons]
  rfl

theorem fits_mark : Fits mark n (mark :: rest) ↔ Fits mark n rest :=
  (fits_append List.not_mem_nil).trans (and_iff_right (Nat.zero_le n))

/-- The text ends behind a line, or a mark follows. -/
def Ends (mark : Symbol) (rest : List Symbol) : Prop := rest = [] ∨ ∃ after, rest = mark :: after

/-- A line of the full length is at its end. -/
theorem Fits.ends (hfits : Fits mark n (line ++ rest)) (hline : mark ∉ line) (hfull : n ≤ line.length) :
    Ends mark rest := by
  rcases line_cases mark rest with hrest | ⟨before, after, rfl, hbefore⟩
  · have hall : mark ∉ line ++ rest := by simp [hline, hrest]
    have hlength := (fits_line hall).mp hfits
    rw [List.length_append] at hlength
    exact .inl (List.length_eq_zero_iff.mp (by omega))
  · have hall : mark ∉ line ++ before := by simp [hline, hbefore]
    rw [← List.append_assoc, fits_append hall, List.length_append] at hfits
    have hnone : before = [] := List.length_eq_zero_iff.mp (by omega)
    exact .inr ⟨after, by rw [hnone, List.nil_append]⟩

theorem Fits.behind (hfits : Fits mark n (line ++ rest)) (hline : mark ∉ line) (hends : Ends mark rest) :
    Fits mark n rest := by
  rcases hends with rfl | ⟨after, rfl⟩
  · exact (fits_line List.not_mem_nil).mpr (Nat.zero_le n)
  · exact fits_mark.mpr ((fits_append hline).mp hfits).2

theorem report_append (hline : mark ∉ line) :
    report mark shown (line ++ mark :: rest) = shown line ++ report mark shown rest := by
  rw [report, List.splitOn_append_cons_self_of_not_mem hline, List.flatMap_cons, report]

theorem report_line (hline : mark ∉ line) : report mark shown line = shown line := by
  rw [report, List.splitOn_eq_singleton hline, List.flatMap_singleton]

theorem report_nil (hempty : shown [] = []) : report mark shown [] = [] :=
  (report_line List.not_mem_nil).trans hempty

/-- A line at its end is shown, and then the rest. -/
theorem report_ends (hempty : shown [] = []) (hline : mark ∉ line) (hends : Ends mark rest) :
    report mark shown (line ++ rest) = shown line ++ report mark shown rest := by
  rcases hends with rfl | ⟨after, rfl⟩
  · rw [List.append_nil, report_line hline, report_nil hempty, List.append_nil]
  · have hmark : report mark shown (mark :: after) = report mark shown after := by
      have happend : report mark shown ([] ++ mark :: after) = shown [] ++ report mark shown after :=
        report_append List.not_mem_nil
      rwa [hempty, List.nil_append, List.nil_append] at happend
    rw [report_append hline, hmark]

/-! A text character by character. -/

theorem splitOn_mark (text : List Symbol) : (mark :: text).splitOn mark = [] :: text.splitOn mark := by
  have happend : ([] ++ mark :: text).splitOn mark = [] :: text.splitOn mark :=
    List.splitOn_append_cons_self_of_not_mem List.not_mem_nil text
  exact happend

/-- A character that is no mark belongs to the first line. -/
theorem splitOn_cons {b : Symbol} (hb : b ≠ mark) (text : List Symbol) :
    ∃ line later, text.splitOn mark = line :: later ∧ (b :: text).splitOn mark = (b :: line) :: later := by
  have hmark : mark ∉ [b] := by simpa using hb.symm
  rcases line_cases mark text with htext | ⟨line, rest, rfl, hline⟩
  · have hwhole : mark ∉ b :: text := by simp [hb.symm, htext]
    exact ⟨text, [], List.splitOn_eq_singleton htext, List.splitOn_eq_singleton hwhole⟩
  · have hwhole : mark ∉ b :: line := by simp [hb.symm, hline]
    refine ⟨line, rest.splitOn mark, List.splitOn_append_cons_self_of_not_mem hline rest, ?_⟩
    exact List.splitOn_append_cons_self_of_not_mem hwhole rest

/-! Two lists side by side, the shorter one filled up. -/

section

variable {Item : Type} {f : Nat → Item → Item → List Output} {filler : Item} {xs ys : List Item} {k : Nat}

def beside (f : Nat → Item → Item → List Output) (filler : Item) (k : Nat) (xs ys : List Item) : List Output :=
  (List.range (max xs.length ys.length)).flatMap fun i => f (k + i) (xs.getD i filler) (ys.getD i filler)

theorem beside_step (hne : xs ≠ [] ∨ ys ≠ []) :
    beside f filler k xs ys = f k (xs.headD filler) (ys.headD filler) ++ beside f filler (k + 1) xs.tail ys.tail := by
  have hget (zs : List Item) (i : Nat) : zs.getD (i + 1) filler = zs.tail.getD i filler := by
    cases zs <;> rfl
  have hhead (zs : List Item) : zs.getD 0 filler = zs.headD filler := by
    cases zs <;> rfl
  have hlength : max xs.length ys.length = max xs.tail.length ys.tail.length + 1 := by
    rw [List.length_tail, List.length_tail]
    rcases hne with hne | hne <;> have hpos := List.length_pos_of_ne_nil hne <;> omega
  rw [beside, hlength, List.range_succ_eq_map, List.flatMap_cons, List.flatMap_map, beside]
  simp only [Nat.add_zero, hhead, hget, Nat.succ_eq_add_one]
  congr 2
  funext i
  rw [Nat.add_assoc, Nat.add_comm 1 i]

theorem mem_beside {output : Output} : output ∈ beside f filler k xs ys ↔
    ∃ i < max xs.length ys.length, output ∈ f (k + i) (xs.getD i filler) (ys.getD i filler) := by
  simp only [beside, List.mem_flatMap, List.mem_range]

end

end support.lines
