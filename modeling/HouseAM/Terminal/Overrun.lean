import HouseAM.Terminal.Editing

open support.runs

namespace houseam.terminal

variable {log : List (terminal_t × Event)} {t t' : terminal_t} {e : Event} {kb : Int → Byte} {c : Byte} {nbytes : Int}

/-- The places of the line buffer that the copy loop looks at, in order. -/
def read_line_indices (keyboard_buffer : Int → Byte) : Nat → Nat → List Nat
  | 0, _ => []
  | n + 1, i => i :: if keyboard_buffer i = 0#8 then [] else read_line_indices keyboard_buffer n (i + 1)

/-- Those of a whole read. While it waits for Enter it looks at none. -/
def terminal_read_indices (t : terminal_t) (nbytes : Int) : List Nat :=
  if t.enter_pressed = 0 then [] else read_line_indices t.keyboard_buffer nbytes.toNat 0

/-- A read looks at the line buffer only, and returns no more than it holds and
    than was asked for. -/
structure ReadsInside (t : terminal_t) (nbytes : Int) : Prop where
  indices : ∀ i ∈ terminal_read_indices t nbytes, i < KEYBOARD_BUFFER_SIZE
  returned : ∀ count bytes t', terminal_read t nbytes = some (count, bytes, t') →
    count ≤ min nbytes KEYBOARD_BUFFER_SIZE

/-- One of the buffer's bytes is NUL. -/
def HasNul (keyboard_buffer : Int → Byte) : Prop := ∃ i : Nat, i < KEYBOARD_BUFFER_SIZE ∧ keyboard_buffer i = 0#8

/-- A line is there to be read, and no NUL ends it. -/
def Overruns (t : terminal_t) : Prop := t.enter_pressed ≠ 0 ∧ ¬ HasNul t.keyboard_buffer

theorem mem_read_line_indices {n i j : Nat} :
    j ∈ read_line_indices kb n i ↔ i ≤ j ∧ j < i + n ∧ ∀ k : Nat, i ≤ k → k < j → kb k ≠ 0#8 := by
  induction n generalizing i with
  | zero =>
    apply iff_of_false List.not_mem_nil
    rintro ⟨hlo, hhi, -⟩
    omega
  | succ n ih =>
    rw [read_line_indices, List.mem_cons]
    by_cases hnul : kb i = 0#8
    · rw [if_pos hnul, or_iff_left List.not_mem_nil]
      constructor
      · rintro rfl
        exact ⟨Nat.le_refl _, by omega, fun k hlo hhi => by omega⟩
      · rintro ⟨hlo, -, hbefore⟩
        by_contra hne
        exact hbefore i (Nat.le_refl _) (by omega) hnul
    · rw [if_neg hnul, ih]
      constructor
      · rintro (rfl | ⟨hlo, hhi, hbefore⟩)
        · exact ⟨Nat.le_refl _, by omega, fun k hlo hhi => by omega⟩
        · refine ⟨by omega, by omega, fun k hk hkj => ?_⟩
          by_cases hfirst : k = i
          · rw [hfirst]
            exact hnul
          · exact hbefore k (by omega) hkj
      · rintro ⟨hlo, hhi, hbefore⟩
        by_cases hfirst : j = i
        · exact Or.inl hfirst
        · exact Or.inr ⟨by omega, by omega, fun k hk hkj => hbefore k (by omega) hkj⟩

/-- A byte is copied from each place looked at but perhaps the last. -/
theorem read_line_loop_indices {n i k : Nat} (hk : k < (read_line_loop kb n i).length) :
    i + k ∈ read_line_indices kb n i := by
  induction n generalizing i k with
  | zero => exact absurd hk (Nat.not_lt_zero k)
  | succ n ih =>
    rw [read_line_loop] at hk
    rw [read_line_indices]
    split at hk
    · exact absurd hk (Nat.not_lt_zero k)
    · rename_i hbyte
      rw [if_neg hbyte]
      cases k with
      | zero => exact List.mem_cons_self
      | succ k =>
        have hrest := ih (i := i + 1) (Nat.lt_of_succ_lt_succ hk)
        rw [Nat.add_right_comm] at hrest
        exact List.mem_cons_of_mem _ hrest

theorem read_line_loop_length_le (kb : Int → Byte) (n i : Nat) : (read_line_loop kb n i).length ≤ n := by
  induction n generalizing i with
  | zero => exact Nat.le_refl 0
  | succ n ih =>
    rw [read_line_loop]
    split
    · exact Nat.zero_le _
    · exact Nat.succ_le_succ (ih (i + 1))

/-- A read of a line that is there stays inside the buffer exactly if it asks
    for no more than 128 bytes, or a NUL ends it. -/
theorem readsInside_iff (hpressed : t.enter_pressed ≠ 0) (hnbytes : 0 ≤ nbytes) :
    ReadsInside t nbytes ↔ nbytes ≤ KEYBOARD_BUFFER_SIZE ∨ HasNul t.keyboard_buffer := by
  have hindices : terminal_read_indices t nbytes = read_line_indices t.keyboard_buffer nbytes.toNat 0 :=
    if_neg hpressed
  constructor
  · intro hinside
    by_contra hnot
    rw [not_or] at hnot
    have hbehind : 128 ∈ terminal_read_indices t nbytes := by
      rw [hindices, mem_read_line_indices]
      refine ⟨Nat.zero_le _, ?_, fun k _ hk hnul => hnot.2 ⟨k, hk, hnul⟩⟩
      simp only [KEYBOARD_BUFFER_SIZE] at hnot
      omega
    exact absurd (hinside.indices 128 hbehind) (Nat.lt_irrefl 128)
  · intro hends
    have hlt : ∀ i ∈ terminal_read_indices t nbytes, i < KEYBOARD_BUFFER_SIZE := by
      intro i hi
      rw [hindices, mem_read_line_indices] at hi
      obtain ⟨-, hhi, hbefore⟩ := hi
      rcases hends with hfew | ⟨k, hk, hnul⟩
      · omega
      · by_contra hbehind
        exact hbefore k (Nat.zero_le _) (by omega) hnul
    refine ⟨hlt, fun count bytes t' hread => ?_⟩
    rw [terminal_read_eq t nbytes hpressed, Option.some.injEq, Prod.mk.injEq] at hread
    rw [← hread.1]
    have hasked := read_line_loop_length_le t.keyboard_buffer nbytes.toNat 0
    have hheld : (read_line_loop t.keyboard_buffer nbytes.toNat 0).length ≤ KEYBOARD_BUFFER_SIZE := by
      by_contra hlonger
      have hlast := read_line_loop_indices (Nat.not_le.mp hlonger)
      rw [Nat.zero_add, ← hindices] at hlast
      exact absurd (hlt _ hlast) (Nat.lt_irrefl _)
    omega

theorem overruns_iff (t : terminal_t) : (∀ nbytes, 0 ≤ nbytes → ReadsInside t nbytes) ↔ ¬ Overruns t := by
  by_cases hpressed : t.enter_pressed = 0
  · refine iff_of_true (fun nbytes _ => ⟨fun i hi => ?_, fun count bytes t' hread => ?_⟩) fun h => h.1 hpressed
    · rw [terminal_read_indices, if_pos hpressed] at hi
      exact absurd hi List.not_mem_nil
    · rw [terminal_read_waits hpressed] at hread
      cases hread
  · constructor
    · intro hinside hoverruns
      rcases (readsInside_iff hpressed (by decide)).mp (hinside 129 (by decide)) with hfew | hnul
      · exact absurd hfew (by decide)
      · exact hoverruns.2 hnul
    · intro hsafe nbytes hnbytes
      refine (readsInside_iff hpressed hnbytes).mpr (Or.inr ?_)
      by_contra hnul
      exact hsafe ⟨hpressed, hnul⟩

/-! What a step does to the NULs of the buffer. -/

/-- All NULs of the buffer are at some places. -/
def NulsAt (keyboard_buffer : Int → Byte) (place : Nat → Prop) : Prop :=
  ∀ i : Nat, i < KEYBOARD_BUFFER_SIZE → keyboard_buffer i = 0#8 → place i

theorem overruns_of_sameLine {u : terminal_t} (hsame : SameLine t u) : Overruns u ↔ Overruns t := by
  rw [Overruns, Overruns, hsame.enter_pressed, hsame.keyboard_buffer]

/-- The number of characters typed fits the buffer. -/
def saved_t.IndexInside (view : saved_t) : Prop := 0 ≤ view.end_buf_idx ∧ view.end_buf_idx ≤ 127

theorem enter_key_overruns (hindex : t.live.IndexInside) :
    Overruns (enter_key t) ↔ NulsAt t.keyboard_buffer fun i => (i : Int) = t.end_buf_idx := by
  obtain ⟨hbuffer, -, hpressed⟩ := enter_key_line t
  obtain ⟨hlo, hhi⟩ := hindex
  simp only [terminal_t.live] at hlo hhi
  rw [Overruns, hbuffer, hpressed]
  constructor
  · rintro ⟨-, hfull⟩ i hi hnul
    by_contra hother
    exact hfull ⟨i, hi, by rw [Function.update_of_ne hother, hnul]⟩
  · intro honly
    refine ⟨by decide, ?_⟩
    rintro ⟨i, hi, hnul⟩
    by_cases hstored : (i : Int) = t.end_buf_idx
    · rw [hstored, Function.update_self] at hnul
      exact absurd hnul (by decide)
    · rw [Function.update_of_ne hstored] at hnul
      exact hstored (honly i hi hnul)

theorem backspace_key_safe (hindex : t.live.IndexInside) (hsafe : ¬ Overruns t) : ¬ Overruns (backspace_key t) := by
  obtain ⟨herase, hnothing⟩ := backspace_key_line t
  obtain ⟨hlo, hhi⟩ := hindex
  simp only [terminal_t.live] at hlo hhi
  by_cases hline : 0 < t.end_buf_idx
  · rintro ⟨-, hfull⟩
    refine hfull ⟨(t.end_buf_idx - 1).toNat, by simp only [KEYBOARD_BUFFER_SIZE]; omega, ?_⟩
    rw [(herase hline).1, Int.toNat_of_nonneg (by omega), Function.update_self]
  · rw [hnothing hline]
    exact hsafe

/-- A stored character, and the newline behind a line that gets full. -/
theorem buffer_key_at (hroom : t.end_buf_idx ≤ 126) (c : Byte) (i : Nat) :
    (buffer_key t c).keyboard_buffer i =
      if (i : Int) = t.end_buf_idx then c
        else if t.end_buf_idx = 126 ∧ i = 127 then NEWLINE else t.keyboard_buffer i := by
  by_cases hfills : t.end_buf_idx = 126
  · rw [buffer_key_fills hfills]
    simp only [store_key, Function.update_apply, hfills]
    by_cases hlast : i = 127
    · subst hlast
      rfl
    · rw [if_neg (by omega)]
      simp only [hlast, and_false, if_false]
  · rw [buffer_key_room (by omega)]
    simp only [store_key, Function.update_apply, hfills, false_and, if_false]

theorem character_key_overruns (hindex : t.live.IndexInside) (hsafe : ¬ Overruns t) (c : Byte) :
    Overruns (character_key t c) ↔ c ≠ 0#8 ∧ t.enter_pressed ≠ 0 ∧ t.end_buf_idx ≤ 126 ∧
      NulsAt t.keyboard_buffer fun i => (i : Int) = t.end_buf_idx ∨ t.end_buf_idx = 126 ∧ i = 127 := by
  obtain ⟨hlo, hhi⟩ := hindex
  simp only [terminal_t.live] at hlo hhi
  rw [overruns_of_sameLine (character_key_sameLine t c)]
  by_cases hroom : t.end_buf_idx ≤ 126
  · have hat := buffer_key_at hroom c
    rw [Overruns, (buffer_key_stored hroom c).2]
    constructor
    · rintro ⟨hpressed, hfull⟩
      refine ⟨?_, hpressed, hroom, fun i hi hnul => ?_⟩
      · rintro rfl
        refine hfull ⟨t.end_buf_idx.toNat, by simp only [KEYBOARD_BUFFER_SIZE]; omega, ?_⟩
        rw [hat, if_pos (by omega)]
      · by_contra hother
        rw [not_or] at hother
        exact hfull ⟨i, hi, by rw [hat, if_neg hother.1, if_neg hother.2, hnul]⟩
    · rintro ⟨hc, hpressed, -, honly⟩
      refine ⟨hpressed, ?_⟩
      rintro ⟨i, hi, hnul⟩
      rw [hat] at hnul
      split at hnul
      · exact hc hnul
      · rename_i hstored
        split at hnul
        · exact absurd hnul (by decide)
        · rename_i hbehind
          exact (honly i hi hnul).elim hstored hbehind
  · rw [buffer_key_full (by omega)]
    exact iff_of_false hsafe fun h => hroom h.2.2.1

/-- The steps that leave a line to be read without a NUL: Enter, or a character
    behind an unread Enter, where every other byte of the buffer is taken, and a
    switch behind an unread Enter to a terminal whose whole buffer is. -/
def TakesLastNul (t : terminal_t) : Event → Prop
  | .key garbage temp =>
    (∃ number, switch_target t temp = some number ∧ number ≠ t.current_terminal ∧ t.enter_pressed ≠ 0 ∧
      ¬ HasNul (t.saved number).keyboard_buffer) ∨
    ∃ c, typed_char t (.key garbage temp) = some c ∧
      (temp = SCAN_ENTER ∧ NulsAt t.keyboard_buffer (fun i => (i : Int) = t.end_buf_idx) ∨
        temp ≠ SCAN_ENTER ∧ c ≠ 0#8 ∧ t.enter_pressed ≠ 0 ∧ t.end_buf_idx ≤ 126 ∧
          NulsAt t.keyboard_buffer fun i => (i : Int) = t.end_buf_idx ∨ t.end_buf_idx = 126 ∧ i = 127)
  | .write _ _ => False
  | .read _ _ => False

theorem hasNul_congr {other : Int → Byte} (hsame : ∀ i : Int, 0 ≤ i → i < 128 → kb i = other i) :
    HasNul kb ↔ HasNul other := by
  have hplace (i : Nat) (hi : i < KEYBOARD_BUFFER_SIZE) : kb i = other i :=
    hsame i (Int.natCast_nonneg i) (Int.ofNat_lt.mpr hi)
  constructor
  · rintro ⟨i, hi, hnul⟩
    exact ⟨i, hi, (hplace i hi).symm.trans hnul⟩
  · rintro ⟨i, hi, hnul⟩
    exact ⟨i, hi, (hplace i hi).trans hnul⟩

theorem switched_overruns (hcurrent : IsTerminal t.current_terminal) {number : Int} (hnumber : IsTerminal number)
    (used : Fin 3 → Int) : Overruns { switch_to t number with terminal_used := used } ↔
      t.enter_pressed ≠ 0 ∧ ¬ HasNul (t.view number).keyboard_buffer := by
  have hview : SameView ((switch_to t number).view number) (t.view number) := switch_to_view hcurrent hnumber
  rw [terminal_t.view_of_current (switch_to_current t number)] at hview
  have hbuffer : HasNul (switch_to t number).keyboard_buffer ↔ HasNul (t.view number).keyboard_buffer :=
    hasNul_congr hview.keyboard_buffer
  rw [← hbuffer, ← switch_to_enter_pressed t number]
  rfl

/-- Only the switch keys take a NUL without typing a character. -/
theorem takesLastNul_quiet {garbage : Byte} {temp : Nat} (hquiet : typed_char t (.key garbage temp) = none) :
    TakesLastNul t (.key garbage temp) ↔
      ∃ number, switch_target t temp = some number ∧ number ≠ t.current_terminal ∧ t.enter_pressed ≠ 0 ∧
        ¬ HasNul (t.saved number).keyboard_buffer := by
  rw [TakesLastNul, hquiet]
  apply or_iff_left
  rintro ⟨c, htyped, -⟩
  cases htyped

theorem not_takesLastNul {garbage : Byte} {temp : Nat} (hstays : switch_target t temp = none)
    (hquiet : typed_char t (.key garbage temp) = none) : ¬ TakesLastNul t (.key garbage temp) := by
  rw [takesLastNul_quiet hquiet, hstays]
  rintro ⟨number, htarget, -⟩
  cases htarget

theorem takesLastNul_typed {garbage : Byte} {temp : Nat} (hstays : switch_target t temp = none)
    (htyped : typed_char t (.key garbage temp) = some c) :
    TakesLastNul t (.key garbage temp) ↔
      temp = SCAN_ENTER ∧ NulsAt t.keyboard_buffer (fun i => (i : Int) = t.end_buf_idx) ∨
        temp ≠ SCAN_ENTER ∧ c ≠ 0#8 ∧ t.enter_pressed ≠ 0 ∧ t.end_buf_idx ≤ 126 ∧
          NulsAt t.keyboard_buffer fun i => (i : Int) = t.end_buf_idx ∨ t.end_buf_idx = 126 ∧ i = 127 := by
  rw [TakesLastNul, hstays, htyped]
  constructor
  · rintro (⟨number, htarget, -⟩ | ⟨d, hd, htakes⟩)
    · cases htarget
    · cases hd
      exact htakes
  · exact fun htakes => Or.inr ⟨c, rfl, htakes⟩

/-- A key of the line leaves it unended exactly if it takes the last NUL. -/
theorem line_keys_overruns {garbage : Byte} {temp : Nat} (hindex : t.live.IndexInside) (hsafe : ¬ Overruns t)
    (hstays : switch_target t temp = none) :
    Overruns (line_keys (set_keyboard_flags t temp) garbage temp) ↔ TakesLastNul t (.key garbage temp) := by
  have hsame := set_keyboard_flags_sameLine t temp
  have hindex' : (set_keyboard_flags t temp).live.IndexInside := set_keyboard_flags_live t temp ▸ hindex
  have hsafe' : ¬ Overruns (set_keyboard_flags t temp) := by rwa [overruns_of_sameLine hsame]
  rw [line_keys]
  by_cases hclear : (set_keyboard_flags t temp).ctrl_on = 1 ∧ temp = SCAN_L
  · have hquiet : typed_char t (.key garbage temp) = none := if_pos hclear
    rw [if_pos hclear]
    exact iff_of_false (fun hoverruns => hsafe' hoverruns) (not_takesLastNul hstays hquiet)
  · rw [if_neg hclear]
    by_cases henter : temp = SCAN_ENTER
    · have htyped : typed_char t (.key garbage temp) = some NEWLINE := by
        rw [typed_char, if_neg hclear, if_pos henter]
      rw [if_pos henter, enter_key_overruns hindex', hsame.keyboard_buffer, hsame.end_buf_idx,
        takesLastNul_typed hstays htyped, or_iff_left fun h => h.1 henter, and_iff_right henter]
    · rw [if_neg henter]
      by_cases hbackspace : temp = SCAN_BACKSPACE
      · have hquiet : typed_char t (.key garbage temp) = none := by
          rw [typed_char, if_neg hclear, if_neg henter, if_pos hbackspace]
        rw [if_pos hbackspace]
        exact iff_of_false (backspace_key_safe hindex' hsafe') (not_takesLastNul hstays hquiet)
      · rw [if_neg hbackspace]
        by_cases hprintable : Printable temp
        · have htyped : typed_char t (.key garbage temp) =
              some (scan_code_to_char (set_keyboard_flags t temp) garbage temp) := by
            rw [typed_char, if_neg hclear, if_neg henter, if_neg hbackspace, if_pos hprintable]
          rw [if_pos hprintable, character_key_overruns hindex' hsafe', hsame.keyboard_buffer, hsame.end_buf_idx,
            hsame.enter_pressed, takesLastNul_typed hstays htyped, or_iff_right fun h => henter h.1,
            and_iff_right henter]
        · have hquiet : typed_char t (.key garbage temp) = none := by
            rw [typed_char, if_neg hclear, if_neg henter, if_neg hbackspace, if_neg hprintable]
          rw [if_neg hprintable]
          exact iff_of_false hsafe' (not_takesLastNul hstays hquiet)

/-- A key leaves an unended line exactly if it takes the last NUL. -/
theorem key_overruns {garbage : Byte} {temp : Nat} (hcurrent : IsTerminal t.current_terminal)
    (hindex : t.live.IndexInside) (hsafe : ¬ Overruns t) :
    Overruns (keyboard_interrupt t garbage temp).1 ↔ TakesLastNul t (.key garbage temp) := by
  rcases keyboard_interrupt_cases t garbage temp with ⟨hstays, hafter⟩ | ⟨number, used, hflags, htarget, hafter⟩
  · have hnone : switch_target t temp = none := by
      by_contra hsome
      obtain ⟨number, htarget⟩ := Option.ne_none_iff_exists'.mp hsome
      rw [set_keyboard_flags_of_switch_target htarget, htarget] at hstays
      cases hstays
    rw [hafter]
    exact line_keys_overruns hindex hsafe hnone
  · obtain ⟨hclear, henter, hbackspace, hprintable⟩ := switch_target_quiet htarget
    have hquiet : typed_char t (.key garbage temp) = none := by
      rw [typed_char, if_neg (fun h => hclear h.2), if_neg henter, if_neg hbackspace, if_neg hprintable]
    rw [hafter, takesLastNul_quiet hquiet, switched_overruns hcurrent (switch_target_isTerminal htarget), htarget]
    by_cases hsame : t.current_terminal = number
    · rw [terminal_t.view_of_current hsame]
      apply iff_of_false hsafe
      rintro ⟨other, hother, hne, -⟩
      cases hother
      exact hne hsame.symm
    · rw [terminal_t.view_of_other hsame]
      constructor
      · exact fun hfull => ⟨number, rfl, fun h => hsame h.symm, hfull⟩
      · rintro ⟨other, hother, -, hfull⟩
        cases hother
        exact hfull

/-- So does every step. -/
theorem step_overruns (hviews : AllViews saved_t.IndexInside t) (hsafe : ¬ Overruns t) (hstep : step t e = some t') :
    Overruns t' ↔ TakesLastNul t e := by
  cases e with
  | key garbage temp =>
    cases hstep
    exact key_overruns hviews.current hviews.live hsafe
  | write number buf =>
    cases hstep
    rw [overruns_of_sameLine (terminal_write_sameLine t buf)]
    exact iff_of_false hsafe fun h => h
  | read number nbytes =>
    obtain ⟨-, rfl⟩ := step_read hstep
    exact iff_of_false (fun h => h.1 rfl) fun h => h

/-! The number of characters typed. -/

theorem saved_t.IndexInside.of_sameView (a b : saved_t) (hsame : SameView a b) (hb : b.IndexInside) :
    a.IndexInside := by
  rw [IndexInside, hsame.end_buf_idx]
  exact hb

theorem line_keys_index {garbage : Byte} {temp : Nat} (hindex : t.live.IndexInside) :
    (line_keys t garbage temp).live.IndexInside := by
  obtain ⟨hlo, hhi⟩ := hindex
  simp only [terminal_t.live] at hlo hhi
  unfold line_keys
  split
  · exact ⟨hlo, hhi⟩
  · split
    · rw [saved_t.IndexInside, terminal_t.live, (enter_key_line t).2.1]
      exact ⟨hlo, hhi⟩
    · split
      · obtain ⟨herase, hnothing⟩ := backspace_key_line t
        by_cases hline : 0 < t.end_buf_idx
        · rw [saved_t.IndexInside, terminal_t.live, (herase hline).2]
          constructor <;> dsimp only <;> omega
        · rw [hnothing hline]
          exact ⟨hlo, hhi⟩
      · split
        · rw [saved_t.IndexInside, terminal_t.live, (character_key_sameLine t _).end_buf_idx, buffer_key]
          split
          · rename_i hroom
            simp only [KEYBOARD_BUFFER_SIZE] at hroom
            constructor <;> dsimp only <;> omega
          · split
            · rename_i hfills
              simp only [KEYBOARD_BUFFER_SIZE] at hfills
              constructor <;> dsimp only [store_key] <;> omega
            · exact ⟨hlo, hhi⟩
        · exact ⟨hlo, hhi⟩

theorem step_index (hviews : AllViews saved_t.IndexInside t) (hstep : step t e = some t') :
    AllViews saved_t.IndexInside t' := by
  cases e with
  | key garbage temp =>
    cases hstep
    rcases keyboard_interrupt_cases t garbage temp with ⟨-, hafter⟩ | ⟨number, used, -, htarget, hafter⟩
    · rw [hafter]
      apply hviews.of_live
        (((set_keyboard_flags_sameLine t temp).lineStep _).trans (line_keys_lineStep t garbage temp))
      exact line_keys_index (set_keyboard_flags_live t temp ▸ hviews.live)
    · rw [hafter]
      exact hviews.switched saved_t.IndexInside.of_sameView (switch_target_isTerminal htarget) used
  | write number buf =>
    cases hstep
    have hsame := terminal_write_sameLine t buf
    apply hviews.of_live (hsame.lineStep none)
    rw [saved_t.IndexInside, terminal_t.live, hsame.end_buf_idx]
    exact hviews.live
  | read number nbytes =>
    obtain ⟨-, rfl⟩ := step_read hstep
    apply hviews.of_live (after_read_lineStep none t)
    exact ⟨Int.le_refl 0, show (0 : Int) ≤ 127 by decide⟩

theorem booted_index (memory : terminal_t) : AllViews saved_t.IndexInside (booted memory) where
  current := Or.inl rfl
  views := by
    intro number hnumber
    rcases hnumber with rfl | rfl | rfl
    all_goals exact ⟨Int.le_refl 0, show (0 : Int) ≤ 127 by decide⟩

theorem run_index (memory : terminal_t) (run : Run step (fun _ _ => True) (booted memory) log t) :
    AllViews saved_t.IndexInside t := by
  refine run.invariant (motive := fun _ t => AllViews saved_t.IndexInside t) (booted_index memory) ?_
  intro _ _ _ _ _ hviews _ hstep
  exact step_index hviews hstep

/-- In a run from boot, reads of any number of bytes always stay inside the
    buffer exactly if no step takes the last NUL. -/
theorem reads_inside_iff (memory : terminal_t) (run : Run step (fun _ _ => True) (booted memory) log t) :
    (∀ before u, before <+: log → Run step (fun _ _ => True) (booted memory) before u →
      ∀ nbytes, 0 ≤ nbytes → ReadsInside u nbytes) ↔ ∀ taken ∈ log, ¬ TakesLastNul taken.1 taken.2 := by
  simp only [overruns_iff]
  constructor
  · intro hsafe taken htaken htakes
    obtain ⟨before, after, hlog⟩ := List.append_of_mem htaken
    obtain ⟨hearlier, -⟩ := run.before hlog
    obtain ⟨u, hstep, -⟩ := run.after hlog
    have hbefore : before ++ [taken] <+: log := ⟨after, by rw [hlog]; simp⟩
    have hafter := hsafe _ u hbefore (hearlier.step trivial hstep)
    have hnow := hsafe before taken.1 ((List.prefix_append _ _).trans hbefore) hearlier
    exact hafter ((step_overruns (run_index memory hearlier) hnow hstep).mpr htakes)
  · intro hnone before u hbefore hrun
    have hkept : Run step (fun t e => ¬ TakesLastNul t e) (booted memory) before u :=
      hrun.restrict fun taken htaken => hnone taken (hbefore.subset htaken)
    have hboth : AllViews saved_t.IndexInside u ∧ ¬ Overruns u := by
      refine hkept.invariant (motive := fun _ t => AllViews saved_t.IndexInside t ∧ ¬ Overruns t)
        ⟨booted_index memory, fun h => h.1 rfl⟩ ?_
      intro _ _ _ _ _ ⟨hviews, hsafe⟩ htakes hstep
      exact ⟨step_index hviews hstep, fun h => htakes ((step_overruns hviews hsafe hstep).mp h)⟩
    exact hboth.2

/-- A letter and Enter. -/
theorem reads_inside_iff_typed : ∃ log t, Run step (fun _ _ => True) (booted zeroed) log t ∧
    log.map (·.2) = [.key 0#8 0x1E, .key 0#8 SCAN_ENTER] ∧ ∀ nbytes, 0 ≤ nbytes → ReadsInside t nbytes := by
  have hboot : Run step (fun _ _ => True) (booted zeroed) [] (booted zeroed) := .start
  have htyped := hboot.step trivial (key_step _ 0#8 0x1E)
  have hentered := htyped.step trivial (key_step _ 0#8 SCAN_ENTER)
  refine ⟨_, _, hentered, rfl, (reads_inside_iff zeroed hentered).mpr ?_ _ _ (List.prefix_refl _) hentered⟩
  intro taken htaken
  simp only [List.nil_append, List.cons_append, List.mem_cons, List.not_mem_nil, or_false] at htaken
  rcases htaken with rfl | rfl
  · rintro (⟨number, htarget, -⟩ | ⟨c, -, ⟨henter, -⟩ | ⟨-, -, hpressed, -⟩⟩)
    · cases htarget
    · exact absurd henter (by decide)
    · exact hpressed rfl
  · rintro (⟨number, htarget, -⟩ | ⟨c, -, ⟨-, hnuls⟩ | ⟨henter, -⟩⟩)
    · cases htarget
    · exact absurd (hnuls 5 (by decide) (by decide)) (by decide)
    · exact henter rfl

/-- A full line, read by the shell: the copy loop goes on behind the buffer. -/
theorem reads_outside : ¬ ∀ (memory : terminal_t) (log : List (terminal_t × Event)) (t : terminal_t) (nbytes : Int),
    Run step (fun _ _ => True) (booted memory) log t → 0 ≤ nbytes → ReadsInside t nbytes := by
  intro hall
  obtain ⟨log, t, run, hlength⟩ := exists_typed (booted zeroed) (Nat.le_refl 127)
  have hedits := run_edits (booted_empty zeroed) rfl run
  have hindex : t.end_buf_idx = 127 := by rw [hedits.index, hlength]; rfl
  have hentered := (run.mono fun _ _ _ => trivial).step trivial (key_step t 0#8 SCAN_ENTER)
  have hinside := (overruns_iff _).mp fun nbytes => hall zeroed _ _ nbytes hentered
  rw [keyboard_interrupt_enter] at hinside
  refine hinside ((enter_key_overruns ?_).mpr ?_)
  · constructor <;> simp only [terminal_t.live, hindex] <;> decide
  · intro i hi hnul
    by_cases hlast : i = 127
    · rw [hlast, hindex]
      rfl
    · have hline : i < (edited_line log).length := by
        simp only [KEYBOARD_BUFFER_SIZE] at hi
        omega
      rw [hedits.holds i (by omega), List.getD_eq_getElem _ _ hline] at hnul
      exact absurd hnul (hedits.nonzero _ (List.getElem_mem hline))

end houseam.terminal
