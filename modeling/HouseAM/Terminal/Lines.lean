import HouseAM.Support.Runs
import HouseAM.Terminal.Events
import Mathlib.Data.List.GetD
import Mathlib.Data.List.Induction

open support.runs

namespace houseam.terminal

variable {log : List (terminal_t × Event)} {t t' u : terminal_t} {e : Event} {c : Byte} {line bytes : List Byte}

/-- The events of a terminal whose lines are only typed and read: no function
    key, no Backspace, no key without a character, and reads with room for a
    whole line. -/
def LineEvent (t : terminal_t) : Event → Prop
  | .key _ temp => switch_target (set_keyboard_flags t temp) temp = none ∧ temp ≠ SCAN_BACKSPACE ∧
      (Printable temp → temp ≠ SCAN_ENTER → temp ∈ scan_code_set.map (·.2))
  | .write _ _ => True
  | .read _ nbytes => 128 ≤ nbytes

/-- The lines that were typed and ended with Enter, and what was typed since,
    after one more character. -/
def type_char (lines : List (List Byte) × List Byte) (c : Byte) : List (List Byte) × List Byte :=
  if c = NEWLINE then (lines.1 ++ [lines.2], []) else (lines.1, lines.2 ++ [c])

def typed_lines (log : List (terminal_t × Event)) : List (List Byte) × List Byte :=
  (log.filterMap fun taken => typed_char taken.1 taken.2).foldl type_char ([], [])

/-- The line being typed never has more than 126 characters. -/
def ShortLines (log : List (terminal_t × Event)) : Prop :=
  ∀ before, before <+: log → (typed_lines before).2.length ≤ 126

/-- What a read returns. -/
def read_answer (t : terminal_t) : Event → Option (Int × List Byte)
  | .read _ nbytes => (terminal_read t nbytes).map fun result => (result.1, result.2.1)
  | _ => none

def answers (log : List (terminal_t × Event)) : List (Int × List Byte) :=
  log.filterMap fun taken => read_answer taken.1 taken.2

/-- The answer that a line is owed. -/
def answer (line : List Byte) : Int × List Byte := (line.length + 1, line ++ [NEWLINE])

/-- The reads from here on return these lines, and then wait. -/
def Drains : terminal_t → List (List Byte) → Prop
  | t, [] => ∀ nbytes, 128 ≤ nbytes → terminal_read t nbytes = none
  | t, line :: lines => ∀ nbytes, 128 ≤ nbytes →
      ∃ t', terminal_read t nbytes = some ((answer line).1, (answer line).2, t') ∧ Drains t' lines

/-- The reads returned the typed lines in order, and the next reads return the
    lines typed ahead. -/
structure LinesDelivered (log : List (terminal_t × Event)) (t : terminal_t) : Prop where
  returned : answers log = ((typed_lines log).1.take (answers log).length).map answer
  ahead : Drains t ((typed_lines log).1.drop (answers log).length)

/-- A character or Enter is typed while an Enter before it was not read. -/
def TypesAhead (t : terminal_t) (e : Event) : Prop := t.enter_pressed ≠ 0 ∧ typed_char t e ≠ none

/-! What the translation tables hold. -/

/-- The search through a table ends with the character of a matching entry, if
    there is one. -/
theorem foldl_match (entries : List ((Byte × Nat) × (Byte × Nat))) (scan : Nat) (c : Byte) :
    (∃ entry ∈ entries, entry.1.2 = scan ∧
        entries.foldl (fun c entry => if entry.1.2 = scan then entry.2.1 else c) c = entry.2.1) ∨
      ∀ entry ∈ entries, entry.1.2 ≠ scan := by
  induction entries using List.reverseRecOn with
  | nil => exact Or.inr fun _ h => absurd h List.not_mem_nil
  | append_singleton entries last ih =>
    rw [List.foldl_append, List.foldl_cons, List.foldl_nil]
    by_cases hlast : last.1.2 = scan
    · exact Or.inl ⟨last, List.mem_append_right _ (List.mem_singleton_self last), hlast, if_pos hlast⟩
    · rw [if_neg hlast]
      rcases ih with ⟨entry, hmem, hscan, hfound⟩ | hnone
      · exact Or.inl ⟨entry, List.mem_append_left _ hmem, hscan, hfound⟩
      · refine Or.inr fun entry hmem => ?_
        rcases List.mem_append.mp hmem with hearlier | hmem
        · exact hnone entry hearlier
        · exact List.mem_singleton.mp hmem ▸ hlast

/-- The tables have no NUL and no character that ends a row, and are of the same
    length. -/
theorem selected_set_characters (t : terminal_t) :
    (∀ entry ∈ selected_set t, entry.1 ≠ 0#8 ∧ entry.1 ≠ NEWLINE ∧ entry.1 ≠ CARRIAGE_RETURN) ∧
      (selected_set t).length = scan_code_set.length := by
  unfold selected_set
  split
  · decide
  · split
    · decide
    · split <;> decide

/-- A key with a character types it, whatever the local held before. -/
theorem scan_code_to_char_typed {temp : Nat} (htable : temp ∈ scan_code_set.map (·.2)) (t : terminal_t)
    (garbage : Byte) : scan_code_to_char t garbage temp ≠ 0#8 ∧ scan_code_to_char t garbage temp ≠ NEWLINE ∧
      scan_code_to_char t garbage temp ≠ CARRIAGE_RETURN := by
  obtain ⟨hcharacters, hlength⟩ := selected_set_characters t
  rcases foldl_match (scan_code_set.zip (selected_set t)) temp garbage with ⟨entry, hmem, -, hfound⟩ | hnone
  · rw [scan_code_to_char, hfound]
    exact hcharacters entry.2 (List.of_mem_zip hmem).2
  · obtain ⟨code, hcode, hscan⟩ := List.mem_map.mp htable
    rw [← List.map_fst_zip (Nat.le_of_eq hlength.symm)] at hcode
    obtain ⟨entry, hmem, rfl⟩ := List.mem_map.mp hcode
    exact absurd hscan (hnone entry hmem)

/-! The line buffer. -/

/-- The line buffer holds some bytes and NULs behind them. -/
def Holds (keyboard_buffer : Int → Byte) (bytes : List Byte) : Prop :=
  ∀ k : Nat, k < KEYBOARD_BUFFER_SIZE → keyboard_buffer k = bytes.getD k 0#8

/-- A byte stored behind a line. -/
theorem store_getD {kb : Int → Byte} {k : Nat} (hline : kb k = line.getD k 0#8) (c : Byte) :
    (Function.update kb line.length c) k = (line ++ [c]).getD k 0#8 := by
  by_cases hend : k = line.length
  · subst hend
    rw [Function.update_self, List.getD_append_right _ _ _ _ (Nat.le_refl _), Nat.sub_self]
    rfl
  · rw [Function.update_of_ne (by omega), hline]
    rcases Nat.lt_or_gt_of_ne hend with hbefore | hbehind
    · rw [List.getD_append _ _ _ _ hbefore]
    · rw [List.getD_eq_default _ _ (by omega), List.getD_eq_default]
      rw [List.length_append, List.length_singleton]
      omega

theorem Holds.store {kb : Int → Byte} (hholds : Holds kb bytes) (c : Byte) :
    Holds (Function.update kb bytes.length c) (bytes ++ [c]) := fun k hk => store_getD (hholds k hk) c

theorem holds_cleared (kb : Int → Byte) :
    Holds (copyInto KEYBOARD_BUFFER_SIZE (fun _ => 0#8) kb) [] := by
  intro k hk
  rw [copyInto_inside _ _ _ (by omega) (by omega)]
  rfl

/-- A read copies the bytes in front of a NUL, as far as it has room. -/
theorem read_line_loop_take {kb : Int → Byte} {n i : Nat}
    (hbytes : ∀ k < bytes.length, kb (i + k : Nat) = bytes.getD k 0#8) (hnonzero : ∀ c ∈ bytes, c ≠ 0#8)
    (hend : bytes.length < n → kb (i + bytes.length : Nat) = 0#8) : read_line_loop kb n i = bytes.take n := by
  induction n generalizing i bytes with
  | zero => rfl
  | succ n ih =>
    rw [read_line_loop]
    cases bytes with
    | nil =>
      have hnul : kb i = 0#8 := hend (Nat.succ_pos n)
      rw [if_pos hnul, List.take_nil]
    | cons c bytes =>
      have hfirst : kb i = c := hbytes 0 (Nat.succ_pos _)
      rw [hfirst, if_neg (hnonzero c List.mem_cons_self), List.take_succ_cons]
      congr 1
      apply ih
      · intro k hk
        have hnext := hbytes (k + 1) (Nat.succ_lt_succ hk)
        rw [← Nat.add_assoc, Nat.add_right_comm] at hnext
        exact hnext
      · exact fun c hc => hnonzero c (List.mem_cons_of_mem _ hc)
      · intro hroom
        have hbehind := hend (Nat.succ_lt_succ hroom)
        rw [List.length_cons, ← Nat.add_assoc, Nat.add_right_comm] at hbehind
        exact hbehind

/-- A read that has room copies what the buffer holds. -/
theorem read_line_loop_eq {kb : Int → Byte} {n i : Nat}
    (hbytes : ∀ k ≤ bytes.length, kb (i + k : Nat) = bytes.getD k 0#8)
    (hnonzero : ∀ c ∈ bytes, c ≠ 0#8) (hroom : bytes.length < n) : read_line_loop kb n i = bytes := by
  have hend := hbytes bytes.length (Nat.le_refl _)
  rw [List.getD_eq_default _ _ (Nat.le_refl _)] at hend
  rw [read_line_loop_take (fun k hk => hbytes k (Nat.le_of_lt hk)) hnonzero fun _ => hend,
    List.take_of_length_le (Nat.le_of_lt hroom)]

/-- Every byte of a read is the one in its place of the buffer. -/
theorem read_line_loop_get {kb : Int → Byte} {n i k : Nat} {c : Byte} (hget : (read_line_loop kb n i)[k]? = some c) :
    kb (i + k : Nat) = c := by
  induction n generalizing i k with
  | zero => simp [read_line_loop] at hget
  | succ n ih =>
    rw [read_line_loop] at hget
    split at hget
    · simp at hget
    · cases k with
      | zero => exact Option.some.inj hget
      | succ k =>
        rw [List.getElem?_cons_succ] at hget
        have hnext := ih hget
        rwa [Nat.add_right_comm] at hnext

/-- The buffer holds a line, whose length is the index, and what ends it. -/
structure HoldsLine (t : terminal_t) (line ending : List Byte) : Prop where
  holds : Holds t.keyboard_buffer (line ++ ending)
  index : t.end_buf_idx = line.length
  nonzero : ∀ c ∈ line, c ≠ 0#8

theorem HoldsLine.of_sameLine {ending : List Byte} (hline : HoldsLine t line ending) (hsame : SameLine t u) :
    HoldsLine u line ending where
  holds := hsame.keyboard_buffer ▸ hline.holds
  index := hsame.end_buf_idx ▸ hline.index
  nonzero := hline.nonzero

theorem enter_key_line (t : terminal_t) :
    (enter_key t).keyboard_buffer = Function.update t.keyboard_buffer t.end_buf_idx NEWLINE ∧
      (enter_key t).end_buf_idx = t.end_buf_idx ∧ (enter_key t).enter_pressed = 1 := by
  unfold enter_key
  dsimp only [store_key]
  split <;> exact ⟨rfl, rfl, rfl⟩

theorem HoldsLine.enter (hline : HoldsLine t line []) : HoldsLine (enter_key t) line [NEWLINE] := by
  obtain ⟨hbuffer, hindex, -⟩ := enter_key_line t
  refine ⟨?_, hindex.trans hline.index, hline.nonzero⟩
  rw [hbuffer, hline.index]
  have hholds := hline.holds
  rw [List.append_nil] at hholds
  exact hholds.store NEWLINE

theorem character_key_sameLine (t : terminal_t) (c : Byte) : SameLine (buffer_key t c) (character_key t c) := by
  unfold character_key
  dsimp only
  split
  · exact SameLine.refl _
  · split
    · exact (scroll_up_sameLine _).trans (putc_sameLine _ c)
    · exact putc_sameLine _ c

theorem buffer_key_stored (hroom : t.end_buf_idx ≤ 126) (c : Byte) :
    (buffer_key t c).keyboard_buffer t.end_buf_idx = c ∧ (buffer_key t c).enter_pressed = t.enter_pressed := by
  unfold buffer_key
  split
  · exact ⟨Function.update_self _ _ _, rfl⟩
  · rw [if_pos (by simp only [KEYBOARD_BUFFER_SIZE] at *; omega)]
    refine ⟨?_, rfl⟩
    simp only [store_key]
    rw [Function.update_of_ne (by omega), Function.update_self]

theorem HoldsLine.character (hline : HoldsLine t line []) (hroom : line.length < 126) (hc : c ≠ 0#8) :
    HoldsLine (character_key t c) (line ++ [c]) [] := by
  have hindex := hline.index
  have hbuffered := buffer_key_room (show t.end_buf_idx < 126 by omega) c
  refine HoldsLine.of_sameLine ⟨?_, ?_, ?_⟩ (character_key_sameLine t c)
  · have hholds := hline.holds
    rw [List.append_nil] at hholds ⊢
    rw [hbuffered, hindex]
    exact hholds.store c
  · rw [hbuffered, List.length_append, List.length_singleton]
    simp only [hindex]
    omega
  · intro d hd
    rcases List.mem_append.mp hd with hearlier | hlast
    · exact hline.nonzero d hearlier
    · rw [List.mem_singleton.mp hlast]
      exact hc

/-- The three kinds of keys: those that leave the line alone, Enter, and the
    characters. -/
theorem line_key_cases {garbage : Byte} {temp : Nat} (hevent : LineEvent t (.key garbage temp)) :
    (typed_char t (.key garbage temp) = none ∧ SameLine t (keyboard_interrupt t garbage temp).1) ∨
      (∃ u, typed_char t (.key garbage temp) = some NEWLINE ∧ SameLine t u ∧
        (keyboard_interrupt t garbage temp).1 = enter_key u) ∨
      ∃ c u, typed_char t (.key garbage temp) = some c ∧ c ≠ 0#8 ∧ c ≠ NEWLINE ∧ SameLine t u ∧
        (keyboard_interrupt t garbage temp).1 = character_key u c := by
  obtain ⟨hstays, hbackspace, htable⟩ := hevent
  have hflags := set_keyboard_flags_sameLine t temp
  have hafter : (keyboard_interrupt t garbage temp).1 = line_keys (set_keyboard_flags t temp) garbage temp := by
    rcases keyboard_interrupt_cases t garbage temp with ⟨-, hafter⟩ | ⟨number, used, hsame, htarget, -⟩
    · exact hafter
    · rw [hsame, htarget] at hstays
      cases hstays
  rw [hafter]
  simp only [typed_char, line_keys, if_neg hbackspace]
  by_cases hclear : (set_keyboard_flags t temp).ctrl_on = 1 ∧ temp = SCAN_L
  · rw [if_pos hclear, if_pos hclear]
    refine Or.inl ⟨rfl, hflags.trans ?_⟩
    exact ⟨rfl, rfl, rfl, rfl, rfl, rfl, rfl⟩
  · rw [if_neg hclear, if_neg hclear]
    by_cases henter : temp = SCAN_ENTER
    · rw [if_pos henter, if_pos henter]
      exact Or.inr (Or.inl ⟨_, rfl, hflags, rfl⟩)
    · rw [if_neg henter, if_neg henter]
      by_cases hprintable : Printable temp
      · rw [if_pos hprintable, if_pos hprintable]
        obtain ⟨hzero, hnewline, -⟩ :=
          scan_code_to_char_typed (htable hprintable henter) (set_keyboard_flags t temp) garbage
        exact Or.inr (Or.inr ⟨_, _, rfl, hzero, hnewline, hflags, rfl⟩)
      · rw [if_neg hprintable, if_neg hprintable]
        exact Or.inl ⟨rfl, hflags⟩

/-! What one more event adds to the typed lines and the answers. -/

theorem typed_lines_quiet (hquiet : typed_char t e = none) :
    typed_lines (log ++ [(t, e)]) = typed_lines log := by
  simp only [typed_lines, List.filterMap_append, List.filterMap_cons, List.filterMap_nil, hquiet, List.append_nil]

theorem typed_lines_typed (htyped : typed_char t e = some c) :
    typed_lines (log ++ [(t, e)]) = type_char (typed_lines log) c := by
  simp only [typed_lines, List.filterMap_append, List.filterMap_cons, List.filterMap_nil, htyped, List.foldl_append,
    List.foldl_cons, List.foldl_nil]

theorem answers_quiet (hquiet : read_answer t e = none) : answers (log ++ [(t, e)]) = answers log := by
  simp only [answers, List.filterMap_append, List.filterMap_cons, List.filterMap_nil, hquiet, List.append_nil]

theorem answers_read {given : Int × List Byte} (hread : read_answer t e = some given) :
    answers (log ++ [(t, e)]) = answers log ++ [given] := by
  simp only [answers, List.filterMap_append, List.filterMap_cons, List.filterMap_nil, hread]

/-- All lines were returned, and the buffer holds what was typed since. -/
structure Typing (log : List (terminal_t × Event)) (t : terminal_t) : Prop where
  pressed : t.enter_pressed = 0
  returned : answers log = (typed_lines log).1.map answer
  buffer : HoldsLine t (typed_lines log).2 []
  short : (typed_lines log).2.length ≤ 126

/-- All lines but the last were returned, and the buffer holds that one. -/
structure Entered (log : List (terminal_t × Event)) (t : terminal_t) (lines : List (List Byte))
    (line : List Byte) : Prop where
  pressed : t.enter_pressed ≠ 0
  typed : typed_lines log = (lines ++ [line], [])
  returned : answers log = lines.map answer
  buffer : HoldsLine t line [NEWLINE]
  short : line.length ≤ 126

/-- A read of the line that was entered. -/
theorem HoldsLine.read (hline : HoldsLine t line [NEWLINE]) (hshort : line.length ≤ 126)
    (hpressed : t.enter_pressed ≠ 0) {nbytes : Int} (hroom : 128 ≤ nbytes) :
    terminal_read t nbytes = some ((answer line).1, (answer line).2, after_read t) := by
  have hbytes : read_line_loop t.keyboard_buffer nbytes.toNat 0 = line ++ [NEWLINE] := by
    apply read_line_loop_eq
    · intro k hk
      rw [List.length_append, List.length_singleton] at hk
      have hheld := hline.holds k (by simp only [KEYBOARD_BUFFER_SIZE]; omega)
      rwa [Nat.zero_add]
    · intro c hc
      rcases List.mem_append.mp hc with hline' | hlast
      · exact hline.nonzero c hline'
      · rw [List.mem_singleton.mp hlast]
        decide
    · rw [List.length_append, List.length_singleton]
      omega
  rw [terminal_read_eq t nbytes hpressed]
  simp only [hbytes, answer, List.length_append, List.length_singleton]
  rfl

theorem type_char_newline (lines : List (List Byte) × List Byte) :
    type_char lines NEWLINE = (lines.1 ++ [lines.2], []) := if_pos rfl

theorem type_char_character (lines : List (List Byte) × List Byte) (hc : c ≠ NEWLINE) :
    type_char lines c = (lines.1, lines.2 ++ [c]) := if_neg hc

theorem terminal_read_waits (hpressed : t.enter_pressed = 0) (nbytes : Int) : terminal_read t nbytes = none :=
  if_pos hpressed

theorem Typing.delivered (htyping : Typing log t) : LinesDelivered log t := by
  have hlength : (answers log).length = (typed_lines log).1.length := by rw [htyping.returned, List.length_map]
  refine ⟨?_, ?_⟩
  · rw [hlength, List.take_length, htyping.returned]
  · rw [hlength, List.drop_length]
    exact fun nbytes _ => terminal_read_waits htyping.pressed nbytes

theorem Entered.delivered {lines : List (List Byte)} (hentered : Entered log t lines line) :
    LinesDelivered log t := by
  have hlength : (answers log).length = lines.length := by rw [hentered.returned, List.length_map]
  refine ⟨?_, ?_⟩
  · rw [hlength, hentered.typed, List.take_left, hentered.returned]
  · rw [hlength, hentered.typed, List.drop_left]
    intro nbytes hroom
    refine ⟨after_read t, hentered.buffer.read hentered.short hentered.pressed hroom, ?_⟩
    exact fun nbytes _ => terminal_read_waits rfl nbytes

/-- Before Enter, each event is typed or leaves the line alone. -/
theorem Typing.next (htyping : Typing log t) (hevent : LineEvent t e)
    (hshort : (typed_lines (log ++ [(t, e)])).2.length ≤ 126) (hstep : step t e = some t') :
    Typing (log ++ [(t, e)]) t' ∨ ∃ lines line, Entered (log ++ [(t, e)]) t' lines line := by
  cases e with
  | key garbage temp =>
    cases hstep
    have hanswers : answers (log ++ [(t, .key garbage temp)]) = answers log := answers_quiet rfl
    rcases line_key_cases hevent with ⟨hquiet, hsame⟩ | ⟨u, htyped, hsame, hafter⟩ |
      ⟨c, u, htyped, hzero, hnewline, hsame, hafter⟩
    · refine Or.inl ⟨hsame.enter_pressed.trans htyping.pressed, ?_, ?_, hshort⟩
      · rw [hanswers, typed_lines_quiet hquiet, htyping.returned]
      · rw [typed_lines_quiet hquiet]
        exact htyping.buffer.of_sameLine hsame
    · refine Or.inr ⟨(typed_lines log).1, (typed_lines log).2, ?_, ?_, ?_, ?_, htyping.short⟩
      · rw [hafter, (enter_key_line u).2.2]
        decide
      · rw [typed_lines_typed htyped, type_char_newline]
      · rw [hanswers, htyping.returned]
      · rw [hafter]
        exact (htyping.buffer.of_sameLine hsame).enter
    · have hline := htyping.buffer.of_sameLine hsame
      have hlines : typed_lines (log ++ [(t, .key garbage temp)]) = type_char (typed_lines log) c :=
        typed_lines_typed htyped
      rw [type_char_character _ hnewline] at hlines
      have hroom : (typed_lines log).2.length < 126 := by
        rw [hlines, List.length_append, List.length_singleton] at hshort
        exact hshort
      refine Or.inl ⟨?_, ?_, ?_, hshort⟩
      · rw [hafter, (character_key_sameLine u c).enter_pressed,
          (buffer_key_stored (by rw [hline.index]; omega) c).2, hsame.enter_pressed, htyping.pressed]
      · rw [hanswers, hlines, htyping.returned]
      · rw [hafter, hlines]
        exact hline.character hroom hzero
  | write number buf =>
    cases hstep
    have hsame := terminal_write_sameLine t buf
    refine Or.inl ⟨hsame.enter_pressed.trans htyping.pressed, ?_, ?_, hshort⟩
    · rw [answers_quiet rfl, typed_lines_quiet rfl, htyping.returned]
    · rw [typed_lines_quiet rfl]
      exact htyping.buffer.of_sameLine hsame
  | read number nbytes => exact absurd htyping.pressed (step_read hstep).1

/-- Nothing that the line keeps waiting for is typed, so it stays until it is
    read. -/
theorem Entered.next {lines : List (List Byte)} (hentered : Entered log t lines line) (hevent : LineEvent t e)
    (hahead : ¬ TypesAhead t e) (hstep : step t e = some t') :
    Typing (log ++ [(t, e)]) t' ∨ Entered (log ++ [(t, e)]) t' lines line := by
  have hquiet : typed_char t e = none := by
    by_contra htyped
    exact hahead ⟨hentered.pressed, htyped⟩
  have hsame_lines : typed_lines (log ++ [(t, e)]) = typed_lines log := typed_lines_quiet hquiet
  cases e with
  | key garbage temp =>
    cases hstep
    have hsame : SameLine t (keyboard_interrupt t garbage temp).1 := by
      rcases line_key_cases hevent with ⟨-, hsame⟩ | ⟨u, htyped, -⟩ | ⟨c, u, htyped, -⟩
      · exact hsame
      · rw [hquiet] at htyped
        cases htyped
      · rw [hquiet] at htyped
        cases htyped
    refine Or.inr ⟨hsame.enter_pressed ▸ hentered.pressed, ?_, ?_, hentered.buffer.of_sameLine hsame, hentered.short⟩
    · rw [hsame_lines, hentered.typed]
    · rw [answers_quiet rfl, hentered.returned]
  | write number buf =>
    cases hstep
    have hsame := terminal_write_sameLine t buf
    refine Or.inr ⟨hsame.enter_pressed ▸ hentered.pressed, ?_, ?_, hentered.buffer.of_sameLine hsame, hentered.short⟩
    · rw [hsame_lines, hentered.typed]
    · rw [answers_quiet rfl, hentered.returned]
  | read number nbytes =>
    obtain ⟨-, rfl⟩ := step_read hstep
    have hread := hentered.buffer.read hentered.short hentered.pressed hevent
    have hanswer : read_answer t (.read number nbytes) = some (answer line) := by
      rw [read_answer, hread]
      rfl
    refine Or.inl ⟨rfl, ?_, ?_, ?_⟩
    · rw [answers_read hanswer, hsame_lines, hentered.typed, hentered.returned, List.map_append]
      rfl
    · rw [hsame_lines, hentered.typed]
      exact ⟨holds_cleared _, rfl, fun _ h => absurd h List.not_mem_nil⟩
    · rw [hsame_lines, hentered.typed]
      exact Nat.zero_le _

/-- A second Enter or a character behind Enter spoils what the reads return. -/
theorem Entered.spoiled {lines : List (List Byte)} (hentered : Entered log t lines line) (hevent : LineEvent t e)
    (hahead : TypesAhead t e) (hstep : step t e = some t') : ¬ LinesDelivered (log ++ [(t, e)]) t' := by
  rintro ⟨-, hdrains⟩
  cases e with
  | key garbage temp =>
    cases hstep
    have hlength : (answers (log ++ [(t, .key garbage temp)])).length = lines.length := by
      rw [answers_quiet rfl, hentered.returned, List.length_map]
    rcases line_key_cases hevent with ⟨hquiet, -⟩ | ⟨u, htyped, hsame, hafter⟩ |
      ⟨c, u, htyped, hzero, hnewline, hsame, hafter⟩
    · exact hahead.2 hquiet
    · rw [hlength, typed_lines_typed htyped, hentered.typed, type_char_newline, List.append_assoc,
        List.drop_left] at hdrains
      obtain ⟨v, hfirst, hrest⟩ := hdrains 128 (Int.le_refl _)
      obtain ⟨w, hsecond, -⟩ := hrest 128 (Int.le_refl _)
      have hpressed : (keyboard_interrupt t garbage temp).1.enter_pressed ≠ 0 := by
        rw [hafter, (enter_key_line u).2.2]
        decide
      rw [terminal_read_eq _ _ hpressed] at hfirst
      have hv : after_read (keyboard_interrupt t garbage temp).1 = v :=
        (Prod.mk.inj (Prod.mk.inj (Option.some.inj hfirst)).2).2
      rw [← hv, terminal_read_waits rfl] at hsecond
      cases hsecond
    · rw [hlength, typed_lines_typed htyped, hentered.typed, type_char_character _ hnewline, List.drop_left] at hdrains
      obtain ⟨v, hfirst, -⟩ := hdrains 128 (Int.le_refl _)
      have hline := hentered.buffer.of_sameLine hsame
      obtain ⟨hstored, hflag⟩ := buffer_key_stored (t := u) (by rw [hline.index]; exact_mod_cast hentered.short) c
      have hcharacter := character_key_sameLine u c
      have hpressed : (keyboard_interrupt t garbage temp).1.enter_pressed ≠ 0 := by
        rw [hafter, hcharacter.enter_pressed, hflag, hsame.enter_pressed]
        exact hentered.pressed
      rw [terminal_read_eq _ _ hpressed] at hfirst
      have hread : read_line_loop (keyboard_interrupt t garbage temp).1.keyboard_buffer 128 0 = line ++ [NEWLINE] :=
        (Prod.mk.inj (Prod.mk.inj (Option.some.inj hfirst)).2).1
      have hend : (keyboard_interrupt t garbage temp).1.keyboard_buffer (0 + line.length : Nat) = NEWLINE := by
        apply read_line_loop_get (n := 128)
        rw [hread, List.getElem?_concat_length]
      rw [Nat.zero_add, ← hline.index, hafter, hcharacter.keyboard_buffer, hstored] at hend
      exact hnewline hend
  | write number buf => exact hahead.2 rfl
  | read number nbytes => exact hahead.2 rfl

theorem ShortLines.earlier {later : List (terminal_t × Event)} (hshort : ShortLines (log ++ later)) : ShortLines log :=
  fun before hbefore => hshort before (hbefore.trans (List.prefix_append log later))

/-- As long as nothing is typed ahead, the lines are typed and read in turn. -/
theorem run_in_turn (memory : terminal_t)
    (run : Run step (fun t e => LineEvent t e ∧ ¬ TypesAhead t e) (booted memory) log t) (hshort : ShortLines log) :
    Typing log t ∨ ∃ lines line, Entered log t lines line := by
  revert hshort
  refine run.invariant (motive := fun log t => ShortLines log → Typing log t ∨ ∃ lines line, Entered log t lines line)
    ?_ ?_
  · intro _
    refine Or.inl ⟨rfl, rfl, ?_, Nat.zero_le _⟩
    exact ⟨holds_cleared _, rfl, fun _ h => absurd h List.not_mem_nil⟩
  · intro log s e s' _ hbefore hallowed hstep hshort
    obtain ⟨hevent, hahead⟩ := hallowed
    rcases hbefore hshort.earlier with htyping | ⟨lines, line, hentered⟩
    · exact htyping.next hevent (hshort _ (List.prefix_refl _)) hstep
    · exact (hentered.next hevent hahead hstep).imp_right fun h => ⟨lines, line, h⟩

theorem run_delivered (memory : terminal_t)
    (run : Run step (fun t e => LineEvent t e ∧ ¬ TypesAhead t e) (booted memory) log t) (hshort : ShortLines log) :
    LinesDelivered log t := by
  rcases run_in_turn memory run hshort with htyping | ⟨lines, line, hentered⟩
  · exact htyping.delivered
  · exact hentered.delivered

/-- In a run of typed lines and reads, the reads always return the lines in
    order, without losing or mixing any, exactly if nothing is typed while an
    Enter before it was not read. -/
theorem lines_delivered_iff (memory : terminal_t) (run : Run step LineEvent (booted memory) log t)
    (hshort : ShortLines log) :
    (∀ before u, before <+: log → Run step LineEvent (booted memory) before u → LinesDelivered before u) ↔
      ∀ taken ∈ log, ¬ TypesAhead taken.1 taken.2 := by
  constructor
  · intro hdelivered
    induction run with
    | start => exact fun _ h => absurd h List.not_mem_nil
    | @step log s s' e run hallowed hstep ih =>
      have hearlier := ih hshort.earlier fun before u hbefore =>
        hdelivered before u (hbefore.trans (List.prefix_append _ _))
      intro taken htaken
      rcases List.mem_append.mp htaken with hmem | hlast
      · exact hearlier taken hmem
      · rw [List.mem_singleton.mp hlast]
        intro hahead
        have hafter := hdelivered _ s' (List.prefix_refl _) (run.step hallowed hstep)
        rcases run_in_turn memory (run.restrict_and hearlier) hshort.earlier with htyping | ⟨lines, line, hentered⟩
        · exact hahead.1 htyping.pressed
        · exact hentered.spoiled hallowed hahead hstep hafter
  · intro hnone before u hbefore hrun
    apply run_delivered memory (hrun.restrict_and fun taken htaken => hnone taken (hbefore.subset htaken))
    exact fun earlier hearlier => hshort earlier (hearlier.trans hbefore)

theorem lineEvent_character {temp : Nat} (htable : temp ∈ scan_code_set.map (·.2)) (t : terminal_t) (garbage : Byte) :
    LineEvent t (.key garbage temp) := by
  have hplain : ∀ temp ∈ scan_code_set.map (·.2),
      temp ≠ SCAN_FONE ∧ temp ≠ SCAN_FTWO ∧ temp ≠ SCAN_FTHREE ∧ temp ≠ SCAN_BACKSPACE := by decide
  obtain ⟨hone, htwo, hthree, hbackspace⟩ := hplain temp htable
  refine ⟨?_, hbackspace, fun _ _ => htable⟩
  simp [switch_target, hone, htwo, hthree]

theorem lineEvent_enter (t : terminal_t) (garbage : Byte) : LineEvent t (.key garbage SCAN_ENTER) :=
  ⟨by simp [switch_target, SCAN_ENTER, SCAN_FONE, SCAN_FTWO, SCAN_FTHREE], by decide, fun _ h => absurd rfl h⟩

/-- A log of few events has no long line. -/
theorem shortLines_of_length (hlength : log.length ≤ 126) : ShortLines log := by
  have hpending (log : List (terminal_t × Event)) : (typed_lines log).2.length ≤ log.length := by
    induction log using List.reverseRecOn with
    | nil => exact Nat.le_refl 0
    | append_singleton log taken ih =>
      rw [List.length_append, List.length_singleton]
      cases htyped : typed_char taken.1 taken.2 with
      | none =>
        rw [typed_lines_quiet htyped]
        omega
      | some c =>
        rw [typed_lines_typed htyped, type_char]
        split
        · exact Nat.zero_le _
        · rw [List.length_append, List.length_singleton]
          omega
  intro before hbefore
  exact (hpending before).trans (hbefore.length_le.trans hlength)

/-- One line is typed and read, and another one is typed. -/
theorem lines_delivered_iff_typed : ∃ log t, Run step LineEvent (booted zeroed) log t ∧
    log.map (·.2) = [.key 0#8 0x1E, .key 0#8 SCAN_ENTER, .read 1 128, .key 0#8 0x30, .key 0#8 SCAN_ENTER] ∧
    LinesDelivered log t := by
  have hboot : Run step LineEvent (booted zeroed) [] (booted zeroed) := .start
  have ha := hboot.step (lineEvent_character (by decide) _ 0#8) (key_step _ 0#8 0x1E)
  have henter := ha.step (lineEvent_enter _ 0#8) (key_step _ 0#8 SCAN_ENTER)
  have hread := henter.step (show LineEvent _ (.read 1 128) from Int.le_refl 128) rfl
  have hb := hread.step (lineEvent_character (by decide) _ 0#8) (key_step _ 0#8 0x30)
  have hagain := hb.step (lineEvent_enter _ 0#8) (key_step _ 0#8 SCAN_ENTER)
  refine ⟨_, _, hagain, rfl, ?_⟩
  refine (lines_delivered_iff zeroed hagain (shortLines_of_length (by decide))).mpr ?_ _ _ (List.prefix_refl _) hagain
  intro taken htaken
  simp only [List.nil_append, List.cons_append, List.mem_cons, List.not_mem_nil, or_false] at htaken
  rcases htaken with rfl | rfl | rfl | rfl | rfl
  · exact fun h => h.1 rfl
  · exact fun h => h.1 rfl
  · exact fun h => h.2 rfl
  · exact fun h => h.1 rfl
  · exact fun h => h.1 rfl

/-- Lines are not always delivered: a line typed behind an unread one is merged
    with it. -/
theorem lines_merged : ¬ ∀ (memory : terminal_t) (log : List (terminal_t × Event)) (t : terminal_t),
    Run step LineEvent (booted memory) log t → ShortLines log → LinesDelivered log t := by
  intro hdelivered
  have hboot : Run step LineEvent (booted zeroed) [] (booted zeroed) := .start
  have ha := hboot.step (lineEvent_character (by decide) _ 0#8) (key_step _ 0#8 0x1E)
  have henter := ha.step (lineEvent_enter _ 0#8) (key_step _ 0#8 SCAN_ENTER)
  have hb := henter.step (lineEvent_character (by decide) _ 0#8) (key_step _ 0#8 0x30)
  have hagain := hb.step (lineEvent_enter _ 0#8) (key_step _ 0#8 SCAN_ENTER)
  have hread := hagain.step (show LineEvent _ (.read 1 128) from Int.le_refl 128) rfl
  have hreturned := (hdelivered zeroed _ _ hread (shortLines_of_length (by decide))).returned
  exact absurd hreturned (by decide)

end houseam.terminal
