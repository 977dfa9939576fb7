import HouseAM.Terminal.Lines

open support.runs

namespace houseam.terminal

variable {log : List (terminal_t × Event)} {t t' start : terminal_t} {e : Event} {garbage c : Byte} {temp : Nat}
  {line : List Byte} {filled : Prop}

/-- The keys that edit a line: characters and Backspace, under whatever flags
    other keys have set. -/
def EditKey (t : terminal_t) : Event → Prop
  | .key _ temp => switch_target (set_keyboard_flags t temp) temp = none ∧
      ¬ ((set_keyboard_flags t temp).ctrl_on = 1 ∧ temp = SCAN_L) ∧ temp ≠ SCAN_ENTER ∧
      (Printable temp → temp = SCAN_BACKSPACE ∨ temp ∈ scan_code_set.map (·.2))
  | .write _ _ => False
  | .read _ _ => False

/-- The line after one more key: Backspace drops its last character, and a
    character is appended as long as there are fewer than 127. -/
def edit_line (line : List Byte) (taken : terminal_t × Event) : List Byte :=
  match taken.2 with
  | .key _ temp =>
    if temp = SCAN_BACKSPACE then line.dropLast
    else
      match typed_char taken.1 taken.2 with
      | none => line
      | some c => if line.length < 127 then line ++ [c] else line
  | _ => line

def edited_line (log : List (terminal_t × Event)) : List Byte := log.foldl edit_line []

/-- The line was full at some time. -/
def HasFilled (log : List (terminal_t × Event)) : Prop :=
  ∃ before, before <+: log ∧ (edited_line before).length = 127

theorem edited_line_append (log : List (terminal_t × Event)) (taken : terminal_t × Event) :
    edited_line (log ++ [taken]) = edit_line (edited_line log) taken := by
  rw [edited_line, List.foldl_append]
  rfl

theorem hasFilled_append (log : List (terminal_t × Event)) (taken : terminal_t × Event) :
    HasFilled (log ++ [taken]) ↔ HasFilled log ∨ (edited_line (log ++ [taken])).length = 127 := by
  constructor
  · rintro ⟨before, hbefore, hlength⟩
    rcases List.prefix_concat_iff.mp hbefore with rfl | hearlier
    · exact Or.inr hlength
    · exact Or.inl ⟨before, hearlier, hlength⟩
  · rintro (⟨before, hbefore, hlength⟩ | hlength)
    · exact ⟨before, hbefore.trans (List.prefix_append _ _), hlength⟩
    · exact ⟨_, List.prefix_refl _, hlength⟩

theorem edit_line_quiet (hother : temp ≠ SCAN_BACKSPACE) (hquiet : typed_char t (.key garbage temp) = none) :
    edit_line line (t, .key garbage temp) = line := by
  simp only [edit_line, if_neg hother, hquiet]

theorem edit_line_backspace : edit_line line (t, .key garbage SCAN_BACKSPACE) = line.dropLast := rfl

theorem edit_line_typed (hother : temp ≠ SCAN_BACKSPACE) (htyped : typed_char t (.key garbage temp) = some c) :
    edit_line line (t, .key garbage temp) = if line.length < 127 then line ++ [c] else line := by
  simp only [edit_line, if_neg hother, htyped]

/-- What an editing key does: it sets a flag at most, erases, or types a
    character that a line can hold. -/
theorem edit_key_cases (hkey : EditKey t (.key garbage temp)) :
    (temp ≠ SCAN_BACKSPACE ∧ typed_char t (.key garbage temp) = none ∧
        (keyboard_interrupt t garbage temp).1 = set_keyboard_flags t temp) ∨
      (temp = SCAN_BACKSPACE ∧ typed_char t (.key garbage temp) = none ∧
        (keyboard_interrupt t garbage temp).1 = backspace_key (set_keyboard_flags t temp)) ∨
      ∃ c, temp ≠ SCAN_BACKSPACE ∧ typed_char t (.key garbage temp) = some c ∧
        (keyboard_interrupt t garbage temp).1 = character_key (set_keyboard_flags t temp) c ∧
        c ≠ 0#8 ∧ c ≠ NEWLINE ∧ c ≠ CARRIAGE_RETURN := by
  obtain ⟨hstays, hclear, henter, hprintable⟩ := hkey
  have hafter : (keyboard_interrupt t garbage temp).1 = line_keys (set_keyboard_flags t temp) garbage temp := by
    rcases keyboard_interrupt_cases t garbage temp with ⟨-, hafter⟩ | ⟨number, used, hflags, htarget, -⟩
    · exact hafter
    · rw [hflags, htarget] at hstays
      cases hstays
  rw [hafter, typed_char, line_keys, if_neg hclear, if_neg hclear, if_neg henter, if_neg henter]
  by_cases hbackspace : temp = SCAN_BACKSPACE
  · rw [if_pos hbackspace, if_pos hbackspace]
    exact Or.inr (Or.inl ⟨hbackspace, rfl, rfl⟩)
  · rw [if_neg hbackspace, if_neg hbackspace]
    by_cases hcharacter : Printable temp
    · rw [if_pos hcharacter, if_pos hcharacter]
      have htable := (hprintable hcharacter).resolve_left hbackspace
      exact Or.inr (Or.inr ⟨_, hbackspace, rfl, rfl, scan_code_to_char_typed htable _ garbage⟩)
    · rw [if_neg hcharacter, if_neg hcharacter]
      exact Or.inl ⟨hbackspace, rfl, rfl⟩

/-- The buffer holds the line and NULs behind it. Its last byte has the newline
    stored when the line got full, even if the line is shorter again. -/
structure Edits (line : List Byte) (filled : Prop) (t : terminal_t) : Prop where
  index : t.end_buf_idx = line.length
  length_le : line.length ≤ 127
  nonzero : ∀ c ∈ line, c ≠ 0#8
  holds : ∀ k : Nat, k < 127 → t.keyboard_buffer k = line.getD k 0#8
  last_filled : filled → t.keyboard_buffer 127 = NEWLINE
  last_unfilled : ¬ filled → t.keyboard_buffer 127 = 0#8

theorem Edits.of_sameLine (hedits : Edits line filled t) (hsame : SameLine t t') : Edits line filled t' where
  index := hsame.end_buf_idx.trans hedits.index
  length_le := hedits.length_le
  nonzero := hedits.nonzero
  holds := by
    rw [hsame.keyboard_buffer]
    exact hedits.holds
  last_filled := by
    rw [hsame.keyboard_buffer]
    exact hedits.last_filled
  last_unfilled := by
    rw [hsame.keyboard_buffer]
    exact hedits.last_unfilled

theorem backspace_key_line (t : terminal_t) :
    (0 < t.end_buf_idx →
      (backspace_key t).keyboard_buffer = Function.update t.keyboard_buffer (t.end_buf_idx - 1) 0#8 ∧
        (backspace_key t).end_buf_idx = t.end_buf_idx - 1) ∧
      (¬ 0 < t.end_buf_idx → backspace_key t = t) := by
  refine ⟨fun hline => ?_, fun hempty => if_neg hempty⟩
  simp only [backspace_key, if_pos hline, store_key, put_cell, and_self]

theorem Edits.backspace (hedits : Edits line filled t) : Edits line.dropLast filled (backspace_key t) := by
  obtain ⟨herase, hnothing⟩ := backspace_key_line t
  have hindex := hedits.index
  by_cases hline : 0 < t.end_buf_idx
  · obtain ⟨hbuffer, hafter⟩ := herase hline
    have hlength := hedits.length_le
    have hother {k : Nat} (hk : k ≠ line.length - 1) :
        (backspace_key t).keyboard_buffer k = t.keyboard_buffer k := by
      rw [hbuffer, Function.update_of_ne (by omega)]
    refine ⟨?_, ?_, fun c hc => hedits.nonzero c ((List.dropLast_sublist line).subset hc), fun k hk => ?_, ?_, ?_⟩
    · rw [hafter, List.length_dropLast]
      omega
    · rw [List.length_dropLast]
      omega
    · rw [List.getD_eq_getElem?_getD, List.getElem?_dropLast]
      by_cases hlast : k = line.length - 1
      · rw [if_neg (by omega), hbuffer, show (k : Int) = t.end_buf_idx - 1 by omega, Function.update_self]
        rfl
      · rw [hother hlast, hedits.holds k hk, List.getD_eq_getElem?_getD]
        split
        · rfl
        · rw [List.getElem?_eq_none (by omega)]
    · have hlast := hother (k := 127) (by omega)
      intro hfilled
      exact hlast.trans (hedits.last_filled hfilled)
    · have hlast := hother (k := 127) (by omega)
      intro hfilled
      exact hlast.trans (hedits.last_unfilled hfilled)
  · rw [hnothing hline, List.length_eq_zero_iff.mp (show line.length = 0 by omega)]
    rw [List.length_eq_zero_iff.mp (show line.length = 0 by omega)] at hedits
    exact hedits

/-- A character goes behind the line if there is room. The one that fills the
    line has a newline stored behind it. -/
theorem Edits.character (hedits : Edits line filled t) (hc : c ≠ 0#8) :
    Edits (if line.length < 127 then line ++ [c] else line) (filled ∨ line.length = 126) (character_key t c) := by
  refine Edits.of_sameLine ?_ (character_key_sameLine t c)
  have hindex := hedits.index
  have hlength := hedits.length_le
  by_cases hroom : line.length < 127
  · have hholds (k : Nat) (hk : k < 127) :
        (Function.update t.keyboard_buffer t.end_buf_idx c) k = (line ++ [c]).getD k 0#8 := by
      rw [hindex]
      exact store_getD (hedits.holds k hk) c
    have hnonzero : ∀ d ∈ line ++ [c], d ≠ 0#8 := by
      intro d hd
      rcases List.mem_append.mp hd with hearlier | hlast
      · exact hedits.nonzero d hearlier
      · rw [List.mem_singleton.mp hlast]
        exact hc
    rw [if_pos hroom]
    by_cases hfills : line.length = 126
    · have hbuffered : buffer_key t c = { t with
          keyboard_buffer := Function.update (Function.update t.keyboard_buffer t.end_buf_idx c) 127 NEWLINE
          end_buf_idx := 127 } := buffer_key_fills (by omega) c
      have hlast : (Function.update (Function.update t.keyboard_buffer t.end_buf_idx c) 127 NEWLINE) 127 = NEWLINE :=
        Function.update_self _ _ _
      rw [hbuffered]
      refine ⟨by simp [hfills], by simp [hfills], hnonzero, fun k hk => ?_, fun _ => hlast, ?_⟩
      · rw [← hholds k hk]
        exact Function.update_of_ne (by omega) _ _
      · exact fun hunfilled => absurd (Or.inr hfills) hunfilled
    · have hbuffered : buffer_key t c = { t with
          keyboard_buffer := Function.update t.keyboard_buffer t.end_buf_idx c
          end_buf_idx := t.end_buf_idx + 1 } := buffer_key_room (by omega) c
      have hlast : (Function.update t.keyboard_buffer t.end_buf_idx c) 127 = t.keyboard_buffer 127 :=
        Function.update_of_ne (by omega) _ _
      rw [hbuffered]
      refine ⟨by simp [hindex], by simp; omega, hnonzero, hholds, fun hfilled => ?_, fun hunfilled => ?_⟩
      · exact hlast.trans (hedits.last_filled (hfilled.resolve_right hfills))
      · exact hlast.trans (hedits.last_unfilled fun h => hunfilled (Or.inl h))
  · rw [buffer_key_full (by omega), if_neg hroom, or_iff_left (by omega : ¬ line.length = 126)]
    exact hedits

/-- What the buffer holds after a run of editing keys. -/
theorem run_edits (hempty : ∀ i : Int, 0 ≤ i → i < 128 → start.keyboard_buffer i = 0#8)
    (hindex : start.end_buf_idx = 0)
    (run : Run step EditKey start log t) : Edits (edited_line log) (HasFilled log) t := by
  induction run with
  | start =>
    have hunfilled : ¬ HasFilled [] := by
      rintro ⟨before, hbefore, hlength⟩
      rw [List.prefix_nil.mp hbefore] at hlength
      cases hlength
    refine ⟨hindex, Nat.zero_le _, fun _ h => absurd h List.not_mem_nil, fun k hk => ?_,
      fun h => absurd h hunfilled, ?_⟩
    · exact hempty k (by omega) (by omega)
    · exact fun _ => hempty 127 (by decide) (by decide)
  | @step log s s' e run hkey hstep ih =>
    have hflags (temp : Nat) := ih.of_sameLine (set_keyboard_flags_sameLine s temp)
    cases e with
    | write number buf => exact hkey.elim
    | read number nbytes => exact hkey.elim
    | key garbage temp =>
      cases hstep
      have hlength := ih.length_le
      have hfull : (edited_line log).length = 127 → HasFilled log := fun h => ⟨log, List.prefix_refl _, h⟩
      rw [edited_line_append, hasFilled_append, edited_line_append]
      rcases edit_key_cases hkey with ⟨hother, hquiet, hafter⟩ | ⟨rfl, -, hafter⟩ | ⟨c, hother, htyped, hafter, hc, -⟩
      · rw [hafter, edit_line_quiet hother hquiet, or_iff_left_of_imp hfull]
        exact hflags temp
      · have hshorter : ¬ (edited_line log).dropLast.length = 127 := by
          rw [List.length_dropLast]
          omega
        rw [hafter, edit_line_backspace, or_iff_left hshorter]
        exact (hflags SCAN_BACKSPACE).backspace
      · rw [hafter, edit_line_typed hother htyped]
        have hfills :
            HasFilled log ∨
                (if (edited_line log).length < 127 then edited_line log ++ [c] else edited_line log).length = 127 ↔
            HasFilled log ∨ (edited_line log).length = 126 := by
          split
          · rw [List.length_append, List.length_singleton]
            exact or_congr_right (by omega)
          · have hfilled := hfull (by omega)
            exact iff_of_true (Or.inl hfilled) (Or.inl hfilled)
        rw [hfills]
        exact (hflags temp).character hc

/-- A read returns as much of a line and its newline as it asks for, and leaves
    an empty buffer. -/
def ReadsLine (line : List Byte) (t : terminal_t) (nbytes : Int) : Prop :=
  ∃ t', terminal_read t nbytes =
      some (((min nbytes.toNat (line.length + 1) : Nat) : Int), (line ++ [NEWLINE]).take nbytes.toNat, t') ∧
    (∀ i : Int, 0 ≤ i → i < KEYBOARD_BUFFER_SIZE → t'.keyboard_buffer i = 0#8) ∧ t'.end_buf_idx = 0

theorem readsLine_iff (hpressed : t.enter_pressed ≠ 0) (nbytes : Int) :
    ReadsLine line t nbytes ↔
      read_line_loop t.keyboard_buffer nbytes.toNat 0 = (line ++ [NEWLINE]).take nbytes.toNat := by
  rw [ReadsLine, terminal_read_eq t nbytes hpressed]
  constructor
  · rintro ⟨t', hread, -⟩
    exact (Prod.mk.inj (Prod.mk.inj (Option.some.inj hread)).2).1
  · intro hloop
    have hcleared (i : Int) (hlo : 0 ≤ i) (hhi : i < KEYBOARD_BUFFER_SIZE) : (after_read t).keyboard_buffer i = 0#8 :=
      copyInto_inside KEYBOARD_BUFFER_SIZE (fun _ => 0#8) t.keyboard_buffer hlo hhi
    refine ⟨after_read t, ?_, hcleared, rfl⟩
    simp only [hloop, List.length_take, List.length_append, List.length_singleton]

theorem keyboard_interrupt_enter (t : terminal_t) (garbage : Byte) :
    (keyboard_interrupt t garbage SCAN_ENTER).1 = enter_key t := by
  simp [keyboard_interrupt, set_keyboard_flags, switch_keys, line_keys, SCAN_CTRL, SCAN_CTRL_RELEASE, SCAN_LSHIFT,
    SCAN_LSHIFT_RELEASE, SCAN_RSHIFT, SCAN_RSHIFT_RELEASE, SCAN_CAPS, SCAN_ALT, SCAN_ALT_RELEASE, SCAN_FONE, SCAN_FTWO,
    SCAN_FTHREE, SCAN_L, SCAN_ENTER]

/-- Enter changes the byte behind the line only. -/
theorem Edits.entered_other (hedits : Edits line filled t) {k : Nat} (hk : k ≠ line.length) :
    (enter_key t).keyboard_buffer (0 + k : Nat) = t.keyboard_buffer k := by
  rw [(enter_key_line t).1, hedits.index, Nat.zero_add, Function.update_of_ne (by omega)]

/-- Behind Enter the buffer begins with the line and a newline. -/
theorem Edits.entered (hedits : Edits line filled t) {k : Nat} (hk : k < (line ++ [NEWLINE]).length) :
    (enter_key t).keyboard_buffer (0 + k : Nat) = (line ++ [NEWLINE]).getD k 0#8 := by
  have hlength := hedits.length_le
  rw [List.length_append, List.length_singleton] at hk
  rcases Nat.lt_or_eq_of_le (Nat.le_of_lt_succ hk) with hinside | rfl
  · rw [List.getD_append _ _ _ _ hinside, hedits.entered_other (by omega), hedits.holds k (by omega)]
  · rw [(enter_key_line t).1, hedits.index, Nat.zero_add, Function.update_self,
      List.getD_append_right _ _ _ _ (Nat.le_refl _), Nat.sub_self]
    rfl

/-- Enter puts a newline behind the line. The stale newline of a line that was
    full is next to it exactly when 126 characters are left. -/
theorem Edits.read_iff (hedits : Edits line filled t) {nbytes : Int} (hnbytes : nbytes ≤ 128) :
    ReadsLine line (enter_key t) nbytes ↔ ¬ (nbytes = 128 ∧ line.length = 126 ∧ filled) := by
  obtain ⟨-, -, hpressed⟩ := enter_key_line t
  have hlength := hedits.length_le
  have hnonzero (bytes : List Byte) (hbytes : ∀ c ∈ bytes, c = NEWLINE) : ∀ c ∈ line ++ bytes, c ≠ 0#8 := by
    intro c hc
    rcases List.mem_append.mp hc with hline | hbehind
    · exact hedits.nonzero c hline
    · rw [hbytes c hbehind]
      decide
  rw [readsLine_iff (by rw [hpressed]; decide)]
  constructor
  · rintro hread ⟨rfl, hshort, hfilled⟩
    have htwo : read_line_loop (enter_key t).keyboard_buffer 128 0 = (line ++ [NEWLINE, NEWLINE]).take 128 := by
      apply read_line_loop_take
      · intro k hk
        simp only [List.length_append, List.length_cons, List.length_nil] at hk
        by_cases hlast : k = 127
        · subst hlast
          rw [hedits.entered_other (by omega), List.getD_append_right _ _ _ _ (by omega), hshort]
          exact hedits.last_filled hfilled
        · rw [List.append_cons, List.getD_append _ _ _ _ (by simp; omega)]
          exact hedits.entered (by simp; omega)
      · exact hnonzero [NEWLINE, NEWLINE] (by simp)
      · simp only [List.length_append, List.length_cons, List.length_nil]
        omega
    have hlengths := congrArg List.length (htwo.symm.trans hread)
    simp [hshort] at hlengths
  · intro hnone
    apply read_line_loop_take (fun k hk => hedits.entered hk) (hnonzero [NEWLINE] (by simp))
    intro hroom
    rw [List.length_append, List.length_singleton] at hroom ⊢
    rw [hedits.entered_other (by omega)]
    by_cases hshort : line.length = 126
    · rw [hshort]
      exact hedits.last_unfilled fun hfilled => hnone ⟨by omega, hshort, hfilled⟩
    · rw [hedits.holds _ (by omega), List.getD_eq_default _ _ (by omega)]

/-- A line that was edited and ended with Enter is read as it was typed, unless
    it was full once, has 126 characters left and is read with room for 128
    bytes. -/
theorem line_read_iff (hempty : ∀ i : Int, 0 ≤ i → i < KEYBOARD_BUFFER_SIZE → start.keyboard_buffer i = 0#8)
    (hindex : start.end_buf_idx = 0) (run : Run step EditKey start log t) (garbage : Byte) {nbytes : Int}
    (hnbytes : nbytes ≤ 128) :
    ReadsLine (edited_line log) (keyboard_interrupt t garbage SCAN_ENTER).1 nbytes ↔
      ¬ (nbytes = 128 ∧ (edited_line log).length = 126 ∧ HasFilled log) := by
  rw [keyboard_interrupt_enter]
  exact (run_edits hempty hindex run).read_iff hnbytes

theorem editKey_character (htable : temp ∈ scan_code_set.map (·.2)) (hclear : temp ≠ SCAN_L) (t : terminal_t)
    (garbage : Byte) :
    EditKey t (.key garbage temp) := by
  have hplain : ∀ temp ∈ scan_code_set.map (·.2),
      temp ≠ SCAN_FONE ∧ temp ≠ SCAN_FTWO ∧ temp ≠ SCAN_FTHREE ∧ temp ≠ SCAN_ENTER := by decide
  obtain ⟨hone, htwo, hthree, henter⟩ := hplain temp htable
  refine ⟨?_, fun h => hclear h.2, henter, fun _ => Or.inr htable⟩
  simp [switch_target, hone, htwo, hthree]

theorem editKey_backspace (t : terminal_t) (garbage : Byte) : EditKey t (.key garbage SCAN_BACKSPACE) := by
  refine ⟨?_, fun h => absurd h.2 (by decide), by decide, fun _ => Or.inl rfl⟩
  simp [switch_target, SCAN_BACKSPACE, SCAN_FONE, SCAN_FTWO, SCAN_FTHREE]

/-- A key typed into a line that is not full. -/
theorem edit_line_a (t : terminal_t) (hroom : line.length < 127) :
    (edit_line line (t, .key 0#8 0x1E)).length = line.length + 1 := by
  have hclear (u : terminal_t) : ¬ (u.ctrl_on = 1 ∧ 0x1E = SCAN_L) := fun h => absurd h.2 (by decide)
  simp only [edit_line, typed_char, if_neg (show ¬ 0x1E = SCAN_BACKSPACE by decide), if_neg (hclear _),
    if_neg (show ¬ 0x1E = SCAN_ENTER by decide), if_pos (show Printable 0x1E by decide), if_pos hroom,
    List.length_append, List.length_singleton]

/-- As many characters can be typed as a line holds. -/
theorem exists_typed (start : terminal_t) {n : Nat} (hn : n ≤ 127) :
    ∃ log t, Run step EditKey start log t ∧ (edited_line log).length = n := by
  induction n with
  | zero => exact ⟨[], start, .start, rfl⟩
  | succ n ih =>
    obtain ⟨log, t, run, hlength⟩ := ih (by omega)
    refine ⟨_, _, run.step (editKey_character (by decide) (by decide) t 0#8) (key_step t 0#8 0x1E), ?_⟩
    rw [edited_line_append, edit_line_a t (by omega), hlength]

theorem booted_empty (memory : terminal_t) (i : Int) (hlo : 0 ≤ i) (hhi : i < KEYBOARD_BUFFER_SIZE) :
    (booted memory).keyboard_buffer i = 0#8 :=
  copyInto_inside KEYBOARD_BUFFER_SIZE (fun _ => 0#8) memory.keyboard_buffer hlo hhi

/-- Two characters are typed, and one of them is erased. -/
theorem line_read_iff_erased : ∃ log t, Run step EditKey (booted zeroed) log t ∧
    log.map (·.2) = [.key 0#8 0x1E, .key 0#8 0x30, .key 0#8 SCAN_BACKSPACE] ∧
    ReadsLine [0x61#8] (keyboard_interrupt t 0#8 SCAN_ENTER).1 128 := by
  have hboot : Run step EditKey (booted zeroed) [] (booted zeroed) := .start
  have ha := hboot.step (editKey_character (by decide) (by decide) _ 0#8) (key_step _ 0#8 0x1E)
  have hb := ha.step (editKey_character (by decide) (by decide) _ 0#8) (key_step _ 0#8 0x30)
  have hback := hb.step (editKey_backspace _ 0#8) (key_step _ 0#8 SCAN_BACKSPACE)
  refine ⟨_, _, hback, rfl, ?_⟩
  apply (line_read_iff (booted_empty zeroed) rfl hback 0#8 (Int.le_refl 128)).mpr
  rintro ⟨-, hshort, -⟩
  exact absurd hshort (by decide)

/-- One character of a full line is erased, and the line is read with room for
    128 bytes: its newline comes twice. -/
theorem line_read_twice_ended :
    ¬ ∀ (start : terminal_t) (log : List (terminal_t × Event)) (t : terminal_t) (garbage : Byte)
    (nbytes : Int), (∀ i : Int, 0 ≤ i → i < KEYBOARD_BUFFER_SIZE → start.keyboard_buffer i = 0#8) →
      start.end_buf_idx = 0 → Run step EditKey start log t → nbytes ≤ 128 →
        ReadsLine (edited_line log) (keyboard_interrupt t garbage SCAN_ENTER).1 nbytes := by
  intro hall
  obtain ⟨log, t, run, hlength⟩ := exists_typed (booted zeroed) (Nat.le_refl 127)
  have hback := run.step (editKey_backspace t 0#8) (key_step t 0#8 SCAN_BACKSPACE)
  have hread := hall (booted zeroed) _ _ 0#8 128 (booted_empty zeroed) rfl hback (Int.le_refl 128)
  rw [keyboard_interrupt_enter] at hread
  refine ((run_edits (booted_empty zeroed) rfl hback).read_iff (Int.le_refl 128)).mp hread
    ⟨rfl, ?_, log, List.prefix_append _ _, hlength⟩
  rw [edited_line_append, edit_line_backspace, List.length_dropLast, hlength]

end houseam.terminal
