import HouseAM.Terminal.Lines

open support.runs

namespace houseam.terminal

variable {start t t' : terminal_t} {log : List (terminal_t × Event)} {e : Event} {codes : List Nat}
  {make release code : Nat}

/-- The scan codes that the key interrupts of a run have read, oldest first. -/
def scan_codes (log : List (terminal_t × Event)) : List Nat :=
  log.filterMap fun taken =>
    match taken.2 with
    | .key _ temp => some temp
    | _ => none

/-- A key is held: of its codes, the last one is the make code. -/
def held (make release : Nat) (codes : List Nat) : Bool :=
  codes.reverse.find? (fun code => code = make ∨ code = release) = some make

def shift_held (codes : List Nat) : Bool :=
  held SCAN_LSHIFT SCAN_LSHIFT_RELEASE codes || held SCAN_RSHIFT SCAN_RSHIFT_RELEASE codes

/-- Caps Lock was pressed an odd number of times. -/
def caps_locked (codes : List Nat) : Bool := codes.count SCAN_CAPS % 2 = 1

/-- The translation table for the modifiers that are held. -/
def modified_set (shift caps : Bool) : List (Byte × Nat) :=
  match shift, caps with
  | true, true => scan_code_set_shift_caps
  | false, true => scan_code_set_caps
  | true, false => scan_code_set_shift
  | false, false => scan_code_set

/-- The flags say which modifiers are held, and a key with a character has the
    one of their table. -/
structure ModifiersTracked (codes : List Nat) (t : terminal_t) : Prop where
  shift_on : t.shift_on = if shift_held codes then 1 else 0
  ctrl_on : t.ctrl_on = if held SCAN_CTRL SCAN_CTRL_RELEASE codes then 1 else 0
  alt_on : t.alt_on = if held SCAN_ALT SCAN_ALT_RELEASE codes then 1 else 0
  caps_lock_on : t.caps_lock_on = if caps_locked codes then 1 else 0
  translated : ∀ garbage : Byte, ∀ temp ∈ scan_code_set.map (·.2),
    (scan_code_to_char (set_keyboard_flags t temp) garbage temp, temp) ∈
      modified_set (shift_held codes) (caps_locked codes)

/-- The modifiers' flags before the first key: they are initialised to 0. -/
structure ModifiersOff (t : terminal_t) : Prop where
  shift_on : t.shift_on = 0
  ctrl_on : t.ctrl_on = 0
  alt_on : t.alt_on = 0
  caps_lock_on : t.caps_lock_on = 0

def shift_codes : List Nat := [SCAN_LSHIFT, SCAN_LSHIFT_RELEASE, SCAN_RSHIFT, SCAN_RSHIFT_RELEASE]

/-- The code lifts one Shift key while the other one is held. -/
def LiftsOneShift (codes : List Nat) (code : Nat) : Prop :=
  code = SCAN_LSHIFT_RELEASE ∧ held SCAN_RSHIFT SCAN_RSHIFT_RELEASE codes ∨
    code = SCAN_RSHIFT_RELEASE ∧ held SCAN_LSHIFT SCAN_LSHIFT_RELEASE codes

/-- The last code of a Shift key lifted it while the other one was held. -/
def LiftedOneShift (codes : List Nat) : Prop :=
  ∃ before code after, codes = before ++ code :: after ∧ (∀ later ∈ after, later ∉ shift_codes) ∧
    LiftsOneShift before code

/-! What a key's last code says. -/

theorem held_append (hne : make ≠ release) :
    held make release (codes ++ [code]) =
      if code = make then true else if code = release then false else held make release codes := by
  simp only [held, List.reverse_append, List.reverse_singleton, List.singleton_append, List.find?_cons]
  by_cases hmake : code = make
  · simp [hmake]
  · by_cases hrelease : code = release
    · simp [hrelease, hne.symm]
    · simp [hmake, hrelease]

/-- A flag that a make code sets and a break code clears. -/
theorem flag_append (hne : make ≠ release) :
    (if held make release (codes ++ [code]) then 1 else 0 : Int) =
      if code = make then 1 else if code = release then 0 else if held make release codes then 1 else 0 := by
  rw [held_append hne]
  by_cases hmake : code = make
  · rw [if_pos hmake, if_pos hmake, if_pos rfl]
  · rw [if_neg hmake, if_neg hmake]
    by_cases hrelease : code = release
    · rw [if_pos hrelease, if_pos hrelease, if_neg Bool.false_ne_true]
    · rw [if_neg hrelease, if_neg hrelease]

/-- A held key's last make code is more recent than its last break code. -/
theorem held_iff (hne : make ≠ release) :
    held make release codes = true ↔ ∃ before after, codes = before ++ make :: after ∧ release ∉ after := by
  induction codes using List.reverseRecOn with
  | nil => simp [held]
  | append_singleton codes code ih =>
    rw [held_append hne]
    constructor
    · intro hheld
      split at hheld
      · rename_i hmake
        exact ⟨codes, [], by rw [hmake], List.not_mem_nil⟩
      · split at hheld
        · cases hheld
        · rename_i hrelease
          obtain ⟨before, after, rfl, hafter⟩ := ih.mp hheld
          refine ⟨before, after ++ [code], by simp, ?_⟩
          simp [hafter, Ne.symm hrelease]
    · rintro ⟨before, after, hcodes, hafter⟩
      rcases List.eq_nil_or_concat after with rfl | ⟨rest, last, rfl⟩
      · rw [if_pos (List.cons.inj (List.append_inj' hcodes rfl).2).1]
      · have hsplit : codes ++ [code] = (before ++ make :: rest) ++ [last] := by simpa using hcodes
        obtain ⟨hearlier, hlast⟩ := List.append_inj' hsplit rfl
        cases hlast
        simp only [List.concat_eq_append, List.mem_append, List.mem_singleton, not_or] at hafter
        split
        · rfl
        · rw [if_neg (Ne.symm hafter.2)]
          exact ih.mpr ⟨before, rest, hearlier, hafter.1⟩

/-! What the flags become. -/

/-- The flags behind one code. -/
theorem set_keyboard_flags_eq (t : terminal_t) (code : Nat) :
    (set_keyboard_flags t code).shift_on =
        (if code = SCAN_LSHIFT ∨ code = SCAN_RSHIFT then 1
          else if code = SCAN_LSHIFT_RELEASE ∨ code = SCAN_RSHIFT_RELEASE then 0 else t.shift_on) ∧
      (set_keyboard_flags t code).ctrl_on =
        (if code = SCAN_CTRL then 1 else if code = SCAN_CTRL_RELEASE then 0 else t.ctrl_on) ∧
      (set_keyboard_flags t code).alt_on =
        (if code = SCAN_ALT then 1 else if code = SCAN_ALT_RELEASE then 0 else t.alt_on) ∧
      (set_keyboard_flags t code).caps_lock_on =
        if code = SCAN_CAPS then 1 - t.caps_lock_on else t.caps_lock_on := by
  by_cases hmodifier : code ∈ modifier_codes
  · simp only [modifier_codes, List.mem_cons, List.not_mem_nil, or_false] at hmodifier
    rcases hmodifier with rfl | rfl | rfl | rfl | rfl | rfl | rfl | rfl | rfl
    all_goals exact ⟨rfl, rfl, rfl, rfl⟩
  · rw [set_keyboard_flags_other hmodifier]
    simp only [modifier_codes, List.mem_cons, List.not_mem_nil, or_false, not_or] at hmodifier
    obtain ⟨hctrl, hctrl', hlshift, hlshift', hrshift, hrshift', hcaps, halt, halt'⟩ := hmodifier
    rw [if_neg (not_or.mpr ⟨hlshift, hrshift⟩), if_neg (not_or.mpr ⟨hlshift', hrshift'⟩), if_neg hctrl,
      if_neg hctrl', if_neg halt, if_neg halt', if_neg hcaps]
    exact ⟨rfl, rfl, rfl, rfl⟩

/-- Of the codes of the Shift keys, the last one is a make code. -/
def shift_pressed (codes : List Nat) : Bool :=
  match codes.reverse.find? (· ∈ shift_codes) with
  | some code => code = SCAN_LSHIFT ∨ code = SCAN_RSHIFT
  | none => false

/-- What the flags say in every run. -/
structure FlagsTracked (codes : List Nat) (t : terminal_t) : Prop where
  shift_on : t.shift_on = if shift_pressed codes then 1 else 0
  ctrl_on : t.ctrl_on = if held SCAN_CTRL SCAN_CTRL_RELEASE codes then 1 else 0
  alt_on : t.alt_on = if held SCAN_ALT SCAN_ALT_RELEASE codes then 1 else 0
  caps_lock_on : t.caps_lock_on = if caps_locked codes then 1 else 0

theorem ModifiersOff.tracked (hoff : ModifiersOff t) : FlagsTracked [] t :=
  ⟨hoff.shift_on, hoff.ctrl_on, hoff.alt_on, hoff.caps_lock_on⟩

theorem shift_pressed_append :
    shift_pressed (codes ++ [code]) =
      if code = SCAN_LSHIFT ∨ code = SCAN_RSHIFT then true
      else if code = SCAN_LSHIFT_RELEASE ∨ code = SCAN_RSHIFT_RELEASE then false
      else shift_pressed codes := by
  simp only [shift_pressed, List.reverse_append, List.reverse_singleton, List.singleton_append, List.find?_cons]
  by_cases hmake : code = SCAN_LSHIFT ∨ code = SCAN_RSHIFT
  · rw [if_pos hmake]
    rcases hmake with rfl | rfl <;> rfl
  · rw [if_neg hmake]
    by_cases hrelease : code = SCAN_LSHIFT_RELEASE ∨ code = SCAN_RSHIFT_RELEASE
    · rw [if_pos hrelease]
      rcases hrelease with rfl | rfl <;> rfl
    · have hother : code ∉ shift_codes := by
        simp only [shift_codes, List.mem_cons, List.not_mem_nil, or_false]
        tauto
      rw [if_neg hrelease, decide_eq_false hother]

theorem shift_held_append :
    shift_held (codes ++ [code]) =
      if code = SCAN_LSHIFT ∨ code = SCAN_RSHIFT then true
      else if code = SCAN_LSHIFT_RELEASE then held SCAN_RSHIFT SCAN_RSHIFT_RELEASE codes
      else if code = SCAN_RSHIFT_RELEASE then held SCAN_LSHIFT SCAN_LSHIFT_RELEASE codes
      else shift_held codes := by
  rw [shift_held, held_append (by decide), held_append (by decide)]
  by_cases hleft : code = SCAN_LSHIFT
  · rw [if_pos hleft, if_pos (Or.inl hleft), Bool.true_or]
  · by_cases hright : code = SCAN_RSHIFT
    · rw [if_pos hright, if_pos (Or.inr hright), Bool.or_true]
    · rw [if_neg hleft, if_neg hright, if_neg (not_or.mpr ⟨hleft, hright⟩)]
      by_cases hlifted : code = SCAN_LSHIFT_RELEASE
      · subst hlifted
        rfl
      · rw [if_neg hlifted, if_neg hlifted]
        by_cases hlifted' : code = SCAN_RSHIFT_RELEASE
        · rw [if_pos hlifted', if_pos hlifted', Bool.or_false]
        · rw [if_neg hlifted', if_neg hlifted', shift_held]

theorem caps_locked_append : caps_locked (codes ++ [code]) = if code = SCAN_CAPS then !caps_locked codes
    else caps_locked codes := by
  rw [caps_locked, List.count_append, List.count_singleton]
  by_cases hcaps : code = SCAN_CAPS
  · rw [if_pos hcaps, hcaps, beq_self_eq_true, if_pos rfl, caps_locked]
    rcases Nat.mod_two_eq_zero_or_one (codes.count SCAN_CAPS) with heven | hodd
    · simp [heven, Nat.add_mod]
    · simp [hodd, Nat.add_mod]
  · rw [if_neg hcaps, beq_false_of_ne hcaps, if_neg Bool.false_ne_true, Nat.add_zero, caps_locked]

theorem FlagsTracked.scanned (htracked : FlagsTracked codes t) (code : Nat) :
    FlagsTracked (codes ++ [code]) (set_keyboard_flags t code) := by
  obtain ⟨hshift, hctrl, halt, hcaps⟩ := set_keyboard_flags_eq t code
  refine ⟨?_, ?_, ?_, ?_⟩
  · rw [hshift, shift_pressed_append, htracked.shift_on]
    by_cases hmake : code = SCAN_LSHIFT ∨ code = SCAN_RSHIFT
    · rw [if_pos hmake, if_pos hmake, if_pos rfl]
    · rw [if_neg hmake, if_neg hmake]
      by_cases hrelease : code = SCAN_LSHIFT_RELEASE ∨ code = SCAN_RSHIFT_RELEASE
      · rw [if_pos hrelease, if_pos hrelease, if_neg Bool.false_ne_true]
      · rw [if_neg hrelease, if_neg hrelease]
  · have hne : SCAN_CTRL ≠ SCAN_CTRL_RELEASE := by decide
    rw [hctrl, htracked.ctrl_on, flag_append hne]
  · have hne : SCAN_ALT ≠ SCAN_ALT_RELEASE := by decide
    rw [halt, htracked.alt_on, flag_append hne]
  · rw [hcaps, caps_locked_append, htracked.caps_lock_on]
    by_cases hmake : code = SCAN_CAPS
    · rw [if_pos hmake, if_pos hmake]
      cases caps_locked codes <;> rfl
    · rw [if_neg hmake, if_neg hmake]

/-! When the last code of a Shift key tells whether one is held. -/

theorem liftedOneShift_append : LiftedOneShift (codes ++ [code]) ↔
    LiftsOneShift codes code ∨ code ∉ shift_codes ∧ LiftedOneShift codes := by
  constructor
  · rintro ⟨before, lifted, after, hcodes, hafter, hlifts⟩
    rcases List.eq_nil_or_concat after with rfl | ⟨rest, last, rfl⟩
    · obtain ⟨rfl, hlast⟩ := List.append_inj' hcodes rfl
      cases hlast
      exact Or.inl hlifts
    · have hsplit : codes ++ [code] = (before ++ lifted :: rest) ++ [last] := by simpa using hcodes
      obtain ⟨hearlier, hlast⟩ := List.append_inj' hsplit rfl
      cases hlast
      rw [List.concat_eq_append] at hafter
      refine Or.inr ⟨hafter code (List.mem_append_right _ (List.mem_singleton_self code)), before, lifted, rest,
        hearlier, ?_, hlifts⟩
      exact fun later hlater => hafter later (List.mem_append_left _ hlater)
  · rintro (hlifts | ⟨hother, before, lifted, after, rfl, hafter, hlifts⟩)
    · exact ⟨codes, code, [], rfl, fun _ h => absurd h List.not_mem_nil, hlifts⟩
    · refine ⟨before, lifted, after ++ [code], by simp, fun later hlater => ?_, hlifts⟩
      rcases List.mem_append.mp hlater with hearlier | hlast
      · exact hafter later hearlier
      · exact List.mem_singleton.mp hlast ▸ hother

/-- The flag of the Shift keys is right unless the last of their codes lifted
    one of them from beside the other. -/
theorem shift_pressed_iff : shift_pressed codes = shift_held codes ↔ ¬ LiftedOneShift codes := by
  induction codes using List.reverseRecOn with
  | nil => exact iff_of_true rfl fun ⟨before, code, after, hcodes, _⟩ => by simp at hcodes
  | append_singleton codes code ih =>
    rw [shift_pressed_append, shift_held_append, liftedOneShift_append, LiftsOneShift]
    by_cases hmake : code = SCAN_LSHIFT ∨ code = SCAN_RSHIFT
    · rw [if_pos hmake, if_pos hmake]
      refine iff_of_true rfl ?_
      rcases hmake with rfl | rfl <;> simp [shift_codes, SCAN_LSHIFT, SCAN_RSHIFT, SCAN_LSHIFT_RELEASE,
        SCAN_RSHIFT_RELEASE]
    · rw [if_neg hmake, if_neg hmake]
      by_cases hleft : code = SCAN_LSHIFT_RELEASE
      · subst hleft
        have hshift : SCAN_LSHIFT_RELEASE ∈ shift_codes := by decide
        have hne : SCAN_LSHIFT_RELEASE ≠ SCAN_RSHIFT_RELEASE := by decide
        rw [if_pos (Or.inl rfl), if_pos rfl]
        simp [hshift, hne]
      · by_cases hright : code = SCAN_RSHIFT_RELEASE
        · subst hright
          have hshift : SCAN_RSHIFT_RELEASE ∈ shift_codes := by decide
          rw [if_pos (Or.inr rfl), if_neg hleft, if_pos rfl]
          simp [hshift, hleft]
        · have hother : code ∉ shift_codes := by
            simp only [shift_codes, List.mem_cons, List.not_mem_nil, or_false]
            tauto
          rw [if_neg (not_or.mpr ⟨hleft, hright⟩), if_neg hleft, if_neg hright, ih]
          simp only [hleft, hright, hother, false_and, or_false, false_or, not_false_eq_true, true_and]

/-! The rest of the terminal code leaves the flags alone. -/

theorem FlagsTracked.of_sameFlags (htracked : FlagsTracked codes t) (hsame : SameFlags t t') :
    FlagsTracked codes t' where
  shift_on := hsame.shift_on.trans htracked.shift_on
  ctrl_on := hsame.ctrl_on.trans htracked.ctrl_on
  alt_on := hsame.alt_on.trans htracked.alt_on
  caps_lock_on := hsame.caps_lock_on.trans htracked.caps_lock_on

theorem switch_to_sameFlags (t : terminal_t) (number : Int) (used : Fin 3 → Int) :
    SameFlags t { switch_to t number with terminal_used := used } := by
  unfold switch_to terminal_switch
  repeat' split
  all_goals exact ⟨rfl, rfl, rfl, rfl⟩

/-- A key interrupt changes the flags as `set_keyboard_flags` does. -/
theorem keyboard_interrupt_sameFlags (t : terminal_t) (garbage : Byte) (temp : Nat) :
    SameFlags (set_keyboard_flags t temp) (keyboard_interrupt t garbage temp).1 := by
  rcases keyboard_interrupt_cases t garbage temp with ⟨-, hafter⟩ | ⟨number, used, hsame, -, hafter⟩
  · rw [hafter]
    exact (line_keys_sameModes _ garbage temp).toSameFlags
  · rw [hafter, hsame]
    exact switch_to_sameFlags t number used

/-! What a key with a character is translated to. -/

/-- The four tables list the same codes in the same order. -/
theorem modified_set_codes (shift caps : Bool) :
    ∀ entry ∈ scan_code_set.zip (modified_set shift caps), entry.1.2 = entry.2.2 := by
  cases shift <;> cases caps <;> decide

theorem modified_set_length (shift caps : Bool) : (modified_set shift caps).length = scan_code_set.length := by
  cases shift <;> cases caps <;> decide

/-- Flags that are right select the table of the modifiers held. -/
theorem FlagsTracked.table (htracked : FlagsTracked codes t) :
    selected_set t = modified_set (shift_pressed codes) (caps_locked codes) := by
  rw [selected_set, htracked.shift_on, htracked.caps_lock_on]
  cases shift_pressed codes <;> cases caps_locked codes <;> rfl

/-- Only the codes of keys without a character change a flag. -/
theorem set_keyboard_flags_character {temp : Nat} (htable : temp ∈ scan_code_set.map (·.2)) (t : terminal_t) :
    set_keyboard_flags t temp = t := by
  have hplain : ∀ temp ∈ scan_code_set.map (·.2), temp ∉ modifier_codes := by decide
  exact set_keyboard_flags_other (hplain temp htable) t

theorem FlagsTracked.translated (htracked : FlagsTracked codes t) (garbage : Byte) {temp : Nat}
    (htable : temp ∈ scan_code_set.map (·.2)) :
    (scan_code_to_char (set_keyboard_flags t temp) garbage temp, temp) ∈
      modified_set (shift_pressed codes) (caps_locked codes) := by
  rw [set_keyboard_flags_character htable, scan_code_to_char, htracked.table]
  have hlength := modified_set_length (shift_pressed codes) (caps_locked codes)
  rcases foldl_match (scan_code_set.zip (modified_set (shift_pressed codes) (caps_locked codes))) temp garbage with
    ⟨entry, hmem, hscan, hfound⟩ | hnone
  · rw [hfound, ← hscan, modified_set_codes _ _ entry hmem]
    exact (List.of_mem_zip hmem).2
  · obtain ⟨code, hcode, hscan⟩ := List.mem_map.mp htable
    rw [← List.map_fst_zip (Nat.le_of_eq hlength.symm)] at hcode
    obtain ⟨entry, hmem, rfl⟩ := List.mem_map.mp hcode
    exact absurd hscan (hnone entry hmem)

/-- The flags are right exactly if the one of the Shift keys is. -/
theorem FlagsTracked.modifiers_iff (htracked : FlagsTracked codes t) :
    ModifiersTracked codes t ↔ shift_pressed codes = shift_held codes := by
  constructor
  · intro hmodifiers
    have hshift := htracked.shift_on.symm.trans hmodifiers.shift_on
    cases hpressed : shift_pressed codes <;> cases hheld : shift_held codes
    · rfl
    · simp [hpressed, hheld] at hshift
    · simp [hpressed, hheld] at hshift
    · rfl
  · intro hshift
    refine ⟨?_, htracked.ctrl_on, htracked.alt_on, htracked.caps_lock_on, fun garbage temp htable => ?_⟩
    · rw [← hshift]
      exact htracked.shift_on
    · rw [← hshift]
      exact htracked.translated garbage htable

theorem scan_codes_append (log : List (terminal_t × Event)) (t : terminal_t) (e : Event) :
    scan_codes (log ++ [(t, e)]) = match e with
      | .key _ temp => scan_codes log ++ [temp]
      | _ => scan_codes log := by
  rw [scan_codes, List.filterMap_append]
  cases e with
  | key garbage temp => rfl
  | write number buf => exact List.append_nil _
  | read number nbytes => exact List.append_nil _

theorem run_flags (hoff : ModifiersOff start) (run : Run step (fun _ _ => True) start log t) :
    FlagsTracked (scan_codes log) t := by
  refine run.invariant (motive := fun log t => FlagsTracked (scan_codes log) t) hoff.tracked ?_
  intro log s e s' _ htracked _ hstep
  rw [scan_codes_append]
  cases e with
  | key garbage temp =>
    cases hstep
    exact (htracked.scanned temp).of_sameFlags (keyboard_interrupt_sameFlags s garbage temp)
  | write number buf =>
    cases hstep
    exact htracked.of_sameFlags (terminal_write_sameModes s buf).toSameFlags
  | read number nbytes =>
    obtain ⟨-, rfl⟩ := step_read hstep
    exact htracked.of_sameFlags ⟨rfl, rfl, rfl, rfl⟩

/-- The flags say which modifiers are held, exactly if the last code of a Shift
    key did not lift it while the other one was held. -/
theorem modifiers_tracked_iff (hoff : ModifiersOff start) (run : Run step (fun _ _ => True) start log t) :
    ModifiersTracked (scan_codes log) t ↔ ¬ LiftedOneShift (scan_codes log) := by
  rw [(run_flags hoff run).modifiers_iff, shift_pressed_iff]

theorem booted_modifiersOff : ModifiersOff (booted zeroed) := ⟨rfl, rfl, rfl, rfl⟩

/-- Both Shift keys are pressed, and lifted one after the other. -/
theorem modifiers_tracked_iff_lifted : ∃ log t, Run step (fun _ _ => True) (booted zeroed) log t ∧
    scan_codes log = [SCAN_LSHIFT, SCAN_RSHIFT, SCAN_LSHIFT_RELEASE, SCAN_RSHIFT_RELEASE] ∧
    ModifiersTracked (scan_codes log) t := by
  have hboot : Run step (fun _ _ => True) (booted zeroed) [] (booted zeroed) := .start
  have hleft := hboot.step trivial (key_step _ 0#8 SCAN_LSHIFT)
  have hright := hleft.step trivial (key_step _ 0#8 SCAN_RSHIFT)
  have hlifted := hright.step trivial (key_step _ 0#8 SCAN_LSHIFT_RELEASE)
  have hboth := hlifted.step trivial (key_step _ 0#8 SCAN_RSHIFT_RELEASE)
  refine ⟨_, _, hboth, rfl, (modifiers_tracked_iff booted_modifiersOff hboth).mpr ?_⟩
  exact shift_pressed_iff.mp (by decide)

/-- The right Shift key is still held when the left one is lifted. -/
theorem shift_lost : ¬ ∀ (start : terminal_t) (log : List (terminal_t × Event)) (t : terminal_t),
    ModifiersOff start → Run step (fun _ _ => True) start log t → ModifiersTracked (scan_codes log) t := by
  intro hall
  have hboot : Run step (fun _ _ => True) (booted zeroed) [] (booted zeroed) := .start
  have hleft := hboot.step trivial (key_step _ 0#8 SCAN_LSHIFT)
  have hright := hleft.step trivial (key_step _ 0#8 SCAN_RSHIFT)
  have hlifted := hright.step trivial (key_step _ 0#8 SCAN_LSHIFT_RELEASE)
  exact absurd (hall _ _ _ booted_modifiersOff hlifted).shift_on (by decide)

end houseam.terminal
