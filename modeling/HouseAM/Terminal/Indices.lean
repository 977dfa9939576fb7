import HouseAM.Terminal.Overrun

open support.runs

namespace houseam.terminal

variable {log : List (terminal_t × Event)} {t t' : terminal_t} {i : Int}

/-- A key interrupt, read or write, or a call of one of the switch functions. -/
inductive Action where
  | event (e : Event)
  | terminalone
  | terminaltwo
  | terminalthree

def act (t : terminal_t) : Action → Option terminal_t
  | .event e => step t e
  | .terminalone => some (terminalone t)
  | .terminaltwo => some (terminaltwo t)
  | .terminalthree => some (terminalthree t)

/-- The live index into the line buffer and the three saved ones. -/
structure IndicesInside (t : terminal_t) : Prop where
  live : 0 ≤ t.end_buf_idx ∧ t.end_buf_idx ≤ 127
  saved1 : 0 ≤ t.saved1.end_buf_idx ∧ t.saved1.end_buf_idx ≤ 127
  saved2 : 0 ≤ t.saved2.end_buf_idx ∧ t.saved2.end_buf_idx ≤ 127
  saved3 : 0 ≤ t.saved3.end_buf_idx ∧ t.saved3.end_buf_idx ≤ 127

/-! The indices of `keyboard_buffer` that the functions store to, in the order
of their stores. -/

def enter_key_indices (t : terminal_t) : List Int := [t.end_buf_idx]

def backspace_key_indices (t : terminal_t) : List Int :=
  if 0 < t.end_buf_idx then [t.end_buf_idx - 1] else []

/-- The last place but one also gets the newline behind it. -/
def buffer_key_indices (t : terminal_t) : List Int :=
  if t.end_buf_idx < KEYBOARD_BUFFER_SIZE - 2 then [t.end_buf_idx]
  else if t.end_buf_idx = KEYBOARD_BUFFER_SIZE - 2 then [t.end_buf_idx, t.end_buf_idx + 1]
  else []

def line_keys_indices (t : terminal_t) (temp : Nat) : List Int :=
  if t.ctrl_on = 1 ∧ temp = SCAN_L then []
  else if temp = SCAN_ENTER then enter_key_indices t
  else if temp = SCAN_BACKSPACE then backspace_key_indices t
  else if Printable temp then buffer_key_indices t
  else []

/-- Clearing the line, or loading another one, stores the whole buffer. -/
def whole_buffer : List Int := (List.range KEYBOARD_BUFFER_SIZE).map fun i : Nat => (i : Int)

def switch_keys_indices (t : terminal_t) (temp : Nat) : List Int :=
  if (switch_target t temp).isSome then whole_buffer else []

def buffer_indices (t : terminal_t) : Action → List Int
  | .event (.key _ temp) =>
    let t := set_keyboard_flags t temp
    switch_keys_indices t temp ++ line_keys_indices (switch_keys t temp).1 temp
  | .event (.write _ _) => []
  | .event (.read _ _) | .terminalone | .terminaltwo | .terminalthree => whole_buffer

/-- The line buffer changed at most at some indices. -/
def BufferChangedOnly (indices : List Int) (before after : terminal_t) : Prop :=
  ∀ i, i ∉ indices → after.keyboard_buffer i = before.keyboard_buffer i

/-- A step stores into the line buffer inside its bounds only. -/
structure StoresInBuffer (t : terminal_t) (a : Action) : Prop where
  inside : ∀ i ∈ buffer_indices t a, 0 ≤ i ∧ i ≤ 127
  changed : ∀ t', act t a = some t' → BufferChangedOnly (buffer_indices t a) t t'

theorem mem_whole_buffer : i ∈ whole_buffer ↔ 0 ≤ i ∧ i < KEYBOARD_BUFFER_SIZE := by
  simp only [whole_buffer, List.mem_map, List.mem_range]
  constructor
  · rintro ⟨k, hk, rfl⟩
    omega
  · rintro ⟨hlo, hhi⟩
    exact ⟨i.toNat, by omega, by omega⟩

theorem act_read {number nbytes : Int} (hact : act t (.event (.read number nbytes)) = some t') :
    t' = after_read t := by
  have hstep : step t (.read number nbytes) = some t' := hact
  exact (step_read hstep).2

/-! Where the line buffer changes. -/

theorem BufferChangedOnly.refl (indices : List Int) (t : terminal_t) : BufferChangedOnly indices t t :=
  fun _ _ => rfl

theorem BufferChangedOnly.of_sameLine {indices : List Int} {u : terminal_t} (hsame : SameLine t u)
    (hchanged : BufferChangedOnly indices u t') : BufferChangedOnly indices t t' := by
  intro i hi
  rw [hchanged i hi, hsame.keyboard_buffer]

theorem copyInto_changedOnly (source : Int → Byte) (kb : Int → Byte) (hi : i ∉ whole_buffer) :
    copyInto KEYBOARD_BUFFER_SIZE source kb i = kb i := by
  rw [mem_whole_buffer] at hi
  rw [copyInto, if_neg hi]

theorem switch_to_buffer (t : terminal_t) (number : Int) : BufferChangedOnly whole_buffer t (switch_to t number) := by
  have hsaved : (terminal_switch t).keyboard_buffer = t.keyboard_buffer := by
    unfold terminal_switch
    repeat' split
    all_goals rfl
  intro i hi
  simp only [switch_to, show_terminal]
  rw [copyInto_changedOnly _ _ hi, hsaved]

theorem buffer_key_buffer (t : terminal_t) (c : Byte) :
    BufferChangedOnly (buffer_key_indices t) t (buffer_key t c) := by
  intro i hi
  unfold buffer_key_indices at hi
  unfold buffer_key
  split
  · rename_i hroom
    rw [if_pos hroom, List.mem_singleton] at hi
    exact Function.update_of_ne hi c t.keyboard_buffer
  · rename_i hroom
    rw [if_neg hroom] at hi
    split
    · rename_i hfills
      rw [if_pos hfills, List.mem_cons, List.mem_singleton, not_or] at hi
      simp only [store_key]
      rw [Function.update_of_ne hi.2, Function.update_of_ne hi.1]
    · rfl

theorem line_keys_buffer (t : terminal_t) (garbage : Byte) (temp : Nat) :
    BufferChangedOnly (line_keys_indices t temp) t (line_keys t garbage temp) := by
  unfold line_keys line_keys_indices
  split
  · exact BufferChangedOnly.refl _ t
  · split
    · intro i hi
      rw [enter_key_indices, List.mem_singleton] at hi
      rw [(enter_key_line t).1, Function.update_of_ne hi]
    · split
      · obtain ⟨herase, hnothing⟩ := backspace_key_line t
        unfold backspace_key_indices
        intro i hi
        by_cases hline : 0 < t.end_buf_idx
        · rw [if_pos hline, List.mem_singleton] at hi
          rw [(herase hline).1, Function.update_of_ne hi]
        · rw [hnothing hline]
      · split
        · intro i hi
          rw [(character_key_sameLine t _).keyboard_buffer]
          exact buffer_key_buffer t _ i hi
        · exact BufferChangedOnly.refl _ t

/-- A step changes the line buffer at most at the indices it stores to. -/
theorem act_buffer {a : Action} (hact : act t a = some t') : BufferChangedOnly (buffer_indices t a) t t' := by
  cases a with
  | terminalone =>
    cases hact
    exact switch_to_buffer t 1
  | terminaltwo =>
    cases hact
    exact switch_to_buffer t 2
  | terminalthree =>
    cases hact
    exact switch_to_buffer t 3
  | event e =>
    cases e with
    | write number buf =>
      cases hact
      exact fun i _ => congrFun (terminal_write_sameLine t buf).keyboard_buffer i
    | read number nbytes =>
      cases act_read hact
      exact fun i hi => copyInto_changedOnly (fun _ => 0#8) t.keyboard_buffer hi
    | key garbage temp =>
      cases hact
      apply BufferChangedOnly.of_sameLine (set_keyboard_flags_sameLine t temp)
      intro i hi
      rw [buffer_indices, List.mem_append, not_or] at hi
      rw [keyboard_interrupt, line_keys_buffer _ garbage temp i hi.2]
      rcases switch_keys_cases (set_keyboard_flags t temp) temp with ⟨-, hstay⟩ | ⟨number, used, htarget, hswitch⟩
      · rw [hstay]
      · rw [hswitch]
        apply switch_to_buffer _ number i
        have hswitched := hi.1
        rwa [switch_keys_indices, htarget, Option.isSome_some, if_pos rfl] at hswitched

/-! What the indices stay between. -/

theorem IndicesInside.of_saved {u : terminal_t} (hinside : IndicesInside t) (hlive : u.live.IndexInside)
    (hsaved : ∀ number, u.saved number = t.saved number) : IndicesInside u where
  live := hlive
  saved1 := by
    rw [show u.saved1 = t.saved1 from hsaved 1]
    exact hinside.saved1
  saved2 := by
    rw [show u.saved2 = t.saved2 from hsaved 2]
    exact hinside.saved2
  saved3 := by
    rw [show u.saved3 = t.saved3 from hsaved 3]
    exact hinside.saved3

theorem IndicesInside.of_sameLine {u : terminal_t} (hinside : IndicesInside t) (hsame : SameLine t u) :
    IndicesInside u := by
  apply hinside.of_saved
  · rw [saved_t.IndexInside, terminal_t.live, hsame.end_buf_idx]
    exact hinside.live
  · exact (hsame.lineStep none).saved

/-- Saving puts the live index into one of the save variables. -/
theorem IndicesInside.switches (hinside : IndicesInside t) : IndicesInside (terminal_switch t) := by
  obtain ⟨hlive, hsaved1, hsaved2, hsaved3⟩ := hinside
  unfold terminal_switch
  split
  · exact ⟨hlive, hlive, hsaved2, hsaved3⟩
  · split
    · exact ⟨hlive, hsaved1, hlive, hsaved3⟩
    · split
      · exact ⟨hlive, hsaved1, hsaved2, hlive⟩
      · exact ⟨hlive, hsaved1, hsaved2, hsaved3⟩

theorem IndicesInside.switched (hinside : IndicesInside t) (number : Int) :
    IndicesInside (switch_to t number) := by
  obtain ⟨-, hsaved1, hsaved2, hsaved3⟩ := hinside.switches
  refine ⟨?_, hsaved1, hsaved2, hsaved3⟩
  simp only [switch_to, show_terminal, terminal_t.saved]
  split
  · exact hsaved1
  · split
    · exact hsaved2
    · exact hsaved3

theorem IndicesInside.keys (hinside : IndicesInside t) (garbage : Byte) (temp : Nat) :
    IndicesInside (line_keys (set_keyboard_flags t temp) garbage temp) := by
  have hflags := hinside.of_sameLine (set_keyboard_flags_sameLine t temp)
  exact hflags.of_saved (line_keys_index hflags.live) (line_keys_lineStep t garbage temp).saved

/-- Every step keeps the indices inside the buffer. -/
theorem IndicesInside.kept {a : Action} (hinside : IndicesInside t) (hact : act t a = some t') : IndicesInside t' := by
  have hmax : (0 : Int) ≤ 127 := by decide
  cases a with
  | terminalone =>
    cases hact
    exact hinside.switched 1
  | terminaltwo =>
    cases hact
    exact hinside.switched 2
  | terminalthree =>
    cases hact
    exact hinside.switched 3
  | event e =>
    cases e with
    | write number buf =>
      cases hact
      exact hinside.of_sameLine (terminal_write_sameLine t buf)
    | read number nbytes =>
      cases act_read hact
      exact ⟨⟨Int.le_refl 0, hmax⟩, hinside.saved1, hinside.saved2, hinside.saved3⟩
    | key garbage temp =>
      cases hact
      rcases keyboard_interrupt_cases t garbage temp with ⟨-, hafter⟩ | ⟨number, used, -, -, hafter⟩
      · rw [hafter]
        exact hinside.keys garbage temp
      · obtain ⟨hlive, hsaved1, hsaved2, hsaved3⟩ := hinside.switched number
        rw [hafter]
        exact ⟨hlive, hsaved1, hsaved2, hsaved3⟩

theorem terminal_init_indices (memory : terminal_t) : IndicesInside (terminal_init memory) := by
  have hmax : (0 : Int) ≤ 127 := by decide
  refine ⟨?_, ?_, ?_, ?_⟩ <;> exact ⟨Int.le_refl 0, hmax⟩

theorem mem_whole_buffer_inside (hi : i ∈ whole_buffer) : 0 ≤ i ∧ i ≤ 127 := by
  rw [mem_whole_buffer] at hi
  exact ⟨hi.1, Int.le_of_lt_add_one hi.2⟩

/-- The keys of the line store at the index, next to it or nowhere. -/
theorem line_keys_indices_inside {temp : Nat} (hindex : t.live.IndexInside) (hi : i ∈ line_keys_indices t temp) :
    0 ≤ i ∧ i ≤ 127 := by
  obtain ⟨hlo, hhi⟩ := hindex
  simp only [terminal_t.live] at hlo hhi
  unfold line_keys_indices at hi
  split at hi
  · cases hi
  · split at hi
    · rw [List.mem_singleton.mp hi]
      exact ⟨hlo, hhi⟩
    · split at hi
      · unfold backspace_key_indices at hi
        split at hi
        · rw [List.mem_singleton.mp hi]
          omega
        · cases hi
      · split at hi
        · unfold buffer_key_indices at hi
          split at hi
          · rw [List.mem_singleton.mp hi]
            exact ⟨hlo, hhi⟩
          · split at hi
            · rename_i hfills
              simp only [KEYBOARD_BUFFER_SIZE] at hfills
              rw [List.mem_cons, List.mem_singleton] at hi
              omega
            · cases hi
        · cases hi

theorem IndicesInside.indices {a : Action} (hinside : IndicesInside t) (hi : i ∈ buffer_indices t a) :
    0 ≤ i ∧ i ≤ 127 := by
  cases a with
  | terminalone => exact mem_whole_buffer_inside hi
  | terminaltwo => exact mem_whole_buffer_inside hi
  | terminalthree => exact mem_whole_buffer_inside hi
  | event e =>
    cases e with
    | write number buf => cases hi
    | read number nbytes => exact mem_whole_buffer_inside hi
    | key garbage temp =>
      have hflags := hinside.of_sameLine (set_keyboard_flags_sameLine t temp)
      rcases List.mem_append.mp hi with hswitch | hline
      · unfold switch_keys_indices at hswitch
        split at hswitch
        · exact mem_whole_buffer_inside hswitch
        · cases hswitch
      · rcases switch_keys_cases (set_keyboard_flags t temp) temp with ⟨-, hstay⟩ | ⟨number, used, -, hshown⟩
        · rw [hstay] at hline
          exact line_keys_indices_inside hflags.live hline
        · rw [hshown] at hline
          have hlive := (hflags.switched number).live
          exact line_keys_indices_inside (t := { switch_to _ number with terminal_used := used }) hlive hline

/-- In every run from `terminal_init` the indices stay inside the line buffer,
    and so does every store into it. -/
theorem indices_inside (memory : terminal_t) {log : List (terminal_t × Action)}
    (run : Run act (fun _ _ => True) (terminal_init memory) log t) :
    IndicesInside t ∧ ∀ taken ∈ log, StoresInBuffer taken.1 taken.2 := by
  have hreached {before : List (terminal_t × Action)} {u : terminal_t}
      (hrun : Run act (fun _ _ => True) (terminal_init memory) before u) : IndicesInside u :=
    hrun.invariant (motive := fun _ t => IndicesInside t) (terminal_init_indices memory)
      fun _ _ _ _ _ hinside _ hact => hinside.kept hact
  refine ⟨hreached run, fun taken htaken => ?_⟩
  obtain ⟨before, after, hlog⟩ := List.append_of_mem htaken
  obtain ⟨hearlier, -⟩ := run.before hlog
  exact ⟨fun i hi => (hreached hearlier).indices hi, fun t' hact => act_buffer hact⟩

/-- A letter is typed and the terminal is switched. -/
theorem indices_inside_switched : ∃ log t, Run act (fun _ _ => True) (terminal_init zeroed) log t ∧
    log.map (·.2) = [.event (.key 0#8 0x1E), .terminaltwo] ∧ IndicesInside t := by
  have hstart : Run act (fun _ _ => True) (terminal_init zeroed) [] (terminal_init zeroed) := .start
  have htyped := hstart.step trivial (show act _ (.event (.key 0#8 0x1E)) = _ from key_step _ 0#8 0x1E)
  have hswitched := htyped.step trivial (show act _ .terminaltwo = _ from rfl)
  exact ⟨_, _, hswitched, rfl, (indices_inside zeroed hswitched).1⟩

end houseam.terminal
