import HouseAM.Support.Runs
import HouseAM.Terminal.Events

open support.runs

namespace houseam.terminal

variable {log : List (terminal_t × Event)} {t t' : terminal_t} {number : Int}

theorem typedOn_append (number : Int) (log : List (terminal_t × Event)) (t : terminal_t) (e : Event) :
    typedOn number (log ++ [(t, e)]) =
      typedOn number log ++ (if t.current_terminal = number then (typed_char t e).toList else []) := by
  simp only [typedOn, List.filterMap_append, List.filterMap_cons, List.filterMap_nil]
  split <;> rename_i h <;> split at h <;> simp_all

theorem mem_typedOn_append {c : Byte} (e : Event) (hc : c ∈ typedOn number log) :
    c ∈ typedOn number (log ++ [(t, e)]) := by
  rw [typedOn_append]
  exact List.mem_append_left _ hc

theorem EnterPending.append {e : Event} (hpending : EnterPending number log) (he : ¬ e.IsRead) :
    EnterPending number (log ++ [(t, e)]) := by
  obtain ⟨before, u, garbage, after, rfl, hcurrent, hafter⟩ := hpending
  refine ⟨before, u, garbage, after ++ [(t, e)], by simp, hcurrent, ?_⟩
  intro taken htaken
  rcases List.mem_append.mp htaken with h | h
  · exact hafter taken h
  · rw [List.mem_singleton.mp h]
    exact he

/-- A pending Enter is one of the characters typed on its terminal. -/
theorem EnterPending.newline_mem (hpending : EnterPending number log) : NEWLINE ∈ typedOn number log := by
  obtain ⟨before, u, garbage, after, rfl, hcurrent, -⟩ := hpending
  have htyped : typed_char u (.key garbage SCAN_ENTER) = some NEWLINE := by
    simp [typed_char, SCAN_ENTER, SCAN_L]
  exact List.mem_filterMap.mpr ⟨(u, .key garbage SCAN_ENTER), by simp, by rw [if_pos hcurrent, htyped]⟩

/-- The lines hold typed characters only, each on the terminal it was typed on,
    and a set Enter flag belongs to the terminal being shown. -/
structure LinesTyped (log : List (terminal_t × Event)) (t : terminal_t) : Prop where
  current : IsTerminal t.current_terminal
  typed : ∀ number, IsTerminal number → ∀ i : Int, 0 ≤ i → i < 128 →
    (t.view number).keyboard_buffer i = 0#8 ∨ (t.view number).keyboard_buffer i = NEWLINE ∨
      (t.view number).keyboard_buffer i ∈ typedOn number log
  enter : t.enter_pressed ≠ 0 → EnterPending t.current_terminal log

theorem booted_linesTyped (memory : terminal_t) : LinesTyped [] (booted memory) where
  current := Or.inl rfl
  typed := by
    intro number hnumber i hlo hhi
    left
    rcases hnumber with rfl | rfl | rfl
    · exact copyInto_inside KEYBOARD_BUFFER_SIZE (fun _ => 0#8) _ hlo hhi
    · exact copyInto_inside KEYBOARD_BUFFER_SIZE (fun _ => 0#8) _ hlo hhi
    · exact copyInto_inside KEYBOARD_BUFFER_SIZE (fun _ => 0#8) _ hlo hhi
  enter := fun h => absurd rfl h

/-- A step that stays on the terminal keeps the line buffers typed. -/
theorem LineStep.view_typed {e : Event} (hstep : LineStep (typed_char t e) t t') (hlines : LinesTyped log t)
    (hnumber : IsTerminal number) {i : Int} (hlo : 0 ≤ i) (hhi : i < 128) :
    (t'.view number).keyboard_buffer i = 0#8 ∨ (t'.view number).keyboard_buffer i = NEWLINE ∨
      (t'.view number).keyboard_buffer i ∈ typedOn number (log ++ [(t, e)]) := by
  have hbefore := hlines.typed number hnumber i hlo hhi
  have hkeep : (t'.view number).keyboard_buffer i = (t.view number).keyboard_buffer i →
      (t'.view number).keyboard_buffer i = 0#8 ∨ (t'.view number).keyboard_buffer i = NEWLINE ∨
        (t'.view number).keyboard_buffer i ∈ typedOn number (log ++ [(t, e)]) := by
    intro hsame
    rw [hsame]
    exact hbefore.imp_right (Or.imp_right (mem_typedOn_append e))
  by_cases hshown : t.current_terminal = number
  · have hlive : (t'.view number).keyboard_buffer i = t'.keyboard_buffer i := by
      simp [terminal_t.view, hstep.current_terminal, hshown]
    rcases hstep.keyboard_buffer i with h | h | h | h
    · exact hkeep (by rw [hlive, h]; simp [terminal_t.view, hshown])
    · exact Or.inl (hlive.trans h)
    · exact Or.inr (Or.inl (hlive.trans h))
    · refine Or.inr (Or.inr ?_)
      rw [typedOn_append, if_pos hshown, ← h, hlive]
      simp
  · apply hkeep
    simp [terminal_t.view, hstep.current_terminal, hshown, hstep.saved number]

/-- A switch keeps the line buffers typed: they move between the live and the
    saved variables with their contents. -/
theorem switch_to_view_typed (hlines : LinesTyped log t) {shown : Int} {used : Fin 3 → Int} (e : Event)
    (hnumber : IsTerminal number) {i : Int} (hlo : 0 ≤ i) (hhi : i < 128) :
    let after := { switch_to t shown with terminal_used := used }
    (after.view number).keyboard_buffer i = 0#8 ∨ (after.view number).keyboard_buffer i = NEWLINE ∨
      (after.view number).keyboard_buffer i ∈ typedOn number (log ++ [(t, e)]) := by
  have hview : (({ switch_to t shown with terminal_used := used } : terminal_t).view number).keyboard_buffer i =
      (t.view number).keyboard_buffer i :=
    (switch_to_view hlines.current hnumber).keyboard_buffer i hlo hhi
  dsimp only
  rw [hview]
  exact (hlines.typed number hnumber i hlo hhi).imp_right (Or.imp_right (mem_typedOn_append e))

theorem line_keys_enter_pressed (t : terminal_t) (garbage : Byte) {temp : Nat} (henter : temp ≠ SCAN_ENTER) :
    (line_keys t garbage temp).enter_pressed = t.enter_pressed := by
  unfold line_keys
  split
  · rfl
  · split
    · unfold backspace_key
      split <;> rfl
    · split
      · unfold character_key
        have hbuffer (c : Byte) : (buffer_key t c).enter_pressed = t.enter_pressed := by
          unfold buffer_key
          repeat' split
          all_goals rfl
        dsimp only
        split
        · exact hbuffer _
        · rw [(putc_sameLine _ _).enter_pressed]
          split
          · exact hbuffer _
          · exact hbuffer _
      · rfl

/-- A key press keeps the lines typed when it takes no pending Enter to another
    terminal. -/
theorem LinesTyped.key (hlines : LinesTyped log t) {garbage : Byte} {temp : Nat}
    (hallowed : OnOwnTerminal t (.key garbage temp)) :
    LinesTyped (log ++ [(t, .key garbage temp)]) (keyboard_interrupt t garbage temp).1 := by
  have hflags := set_keyboard_flags_sameLine t temp
  rcases keyboard_interrupt_cases t garbage temp with ⟨-, hafter⟩ | ⟨shown, used, -, htarget, hafter⟩
  · have hstep : LineStep (typed_char t (.key garbage temp)) t (keyboard_interrupt t garbage temp).1 := by
      rw [hafter]
      exact (hflags.lineStep _).trans (line_keys_lineStep t garbage temp)
    refine ⟨hstep.current_terminal ▸ hlines.current, fun number hnumber i => hstep.view_typed hlines hnumber, ?_⟩
    intro hset
    rw [hstep.current_terminal]
    by_cases henter : temp = SCAN_ENTER
    · subst henter
      exact ⟨log, t, garbage, [], rfl, rfl, by simp⟩
    · rw [hafter, line_keys_enter_pressed _ _ henter, hflags.enter_pressed] at hset
      exact (hlines.enter hset).append (fun h => h)
  · rw [hafter]
    refine ⟨switch_target_isTerminal htarget, fun number hnumber i => switch_to_view_typed hlines _ hnumber, ?_⟩
    intro hset
    have hpressed : t.enter_pressed ≠ 0 := by simpa using hset
    have hshown : shown = t.current_terminal := (hallowed shown htarget).resolve_right hpressed
    show EnterPending shown _
    rw [hshown]
    exact (hlines.enter hpressed).append (fun h => h)

theorem LinesTyped.write (hlines : LinesTyped log t) (number : Int) (buf : List Byte) :
    LinesTyped (log ++ [(t, .write number buf)]) (terminal_write t buf) := by
  have hsame := terminal_write_sameLine t buf
  have hstep := hsame.lineStep (typed_char t (.write number buf))
  refine ⟨hsame.current_terminal ▸ hlines.current, fun number hnumber i => hstep.view_typed hlines hnumber, ?_⟩
  intro hset
  rw [hsame.current_terminal]
  rw [hsame.enter_pressed] at hset
  exact (hlines.enter hset).append (fun h => h)

theorem LinesTyped.read (hlines : LinesTyped log t) {number nbytes : Int}
    (hstep : step t (.read number nbytes) = some t') : LinesTyped (log ++ [(t, .read number nbytes)]) t' := by
  obtain ⟨-, rfl⟩ := step_read hstep
  have hline := after_read_lineStep (typed_char t (.read number nbytes)) t
  exact ⟨hlines.current, fun number hnumber i => hline.view_typed hlines hnumber, fun h => absurd rfl h⟩

/-- From boot, as long as processes use their own terminal, the lines stay
    typed. -/
theorem run_linesTyped (memory : terminal_t) (run : Run step OnOwnTerminal (booted memory) log t) :
    LinesTyped log t := by
  refine run.invariant (booted_linesTyped memory) ?_
  intro log s e s' _ hlines hallowed hstep
  cases e with
  | key garbage temp =>
    cases hstep
    exact hlines.key hallowed
  | write number buf =>
    cases hstep
    exact hlines.write number buf
  | read number nbytes => exact hlines.read hstep

/-- Every byte a read copies is a non-NUL byte of the line buffer, before any
    NUL in it. -/
theorem mem_read_line_loop {kb : Int → Byte} {c : Byte} {n i : Nat} (hc : c ∈ read_line_loop kb n i) :
    ∃ j, i ≤ j ∧ j < i + n ∧ c = kb j ∧ c ≠ 0#8 ∧ ∀ k, i ≤ k → k ≤ j → kb k ≠ 0#8 := by
  induction n generalizing i with
  | zero => simp [read_line_loop] at hc
  | succ n ih =>
    rw [read_line_loop] at hc
    split at hc
    · simp at hc
    · rename_i hhead
      rcases List.mem_cons.mp hc with rfl | htail
      · refine ⟨i, le_refl i, by omega, rfl, hhead, fun k hlo hhi => ?_⟩
        rw [Nat.le_antisymm hhi hlo]
        exact hhead
      · obtain ⟨j, hlo, hhi, hcj, hne, hall⟩ := ih htail
        refine ⟨j, by omega, by omega, hcj, hne, fun k hk hkj => ?_⟩
        by_cases hki : k = i
        · rw [hki]
          exact hhead
        · exact hall k (by omega) hkj

/-- A write by a process of the terminal being shown touches no saved state. -/
theorem write_isolated {buf : List Byte} (hown : OnOwnTerminal t (.write number buf)) :
    Isolated log t (.write number buf) := by
  intro other _ hne
  rcases hown with rfl | hcurrent
  · exact ⟨rfl, rfl, rfl⟩
  · have hsame := terminal_write_sameLine t buf
    have hother : t.current_terminal ≠ other := fun h => hne (h.symm.trans hcurrent.symm)
    have hview : (terminal_write t buf).view other = t.view other := by
      simp [terminal_t.view, hsame.current_terminal, hother, terminal_t.saved, hsame.saved1, hsame.saved2,
        hsame.saved3]
    rw [hview]
    exact ⟨rfl, rfl, rfl⟩

/-- A read that stops inside the line buffer of its own terminal returns typed
    characters, and only once Enter was typed there. -/
theorem read_isolated (hlines : LinesTyped log t) {nbytes : Int}
    (hown : OnOwnTerminal t (.read number nbytes)) : Isolated log t (.read number nbytes) := by
  obtain ⟨hnumber, hinside⟩ := hown
  intro count line after hread
  unfold terminal_read at hread
  split at hread
  · cases hread
  · rename_i hpressed
    simp only [Option.some.injEq, Prod.mk.injEq] at hread
    obtain ⟨-, rfl, -⟩ := hread
    have hpending := hlines.enter hpressed
    rw [← hnumber] at hpending
    refine ⟨fun c hc => ?_, hpending⟩
    obtain ⟨j, -, hj, hcj, hne, hbefore⟩ := mem_read_line_loop hc
    have hindex : (j : Int) < 128 := by
      rcases hinside with hshort | ⟨z, hzlo, hzhi, hnul⟩
      · omega
      · by_contra hlong
        refine hbefore z.toNat (Nat.zero_le _) (by omega) ?_
        rw [Int.toNat_of_nonneg hzlo]
        exact hnul
    have hview : (t.view number).keyboard_buffer j = c := by simp [terminal_t.view, hnumber, hcj]
    have htyped := hlines.typed number (hnumber ▸ hlines.current) j (by omega) hindex
    rw [hview] at htyped
    rcases htyped with hzero | hnewline | htyped
    · exact absurd hzero hne
    · rw [hnewline]
      exact hpending.newline_mem
    · exact htyped

/-- Every step of a run is isolated. -/
def RunIsolated (log : List (terminal_t × Event)) : Prop :=
  ∀ before s e after, log = before ++ (s, e) :: after → Isolated before s e

/-- Terminals are isolated in every run from boot in which each process reads
    and writes while its own terminal is shown, reads stop inside the line
    buffer, and no typed Enter is carried to another terminal. -/
theorem terminals_isolated (memory : terminal_t) (run : Run step OnOwnTerminal (booted memory) log t) :
    RunIsolated log := by
  intro before s e after hlog
  obtain ⟨hearlier, hallowed⟩ := run.before hlog
  have hlines := run_linesTyped memory hearlier
  cases e with
  | key garbage temp => trivial
  | write number buf => exact write_isolated hallowed
  | read number nbytes => exact read_isolated hlines hallowed

/-- The state behind a press of Alt and then F2. -/
def second_shown : terminal_t :=
  (keyboard_interrupt (keyboard_interrupt (booted zeroed) 0#8 SCAN_ALT).1 0#8 SCAN_FTWO).1

/-- Terminal 2 in use: Enter is typed there, read there and answered there. -/
theorem terminals_isolated_second :
    ∃ log t, Run step OnOwnTerminal (booted zeroed) log t ∧
      log.map (·.2) = [.key 0#8 SCAN_ALT, .key 0#8 SCAN_FTWO, .key 0#8 SCAN_ENTER, .read 2 128, .write 2 [0x41#8]] ∧
      RunIsolated log := by
  have hquiet (t : terminal_t) : OnOwnTerminal t (.key 0#8 SCAN_ALT) ∧ OnOwnTerminal t (.key 0#8 SCAN_ENTER) := by
    constructor <;> intro number htarget <;> rcases switch_target_key htarget with h | h | h <;> cases h
  have hboot : Run step OnOwnTerminal (booted zeroed) [] (booted zeroed) := .start
  have halt := hboot.step (hquiet (booted zeroed)).1 rfl
  have htwo := halt.step (show OnOwnTerminal _ (.key 0#8 SCAN_FTWO) from fun _ _ => Or.inr rfl) rfl
  have henter := htwo.step (hquiet second_shown).2 rfl
  have hread := henter.step (show OnOwnTerminal _ (.read 2 128) from ⟨rfl, Or.inl (by decide)⟩) rfl
  have hwrite := hread.step (show OnOwnTerminal _ (.write 2 [0x41#8]) from Or.inr rfl) rfl
  exact ⟨_, _, hwrite, rfl, terminals_isolated zeroed hwrite⟩

/-- Terminals are not isolated in every run: once terminal 2 is shown, a write
    by a process of terminal 1 appears on it. -/
theorem terminals_not_isolated : ¬ ∀ (memory : terminal_t) (log : List (terminal_t × Event)) (t : terminal_t),
    Run step (fun _ _ => True) (booted memory) log t → RunIsolated log := by
  intro hisolated
  have hboot : Run step (fun _ _ => True) (booted zeroed) [] (booted zeroed) := .start
  have halt := hboot.step (e := .key 0#8 SCAN_ALT) trivial rfl
  have htwo := halt.step (e := .key 0#8 SCAN_FTWO) trivial rfl
  have hwrite := htwo.step (e := .write 1 [0x41#8]) trivial rfl
  have hstep : Isolated _ second_shown (.write 1 [0x41#8]) := hisolated zeroed _ _ hwrite _ _ _ [] rfl
  have hscreen := congrFun (hstep 2 (Or.inr (Or.inl rfl)) (by decide)).1 0
  exact absurd hscreen (by decide)

end houseam.terminal
