import HouseAM.Support.Machine

open support.machine

namespace houseam.interrupts

def KERNEL_CS : BitVec 16 := 0x0010#16
def NUM_VEC : Nat := 256
def SYSTEMCALLVECTOR : Nat := 128
def RESERVED_FOR_VEC : Nat := 32
def RTC_ENTRY : Nat := 0x28
def KEYBOARD_ENTRY : Nat := 0x21

/-- The functions that are named in assembly code or in the interrupt descriptor
    table. -/
inductive Symbol where
  | division_by_zero_int | single_step_int | NMI_int | breakpoint_int | overflow_int | bounds_int
  | invalid_opcode_int | coprocessor_unavailable_int | double_fault_int | coprocessor_segment_overrun_int
  | invalid_task_state_segment_int | segment_not_present_int | stack_fault_int | general_protection_fault_int
  | page_fault_int | math_fault_int | alignment_check_int | machine_check_int
  | simd_floating_point_exception_int | virtualization_exception_int | control_protection_exception_int
  | rtc_handler | keyboard_handler | system_call_handler | context_switch | return_pt
  | rtc_interrupt | keyboard_interrupt
  | dummy_call | sys_halt | sys_execute | sys_read | sys_write | sys_open | sys_close | sys_getargs | sys_vidmap
  | sys_set_handler | sys_sigreturn
  deriving DecidableEq

/-- Where the linker has put each instruction of a function. -/
abbrev Link : Type := Symbol → Nat → Word

structure idt_desc_t where
  offset_15_00 : BitVec 16
  seg_selector : BitVec 16
  reserved4 : BitVec 8
  reserved3 : BitVec 1
  reserved2 : BitVec 1
  reserved1 : BitVec 1
  size : BitVec 1
  reserved0 : BitVec 1
  dpl : BitVec 2
  present : BitVec 1
  offset_31_16 : BitVec 16
  deriving DecidableEq

abbrev idt_t : Type := Nat → idt_desc_t

/-- The table before `set_idt`. -/
def zeroed : idt_t := fun _ => ⟨0#16, 0#16, 0#8, 0#1, 0#1, 0#1, 0#1, 0#1, 0#2, 0#1, 0#16⟩

/-- What the processor makes of a descriptor: a gate of 32 bits, for interrupts or
    for traps, or nothing that it goes through. -/
def idt_desc_t.gate (d : idt_desc_t) : Option Gate :=
  if d.present = 1#1 ∧ d.reserved0 = 0#1 ∧ d.size = 1#1 ∧ d.reserved1 = 1#1 ∧ d.reserved2 = 1#1 then
    some ⟨d.offset_31_16 ++ d.offset_15_00, d.seg_selector.setWidth 32, d.dpl.toNat, d.reserved3 = 1#1⟩
  else none

/-- One pass of the loop in `set_idt`, for a vector that is not reserved. -/
def fill_entry (i : Nat) (idt : idt_t) : idt_t :=
  let idt := Function.update idt i
    { idt i with
      seg_selector := KERNEL_CS, dpl := 0#2, reserved4 := 0#8, reserved3 := 0#1, reserved2 := 1#1
      reserved1 := 1#1, reserved0 := 0#1, present := 1#1, size := 1#1 }
  let idt := if i < RESERVED_FOR_VEC then Function.update idt i { idt i with reserved3 := 1#1 } else idt
  let idt :=
    if 32 ≤ i ∧ i ≤ 40 then
      let idt := Function.update idt i
        { idt i with
          seg_selector := KERNEL_CS, present := 1#1, dpl := 0#2, size := 1#1, reserved3 := 1#1, reserved2 := 1#1
          reserved1 := 1#1, reserved0 := 0#1 }
      Function.update idt 1 { idt 1 with reserved4 := 0#8 }
    else idt
  if i = SYSTEMCALLVECTOR then
    Function.update idt i
      { idt i with dpl := 3#2, reserved3 := 1#1, reserved2 := 1#1, reserved1 := 1#1, size := 1#1 }
  else idt

/-- The first passes of the loop. -/
def fill (idt : idt_t) : Nat → idt_t
  | 0 => idt
  | i + 1 => if i = 15 then fill idt i else fill_entry i (fill idt i)

def SET_IDT_ENTRY (idt : idt_t) (i : Nat) (handler : Word) : idt_t :=
  Function.update idt i
    { idt i with
      offset_31_16 := ((handler &&& 0xFFFF0000#32) >>> 16).setWidth 16
      offset_15_00 := (handler &&& 0xFFFF#32).setWidth 16 }

/-- The vectors that have a handler. -/
def handlers : List (Nat × Symbol) :=
  [(0, .division_by_zero_int), (1, .single_step_int), (2, .NMI_int), (3, .breakpoint_int), (4, .overflow_int),
    (5, .bounds_int), (6, .invalid_opcode_int), (7, .coprocessor_unavailable_int), (8, .double_fault_int),
    (9, .coprocessor_segment_overrun_int), (10, .invalid_task_state_segment_int), (11, .segment_not_present_int),
    (12, .stack_fault_int), (13, .general_protection_fault_int), (14, .page_fault_int), (16, .math_fault_int),
    (17, .alignment_check_int), (18, .machine_check_int), (19, .simd_floating_point_exception_int),
    (20, .virtualization_exception_int), (21, .control_protection_exception_int), (RTC_ENTRY, .rtc_handler),
    (KEYBOARD_ENTRY, .keyboard_handler), (SYSTEMCALLVECTOR, .system_call_handler)]

def set_idt (link : Link) (idt : idt_t) : idt_t :=
  handlers.foldl (fun idt entry => SET_IDT_ENTRY idt entry.1 (link entry.2 0)) (fill idt NUM_VEC)

/-- What a descriptor is after the pass for its vector. -/
def filled (i : Nat) (d : idt_desc_t) : idt_desc_t :=
  { d with
    seg_selector := KERNEL_CS, reserved4 := 0#8, reserved2 := 1#1, reserved1 := 1#1, reserved0 := 0#1
    reserved3 := if i ≤ 40 ∨ i = SYSTEMCALLVECTOR then 1#1 else 0#1
    dpl := if i = SYSTEMCALLVECTOR then 3#2 else 0#2, present := 1#1, size := 1#1 }

/-- A pass for one of the vectors of the PIC writes to descriptor 1, too, and
    changes nothing there. -/
theorem fill_entry_eq {i : Nat} {idt : idt_t} (hone : 32 ≤ i → (idt 1).reserved4 = 0#8) :
    fill_entry i idt = Function.update idt i (filled i (idt i)) := by
  unfold fill_entry filled
  have hvec : RESERVED_FOR_VEC = 32 := rfl
  have hcall : SYSTEMCALLVECTOR = 128 := rfl
  by_cases hpic : 32 ≤ i ∧ i ≤ 40
  · have hlow : ¬i < RESERVED_FOR_VEC := by omega
    have hhigh : ¬i = SYSTEMCALLVECTOR := by omega
    have hne : (1 : Nat) ≠ i := by omega
    have hkept : ({ idt 1 with reserved4 := 0#8 } : idt_desc_t) = idt 1 := by rw [← hone hpic.1]
    simp only [if_pos hpic, if_neg hlow, if_neg hhigh, if_pos (Or.inl hpic.2), Function.update_self,
      Function.update_idem, Function.update_of_ne hne, hkept]
    exact Function.update_eq_self_iff.mpr (Function.update_of_ne hne _ _).symm
  · by_cases hlow : i < RESERVED_FOR_VEC
    · have hhigh : ¬i = SYSTEMCALLVECTOR := by omega
      have hle : i ≤ 40 := by omega
      simp only [if_neg hpic, if_pos hlow, if_neg hhigh, if_pos (Or.inl hle), Function.update_self,
        Function.update_idem]
    · have hle : ¬i ≤ 40 := by omega
      by_cases hhigh : i = SYSTEMCALLVECTOR
      · simp only [if_neg hpic, if_neg hlow, if_pos hhigh, if_pos (Or.inr hhigh), Function.update_self,
          Function.update_idem]
      · simp only [if_neg hpic, if_neg hlow, if_neg hhigh, if_neg (not_or.mpr ⟨hle, hhigh⟩)]

/-- The loop. -/
theorem fill_eq (idt : idt_t) (n v : Nat) : fill idt n v = if v < n ∧ v ≠ 15 then filled v (idt v) else idt v := by
  induction n generalizing v with
  | zero => simp [fill]
  | succ n ih =>
    rw [fill]
    split
    · next hreserved =>
      subst hreserved
      rw [ih]
      by_cases hv : v = 15
      · simp [hv]
      · have hiff : v < 15 + 1 ↔ v < 15 := by omega
        simp [hv, hiff]
    · next hn =>
      rw [fill_entry_eq]
      · by_cases hv : v = n
        · subst hv
          rw [Function.update_self, ih]
          simp [hn]
        · have hiff : v < n + 1 ↔ v < n := by omega
          rw [Function.update_of_ne hv, ih]
          simp only [hiff]
      · intro hle
        have hlt : 1 < n := by omega
        rw [ih, if_pos ⟨hlt, by decide⟩]
        rfl

/-- The two halves of an address make the address. -/
theorem offset_eq (handler : Word) :
    ((handler &&& 0xFFFF0000#32) >>> 16).setWidth 16 ++ (handler &&& 0xFFFF#32).setWidth 16 = handler := by
  have hhigh : ∀ i < 32, (0xFFFF0000#32).getLsbD i = decide (16 ≤ i) := by decide
  have hlow : ∀ i < 32, (0xFFFF#32).getLsbD i = decide (i < 16) := by decide
  apply BitVec.eq_of_getLsbD_eq
  intro i hi
  simp only [BitVec.getLsbD_append, BitVec.getLsbD_setWidth, BitVec.getLsbD_ushiftRight, BitVec.getLsbD_and]
  split
  · next hlt =>
    rw [hlow i (by omega)]
    simp [hlt]
  · next hge =>
    have hback : 16 + (i - 16) = i := by omega
    have hlt : i - 16 < 16 := by omega
    rw [hback, hhigh i (by omega)]
    simp [not_lt.mp hge, hi, hlt]

theorem set_entries (link : Link) (entries : List (Nat × Symbol)) (hnodup : (entries.map (·.1)).Nodup) (idt : idt_t)
    (v : Nat) :
    entries.foldl (fun idt entry => SET_IDT_ENTRY idt entry.1 (link entry.2 0)) idt v =
      match entries.lookup v with
      | none => idt v
      | some handler => SET_IDT_ENTRY idt v (link handler 0) v := by
  induction entries generalizing idt with
  | nil => rfl
  | cons entry entries ih =>
    obtain ⟨w, handler⟩ := entry
    obtain ⟨hfresh, hrest⟩ := List.nodup_cons.mp hnodup
    rw [List.foldl_cons, ih hrest, List.lookup_cons]
    by_cases hv : v = w
    · subst hv
      have hnone : entries.lookup v = none := by
        rw [List.lookup_eq_none_iff]
        intro entry hentry
        simp only [bne_iff_ne]
        intro heq
        exact hfresh (List.mem_map.mpr ⟨entry, hentry, heq.symm⟩)
      simp [hnone]
    · have hother : SET_IDT_ENTRY idt w (link handler 0) v = idt v := Function.update_of_ne hv _ _
      simp only [beq_eq_false_iff_ne.mpr hv, SET_IDT_ENTRY, Function.update_self] at hother ⊢
      simp only [hother]

theorem filled_gate (v : Nat) (d : idt_desc_t) :
    (filled v d).gate =
      some ⟨d.offset_31_16 ++ d.offset_15_00, 0x10#32, if v = SYSTEMCALLVECTOR then 3 else 0,
        decide (v ≤ 40 ∨ v = SYSTEMCALLVECTOR)⟩ := by
  unfold idt_desc_t.gate filled
  rw [if_pos ⟨rfl, rfl, rfl, rfl, rfl⟩, Option.some.injEq, Gate.mk.injEq]
  refine ⟨rfl, rfl, apply_ite BitVec.toNat _ _ _, decide_eq_decide.mpr ?_⟩
  dsimp only
  split
  · next htrap => exact iff_of_true rfl htrap
  · next htrap => exact iff_of_false (by decide) htrap

/-- The gates: the processor goes through each one but the reserved one, and only
    the one for system calls may be used by a program. -/
theorem set_idt_gate (link : Link) {v : Nat} (hv : v < NUM_VEC) (hreserved : v ≠ 15) :
    (set_idt link zeroed v).gate =
      some ⟨((handlers.lookup v).map (link · 0)).getD 0#32, 0x10#32, if v = SYSTEMCALLVECTOR then 3 else 0,
        decide (v ≤ 40 ∨ v = SYSTEMCALLVECTOR)⟩ := by
  have hfill : fill zeroed NUM_VEC v = filled v (zeroed v) := by rw [fill_eq, if_pos ⟨hv, hreserved⟩]
  rw [set_idt, set_entries link handlers (by decide)]
  cases handlers.lookup v with
  | none =>
    dsimp only
    have hzero : 0#16 ++ 0#16 = 0#32 := by decide
    rw [hfill, filled_gate, zeroed, hzero]
    rfl
  | some handler =>
    have hset : SET_IDT_ENTRY (fill zeroed NUM_VEC) v (link handler 0) v =
        filled v (SET_IDT_ENTRY zeroed v (link handler 0) v) := by
      simp only [SET_IDT_ENTRY, Function.update_self, hfill]
      rfl
    dsimp only
    rw [hset, filled_gate]
    simp only [SET_IDT_ENTRY, Function.update_self, offset_eq, Option.map_some, Option.getD_some]

theorem set_idt_reserved (link : Link) : (set_idt link zeroed 15).gate = none := by
  rw [set_idt, set_entries link handlers (by decide), fill_eq]
  rfl

end houseam.interrupts
