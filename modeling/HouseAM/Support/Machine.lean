import Mathlib.Logic.Function.Basic
import Mathlib.Logic.Relation
import Mathlib.Data.BitVec

namespace support.machine

/-- A word of the machine. -/
abbrev Word : Type := BitVec 32

abbrev Memory : Type := Word → BitVec 8

inductive Register where
  | eax | ebx | ecx | edx | esi | edi | ebp
  deriving DecidableEq

/-- The segment registers for data. -/
inductive Segment where
  | ds | es | fs | gs
  deriving DecidableEq

/-- The state of a processor with flat segments. -/
@[ext] structure Machine where
  eip : Word
  esp : Word
  eflags : Word
  cs : Word
  ss : Word
  data : Segment → Word
  reg : Register → Word
  mem : Memory

inductive Operand where
  | immediate (value : Word)
  | register (source : Register)
  | at_esp (displacement : Word)
  | at_ebp (displacement : Word)

/-- A jump or call goes to an address. `call_table` calls through a table in the
    program's text, which is read as data. -/
inductive Instruction where
  | pushl (source : Operand)
  | popl (destination : Register)
  | movl (source : Operand) (destination : Register)
  | movl_esp_ebp
  | orl (value : Word) (destination : Register)
  | cmpl (value : Word) (register : Register)
  | jl (target : Word)
  | jg (target : Word)
  | call (target : Word)
  | call_table (table : Nat → Word) (index : Register)
  | ret
  | leave
  | pushf
  | pusha
  | popa
  | sti
  | int (vector : Nat)
  | iret

/-- What the processor finds in a gate of its interrupt descriptor table. -/
structure Gate where
  offset : Word
  selector : Word
  dpl : Nat
  trap : Bool

/-- The code in memory, each instruction with the place behind it, the gates, the
    levels of the segments that selectors name, and the stack that the kernel
    starts on. -/
structure Platform where
  code : Word → Option (Instruction × Word)
  gate : Nat → Option Gate
  dpl : Word → Nat
  esp0 : Word
  ss0 : Word

variable {p : Platform} {m m' m'' : Machine}

/-- The word that the four bytes from a place on are. -/
def load (mem : Memory) (place : Word) : Word :=
  mem (place + 3#32) ++ mem (place + 2#32) ++ mem (place + 1#32) ++ mem place

def store (mem : Memory) (place w : Word) : Memory := fun position =>
  if (position - place).toNat < 4 then w.extractLsb' (8 * (position - place).toNat) 8 else mem position

namespace Machine

def push (m : Machine) (w : Word) : Machine :=
  { m with esp := m.esp - 4#32, mem := store m.mem (m.esp - 4#32) w }

/-- The word on top of the stack. -/
def top (m : Machine) : Word := load m.mem m.esp

def pop (m : Machine) : Machine := { m with esp := m.esp + 4#32 }

def set (m : Machine) (r : Register) (w : Word) : Machine := { m with reg := Function.update m.reg r w }

def goto (m : Machine) (eip : Word) : Machine := { m with eip := eip }

def flagged (m : Machine) (eflags : Word) : Machine := { m with eflags := eflags }

def segments (m : Machine) (cs ss : Word) : Machine := { m with cs := cs, ss := ss }

def data_segments (m : Machine) (data : Segment → Word) : Machine := { m with data := data }

/-- The stack is somewhere else from now on. -/
def stack (m : Machine) (esp : Word) : Machine := { m with esp := esp }

/-- The privilege level that the processor runs at. -/
def cpl (m : Machine) : Nat := (m.cs &&& 3#32).toNat

/-- A word of the stack goes to a register. -/
def pop_to (m : Machine) (r : Register) : Machine := m.pop.set r m.top

end Machine

/-- A selector that names no segment. -/
def Null (selector : Word) : Prop := selector &&& 0xFFFC#32 = 0#32

instance (selector : Word) : Decidable (Null selector) := inferInstanceAs (Decidable (_ = _))

/-- A selector that a data segment register may hold at a privilege level. -/
def Platform.Allows (p : Platform) (level : Nat) (selector : Word) : Prop := Null selector ∨ level ≤ p.dpl selector

instance (p : Platform) (level : Nat) (selector : Word) : Decidable (p.Allows level selector) :=
  inferInstanceAs (Decidable (_ ∨ _))

/-- The processor has no data segment that its level does not allow. -/
def Machine.Legal (p : Platform) (m : Machine) : Prop := ∀ s, p.Allows m.cpl (m.data s)

/-- The data segments that are left at a lower privilege level. -/
def Platform.lowered (p : Platform) (level : Nat) (data : Segment → Word) : Segment → Word := fun s =>
  if p.Allows level (data s) then data s else 0#32

def Operand.value (m : Machine) : Operand → Word
  | immediate value => value
  | register source => m.reg source
  | at_esp displacement => load m.mem (m.esp + displacement)
  | at_ebp displacement => load m.mem (m.reg .ebp + displacement)

def INTERRUPT_FLAG : Word := 0x200#32

/-- The zero, sign and overflow flags behind a comparison of two words. The carry,
    parity and adjust flags are left as they were. -/
def compared (eflags a b : Word) : Word :=
  eflags &&& 0xFFFFF73F#32 ||| (if a = b then 0x40#32 else 0#32) ||| (if (a - b).msb then 0x80#32 else 0#32) |||
    (if (a - b).toInt = a.toInt - b.toInt then 0#32 else 0x800#32)

/-- The sign and overflow flags are different. -/
def less (eflags : Word) : Bool := eflags.getLsbD 7 != eflags.getLsbD 11

def greater (eflags : Word) : Bool := !eflags.getLsbD 6 && !less eflags

/-- Going through a gate. From a lower privilege level the processor changes to the
    kernel's stack first. -/
def enter (p : Platform) (gate : Gate) (back : Word) (m : Machine) : Machine :=
  let base := if m.cpl = 0 then m else (((m.stack p.esp0).segments m.cs p.ss0).push m.ss).push m.esp
  let saved := ((base.push m.eflags).push m.cs).push back
  ((saved.segments gate.selector saved.ss).flagged
    (if gate.trap then m.eflags else m.eflags &&& ~~~INTERRUPT_FLAG)).goto gate.offset

/-- Going back. To a lower privilege level the processor changes the stack, too,
    and clears the data segments that the level does not allow. -/
def leave_gate (p : Platform) (m : Machine) : Machine :=
  let back := ((m.pop.pop.pop.goto m.top).segments m.pop.top m.ss).flagged m.pop.pop.top
  if back.cpl = m.cpl then back
  else ((back.segments back.cs back.pop.top).stack back.top).data_segments (p.lowered back.cpl m.data)

def pusha (m : Machine) : Machine :=
  (((((((m.push (m.reg .eax)).push (m.reg .ecx)).push (m.reg .edx)).push (m.reg .ebx)).push m.esp).push
    (m.reg .ebp)).push (m.reg .esi)).push (m.reg .edi)

/-- The word for `esp` is skipped. -/
def popa (m : Machine) : Machine :=
  (((((m.pop_to .edi).pop_to .esi).pop_to .ebp).pop.pop_to .ebx).pop_to .edx).pop_to .ecx |>.pop_to .eax

def exec (p : Platform) (next : Word) (m : Machine) : Instruction → Option Machine
  | .pushl source => some ((m.push (source.value m)).goto next)
  | .popl destination => some ((m.pop_to destination).goto next)
  | .movl source destination => some ((m.set destination (source.value m)).goto next)
  | .movl_esp_ebp => some ((m.set .ebp m.esp).goto next)
  | .orl value destination =>
    some (((m.set destination (m.reg destination ||| value)).flagged
      (compared m.eflags (m.reg destination ||| value) 0#32)).goto next)
  | .cmpl value register => some ((m.flagged (compared m.eflags (m.reg register) value)).goto next)
  | .jl target => some (m.goto (if less m.eflags then target else next))
  | .jg target => some (m.goto (if greater m.eflags then target else next))
  | .call target => some ((m.push next).goto target)
  | .call_table table index =>
    if Null (m.data .ds) then none else some ((m.push next).goto (table (m.reg index).toNat))
  | .ret => some (m.pop.goto m.top)
  | .leave => some (((m.stack (m.reg .ebp)).pop_to .ebp).goto next)
  | .pushf => some ((m.push m.eflags).goto next)
  | .pusha => some ((pusha m).goto next)
  | .popa => some ((popa m).goto next)
  | .sti => some ((m.flagged (m.eflags ||| INTERRUPT_FLAG)).goto next)
  | .int vector => (p.gate vector).bind fun gate => if m.cpl ≤ gate.dpl then some (enter p gate next m) else none
  | .iret => some (leave_gate p m)

/-- One instruction. Nothing is said about code that is not in the listing. -/
def step (p : Platform) (m : Machine) : Option Machine :=
  (p.code m.eip).bind fun fetched => exec p fetched.2 m fetched.1

/-- A device interrupts the processor, if it is enabled to. The level of the gate
    does not matter then. -/
def interrupt (p : Platform) (vector : Nat) (m : Machine) : Option Machine :=
  if m.eflags.getLsbD 9 then (p.gate vector).map fun gate => enter p gate m.eip m else none

/-- The processor gets from one state to another by itself. -/
def Reaches (p : Platform) : Machine → Machine → Prop := Relation.ReflTransGen fun m m' => step p m = some m'

/-- A listing is in memory, with its instructions at these places. -/
def Loaded (p : Platform) (place : Nat → Word) (listing : List Instruction) : Prop :=
  ∀ i instruction, listing[i]? = some instruction → p.code (place i) = some (instruction, place (i + 1))

variable {listing : List Instruction} {place : Nat → Word} {instruction : Instruction}

theorem Loaded.step {i : Nat} (hloaded : Loaded p place listing) (hinstruction : listing[i]? = some instruction)
    (heip : m.eip = place i) (hexec : exec p (place (i + 1)) m instruction = some m') :
    machine.step p m = some m' := by
  rw [machine.step, heip, hloaded i instruction hinstruction, Option.bind_some]
  exact hexec

theorem Loaded.append {later : List Instruction} (hloaded : Loaded p place (listing ++ later)) :
    Loaded p place listing ∧ Loaded p (fun i => place (listing.length + i)) later := by
  constructor
  · intro i instruction hinstruction
    obtain ⟨hlt, -⟩ := List.getElem?_eq_some_iff.mp hinstruction
    exact hloaded i instruction ((List.getElem?_append_left hlt).trans hinstruction)
  · intro i instruction hinstruction
    have hbehind : (listing ++ later)[listing.length + i]? = later[i]? := by
      rw [List.getElem?_append_right (Nat.le_add_right _ _), Nat.add_sub_cancel_left]
    exact hloaded (listing.length + i) instruction (hbehind.trans hinstruction)

theorem lowered_of_legal (hlegal : m.Legal p) : p.lowered m.cpl m.data = m.data :=
  funext fun s => if_pos (hlegal s)

/-- Behind the processor's way to a lower level its segments are allowed there. -/
theorem allows_lowered (p : Platform) (level : Nat) (data : Segment → Word) (s : Segment) :
    p.Allows level (p.lowered level data s) := by
  rw [Platform.lowered]
  split
  · next hallows => exact hallows
  · exact Or.inl (by decide)

theorem Reaches.refl (p : Platform) (m : Machine) : Reaches p m m := Relation.ReflTransGen.refl

theorem Reaches.trans (hreaches : Reaches p m m') (hthen : Reaches p m' m'') : Reaches p m m'' :=
  Relation.ReflTransGen.trans hreaches hthen

/-- One more instruction of a listing. -/
theorem Reaches.next (hreaches : Reaches p m m') (hloaded : Loaded p place listing) (i : Nat)
    (hinstruction : listing[i]? = some instruction) (heip : m'.eip = place i)
    (hexec : exec p (place (i + 1)) m' instruction = some m'') : Reaches p m m'' :=
  hreaches.tail (hloaded.step hinstruction heip hexec)

/-! What a comparison is looked at for. -/

theorem compared_bits (eflags a b : Word) :
    (compared eflags a b).getLsbD 6 = decide (a = b) ∧ (compared eflags a b).getLsbD 7 = (a - b).msb ∧
      (compared eflags a b).getLsbD 11 = !decide ((a - b).toInt = a.toInt - b.toInt) := by
  have hclear (i : Nat) (hi : (0xFFFFF73F#32).getLsbD i = false) : (eflags &&& 0xFFFFF73F#32).getLsbD i = false := by
    rw [BitVec.getLsbD_and, hi, Bool.and_false]
  have hzero := hclear 6 (by decide)
  have hsign := hclear 7 (by decide)
  have hoverflow := hclear 11 (by decide)
  have hbit (i : Nat) (c : Prop) [Decidable c] (w w' : Word) :
      (if c then w else w').getLsbD i = if c then w.getLsbD i else w'.getLsbD i := apply_ite (·.getLsbD i) c w w'
  simp only [compared, BitVec.getLsbD_or, hzero, hsign, hoverflow, Bool.false_or, hbit]
  refine ⟨?_, ?_, ?_⟩ <;> simp

theorem less_compared (eflags a b : Word) : less (compared eflags a b) = decide (a.toInt < b.toInt) := by
  obtain ⟨-, hsign, hoverflow⟩ := compared_bits eflags a b
  have ha := BitVec.toInt_lt (x := a)
  have ha' := BitVec.le_toInt a
  have hb := BitVec.toInt_lt (x := b)
  have hb' := BitVec.le_toInt b
  rw [less, hsign, hoverflow, BitVec.msb_eq_toInt, BitVec.toInt_sub, Int.bmod_def]
  by_cases hlt : a.toInt < b.toInt <;> split <;> simp [hlt] <;> omega

theorem greater_compared (eflags a b : Word) : greater (compared eflags a b) = decide (b.toInt < a.toInt) := by
  obtain ⟨hzero, -, -⟩ := compared_bits eflags a b
  rw [greater, less_compared, hzero]
  by_cases hsame : a = b
  · simp [hsame]
  · have hne : a.toInt ≠ b.toInt := fun heq => hsame (BitVec.toInt_inj.mp heq)
    simp only [hsame, decide_false, Bool.not_false, Bool.true_and]
    by_cases hlt : a.toInt < b.toInt
    · simp [hlt, Int.not_lt.mpr hlt.le]
    · simp [hlt, lt_of_le_of_ne (not_lt.mp hlt) hne.symm]

/-- A comparison and the jump behind it. -/
theorem Loaded.compare_less (hloaded : Loaded p place listing) (i : Nat) {r : Register} {value target : Word}
    (hcmp : listing[i]? = some (.cmpl value r)) (hjump : listing[i + 1]? = some (.jl target))
    (heip : m.eip = place i) :
    ((m.reg r).toInt < value.toInt →
        Reaches p m ((m.flagged (compared m.eflags (m.reg r) value)).goto target)) ∧
      (¬(m.reg r).toInt < value.toInt →
        Reaches p m ((m.flagged (compared m.eflags (m.reg r) value)).goto (place (i + 2)))) := by
  have hless : less (compared m.eflags (m.reg r) value) = decide ((m.reg r).toInt < value.toInt) := less_compared _ _ _
  have hreaches : Reaches p m ((m.flagged (compared m.eflags (m.reg r) value)).goto
      (if less (compared m.eflags (m.reg r) value) then target else place (i + 2))) :=
    ((Reaches.refl p m).next hloaded i hcmp heip rfl).next hloaded (i + 1) hjump rfl rfl
  simp only [hless, decide_eq_true_eq] at hreaches
  constructor
  · intro hlt
    rwa [if_pos hlt] at hreaches
  · intro hge
    rwa [if_neg hge] at hreaches

theorem Loaded.compare_greater (hloaded : Loaded p place listing) (i : Nat) {r : Register} {value target : Word}
    (hcmp : listing[i]? = some (.cmpl value r)) (hjump : listing[i + 1]? = some (.jg target))
    (heip : m.eip = place i) :
    (value.toInt < (m.reg r).toInt →
        Reaches p m ((m.flagged (compared m.eflags (m.reg r) value)).goto target)) ∧
      (¬value.toInt < (m.reg r).toInt →
        Reaches p m ((m.flagged (compared m.eflags (m.reg r) value)).goto (place (i + 2)))) := by
  have hgreater : greater (compared m.eflags (m.reg r) value) = decide (value.toInt < (m.reg r).toInt) :=
    greater_compared _ _ _
  have hreaches : Reaches p m ((m.flagged (compared m.eflags (m.reg r) value)).goto
      (if greater (compared m.eflags (m.reg r) value) then target else place (i + 2))) :=
    ((Reaches.refl p m).next hloaded i hcmp heip rfl).next hloaded (i + 1) hjump rfl rfl
  simp only [hgreater, decide_eq_true_eq] at hreaches
  constructor
  · intro hlt
    rwa [if_pos hlt] at hreaches
  · intro hge
    rwa [if_neg hge] at hreaches

end support.machine
