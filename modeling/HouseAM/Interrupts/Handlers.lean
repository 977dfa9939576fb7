import HouseAM.Interrupts.Idt
import HouseAM.Support.Gates

open support.machine

namespace houseam.interrupts

def NEG_ONE : Word := -1#32
def MIN : Word := 1#32
def MAX : Word := 10#32
def KERNEL_DS : Word := 0x0018#32
def USER_CS : Word := 0x0023#32
def USER_DS : Word := 0x002B#32

/-- The global descriptor table. The entries for the TSS and the LDT, behind these,
    are no segments for data. -/
def gdt : List (BitVec 64) :=
  [0#64, 0#64, 0x00CF9A000000FFFF#64, 0x00CF92000000FFFF#64, 0x00CFFA000000FFFF#64, 0x00CFF2000000FFFF#64]

/-- The level of the descriptor that a selector names. -/
def gdt_dpl (selector : Word) : Nat := ((gdt.getD (selector.toNat / 8) 0#64).extractLsb' 45 2).toNat

/-- The system calls by their numbers. -/
def jump_table : List Symbol :=
  [.dummy_call, .sys_halt, .sys_execute, .sys_read, .sys_write, .sys_open, .sys_close, .sys_getargs, .sys_vidmap,
    .sys_set_handler, .sys_sigreturn]

/-- The function that the handler calls for a number. -/
def function (link : Link) (number : Nat) : Word := link (jump_table.getD number .dummy_call) 0

/-- The registers that the handler saves, in the order that it pushes them in. -/
def saved_registers : List Register := [.edi, .esi, .edx, .ecx, .ebx]

def pushes : List Instruction := saved_registers.map fun r => .pushl (.register r)

def pops : List Instruction := saved_registers.reverse.map .popl

/-- With the label `ERROR` at instruction 17. -/
def system_call_handler (link : Link) : List Instruction :=
  pushes ++
    [.cmpl MIN .eax, .jl (link .system_call_handler 17), .cmpl MAX .eax, .jg (link .system_call_handler 17), .sti,
      .call_table (function link) .eax] ++
    pops ++ [.iret] ++ pops ++ [.movl (.immediate NEG_ONE) .eax, .iret]

def context_switch : List Instruction :=
  [.pushl (.register .ebp), .movl_esp_ebp, .pushl (.register .edi), .pushl (.register .esi),
    .movl (.at_ebp 8#32) .ebx, .movl (.at_ebp 12#32) .ecx, .pushl (.immediate USER_DS), .pushl (.register .ebx),
    .pushf, .popl .eax, .orl 0x200#32 .eax, .pushl (.register .eax), .pushl (.immediate USER_CS),
    .pushl (.register .ecx), .iret]

def return_pt : List Instruction := [.leave, .ret]

/-- The handlers of the devices are the same but for the function they call. -/
def device_handler (link : Link) (interrupt : Symbol) : List Instruction :=
  [.pusha, .call (link interrupt 0), .popa, .iret]

def rtc_handler (link : Link) : List Instruction := device_handler link .rtc_interrupt

def keyboard_handler (link : Link) : List Instruction := device_handler link .keyboard_interrupt

/-- A system call as a program makes it. -/
def DO_CALL (number : Word) : List Instruction :=
  [.pushl (.register .ebx), .movl (.immediate number) .eax, .movl (.at_esp 8#32) .ebx, .movl (.at_esp 12#32) .ecx,
    .movl (.at_esp 16#32) .edx, .int 0x80, .popl .ebx, .ret]

/-- Where a program starts. -/
def start (main ece391_halt : Word) : List Instruction :=
  [.call main, .pushl (.immediate 0#32), .pushl (.immediate 0#32), .pushl (.register .eax), .call ece391_halt]

/-- The kernel is in memory and `set_idt` has been called. -/
structure Installed (link : Link) (p : Platform) : Prop where
  system_call_handler : Loaded p (link .system_call_handler) (system_call_handler link)
  context_switch : Loaded p (link .context_switch) context_switch
  return_pt : Loaded p (link .return_pt) return_pt
  rtc_handler : Loaded p (link .rtc_handler) (rtc_handler link)
  keyboard_handler : Loaded p (link .keyboard_handler) (keyboard_handler link)
  gates : ∀ v, v < NUM_VEC → p.gate v = (set_idt link zeroed v).gate
  ss0 : p.ss0 = KERNEL_DS
  dpl : p.dpl = gdt_dpl

variable {link : Link} {p : Platform} {mem : Memory} {base : Word} {room : Nat} {ws : List Word} {m m' : Machine}

theorem Installed.system_call_gate (hinstalled : Installed link p) :
    p.gate SYSTEMCALLVECTOR = some ⟨link .system_call_handler 0, 0x10#32, 3, true⟩ := by
  rw [hinstalled.gates _ (by decide), set_idt_gate link (by decide) (by decide)]
  rfl

theorem Installed.rtc_gate (hinstalled : Installed link p) :
    p.gate RTC_ENTRY = some ⟨link .rtc_handler 0, 0x10#32, 0, true⟩ := by
  rw [hinstalled.gates _ (by decide), set_idt_gate link (by decide) (by decide)]
  rfl

theorem Installed.keyboard_gate (hinstalled : Installed link p) :
    p.gate KEYBOARD_ENTRY = some ⟨link .keyboard_handler 0, 0x10#32, 0, true⟩ := by
  rw [hinstalled.gates _ (by decide), set_idt_gate link (by decide) (by decide)]
  rfl

/-- A program gets into the kernel through the gate for system calls only. -/
theorem Installed.int_refused (hinstalled : Installed link p) {v : Nat} (hv : v < NUM_VEC) (hne : v ≠ SYSTEMCALLVECTOR)
    (huser : m.cpl = 3) (next : Word) : exec p next m (.int v) = none := by
  have hgate := hinstalled.gates v hv
  by_cases hreserved : v = 15
  · subst hreserved
    rw [set_idt_reserved] at hgate
    simp only [exec, hgate, Option.bind_none]
  · rw [set_idt_gate link hv hreserved] at hgate
    simp only [exec, hgate, Option.bind_some, if_neg hne, huser]
    rfl

/-- The handler saves five registers. -/
theorem handler_saves (hinstalled : Installed link p) (hroom : 4 * room < 2 ^ 32)
    (heip : m.eip = link .system_call_handler 0) (hpushed : Pushed base room mem ws m) (hfits : ws.length + 5 ≤ room) :
    ∃ m', Reaches p m m' ∧ m'.eip = link .system_call_handler 5 ∧ m'.reg = m.reg ∧ SameSegments m m' ∧
      Pushed base room mem (m.reg .ebx :: m.reg .ecx :: m.reg .edx :: m.reg .esi :: m.reg .edi :: ws) m' :=
  hinstalled.system_call_handler.pushes saved_registers hroom rfl heip hpushed hfits

/-- A number that is in the table gets through the checks, any other one does not. -/
theorem handler_checks (hinstalled : Installed link p) (heip : m.eip = link .system_call_handler 5) :
    ∃ eflags, Reaches p m ((m.flagged eflags).goto
      (link .system_call_handler (if 1 ≤ (m.reg .eax).toInt ∧ (m.reg .eax).toInt ≤ 10 then 9 else 17))) := by
  have hloaded := hinstalled.system_call_handler
  have hmin : MIN.toInt = 1 := by decide
  have hmax : MAX.toInt = 10 := by decide
  obtain ⟨htoo_low, hfirst⟩ := hloaded.compare_less 5 rfl rfl heip
  by_cases hlow : (m.reg .eax).toInt < MIN.toInt
  · rw [if_neg (by omega)]
    exact ⟨_, htoo_low hlow⟩
  · obtain ⟨htoo_high, hsecond⟩ := hloaded.compare_greater 7 rfl rfl
      (m := (m.flagged (compared m.eflags (m.reg .eax) MIN)).goto (link .system_call_handler 7)) rfl
    by_cases hhigh : MAX.toInt < (m.reg .eax).toInt
    · rw [if_neg (by omega)]
      exact ⟨_, (hfirst hlow).trans (htoo_high hhigh)⟩
    · rw [if_pos (by omega)]
      exact ⟨_, (hfirst hlow).trans (hsecond hhigh)⟩

/-! A small kernel, with each function in 256 bytes of its own and one byte for an
    instruction. -/

def small_slot : Symbol → Nat
  | .system_call_handler => 0
  | .context_switch => 1
  | .return_pt => 2
  | .rtc_handler => 3
  | .keyboard_handler => 4
  | function => 5 + function.ctorIdx

def small_place (slot i : Nat) : Word := BitVec.ofNat 32 (0x400000 + 256 * slot + i)

def small_link : Link := fun symbol => small_place (small_slot symbol)

/-- The slot of address 0x8048000, where programs are. -/
def program_slot : Nat := 0x7C480

def small_text (program : List Instruction) (slot : Nat) : List Instruction :=
  if slot = program_slot then program
  else
    [system_call_handler small_link, context_switch, return_pt, rtc_handler small_link,
      keyboard_handler small_link].getD slot []

/-- With a program in memory, on the kernel's stack of process 0. -/
def small_platform (program : List Instruction) : Platform where
  code place :=
    ((small_text program ((place.toNat - 0x400000) / 256))[(place.toNat - 0x400000) % 256]?).map fun instruction =>
      (instruction, place + 1#32)
  gate v := (set_idt small_link zeroed v).gate
  dpl := gdt_dpl
  esp0 := 0x7FFFFC#32
  ss0 := KERNEL_DS

theorem small_loaded {program listing : List Instruction} {slot : Nat} (hslot : slot ≤ program_slot)
    (htext : small_text program slot = listing) (hlength : listing.length < 256) :
    Loaded (small_platform program) (small_place slot) listing := by
  intro i instruction hinstruction
  obtain ⟨hlt, -⟩ := List.getElem?_eq_some_iff.mp hinstruction
  have hplace : (small_place slot i).toNat = 0x400000 + 256 * slot + i := by
    rw [program_slot] at hslot
    rw [small_place, BitVec.toNat_ofNat]
    omega
  have hdiv : (0x400000 + 256 * slot + i - 0x400000) / 256 = slot := by omega
  have hmod : (0x400000 + 256 * slot + i - 0x400000) % 256 = i := by omega
  simp only [small_platform, hplace, hdiv, hmod, htext, hinstruction, Option.map_some, Option.some.injEq,
    Prod.mk.injEq, true_and]
  exact (BitVec.ofNat_add _ _).symm

theorem small_installed (program : List Instruction) : Installed small_link (small_platform program) where
  system_call_handler := small_loaded (by decide) rfl (by decide)
  context_switch := small_loaded (by decide) rfl (by decide)
  return_pt := small_loaded (by decide) rfl (by decide)
  rtc_handler := small_loaded (by decide) rfl (by decide)
  keyboard_handler := small_loaded (by decide) rfl (by decide)
  gates _ _ := rfl
  ss0 := rfl
  dpl := rfl

/-- A program's processor, with the segments that a program may use, and zeros in
    memory and in the registers. -/
def small_machine (eip esp : Word) : Machine :=
  ⟨eip, esp, 0x202#32, USER_CS, USER_DS, fun _ => USER_DS, fun _ => 0#32, fun _ => 0#8⟩

theorem small_legal (program : List Instruction) (eip esp : Word) :
    (small_machine eip esp).Legal (small_platform program) := by
  have hlevel : (USER_CS &&& 3#32).toNat ≤ gdt_dpl USER_DS := by decide
  exact fun _ => Or.inr hlevel

end houseam.interrupts
