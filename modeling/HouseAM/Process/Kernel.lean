import HouseAM.Descriptor.Pcb
import HouseAM.Filesystem.Image
import HouseAM.Paging.Tables
import HouseAM.Terminal.State

open houseam.filesystem houseam.paging houseam.system_call houseam.terminal support.paging

namespace houseam.process

def bit_mask : Word := 0x7FE000#32
def PCB_SIZE : Nat := 276

/-- The registers that calls and interrupts save and restore. -/
structure cpu_t where
  user : Bool
  eip : Word
  esp : Word
  ebp : Word
  eax : Word

/-- What does not change while the kernel runs. -/
structure System where
  img : Image
  layout : Layout
  others : BitVec 20 → BitVec 10 → Word

/-- The kernel's state. A PCB is found by the address of the 8 KB slot it starts,
    and `stack` holds the words of the rest of each slot by their addresses.
    `memory` is physical memory outside the kernel. -/
structure Kernel where
  processes : Fin 6 → Word
  pcbs : Word → pcb_t
  stack : Word → Word
  paging : paging_t
  esp0 : Word
  term : terminal_t
  memory : Word → Byte
  cpu : cpu_t

/-- A call's place on a kernel stack: `ebp` is where the caller's `ebp` is saved,
    with the return address above it. `leftover` is what the stack held where
    `sys_execute` has its uninitialised locals. -/
structure Frame where
  esp : Word
  ebp : Word
  saved_ebp : Word
  ret : Word
  leftover : Nat → Byte

/-- The address of the PCB that `get_pcb` finds from a stack pointer. -/
def get_pcb (esp : Word) : Word := esp &&& bit_mask

/-- A process number as the kernel's words hold it. -/
def pid (process_id : Fin 6) : Word := BitVec.ofNat 32 process_id.val

/-- The address `EIGHTMB-EIGHTKB*(process_id+1)` of a process's slot. -/
def proc_block (process_id : Fin 6) : Word := EIGHTMB - EIGHTKB * (pid process_id + 1#32)

/-- The value given to `tss.esp0` for a process number. -/
def kernel_esp (process : Word) : Word := EIGHTMB - EIGHTKB * process - 4#32

def Kernel.pcb (k : Kernel) (process_id : Fin 6) : pcb_t := k.pcbs (proc_block process_id)

def Kernel.setPcb (k : Kernel) (address : Word) (pcb : pcb_t) : Kernel :=
  { k with pcbs := Function.update k.pcbs address pcb }

def Kernel.setWord (k : Kernel) (address value : Word) : Kernel :=
  { k with stack := Function.update k.stack address value }

/-- Where the next call or interrupt starts to push: the processor takes the
    stack pointer from the TSS only when it comes from user mode. -/
def Kernel.base (k : Kernel) : Word := if k.cpu.user then k.esp0 else k.cpu.esp

/-- What an address leads to. -/
def Kernel.translate (sys : System) (k : Kernel) (va : Word) : Option Mapping :=
  k.paging.translate sys.layout sys.others va

/-- The number of the 8 KB block an address is in. -/
def block (address : Word) : Nat := address.toNat / 8192

/-- The block of a process's slot. -/
def slot_block (process_id : Fin 6) : Nat := 1023 - process_id.val

/-- A frame fits below a stack pointer: in the same slot, above the PCB. -/
structure Frame.Fits (f : Frame) (base : Word) : Prop where
  block_eq : block f.esp = block base
  above_pcb : PCB_SIZE ≤ f.esp.toNat % 8192
  esp_le : f.esp.toNat ≤ f.ebp.toNat
  ebp_lt : f.ebp.toNat + 8 ≤ base.toNat

instance (f : Frame) (base : Word) : Decidable (f.Fits base) :=
  decidable_of_iff (block f.esp = block base ∧ PCB_SIZE ≤ f.esp.toNat % 8192 ∧
      f.esp.toNat ≤ f.ebp.toNat ∧ f.ebp.toNat + 8 ≤ base.toNat)
    ⟨fun h => ⟨h.1, h.2.1, h.2.2.1, h.2.2.2⟩, fun h => ⟨h.block_eq, h.above_pcb, h.esp_le, h.ebp_lt⟩⟩

/-- Calling a function: the return address and the caller's `ebp` are pushed. -/
def Kernel.enter (k : Kernel) (f : Frame) : Kernel :=
  (k.setWord f.ebp f.saved_ebp).setWord (f.ebp + 4#32) f.ret

/-- `leave` and `ret` through the frame at an address, with a value in `eax`. -/
def Kernel.leave_ret (k : Kernel) (ebp value : Word) : Kernel :=
  { k with cpu := ⟨false, k.stack (ebp + 4#32), ebp + 8#32, k.stack ebp, value⟩ }

theorem pid_toNat (process_id : Fin 6) : (pid process_id).toNat = process_id.val := by
  have hlt := process_id.isLt
  simp only [pid, BitVec.toNat_ofNat]
  omega

theorem pid_lt (process_id : Fin 6) : (pid process_id).toNat < 6 := by
  rw [pid_toNat]
  exact process_id.isLt

theorem pid_injective {p q : Fin 6} (heq : pid p = pid q) : p = q := by
  apply Fin.ext
  rw [← pid_toNat p, ← pid_toNat q, heq]

theorem slot_block_injective {p q : Fin 6} (heq : slot_block p = slot_block q) : p = q := by
  apply Fin.ext
  simp only [slot_block] at heq
  omega

theorem proc_block_toNat : ∀ process_id : Fin 6, (proc_block process_id).toNat = slot_block process_id * 8192 := by
  decide

theorem proc_block_ne_zero : ∀ process_id : Fin 6, proc_block process_id ≠ 0#32 := by
  decide

theorem proc_block_injective {p q : Fin 6} (heq : proc_block p = proc_block q) : p = q := by
  apply slot_block_injective
  have hp := proc_block_toNat p
  rw [heq, proc_block_toNat q] at hp
  omega

theorem kernel_esp_block : ∀ process_id : Fin 6, block (kernel_esp (pid process_id)) = slot_block process_id := by
  decide

theorem and_bit_mask_toNat (address : Word) :
    (address &&& bit_mask).toNat = address.toNat / 8192 % 1024 * 8192 := by
  have hmask : bit_mask.toNat = (2 ^ 10 - 1) <<< 13 := by decide
  have hblock : address.toNat / 8192 % 1024 * 8192 = (address.toNat >>> 13 % 2 ^ 10) <<< 13 := by
    simp only [Nat.shiftLeft_eq, Nat.shiftRight_eq_div_pow]
    omega
  rw [BitVec.toNat_and, hmask, hblock]
  apply Nat.eq_of_testBit_eq
  intro i
  rw [Nat.testBit_and, Nat.testBit_shiftLeft, Nat.testBit_two_pow_sub_one, Nat.testBit_shiftLeft,
    Nat.testBit_mod_two_pow, Nat.testBit_shiftRight]
  by_cases hi : i ≥ 13
  · simp [hi, Nat.add_sub_cancel' hi, Bool.and_comm]
  · simp [hi]

/-- From anywhere in a process's slot, `get_pcb` finds the process's PCB. -/
theorem get_pcb_eq {esp : Word} {process_id : Fin 6} (hblock : block esp = slot_block process_id) :
    get_pcb esp = proc_block process_id := by
  apply BitVec.eq_of_toNat_eq
  rw [get_pcb, and_bit_mask_toNat, proc_block_toNat, ← hblock]
  have hlt : block esp < 1024 := by
    rw [hblock, slot_block]
    omega
  rw [block] at hlt ⊢
  rw [Nat.mod_eq_of_lt hlt]

theorem Frame.Fits.block_ebp {f : Frame} {base : Word} (hfits : f.Fits base) : block f.ebp = block base := by
  have hblock := hfits.block_eq
  have hlo := hfits.esp_le
  have hhi := hfits.ebp_lt
  simp only [block] at hblock ⊢
  omega

theorem Frame.Fits.block_ret {f : Frame} {base : Word} (hfits : f.Fits base) : block (f.ebp + 4#32) = block base := by
  have hblock := hfits.block_eq
  have hlo := hfits.esp_le
  have hhi := hfits.ebp_lt
  have hbase := base.isLt
  simp only [block, BitVec.toNat_add, BitVec.toNat_ofNat] at hblock ⊢
  omega

@[simp] theorem Kernel.setPcb_same (k : Kernel) (address : Word) (pcb : pcb_t) :
    (k.setPcb address pcb).pcbs address = pcb := by
  simp [Kernel.setPcb]

theorem Kernel.pcb_update_same {k k' : Kernel} {p : Fin 6} {pcb : pcb_t}
    (hpcbs : k'.pcbs = Function.update k.pcbs (proc_block p) pcb) : k'.pcb p = pcb := by
  simp [Kernel.pcb, hpcbs]

theorem Kernel.pcb_update_other {k k' : Kernel} {p q : Fin 6} {pcb : pcb_t}
    (hpcbs : k'.pcbs = Function.update k.pcbs (proc_block p) pcb) (hne : q ≠ p) : k'.pcb q = k.pcb q := by
  have hblocks : proc_block q ≠ proc_block p := fun h => hne (proc_block_injective h)
  simp [Kernel.pcb, hpcbs, hblocks]

theorem Kernel.setPcb_pcbs (k : Kernel) (address : Word) (pcb : pcb_t) :
    (k.setPcb address pcb).pcbs = Function.update k.pcbs address pcb := rfl

theorem Kernel.setPcb_pcb_same (k : Kernel) (p : Fin 6) (pcb : pcb_t) :
    (k.setPcb (proc_block p) pcb).pcb p = pcb :=
  Kernel.pcb_update_same (k.setPcb_pcbs _ pcb)

theorem Kernel.setPcb_pcb_other (k : Kernel) {p q : Fin 6} (pcb : pcb_t) (hne : q ≠ p) :
    (k.setPcb (proc_block p) pcb).pcb q = k.pcb q :=
  Kernel.pcb_update_other (k.setPcb_pcbs _ pcb) hne

theorem Kernel.enter_processes (k : Kernel) (f : Frame) : (k.enter f).processes = k.processes := rfl

/-- Calling a function writes only its frame. -/
theorem Kernel.enter_stack_other (k : Kernel) (f : Frame) {address : Word} (hebp : address ≠ f.ebp)
    (hret : address ≠ f.ebp + 4#32) : (k.enter f).stack address = k.stack address := by
  simp [Kernel.enter, Kernel.setWord, hebp, hret]

theorem Kernel.enter_stack_ebp (k : Kernel) (f : Frame) : (k.enter f).stack f.ebp = f.saved_ebp := by
  have hne : f.ebp ≠ f.ebp + 4#32 := by
    intro h
    have hzero := BitVec.self_eq_add_right.mp h
    exact absurd hzero (by decide)
  simp [Kernel.enter, Kernel.setWord, hne]

theorem Kernel.enter_stack_ret (k : Kernel) (f : Frame) : (k.enter f).stack (f.ebp + 4#32) = f.ret := by
  simp [Kernel.enter, Kernel.setWord]

end houseam.process
