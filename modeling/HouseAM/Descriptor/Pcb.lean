import HouseAM.Types
import Mathlib.Logic.Function.Basic

namespace houseam.system_call

def PCB_LENGTH : Nat := 8
def BUFFER_SIZE : Nat := 128

/-- The four jump tables `sys_init` fills in. -/
inductive file_ops_t where
  | std_operations
  | dir_operations
  | file_operations
  | rtc_operations
  deriving DecidableEq

/-- A pointer to a jump table. `wild` is a pointer some of whose bytes were
    overwritten. -/
inductive OpsPtr where
  | null
  | table (ops : file_ops_t)
  | wild
  deriving DecidableEq

structure fd_array_t where
  flags : Word
  inode : Word
  file_position : Word
  file_operations : OpsPtr
  deriving DecidableEq

structure pcb_t where
  fd_arr : Fin 8 → fd_array_t
  argument : Fin 128 → Byte
  proc_num : Word
  parent_proc_num : Word
  ebp : Word
  esp : Word
  terminal_num : Word

/-- A PCB as memory is handed out at boot: all zero. -/
def zeroed_pcb : pcb_t where
  fd_arr := fun _ => ⟨0#32, 0#32, 0#32, .null⟩
  argument := fun _ => 0#8
  proc_num := 0#32
  parent_proc_num := 0#32
  ebp := 0#32
  esp := 0#32
  terminal_num := 0#32

/-- Assigning one descriptor. -/
def pcb_t.setFd (pcb : pcb_t) (i : Fin 8) (fd : fd_array_t) : pcb_t :=
  { pcb with fd_arr := Function.update pcb.fd_arr i fd }

@[simp] theorem pcb_t.setFd_same (pcb : pcb_t) (i : Fin 8) (fd : fd_array_t) :
    (pcb.setFd i fd).fd_arr i = fd := by
  simp [pcb_t.setFd]

@[simp] theorem pcb_t.setFd_other (pcb : pcb_t) {i j : Fin 8} (fd : fd_array_t) (hne : j ≠ i) :
    (pcb.setFd i fd).fd_arr j = pcb.fd_arr j := by
  simp [pcb_t.setFd, hne]

@[simp] theorem pcb_t.setFd_setFd (pcb : pcb_t) (i : Fin 8) (fd fd' : fd_array_t) :
    (pcb.setFd i fd).setFd i fd' = pcb.setFd i fd' := by
  simp [pcb_t.setFd]

/-- The loop of `sys_halt` over the descriptors. -/
def pcb_t.clear_fds (pcb : pcb_t) : pcb_t :=
  { pcb with fd_arr := fun _ => ⟨0#32, BitVec.allOnes 32, 0#32, .null⟩ }

/-- What `sys_execute` assigns for the standard input and output: nothing but
    the jump table. -/
def pcb_t.set_std (pcb : pcb_t) : pcb_t :=
  let pcb := pcb.setFd 0 { pcb.fd_arr 0 with file_operations := .table .std_operations }
  pcb.setFd 1 { pcb.fd_arr 1 with file_operations := .table .std_operations }

theorem pcb_t.set_std_other (pcb : pcb_t) {i : Fin 8} (hi : 2 ≤ i.val) : pcb.set_std.fd_arr i = pcb.fd_arr i := by
  have hzero : i ≠ 0 := by
    rintro rfl
    exact absurd hi (by decide)
  have hone : i ≠ 1 := by
    rintro rfl
    exact absurd hi (by decide)
  simp [pcb_t.set_std, hzero, hone]

/-- Two PCBs that differ at most in their descriptor tables. -/
structure SameButFds (before after : pcb_t) : Prop where
  argument : after.argument = before.argument
  proc_num : after.proc_num = before.proc_num
  parent_proc_num : after.parent_proc_num = before.parent_proc_num
  ebp : after.ebp = before.ebp
  esp : after.esp = before.esp
  terminal_num : after.terminal_num = before.terminal_num

theorem SameButFds.refl (pcb : pcb_t) : SameButFds pcb pcb := ⟨rfl, rfl, rfl, rfl, rfl, rfl⟩

theorem pcb_t.setFd_sameButFds (pcb : pcb_t) (i : Fin 8) (fd : fd_array_t) :
    SameButFds pcb (pcb.setFd i fd) := ⟨rfl, rfl, rfl, rfl, rfl, rfl⟩

/-- The array element a descriptor between 0 and 7 names. -/
def fd_index (fd : Int) : Fin 8 := Fin.ofNat 8 fd.toNat

theorem fd_index_injective {a b : Int} (ha : 0 ≤ a) (ha' : a ≤ 7) (hb : 0 ≤ b) (hb' : b ≤ 7)
    (heq : fd_index a = fd_index b) : a = b := by
  have hval := congrArg Fin.val heq
  simp only [fd_index, Fin.ofNat] at hval
  omega

end houseam.system_call
