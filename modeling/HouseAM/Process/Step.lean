import HouseAM.Descriptor.Run
import HouseAM.Process.Started
import HouseAM.Support.Runs

open houseam.filesystem houseam.paging houseam.system_call houseam.terminal support.paging support.runs

namespace houseam.process

variable {sys : System} {k k' : Kernel} {f : Frame} {p q : Fin 6} {status : Byte}

/-- A process that was started and has not halted, with what was so when it was
    started: the frame of the `sys_execute` call and its command, and the PCB in
    the slot it was given. -/
structure Activation where
  process_id : Fin 6
  frame : Frame
  command : Option CString
  slot : pcb_t

/-- The kernel, and the live processes, the running one first. -/
structure Config where
  stack : List Activation
  kernel : Kernel

/-- What can happen while a process runs: it executes a command or halts, a key
    is pressed, it makes one of the other calls, it computes, in user mode or in
    kernel code that does none of this, or it stores to its memory. -/
inductive Event where
  | execute (f : Frame) (command : Option CString)
  | halt (f : Frame) (status : Byte)
  | key (f : Frame) (garbage : Byte) (temp : Nat)
  | call (call : Call)
  | compute (cpu : cpu_t) (stack : Word → Word)
  | store (va : Word) (b : Byte)

/-- A call of `sys_execute` with the given live processes. -/
def execute (sys : System) (f : Frame) (command : Option CString) (stack : List Activation) (k : Kernel) :
    Option Config :=
  match sys_execute sys f command k with
  | none => none
  | some (k', none) => some ⟨stack, k'⟩
  | some (k', some q) => some ⟨⟨q, f, command, k.pcb q⟩ :: stack, k'⟩

/-- A call of `sys_halt` by the first of the live processes. -/
def halt (sys : System) (f : Frame) (status : Byte) (stack : List Activation) (k : Kernel) : Option Config :=
  match sys_halt sys f status k with
  | none => none
  | some (k', .refused) => some ⟨stack, k'⟩
  | some (k', .resumed) => some ⟨stack.tail, k'⟩
  | some (k', .restarted q) =>
    some ⟨⟨q, f, some shell_name, k.pcb q⟩ :: stack.tail, k'⟩

/-- One of the calls on descriptors, on the PCB of the stack it runs on. -/
def Kernel.call (sys : System) (k : Kernel) (call : Call) : Option Kernel :=
  let pcb := get_pcb k.base
  (system_call.step sys.img ⟨k.pcbs pcb, k.term⟩ call).map fun s => { k.setPcb pcb s.pcb with term := s.term }

/-- Code that leaves its kernel stack and the registers in some state. Kernel
    code stays on the stack it started on. -/
def Kernel.compute (k : Kernel) (cpu : cpu_t) (stack : Word → Word) : Option Kernel :=
  if cpu.user = true ∨ block cpu.esp = block k.base ∧ PCB_SIZE ≤ cpu.esp.toNat % 8192 then
    some { k with
      cpu := cpu
      stack := fun address => if block address = block k.base then stack address else k.stack address }
  else none

/-- A store by the program, which faults where it has no access. -/
def Kernel.store (sys : System) (k : Kernel) (va : Word) (b : Byte) : Option Kernel :=
  match k.translate sys va with
  | none => none
  | some mapping =>
    if k.cpu.user = true ∧ mapping.user = true ∧ mapping.writable = true then
      some { k with memory := Function.update k.memory mapping.physical b }
    else none

def step (sys : System) (c : Config) (e : Event) : Option Config :=
  if c.stack = [] then none
  else
    match e with
    | .execute f command => if f.Fits c.kernel.base then execute sys f command c.stack c.kernel else none
    | .halt f status => if f.Fits c.kernel.base then halt sys f status c.stack c.kernel else none
    | .key f garbage temp =>
      if f.Fits c.kernel.base then
        let interrupt := keyboard_interrupt c.kernel.term garbage temp
        let k := { c.kernel with term := interrupt.1 }
        if interrupt.2 then execute sys f (some shell_name) c.stack k else some ⟨c.stack, k⟩
      else none
    | .call call => (c.kernel.call sys call).map (⟨c.stack, ·⟩)
    | .compute cpu stack => (c.kernel.compute cpu stack).map (⟨c.stack, ·⟩)
    | .store va b => (c.kernel.store sys va b).map (⟨c.stack, ·⟩)

/-- A halt in a frame that fits. -/
theorem step_halt {a : Activation} {rest : List Activation} (hfits : f.Fits k.base) :
    step sys ⟨a :: rest, k⟩ (.halt f status) = halt sys f status (a :: rest) k := by
  simp only [step, reduceCtorEq, if_false, if_pos hfits]

theorem step_execute {a : Activation} {rest : List Activation} {command : Option CString} (hfits : f.Fits k.base) :
    step sys ⟨a :: rest, k⟩ (.execute f command) = execute sys f command (a :: rest) k := by
  simp only [step, reduceCtorEq, if_false, if_pos hfits]

/-- A key press that starts a shell. -/
theorem step_key {a : Activation} {rest : List Activation} {garbage : Byte} {temp : Nat} (hfits : f.Fits k.base)
    (hflagged : (keyboard_interrupt k.term garbage temp).2 = true) :
    step sys ⟨a :: rest, k⟩ (.key f garbage temp) =
      execute sys f (some shell_name) (a :: rest) { k with term := (keyboard_interrupt k.term garbage temp).1 } := by
  simp only [step, reduceCtorEq, if_false, if_pos hfits, hflagged, if_true]

/-- The kernel when `terminal_init` calls `sys_execute`: the table is empty, the
    paging is as `page_fill` left it, and the boot stack is in the slot of
    process 0. -/
structure Boot (sys : System) (k : Kernel) : Prop where
  processes : k.processes = fun _ => 0#32
  paging : Filled sys.layout k.paging
  kernel : k.cpu.user = false
  stack : block k.cpu.esp = slot_block 0

/-- The state behind the boot call, in which the first shell runs. -/
def Booted (sys : System) (c : Config) : Prop :=
  ∃ k f, Boot sys k ∧ f.Fits k.base ∧ execute sys f (some shell_name) [] k = some c ∧ c.stack ≠ []

/-- The state in which `sys_halt` has cleared the descriptors and freed the slot. -/
def Kernel.halted (k : Kernel) (f : Frame) (p : Fin 6) : Kernel :=
  { (k.enter f).setPcb (proc_block p) (k.pcb p).clear_fds with processes := Function.update k.processes p 0#32 }

theorem Kernel.resume_paging (k : Kernel) (pcb : pcb_t) (status : Byte) :
    (k.resume pcb status).paging = k.paging.setEntry (page_entry pcb.parent_proc_num) := rfl

theorem Kernel.resume_esp0 (k : Kernel) (pcb : pcb_t) (status : Byte) :
    (k.resume pcb status).esp0 = kernel_esp pcb.parent_proc_num := rfl

theorem Kernel.resume_cpu (k : Kernel) (pcb : pcb_t) (status : Byte) :
    (k.resume pcb status).cpu = ⟨false, k.stack (pcb.ebp + 4#32), pcb.ebp + 8#32, k.stack pcb.ebp,
      status.setWidth 32⟩ := rfl

theorem Kernel.halted_pcbs (k : Kernel) (f : Frame) (p : Fin 6) :
    (k.halted f p).pcbs = Function.update k.pcbs (proc_block p) (k.pcb p).clear_fds := rfl

theorem Kernel.halted_stack (k : Kernel) (f : Frame) (p : Fin 6) : (k.halted f p).stack = (k.enter f).stack := rfl

theorem Kernel.halted_paging (k : Kernel) (f : Frame) (p : Fin 6) : (k.halted f p).paging = k.paging := rfl

/-- A halt on the stack of a process whose PCB holds its own number. -/
theorem sys_halt_eq (hblock : block f.esp = slot_block p) (hnum : (k.pcb p).proc_num = pid p) :
    sys_halt sys f status k =
      if p = 0 then
        match sys_execute sys f (some shell_name) (k.halted f p) with
        | none => none
        | some (k', some q) => some (k', .restarted q)
        | some (k', none) => some (k'.resume (k'.pcb p) status, .resumed)
      else some ((k.halted f p).resume (k.pcb p).clear_fds status, .resumed) := by
  have hcleared : (((k.enter f).setPcb (proc_block p) ((k.enter f).pcbs (proc_block p)).clear_fds).pcbs
      (proc_block p)).proc_num = pid p := by
    rw [Kernel.setPcb_same]
    exact hnum
  have hindex : (⟨(pid p).toNat, pid_lt p⟩ : Fin 6) = p := Fin.ext (pid_toNat p)
  have hzero : pid p = 0#32 ↔ p = 0 := ⟨fun h => pid_injective h, fun h => h ▸ rfl⟩
  simp only [sys_halt, get_pcb_eq hblock, if_neg (proc_block_ne_zero p), hcleared, pid_lt p, dif_pos, hindex, hzero]
  split
  · rfl
  · change some (Kernel.resume _ (((k.enter f).setPcb (proc_block p) (k.pcb p).clear_fds).pcbs (proc_block p)) status,
      Halted.resumed) = _
    rw [Kernel.setPcb_same]
    rfl

end houseam.process
