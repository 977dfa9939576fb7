import HouseAM.Filesystem.Dentry
import HouseAM.Filesystem.ReadData
import HouseAM.Process.Kernel

open houseam.filesystem houseam.paging houseam.system_call houseam.terminal support.paging

namespace houseam.process

def ARG_BUFFER_SIZE : Nat := 1000
def HEADER_BUF_SIZE : Nat := 40
def OFFSET : Word := 24#32
def READ_SIZE : Nat := 100
def PAGE_START : Word := 0x83FFFFC#32
def VIRTUAL_ADDR : Word := 0x08048000#32
def NEG_ONE : Word := BitVec.allOnes 32

/-- A word after a store to one of its bytes. -/
def setByte (w : Word) (index : Nat) (b : Byte) : Word :=
  w &&& ~~~(0xFF#32 <<< (8 * index)) ||| b.setWidth 32 <<< (8 * index)

def fd_write_byte (fd : fd_array_t) (offset : Nat) (b : Byte) : fd_array_t :=
  if offset < 4 then { fd with flags := setByte fd.flags offset b }
  else if offset < 8 then { fd with inode := setByte fd.inode (offset - 4) b }
  else if offset < 12 then { fd with file_position := setByte fd.file_position (offset - 8) b }
  else { fd with file_operations := .wild }

/-- A PCB after a store to one of its bytes, by the fields' offsets. -/
def pcb_write_byte (pcb : pcb_t) (offset : Nat) (b : Byte) : pcb_t :=
  if offset < 128 then
    let i := Fin.ofNat 8 (offset / 16)
    pcb.setFd i (fd_write_byte (pcb.fd_arr i) (offset % 16) b)
  else if offset < 256 then
    { pcb with argument := Function.update pcb.argument (Fin.ofNat 128 (offset - 128)) b }
  else if offset < 260 then { pcb with proc_num := setByte pcb.proc_num (offset - 256) b }
  else if offset < 264 then { pcb with parent_proc_num := setByte pcb.parent_proc_num (offset - 260) b }
  else if offset < 268 then { pcb with ebp := setByte pcb.ebp (offset - 264) b }
  else if offset < 272 then { pcb with esp := setByte pcb.esp (offset - 268) b }
  else { pcb with terminal_num := setByte pcb.terminal_num (offset - 272) b }

/-- A byte stored by `sys_execute` at an address from its slot's PCB upward. A
    store above the kernel's page faults, and one into the part of the stack in
    use destroys the running call; neither leads anywhere. -/
def Kernel.store_byte (k : Kernel) (f : Frame) (address : Nat) (b : Byte) : Option Kernel :=
  if EIGHTMB.toNat ≤ address then none
  else if address % 8192 < PCB_SIZE then
    let slot := BitVec.ofNat 32 (address / 8192 * 8192)
    some (k.setPcb slot (pcb_write_byte (k.pcbs slot) (address % 8192) b))
  else if address / 8192 = block f.esp ∧ f.esp.toNat ≤ address then none
  else
    let word := BitVec.ofNat 32 (address / 4 * 4)
    some (k.setWord word (setByte (k.stack word) (address % 4) b))

/-- The first loop of `sys_execute`: the characters that go to `arg_buffer` and,
    if a space ended it, the text behind the space. -/
def parse_loop : List Byte → List Byte × Option (List Byte)
  | [] => ([], none)
  | c :: rest =>
    if c ≠ SPACE then
      let parsed := parse_loop rest
      (c :: parsed.1, parsed.2)
    else ([], some rest)

theorem parse_loop_word_subset (bytes : List Byte) : (parse_loop bytes).1 ⊆ bytes := by
  induction bytes with
  | nil => simp [parse_loop]
  | cons c rest ih =>
    rw [parse_loop]
    split
    · exact List.cons_subset_cons c ih
    · simp

/-- The string in `arg_buffer`. -/
def command_word (command : CString) : CString :=
  ⟨(parse_loop command.bytes).1, fun h => command.nul_free (parse_loop_word_subset command.bytes h)⟩

/-- The text behind the first space, if there is a space. -/
def command_text (command : CString) : Option (List Byte) := (parse_loop command.bytes).2

/-- The magic number, in a header buffer that a short file fills only in part. -/
def is_elf (img : Image) (inode : Word) (leftover : Nat → Byte) : Bool :=
  let header_buf := fun i => (read_data img inode 0#32 HEADER_BUF_SIZE).2.getD i (leftover i)
  header_buf 0 = 0x7F#8 && header_buf 1 = 0x45#8 && header_buf 2 = 0x4C#8 && header_buf 3 = 0x46#8

def entry_pt (img : Image) (inode : Word) (leftover : Nat → Byte) : Word :=
  let buf := fun i => (read_data img inode OFFSET 4).2.getD i (leftover (HEADER_BUF_SIZE + i))
  wordOfBytes (buf 0) (buf 1) (buf 2) (buf 3)

/-- The stores of one `read_data` call into the program's memory from
    `VIRTUAL_ADDR+l` on. -/
def chunk : Int → List Byte → List (Word × Byte)
  | _, [] => []
  | l, b :: bytes => (VIRTUAL_ADDR + BitVec.ofInt 32 l, b) :: chunk (l + 1) bytes

/-- The load loop with some iterations left. It ends after a read that returns
    0, which also sets `done_flag`. -/
def load_loop (img : Image) (inode : Word) : Nat → Int → Option (List (Word × Byte))
  | 0, _ => none
  | n + 1, l =>
    let k := read_data img inode (BitVec.ofInt 32 l) READ_SIZE
    if k.1 = 0 then some (chunk l k.2)
    else (load_loop img inode n (l + k.1)).map (chunk l k.2 ++ ·)

/-- The stores that load a program. There are 2^32 offsets to read at, and a loop
    that goes on after as many iterations has no end; `none` is such a loop. -/
def load (img : Image) (inode : Word) : Option (List (Word × Byte)) :=
  let k := read_data img inode 0#32 READ_SIZE
  (load_loop img inode (2 ^ 32) k.1).map (chunk 0 k.2 ++ ·)

/-- The assignments of `sys_execute`, each one a step that an interrupt can come
    before. -/
inductive Op where
  | claim
  | argument (j : Nat) (b : Byte)
  | set_entry
  | load_entry
  | store_entry
  | flush_tlb
  | copy (va : Word) (b : Byte)
  | terminal_num
  | proc_num
  | parent_proc_num
  | std (fd : Fin 8)
  | save_stack
  | esp0
  deriving DecidableEq

/-- One assignment, on the kernel's state and the local `save_value`. A copy to
    an unmapped address takes a page fault. -/
def perform (sys : System) (process_id : Fin 6) (f : Frame) (op : Op) (s : Kernel × Word) : Option (Kernel × Word) :=
  let k := s.1
  let setOwn := fun pcb => k.setPcb (proc_block process_id) pcb
  match op with
  | .claim => some ({ k with processes := Function.update k.processes process_id 1#32 }, s.2)
  | .argument j b => (k.store_byte f ((proc_block process_id).toNat + 128 + j) b).map (·, s.2)
  | .set_entry => some ({ k with paging := k.paging.setEntry (page_entry (pid process_id)) }, s.2)
  | .load_entry => some (k, k.paging.page_dir PAGE_VALUE)
  | .store_entry => some ({ k with paging := k.paging.setEntry s.2 }, s.2)
  | .flush_tlb => some s
  | .copy va b => (k.translate sys va).map fun mapping =>
      ({ k with memory := Function.update k.memory mapping.physical b }, s.2)
  | .terminal_num =>
    some (setOwn { k.pcb process_id with terminal_num := BitVec.ofInt 32 k.term.current_terminal }, s.2)
  | .proc_num => some (setOwn { k.pcb process_id with proc_num := pid process_id }, s.2)
  | .parent_proc_num =>
    if process_id = 0 then some s
    else some (setOwn { k.pcb process_id with parent_proc_num := (k.pcbs (get_pcb f.esp)).proc_num }, s.2)
  | .std fd =>
    some (setOwn ((k.pcb process_id).setFd fd
      { (k.pcb process_id).fd_arr fd with file_operations := .table .std_operations }), s.2)
  | .save_stack => some (setOwn { k.pcb process_id with esp := f.esp, ebp := f.ebp }, s.2)
  | .esp0 => some ({ k with esp0 := kernel_esp (pid process_id) }, s.2)

def perform_all (sys : System) (process_id : Fin 6) (f : Frame) (ops : List Op) (s : Kernel × Word) :
    Option (Kernel × Word) := ops.foldlM (fun s op => perform sys process_id f op s) s

/-- The second loop of `sys_execute` from `argument[j]` on, and the NUL behind it,
    with no look at the array's size. -/
def copy_text : Nat → List Byte → List Op
  | j, [] => [.argument j 0#8]
  | j, b :: text => .argument j b :: copy_text (j + 1) text

def argument_ops : Option (List Byte) → List Op
  | none => []
  | some text => copy_text 0 text

/-- From the page directory to the TSS, for a program whose loading is the given
    stores. -/
def start_ops (stores : List (Word × Byte)) : List Op :=
  [.set_entry, .load_entry, .store_entry, .flush_tlb] ++ stores.map (fun store => .copy store.1 store.2) ++
    [.terminal_num, .proc_num, .parent_proc_num, .std 0, .std 1, .save_stack, .esp0]

/-- The first loop over the process table. -/
def first_free (processes : Fin 6 → Word) : Option (Fin 6) :=
  (List.finRange 6).find? fun process_id => processes process_id = 0#32

/-- The `iret` to the program. The other registers keep what the kernel left in
    them. -/
def Kernel.context_switch (k : Kernel) (entry : Word) : Kernel :=
  { k with cpu := { k.cpu with user := true, eip := entry, esp := PAGE_START } }

/-- The state after the call and, if the call started a program instead of
    returning, the number of the new process. Without a number the call returned
    -1. There is no result when it never returns: a command word that does not
    fit `arg_buffer`, a store that faults, or a load loop without end. What it
    reads of the file system is mapped; `sys_execute_mapped` is the call where that
    is not known. -/
def sys_execute (sys : System) (f : Frame) (command : Option CString) (k : Kernel) :
    Option (Kernel × Option (Fin 6)) :=
  let k := k.enter f
  match command with
  | none => some (k.leave_ret f.ebp NEG_ONE, none)
  | some command =>
    match first_free k.processes with
    | none => some (k.leave_ret f.ebp NEG_ONE, none)
    | some process_id =>
      if ARG_BUFFER_SIZE ≤ (command_word command).bytes.length then none
      else
        match perform_all sys process_id f (.claim :: argument_ops (command_text command)) (k, 0#32) with
        | none => none
        | some (k, save_value) =>
          match read_dentry_by_name sys.img (some (command_word command)) with
          | none => some (k.leave_ret f.ebp NEG_ONE, none)
          | some holder_dentry =>
            if is_elf sys.img holder_dentry.inode_num f.leftover then
              match load sys.img holder_dentry.inode_num with
              | none => none
              | some stores =>
                match perform_all sys process_id f (start_ops stores) (k, save_value) with
                | none => none
                | some (k, _) =>
                  some (k.context_switch (entry_pt sys.img holder_dentry.inode_num f.leftover), some process_id)
            else some (k.leave_ret f.ebp NEG_ONE, none)

/-- How a call of `sys_halt` goes on: it returns -1, the caller of the program's
    `sys_execute` resumes, or the first shell is started again. -/
inductive Halted where
  | refused
  | resumed
  | restarted (process_id : Fin 6)
  deriving DecidableEq

/-- The end of `sys_halt`: the paging and stack of the PCB's parent, and the
    return from the `sys_execute` that saved the stack pointers. -/
def Kernel.resume (k : Kernel) (pcb : pcb_t) (status : Byte) : Kernel :=
  ({ k with
    paging := k.paging.setEntry (page_entry pcb.parent_proc_num)
    esp0 := kernel_esp pcb.parent_proc_num } : Kernel).leave_ret pcb.ebp (status.setWidth 32)

/-- `f` is the frame of the call, or of the `sys_execute` that process 0 makes in
    it. There is no result when the process number of the PCB is not an index of
    the table, or the shell that process 0 executes again never returns. -/
def sys_halt (sys : System) (f : Frame) (status : Byte) (k : Kernel) : Option (Kernel × Halted) :=
  let k := k.enter f
  let pcb := get_pcb f.esp
  if pcb = 0#32 then some (k.leave_ret f.ebp NEG_ONE, .refused)
  else
    let k := k.setPcb pcb (k.pcbs pcb).clear_fds
    let proc_num := (k.pcbs pcb).proc_num
    if h : proc_num.toNat < 6 then
      let k := { k with processes := Function.update k.processes ⟨proc_num.toNat, h⟩ 0#32 }
      if proc_num = 0#32 then
        match sys_execute sys f (some shell_name) k with
        | none => none
        | some (k, some process_id) => some (k, .restarted process_id)
        | some (k, none) => some (k.resume (k.pcbs pcb) status, .resumed)
      else some (k.resume (k.pcbs pcb) status, .resumed)
    else none

end houseam.process
