import HouseAM.Descriptor.Pcb
import HouseAM.Filesystem.Dentry
import HouseAM.Filesystem.ReadData
import HouseAM.Terminal.Keyboard

open houseam.lib houseam.filesystem houseam.terminal

namespace houseam.system_call

/-- How a call ends: it returns, it still waits for the keyboard, or it takes a
    page fault, whose handler never returns. -/
inductive Outcome (α : Type) where
  | done (result : α)
  | waits
  | faults

/-- What a process's descriptor calls work on: its PCB and the terminal. -/
structure Task where
  pcb : pcb_t
  term : terminal_t

/-- The return value of a call and the bytes it stored from `buf[0]` on. -/
structure Returned where
  value : Int
  stored : List Byte
  deriving DecidableEq

def file_read (img : Image) (fd : Fin 8) (nbytes : Int) (pcb : pcb_t) : Returned × pcb_t :=
  let entry := pcb.fd_arr fd
  if entry.flags = 0#32 then (⟨-1, []⟩, pcb)
  else
    let position := read_data img entry.inode entry.file_position nbytes.toNat
    let pcb := pcb.setFd fd { entry with file_position := entry.file_position + BitVec.ofInt 32 position.1 }
    (⟨if position.1 < 0 then 0 else position.1, position.2⟩, pcb)

/-- The position moves on before the entry is looked up, and the copy is always
    32 bytes long. -/
def dir_read (img : Image) (fd : Fin 8) (pcb : pcb_t) : Returned × pcb_t :=
  let entry := pcb.fd_arr fd
  let idx := entry.file_position
  let pcb := pcb.setFd fd { entry with file_position := entry.file_position + 1#32 }
  match read_dentry_by_index img idx.toNat with
  | none => (⟨0, []⟩, pcb)
  | some d_entry => (⟨name_length d_entry, strncpy d_entry.byte 32⟩, pcb)

/-- The call through the read pointer of a jump table. The wait for the next
    RTC tick in `rtc_read` always ends. -/
def call_read (img : Image) (ops : file_ops_t) (fd : Fin 8) (nbytes : Int) (s : Task) : Outcome (Returned × Task) :=
  match ops with
  | .std_operations =>
    match terminal_read s.term nbytes with
    | none => .waits
    | some (count, line, term) => .done (⟨count, line⟩, { s with term := term })
  | .dir_operations =>
    let result := dir_read img fd s.pcb
    .done (result.1, { s with pcb := result.2 })
  | .file_operations =>
    let result := file_read img fd nbytes s.pcb
    .done (result.1, { s with pcb := result.2 })
  | .rtc_operations => .done (⟨0, []⟩, s)

/-- `buf = 0` is a NULL buffer. The jump table is read before the flags are
    looked at, and the flags matter only for files and directories. -/
def sys_read (img : Image) (fd : Int) (buf : Nat) (nbytes : Int) (s : Task) : Outcome (Returned × Task) :=
  if fd < 0 ∨ nbytes < 0 ∨ fd > PCB_LENGTH - 1 ∨ fd = 1 ∨ buf = 0 then .done (⟨-1, []⟩, s)
  else
    let a := s.pcb.fd_arr (fd_index fd)
    match a.file_operations with
    | .null => .faults
    | .wild => .faults
    | .table ops =>
      if (ops = .file_operations ∨ ops = .dir_operations) ∧ a.flags = 0#32 then .done (⟨-1, []⟩, s)
      else call_read img ops (fd_index fd) nbytes s

/-- `buf` reads the caller's buffer; `none` is a NULL buffer. There is no look
    at the flags at all. -/
def sys_write (fd : Int) (buf : Option (Nat → Byte)) (nbytes : Int) (s : Task) : Outcome (Int × Task) :=
  match buf with
  | none => .done (-1, s)
  | some buf =>
    if fd < 1 ∨ nbytes < 0 ∨ fd > PCB_LENGTH - 1 then .done (-1, s)
    else
      match (s.pcb.fd_arr (fd_index fd)).file_operations with
      | .null => .faults
      | .wild => .faults
      | .table .std_operations =>
        .done (nbytes, { s with term := terminal_write s.term ((List.range nbytes.toNat).map buf) })
      | .table .dir_operations => .done (-1, s)
      | .table .file_operations => .done (-1, s)
      | .table .rtc_operations => .done (0, s)

/-- The loop of `sys_open` over the descriptors from 2 on. -/
def first_closed (pcb : pcb_t) : Option (Fin 8) :=
  ([2, 3, 4, 5, 6, 7] : List (Fin 8)).find? fun i => (pcb.fd_arr i).flags = 0#32

/-- An entry of a type other than 0, 1 and 2 keeps the old jump table. -/
def opened_operations (filetype : Word) (old : OpsPtr) : OpsPtr :=
  if filetype = 0#32 then .table .rtc_operations
  else if filetype = 1#32 then .table .dir_operations
  else if filetype = 2#32 then .table .file_operations
  else old

def sys_open (img : Image) (filename : Option CString) (pcb : pcb_t) : Int × pcb_t :=
  match filename with
  | none => (-1, pcb)
  | some filename =>
    match first_closed pcb with
    | none => (-1, pcb)
    | some i =>
      if (pcb.fd_arr i).flags = 1#32 then (-1, pcb)
      else
        match read_dentry_by_name img (some filename) with
        | none => (-1, pcb)
        | some dir_ent =>
          let fd : fd_array_t :=
            { flags := 1#32
              inode := dir_ent.inode_num
              file_position := 0#32
              file_operations := opened_operations dir_ent.filetype (pcb.fd_arr i).file_operations }
          (i.val, pcb.setFd i fd)

/-- Every close installs the directory jump table first, so the close routine
    called at the end is `dir_close`. -/
def sys_close (fd : Int) (pcb : pcb_t) : Int × pcb_t :=
  if fd < 2 ∨ fd > PCB_LENGTH - 1 then (-1, pcb)
  else
    let i := fd_index fd
    let pcb := pcb.setFd i { pcb.fd_arr i with file_operations := .table .dir_operations }
    if (pcb.fd_arr i).flags = 0#32 then (-1, pcb)
    else (0, pcb.setFd i { pcb.fd_arr i with flags := 0#32 })

/-- The copy is always 128 bytes long. -/
def sys_getargs (buf : Nat) (nbytes : Int) (pcb : pcb_t) : Returned :=
  if buf = 0 ∨ nbytes < 0 then ⟨-1, []⟩
  else if pcb.argument 0 = 0#8 then ⟨-1, []⟩
  else ⟨0, List.ofFn pcb.argument⟩

end houseam.system_call
