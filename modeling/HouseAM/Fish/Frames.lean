import HouseAM.Fish.Schedule
import HouseAM.Support.Lines
import HouseAM.Syscalls.Opened

open houseam.filesystem houseam.syscalls houseam.system_call support.clients support.lines

namespace houseam.fish

def SPACE : Byte := 32#8

/-- Where the stack has a character. -/
def char_at (c : Byte) : array_t := ⟨0x83FFF00, [c], by decide⟩

/-- What `add_frames` works on: the place on the screen, the characters read from
    the two files, whether the files are at their end, and the list. -/
structure frames_t where
  row : Nat
  col : Nat
  c0 : Byte
  c1 : Byte
  eof0 : Bool
  eof1 : Bool
  memory : fish_t

/-- The next character of a line, if the line is not at its end. -/
def next_char (fd : Int) (c : Byte) (eof : Bool) : Process (Byte × Bool) :=
  if c ≠ NEWLINE then do
    let (num_bytes, buf) ← ece391_read fd (char_at c) 0 1
    if num_bytes = 0 then return (NEWLINE, true) else return (buf.get 0, eof)
  else return (c, eof)

def Visible (c0 c1 : Byte) : Prop := c0 ≠ SPACE ∧ c0 ≠ NEWLINE ∨ c1 ≠ SPACE ∧ c1 ≠ NEWLINE

instance (c0 c1 : Byte) : Decidable (Visible c0 c1) := inferInstanceAs (Decidable (_ ∨ _))

def blank (c : Byte) : Byte := if c = NEWLINE then SPACE else c

/-- The structure on the stack, with its lengths and a character in it. Its other
    fields are not initialised. -/
def frame_struct (blink_struct : mp1_blink_struct) (row col : Nat) (c0 c1 : Byte) : mp1_blink_struct :=
  { blink_struct with
    location := BitVec.ofNat 16 (row * 80 + col + 40)
    on_char := blank c0
    off_char := blank c1
    on_length := 15#16
    off_length := 15#16 }

/-- One pass of the inner loop, which ends with a row. -/
def column_pass (blink_struct : mp1_blink_struct) (fd0 fd1 : Int) (l : frames_t) : Process (frames_t ⊕ frames_t) := do
  let (c0, eof0) ← next_char fd0 l.c0 l.eof0
  let (c1, eof1) ← next_char fd1 l.c1 l.eof1
  let l := { l with c0 := c0, c1 := c1, eof0 := eof0, eof1 := eof1 }
  if c0 = NEWLINE ∧ c1 = NEWLINE then return .inr l
  else if Visible c0 c1 then
    let memory := (mp1_ioctl_add l.memory (frame_struct blink_struct l.row l.col c0 c1)).2
    return .inl { l with col := l.col + 1, memory := memory }
  else return .inl { l with col := l.col + 1 }

/-- Behind a row a file at its end is closed, and closed again behind every later
    row. -/
def end_row (fd : Int) (eof : Bool) : Process Byte :=
  if eof then do
    let _ ← ece391_close fd
    return NEWLINE
  else return 48#8

/-- One pass of the outer loop. -/
def row_pass (fuel : Nat) (blink_struct : mp1_blink_struct) (fd0 fd1 : Int) (l : frames_t) :
    Process (frames_t ⊕ fish_t) :=
  if l.eof0 = false ∨ l.eof1 = false then do
    let l ← Program.iterate (column_pass blink_struct fd0 fd1) fuel { l with col := 0 }
    let c0 ← end_row fd0 l.eof0
    let c1 ← end_row fd1 l.eof1
    return .inl { l with c0 := c0, c1 := c1, row := l.row + 1 }
  else return .inr l.memory

/-- Without a result the program has halted. -/
def add_frames (fuel : Nat) (blink_struct : mp1_blink_struct) (f0 f1 : CString) (s : fish_t) :
    Process (Option fish_t) := do
  let fd0 ← ece391_open f0
  if fd0 < 0 then return none
  else
    let fd1 ← ece391_open f1
    if fd1 < 0 then return none
    else
      let s ← Program.iterate (row_pass fuel blink_struct fd0 fd1) fuel ⟨0, 0, 48#8, 48#8, false, false, s⟩
      return some s

end houseam.fish
