import HouseAM.Support.Lines
import HouseAM.Syscalls.Ls

open houseam.filesystem houseam.system_call support.clients support.lines

namespace houseam.syscalls.grep

def BUFSIZE : Nat := 1024
def SBUFSIZE : Nat := 33

def file_open_failed : CString := ⟨literal "file open failed\n", by decide⟩
def file_close_failed : CString := ⟨literal "file close failed\n", by decide⟩
def could_not_read_argument : CString := ⟨literal "could not read argument\n", by decide⟩
def colon : CString := ⟨literal ":", by decide⟩
def newline : CString := ⟨literal "\n", by decide⟩

/-! The other texts are those of the other programs. -/

def file_read_failed : CString := cat.file_read_failed
def directory_open_failed : CString := ls.directory_open_failed
def directory_entry_read_failed : CString := ls.directory_entry_read_failed

/-- The loop that looks for the end of a line, with so many bytes to go. -/
def find_line_end (data : array_t) (last : Nat) : Nat → Nat → Nat
  | 0, line_end => line_end
  | n + 1, line_end =>
    if line_end < last ∧ data.get line_end ≠ NEWLINE then find_line_end data last n (line_end + 1) else line_end

/-- The loop that searches a line, with so many places to go. -/
def search_line (s : CString) (data : array_t) : Nat → Nat → Bool
  | 0, _ => false
  | n + 1, check =>
    if s.get 0 = data.get check ∧ ece391_strncmp (fun k => data.get (check + k)) s.get (ece391_strlen s) = 0 then true
    else search_line s data n (check + 1)

def show_line (fname : CString) (data : array_t) (line_start : Nat) : Process Unit := do
  ece391_fdputs 1 fname
  ece391_fdputs 1 colon
  let line ← Program.given (data.string line_start)
  ece391_fdputs 1 line
  ece391_fdputs 1 newline

/-- The search of one line. -/
def do_one_line (s fname : CString) (data : array_t) (line_start line_end : Nat) : Process Unit :=
  if search_line s data (line_end - line_start) line_start then show_line fname data line_start else return ()

/-- One pass of the inner loop: a line is searched, or the start of a line that
    goes on is moved to the front. The loop ends with what is in the array then. -/
def scan (s fname : CString) (last : Nat) (cnt : Int) (locals : array_t × Nat) :
    Process ((array_t × Nat) ⊕ (array_t × Nat)) := do
  let (data, line_start) := locals
  let line_end := find_line_end data last (last - line_start) line_start
  if data.get line_end ≠ NEWLINE ∧ cnt ≠ 0 ∧ line_start ≠ 0 then
    let data ← Program.given (data.store line_end [0#8])
    let data ← Program.given (ece391_strcpy data 0 line_start)
    return .inr (data, last - line_start)
  else
    let data ← Program.given (data.store line_end [0#8])
    do_one_line s fname data line_start line_end
    if line_end + 1 ≥ last then return .inr (data, 0) else return .inl (data, line_end + 1)

/-- One pass of the outer loop, with what is left in the array from the pass
    before. The inner loop has no more passes than there are bytes. -/
def pass (s fname : CString) (fd : Int) (locals : array_t × Nat) : Process ((array_t × Nat) ⊕ Int) := do
  let (data, last) := locals
  let (cnt, data) ← ece391_read fd data last (BUFSIZE - last)
  if cnt = -1 then
    ece391_fdputs 1 file_read_failed
    return .inr (-1)
  else
    let locals ← Program.iterate (scan s fname (last + cnt).toNat cnt) (BUFSIZE + 2) (data, 0)
    if cnt = 0 then return .inr 0 else return .inl locals

def do_one_file (fuel : Nat) (s fname : CString) (data : array_t) : Process Int := do
  let fd ← ece391_open fname
  if fd = -1 then
    ece391_fdputs 1 file_open_failed
    return -1
  else
    let status ← Program.iterate (pass s fname fd) fuel (data, 0)
    if status = -1 then return -1
    else
      let closed ← ece391_close fd
      if closed = -1 then
        ece391_fdputs 1 file_close_failed
        return -1
      else return 0

/-- One pass of the loop over the directory. `stack` is what the stack holds
    where `do_one_file` has its array. -/
def main_pass (fuel : Nat) (search : CString) (fd : Int) (stack : Nat → array_t) (locals : array_t × Nat) :
    Process ((array_t × Nat) ⊕ Int) := do
  let (buf, n) := locals
  let (cnt, buf) ← ece391_read fd buf 0 (SBUFSIZE - 1 : Nat)
  if cnt = 0 then return .inr 0
  else if cnt = -1 then
    ece391_fdputs 1 directory_entry_read_failed
    return .inr 3
  else if buf.get 0 = 0x2E#8 then return .inl (buf, n + 1)
  else
    let buf ← Program.given (buf.store cnt.toNat [0#8])
    let fname ← Program.given (buf.string 0)
    let status ← do_one_file fuel search fname (stack n)
    if status ≠ 0 then return .inr 3 else return .inl (buf, n + 1)

def main (fuel : Nat) (search buf : array_t) (stack : Nat → array_t) : Process Int := do
  let (result, search) ← ece391_getargs search BUFSIZE
  if result ≠ 0 then
    ece391_fdputs 1 could_not_read_argument
    return 3
  else
    let search ← Program.given (search.string 0)
    let fd ← ece391_open directory_name
    if fd = -1 then
      ece391_fdputs 1 directory_open_failed
      return 2
    else Program.iterate (main_pass fuel search fd stack) fuel (buf, 0)

end houseam.syscalls.grep
