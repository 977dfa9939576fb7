import HouseAM.Descriptor.Run
import HouseAM.Lib.Strings
import HouseAM.Support.Clients
import Mathlib.Data.List.TakeWhile

open houseam.filesystem houseam.lib houseam.system_call support.clients

namespace houseam.syscalls

/-- The system calls a program makes, with the arguments that the kernel's
    functions get. -/
inductive Request where
  | ece391_read (fd : Int) (buf : Nat) (nbytes : Int)
  | ece391_write (fd : Int) (buf : Nat → Byte) (nbytes : Int)
  | ece391_open (filename : CString)
  | ece391_close (fd : Int)
  | ece391_getargs (buf : Nat) (nbytes : Int)

/-- A program, or what is left of it. It is lost where it leaves one of its
    arrays. -/
abbrev Process : Type → Type := Program Request Returned

/-- The calls a program has made, each with what it returned. -/
abbrev Transcript : Type := History Request Returned

/-- An array of a program, on its stack. -/
structure array_t where
  address : Nat
  bytes : List Byte
  not_null : address ≠ 0

/-- Storing bytes from an index on. -/
def array_t.store (buf : array_t) (i : Nat) (stored : List Byte) : Option array_t :=
  if i + stored.length ≤ buf.bytes.length then
    some { buf with bytes := buf.bytes.take i ++ stored ++ buf.bytes.drop (i + stored.length) }
  else none

def array_t.get (buf : array_t) (i : Nat) : Byte := buf.bytes.getD i 0#8

/-- The bytes before the first NUL. -/
def text_of (bytes : List Byte) : CString :=
  ⟨bytes.takeWhile (· ≠ 0#8), fun h => by simpa using List.mem_takeWhile_imp h⟩

/-- The string that starts a row of bytes, if a NUL ends it. -/
def string_of (bytes : List Byte) : Option CString := if 0#8 ∈ bytes then some (text_of bytes) else none

/-- The string at an index. -/
def array_t.string (buf : array_t) (i : Nat) : Option CString := string_of (buf.bytes.drop i)

/-- The characters of a string literal. -/
def literal (text : String) : List Byte := text.toList.map fun c => BitVec.ofNat 8 c.toNat

def NEWLINE : Byte := 10#8

/-! The wrappers of the system calls. The kernel stores from `buf[i]` on. -/

def ece391_read (fd : Int) (buf : array_t) (i : Nat) (nbytes : Int) : Process (Int × array_t) :=
  .request (.ece391_read fd (buf.address + i) nbytes) fun r =>
    (Program.given (buf.store i r.stored)).bind fun buf => .done (r.value, buf)

def ece391_getargs (buf : array_t) (nbytes : Int) : Process (Int × array_t) :=
  .request (.ece391_getargs buf.address nbytes) fun r =>
    (Program.given (buf.store 0 r.stored)).bind fun buf => .done (r.value, buf)

def ece391_write (fd : Int) (buf : array_t) (i : Nat) (nbytes : Int) : Process Int :=
  if i + nbytes.toNat ≤ buf.bytes.length then
    .request (.ece391_write fd (fun k => buf.get (i + k)) nbytes) fun r => .done r.value
  else .lost

def ece391_open (filename : CString) : Process Int := .request (.ece391_open filename) fun r => .done r.value

def ece391_close (fd : Int) : Process Int := .request (.ece391_close fd) fun r => .done r.value

def ece391_strlen (s : CString) : Nat := s.bytes.length

/-- The loop of `ece391_strcpy`, from one place of an array to another, with so
    many bytes to go. -/
def strcpy_loop : Nat → array_t → Nat → Nat → Option array_t
  | 0, _, _, _ => none
  | n + 1, buf, dst, src =>
    match buf.bytes[src]? with
    | none => none
    | some b => (buf.store dst [b]).bind fun buf => if b = 0#8 then some buf else strcpy_loop n buf (dst + 1) (src + 1)

def ece391_strcpy (buf : array_t) (dst src : Nat) : Option array_t := strcpy_loop buf.bytes.length buf dst src

/-- The loop of `ece391_strncmp`, with so many characters to go. -/
def ece391_strncmp_loop (s1 s2 : Nat → Byte) : Nat → Nat → Int
  | 0, _ => 0
  | n + 1, i =>
    if s1 i = s2 i then if s1 i = 0#8 then 0 else ece391_strncmp_loop s1 s2 n (i + 1)
    else (s1 i).toNat - (s2 i).toNat

def ece391_strncmp (s1 s2 : Nat → Byte) (n : Nat) : Int := ece391_strncmp_loop s1 s2 n 0

/-- What the write returns is not looked at. -/
def ece391_fdputs (fd : Int) (s : CString) : Process Unit :=
  .request (.ece391_write fd s.get (ece391_strlen s)) fun _ => .done ()

/-! The kernel as the programs see it. -/

/-- The result of a call that returns. -/
def returned {α : Type} : Outcome α → Option α
  | .done result => some result
  | .waits => none
  | .faults => none

def serve (img : Image) (s : Task) : Request → Option (Returned × Task)
  | .ece391_read fd buf nbytes => returned (sys_read img fd buf nbytes s)
  | .ece391_write fd buf nbytes =>
    (returned (sys_write fd (some buf) nbytes s)).map fun result => (⟨result.1, []⟩, result.2)
  | .ece391_open filename =>
    let result := sys_open img (some filename) s.pcb
    some (⟨result.1, []⟩, { s with pcb := result.2 })
  | .ece391_close fd =>
    let result := sys_close fd s.pcb
    some (⟨result.1, []⟩, { s with pcb := result.2 })
  | .ece391_getargs buf nbytes => some (sys_getargs buf nbytes s.pcb, s)

/-- The call of the kernel that a request leads to. A request for the argument
    only reads. -/
def Request.call : Request → Option Call
  | .ece391_read fd buf nbytes => some (.sys_read fd buf nbytes)
  | .ece391_write fd buf nbytes => some (.sys_write fd (some buf) nbytes)
  | .ece391_open filename => some (.sys_open (some filename))
  | .ece391_close fd => some (.sys_close fd)
  | .ece391_getargs _ _ => none

/-- Between two calls of a program anything can happen to the terminal, and
    nothing happens to its PCB. -/
def kernel (img : Image) : Service Task Request Returned where
  serve := serve img
  drifts s s' := s'.pcb = s.pcb
  refl _ := rfl
  trans h h' := h'.trans h

/-- What a request hands to the terminal: the bytes of a write to descriptor 1 that
    was accepted. -/
def shown : Request × Returned → List Byte
  | (.ece391_write fd buf nbytes, r) => if fd = 1 ∧ r.value ≠ -1 then (List.range nbytes.toNat).map buf else []
  | _ => []

def written (history : Transcript) : List Byte := history.flatMap shown

end houseam.syscalls
