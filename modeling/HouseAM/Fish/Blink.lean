import HouseAM.Types
import HouseAM.Support.Chains

open support.loops support.chains

namespace houseam.fish

/-- The columns and rows of the text screen. -/
def SCREEN_CELLS : Nat := 80 * 25

/-- A blinking character, all of its structure but the link. The low bit of the
    status says that it is on. -/
structure blink_t where
  location : BitVec 16
  on_char : Byte
  off_char : Byte
  on_length : BitVec 16
  off_length : BitVec 16
  countdown : BitVec 16
  status : BitVec 16
  deriving DecidableEq

/-- A link is null or leads to another structure of `blink_array`. -/
structure mp1_blink_struct extends blink_t where
  next : Option (Fin 2000)
  deriving DecidableEq

def zeroed_struct : mp1_blink_struct := ⟨⟨0#16, 0#8, 0#8, 0#16, 0#16, 0#16, 0#16⟩, none⟩

/-- The variables of the program, and the video memory: a screen that is mapped for
    the program, as `ece391_vidmap` is there to do. -/
structure fish_t where
  blink_array : Fin 2000 → mp1_blink_struct
  mp1_list_head : Option (Fin 2000)
  vmem : Nat → Byte

/-- Storing a structure. -/
def fish_t.set (s : fish_t) (i : Fin 2000) (b : mp1_blink_struct) : fish_t :=
  { s with blink_array := Function.update s.blink_array i b }

def fish_t.links (s : fish_t) (i : Fin 2000) : Option (Fin 2000) := (s.blink_array i).next

/-- The array behind `main`'s `ece391_memset`, the empty list, and a mapped screen with
    something on it. -/
def fish_start (vmem : Nat → Byte) : fish_t := ⟨fun _ => zeroed_struct, none, vmem⟩

def mp1_poke (s : fish_t) (cl : Byte) (eax : Nat) : fish_t := { s with vmem := Function.update s.vmem eax cl }

/-- A structure at location 0 counts as unused. -/
def mp1_malloc (s : fish_t) : Option (Fin 2000) :=
  (List.finRange 2000).find? fun i => (s.blink_array i).location = 0#16

def mp1_free (s : fish_t) (memory : Fin 2000) : fish_t := s.set memory zeroed_struct

/-- Storing a pointer to where another pointer is: the head of the list or the
    link of a structure. -/
def fish_t.redirect (s : fish_t) (place pointer : Option (Fin 2000)) : fish_t :=
  match place with
  | none => { s with mp1_list_head := pointer }
  | some p => s.set p { s.blink_array p with next := pointer }

/-- The first structure of the list at a location, or null. Without a result the
    loop does not end: a list of more structures than there are comes back to
    one of them. -/
def mp1_find_helper (s : fish_t) (ax : BitVec 16) : Option (Option (Fin 2000)) :=
  loop (Searching fun ebx => (s.blink_array ebx).location = ax) (fun ebx => ebx.bind s.links) 2000 s.mp1_list_head

/-- The copy on the stack is marked as on, and then copied once more. Its own link
    is overwritten. -/
def mp1_ioctl_add (s : fish_t) (arg : mp1_blink_struct) : Int × fish_t :=
  if SCREEN_CELLS ≤ arg.location.toNat then (-1, s)
  else
    let ebx := { arg with status := 1#16, countdown := arg.on_length }
    match mp1_malloc s with
    | none => (-1, s)
    | some edx =>
      let s := s.set edx { ebx with next := s.mp1_list_head }
      let s := { s with mp1_list_head := some edx }
      (0, mp1_poke s ebx.on_char (2 * ebx.location.toNat))

/-- The loop gets to the structure as the search did, so it follows no null
    pointer. -/
def remove_find_prev (s : fish_t) (eax : Fin 2000) : Option (Option (Fin 2000)) :=
  loop (fun edx => pointee s.mp1_list_head s.links edx ≠ some eax) (pointee s.mp1_list_head s.links) 2000 none

def mp1_ioctl_remove (s : fish_t) (arg : Word) : Option (Int × fish_t) :=
  (mp1_find_helper s (arg.setWidth 16)).bind fun eax =>
    match eax with
    | none => some (-1, s)
    | some eax => (remove_find_prev s eax).map fun edx => (0, mp1_free (s.redirect edx (s.links eax)) eax)

/-- The sign and the overflow flag behind `testb`. -/
def testb (a b : Byte) : Bool × Bool := ((a &&& b).msb, false)

/-- `cmovl` moves if the flags say "less". -/
def cmovl (flags : Bool × Bool) (source destination : Byte) : Byte :=
  if flags.1 ≠ flags.2 then source else destination

/-- The second structure takes over the timing of the first one, and is shown. -/
def mp1_ioctl_sync (s : fish_t) (arg : Word) : Option (Int × fish_t) :=
  (mp1_find_helper s ((arg >>> 16).setWidth 16)).bind fun eax =>
    match eax with
    | none => some (-1, s)
    | some esi =>
      (mp1_find_helper s ((arg &&& 0xFFFF#32).setWidth 16)).map fun eax =>
        match eax with
        | none => (-1, s)
        | some edi =>
          let source := s.blink_array esi
          let s := s.set edi { s.blink_array edi with
            on_length := source.on_length
            off_length := source.off_length
            countdown := source.countdown
            status := source.status }
          let edi := s.blink_array edi
          let cl := cmovl (testb 0x1#8 (edi.status.setWidth 8)) edi.on_char edi.off_char
          (0, mp1_poke s cl (2 * edi.location.toNat))

/-- What is copied back to the caller, with the return value. -/
def mp1_ioctl_find (s : fish_t) (location : BitVec 16) : Option (Int × Option mp1_blink_struct) :=
  (mp1_find_helper s location).map fun eax =>
    match eax with
    | none => (-1, none)
    | some eax => (0, some (s.blink_array eax))

def end_blink (s : fish_t) (ebx : Fin 2000) (dx : BitVec 16) : fish_t :=
  s.set ebx { s.blink_array ebx with countdown := dx, status := (s.blink_array ebx).status ^^^ 1#16 }

/-- One structure of `tasklet_loop`. The countdown is signed. -/
def tasklet_pass (s : fish_t) (ebx : Fin 2000) : fish_t :=
  let s := s.set ebx { s.blink_array ebx with countdown := (s.blink_array ebx).countdown - 1#16 }
  let b := s.blink_array ebx
  if 0 < b.countdown.toInt then s
  else if b.status &&& 1#16 = 0#16 then end_blink (mp1_poke s b.on_char (2 * b.location.toNat)) ebx b.on_length
  else end_blink (mp1_poke s b.off_char (2 * b.location.toNat)) ebx b.off_length

def mp1_rtc_tasklet (s : fish_t) : Option fish_t :=
  (loop Walking (walk_pass fish_t.links tasklet_pass) 2000 (s.mp1_list_head, s)).map (·.2)

/-- The calls of `mp1_ioctl`, by the routine that its table has for the command,
    and the clock. -/
inductive Request where
  | add (arg : mp1_blink_struct)
  | remove (arg : Word)
  | find (location : BitVec 16)
  | sync (arg : Word)
  | tasklet

inductive Response where
  | value (value : Int)
  | found (b : blink_t)
  | ticked
  deriving DecidableEq

/-- No result is a call that never returns. -/
def serve (s : fish_t) : Request → Option (Response × fish_t)
  | .add arg => some (.value (mp1_ioctl_add s arg).1, (mp1_ioctl_add s arg).2)
  | .remove arg => (mp1_ioctl_remove s arg).map fun result => (.value result.1, result.2)
  | .find location => (mp1_ioctl_find s location).map fun result =>
    match result.2 with
    | none => (.value result.1, s)
    | some b => (.found b.toblink_t, s)
  | .sync arg => (mp1_ioctl_sync s arg).map fun result => (.value result.1, result.2)
  | .tasklet => (mp1_rtc_tasklet s).map fun s => (.ticked, s)

end houseam.fish
