import HouseAM.Types
import Mathlib.Data.Fin.VecNotation

namespace houseam.terminal

def NUM_COLS : Int := 80
def NUM_ROWS : Int := 25
def ATTRIB : Byte := 0x07#8
def KEYBOARD_BUFFER_SIZE : Nat := 128
def VIDEO_BUFFER_SIZE : Nat := 4096

def NEWLINE : Byte := 0x0A#8
def CARRIAGE_RETURN : Byte := 0x0D#8
def SPACE : Byte := 0x20#8

/-- One set of the numbered save variables: `screen_xN`, `screen_yN`,
    `keyboard_bufferN`, `video_bufferN` and `end_buf_idxN`. -/
structure saved_t where
  screen_x : Int
  screen_y : Int
  keyboard_buffer : Int → Byte
  video_buffer : Int → Byte
  end_buf_idx : Int

/-- The globals of the terminal and keyboard code. Arrays are read through
    their first element's address, so an index outside one reads the memory
    around it; `video_mem` is indexed from 0xB8000. -/
structure terminal_t where
  video_mem : Int → Byte
  screen_x : Int
  screen_y : Int
  keyboard_buffer : Int → Byte
  end_buf_idx : Int
  enter_pressed : Int
  current_terminal : Int
  terminal_used : Fin 3 → Int
  saved1 : saved_t
  saved2 : saved_t
  saved3 : saved_t
  caps_lock_on : Int
  shift_on : Int
  ctrl_on : Int
  alt_on : Int

/-- The globals as the kernel image is loaded: all zero. -/
def zeroed : terminal_t where
  video_mem := fun _ => 0#8
  screen_x := 0
  screen_y := 0
  keyboard_buffer := fun _ => 0#8
  end_buf_idx := 0
  enter_pressed := 0
  current_terminal := 0
  terminal_used := fun _ => 0
  saved1 := ⟨0, 0, fun _ => 0#8, fun _ => 0#8, 0⟩
  saved2 := ⟨0, 0, fun _ => 0#8, fun _ => 0#8, 0⟩
  saved3 := ⟨0, 0, fun _ => 0#8, fun _ => 0#8, 0⟩
  caps_lock_on := 0
  shift_on := 0
  ctrl_on := 0
  alt_on := 0

/-- An array after a loop has assigned `source[i]` to its elements `0 ≤ i < n`. -/
def copyInto (n : Nat) (source target : Int → Byte) : Int → Byte :=
  fun i => if 0 ≤ i ∧ i < n then source i else target i

/-- The save variables cleared by `terminal_init`. -/
def saved_t.clear (saved : saved_t) : saved_t where
  screen_x := 0
  screen_y := 0
  keyboard_buffer := copyInto KEYBOARD_BUFFER_SIZE (fun _ => 0#8) saved.keyboard_buffer
  video_buffer := copyInto VIDEO_BUFFER_SIZE (fun _ => 0#8) saved.video_buffer
  end_buf_idx := 0

/-- What `terminal_init` does before it starts the first shell. -/
def terminal_init (t : terminal_t) : terminal_t :=
  { t with
    keyboard_buffer := copyInto KEYBOARD_BUFFER_SIZE (fun _ => 0#8) t.keyboard_buffer
    saved1 := t.saved1.clear
    saved2 := t.saved2.clear
    saved3 := t.saved3.clear
    end_buf_idx := 0
    current_terminal := 1
    terminal_used := ![1, 0, 0] }

/-- The parts of `keyboard_init` that touch memory. -/
def keyboard_init (t : terminal_t) : terminal_t :=
  { t with enter_pressed := 0, screen_x := 0, screen_y := 0 }

theorem copyInto_inside (n : Nat) (source target : Int → Byte) {i : Int} (hlo : 0 ≤ i) (hhi : i < n) :
    copyInto n source target i = source i := by
  simp only [copyInto, if_pos (And.intro hlo hhi)]

end houseam.terminal
