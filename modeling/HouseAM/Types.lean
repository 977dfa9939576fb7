import Mathlib.Algebra.GroupWithZero.Nat
import Mathlib.Data.List.Basic

namespace houseam

abbrev Byte := BitVec 8

abbrev Word := BitVec 32

/-- There are process slots, descriptors and argument bytes to number. -/
instance slots_neZero : NeZero 6 := ⟨by decide⟩

instance descriptors_neZero : NeZero 8 := ⟨by decide⟩

instance argument_neZero : NeZero 128 := ⟨by decide⟩

/-- A C string: the bytes before its terminating NUL. -/
structure CString where
  bytes : List Byte
  nul_free : 0#8 ∉ bytes
  deriving DecidableEq

namespace CString

/-- The byte a pointer to the string reads at an index; the terminator follows
    the last character. -/
def get (s : CString) (index : Nat) : Byte := s.bytes.getD index 0#8

theorem get_eq_getElem (s : CString) {index : Nat} (hindex : index < s.bytes.length) :
    s.get index = s.bytes[index] := by
  simp [get, hindex]

theorem get_ne_zero (s : CString) {index : Nat} (hindex : index < s.bytes.length) :
    s.get index ≠ 0#8 := by
  intro hzero
  apply s.nul_free
  rw [get_eq_getElem s hindex] at hzero
  exact hzero ▸ List.getElem_mem hindex

end CString

/-- The little-endian 32-bit word stored in four consecutive bytes. -/
def wordOfBytes (b0 b1 b2 b3 : Byte) : Word := b3 ++ b2 ++ b1 ++ b0

end houseam
