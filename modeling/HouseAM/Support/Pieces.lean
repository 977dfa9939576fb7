import Mathlib.Algebra.GroupWithZero.Nat
import Mathlib.Data.List.Basic

namespace support.stream

variable {α : Type}

/-- The consecutive pieces of `contents` handed out to requests of the given
    sizes, each one cut short at the end of `contents`. -/
def pieces (contents : List α) : List Nat → List (List α)
  | [] => []
  | size :: sizes => contents.take size :: pieces (contents.drop size) sizes

@[simp] theorem pieces_nil (contents : List α) : pieces contents [] = [] := rfl

@[simp] theorem pieces_cons (contents : List α) (size : Nat) (sizes : List Nat) :
    pieces contents (size :: sizes) = contents.take size :: pieces (contents.drop size) sizes := rfl

/-- One more request continues where the earlier ones stopped. -/
theorem pieces_concat (contents : List α) (sizes : List Nat) (size : Nat) :
    pieces contents (sizes ++ [size]) =
      pieces contents sizes ++ [(contents.drop sizes.sum).take size] := by
  induction sizes generalizing contents with
  | nil => simp
  | cons first sizes ih => simp [ih, List.drop_drop]

/-- The pieces put back together are the prefix of the requested total. -/
theorem pieces_flatten (contents : List α) (sizes : List Nat) :
    (pieces contents sizes).flatten = contents.take sizes.sum := by
  induction sizes generalizing contents with
  | nil => simp
  | cons size sizes ih => simp [ih, List.take_add]

end support.stream
