import Mathlib.Logic.Nontrivial.Basic
import Mathlib.Logic.Function.Basic

namespace support.memory

/-- Memory after `bytes` are stored from address `start` upward. -/
def storeAt {Cell : Type} (memory : Nat → Cell) (start : Nat) (bytes : List Cell) : Nat → Cell :=
  fun address => if start ≤ address then (bytes[address - start]?).getD (memory address) else memory address

theorem storeAt_below {Cell : Type} (memory : Nat → Cell) (bytes : List Cell) {start address : Nat}
    (hbelow : address < start) : storeAt memory start bytes address = memory address := by
  simp only [storeAt, if_neg (Nat.not_le.mpr hbelow)]

theorem storeAt_above {Cell : Type} (memory : Nat → Cell) (bytes : List Cell) {start address : Nat}
    (habove : start + bytes.length ≤ address) : storeAt memory start bytes address = memory address := by
  have hnone : bytes[address - start]? = none := List.getElem?_eq_none (by omega)
  have hle : start ≤ address := by omega
  simp only [storeAt, if_pos hle, hnone, Option.getD_none]

theorem storeAt_inside {Cell : Type} (memory : Nat → Cell) (bytes : List Cell) (start : Nat)
    {index : Nat} (hindex : index < bytes.length) :
    storeAt memory start bytes (start + index) = bytes[index] := by
  simp [storeAt, hindex]

/-- A store whose bytes end by `start + limit` is exactly a store that leaves
    everything outside `[start, start + limit)` alone, whatever was there. -/
theorem storeAt_confined_iff {Cell : Type} [Nontrivial Cell] (start limit : Nat) (bytes : List Cell) :
    (∀ (memory : Nat → Cell) (address : Nat), address < start ∨ start + limit ≤ address →
        storeAt memory start bytes address = memory address) ↔ bytes.length ≤ limit := by
  constructor
  · intro hconfined
    by_contra hlong
    have hindex : limit < bytes.length := by omega
    obtain ⟨other, hother⟩ := exists_ne (bytes[limit])
    have hsame := hconfined (fun _ => other) (start + limit) (Or.inr (Nat.le_refl _))
    rw [storeAt_inside _ bytes start hindex] at hsame
    exact hother hsame.symm
  · intro hshort memory address houtside
    cases houtside with
    | inl hbelow => exact storeAt_below memory bytes hbelow
    | inr habove => exact storeAt_above memory bytes (by omega)

end support.memory
