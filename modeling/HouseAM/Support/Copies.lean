import Mathlib.Algebra.GroupWithZero.Nat
import Mathlib.Logic.Function.Basic

namespace support.copies

variable {w : Nat} {Cell : Type} {memory : BitVec w → Cell} {start address : BitVec w} {m n k : Nat}
  {value other : Nat → Cell}

/-- Memory after `n` cells from `start` upward have got their values. The
    addresses wrap around. -/
def filled (memory : BitVec w → Cell) (start : BitVec w) (n : Nat) (value : Nat → Cell) (address : BitVec w) : Cell :=
  if (address - start).toNat < n then value (address - start).toNat else memory address

/-- The memory `after` differs from an earlier one in `n` cells from `start`
    upward, which have their values. -/
structure Fills (memory : BitVec w → Cell) (start : BitVec w) (n : Nat) (value : Nat → Cell)
    (after : BitVec w → Cell) : Prop where
  inside : ∀ k < n, after (start + BitVec.ofNat w k) = value k
  outside : ∀ address, (∀ k < n, address ≠ start + BitVec.ofNat w k) → after address = memory address

/-- The loop that gives the cells their values one by one, each computed in the
    memory at hand. -/
def cell_loop (memory : BitVec w → Cell) (start : BitVec w) (value : (BitVec w → Cell) → Nat → Cell) :
    Nat → BitVec w → Cell
  | 0 => memory
  | n + 1 =>
    let memory := cell_loop memory start value n
    Function.update memory (start + BitVec.ofNat w n) (value memory n)

theorem offset_toNat (hk : k < 2 ^ w) : (start + BitVec.ofNat w k - start).toNat = k := by
  rw [BitVec.add_comm, BitVec.add_sub_cancel, BitVec.toNat_ofNat, Nat.mod_eq_of_lt hk]

theorem eq_offset (address start : BitVec w) : address = start + BitVec.ofNat w (address - start).toNat := by
  rw [BitVec.ofNat_toNat, BitVec.setWidth_eq, BitVec.add_comm, BitVec.sub_add_cancel]

theorem filled_zero : filled memory start 0 value = memory := by
  funext address
  rw [filled, if_neg (Nat.not_lt_zero _)]

theorem filled_inside (hn : n ≤ 2 ^ w) (hk : k < n) :
    filled memory start n value (start + BitVec.ofNat w k) = value k := by
  rw [filled, offset_toNat (Nat.lt_of_lt_of_le hk hn), if_pos hk]

theorem filled_outside (houtside : n ≤ (address - start).toNat) :
    filled memory start n value address = memory address := by
  rw [filled, if_neg (Nat.not_lt.mpr houtside)]

theorem filled_congr (hsame : ∀ k < n, value k = other k) :
    filled memory start n value = filled memory start n other := by
  funext address
  unfold filled
  split
  · rename_i hinside
    exact hsame _ hinside
  · rfl

theorem filled_fills (hn : n ≤ 2 ^ w) : Fills memory start n value (filled memory start n value) where
  inside := fun _ hk => filled_inside hn hk
  outside := by
    intro address houtside
    apply filled_outside
    by_contra hinside
    exact houtside _ (Nat.lt_of_not_le hinside) (eq_offset address start)

/-- How far one cell of a range is behind another one. -/
theorem offset_sub_offset (start : BitVec w) (hm : m < 2 ^ w) (hk : k < 2 ^ w) :
    (start + BitVec.ofNat w k - (start + BitVec.ofNat w m)).toNat = if m ≤ k then k - m else 2 ^ w - m + k := by
  have hcancel : start + BitVec.ofNat w k - (start + BitVec.ofNat w m) = BitVec.ofNat w k - BitVec.ofNat w m := by
    grind
  rw [hcancel, BitVec.toNat_sub, BitVec.toNat_ofNat, BitVec.toNat_ofNat, Nat.mod_eq_of_lt hm, Nat.mod_eq_of_lt hk]
  split
  · rename_i hle
    rw [show 2 ^ w - m + k = k - m + 2 ^ w by omega, Nat.add_mod_right, Nat.mod_eq_of_lt (by omega)]
  · exact Nat.mod_eq_of_lt (by omega)

/-- What was filled goes on where it ends. -/
theorem filled_append (value : Nat → Cell) (hfits : m + n ≤ 2 ^ w) :
    filled (filled memory start m value) (start + BitVec.ofNat w m) n (fun k => value (m + k)) =
      filled memory start (m + n) value := by
  by_cases hnone : n = 0
  · subst hnone
    exact filled_zero
  funext address
  have haddress := eq_offset address start
  have hoffset : (address - start).toNat < 2 ^ w := BitVec.isLt _
  generalize (address - start).toNat = k at haddress hoffset
  subst haddress
  have hfirst : (start + BitVec.ofNat w k - start).toNat = k := offset_toNat hoffset
  have hsecond := offset_sub_offset start (show m < 2 ^ w by omega) hoffset
  by_cases hbefore : k < m
  · rw [if_neg (by omega)] at hsecond
    rw [filled_outside (by omega), filled, hfirst, if_pos hbefore, filled, hfirst, if_pos (by omega)]
  · rw [if_pos (by omega)] at hsecond
    by_cases hinside : k < m + n
    · rw [filled, hsecond, if_pos (by omega), filled, hfirst, if_pos hinside, Nat.add_sub_cancel' (by omega)]
    · rw [filled_outside (by omega), filled, hfirst, if_neg hbefore, filled, hfirst, if_neg hinside]

theorem filled_one : filled memory start 1 value = Function.update memory start (value 0) := by
  funext address
  have haddress := eq_offset address start
  by_cases hstart : (address - start).toNat = 0
  · rw [hstart, BitVec.add_zero] at haddress
    rw [filled, hstart, if_pos Nat.one_pos, haddress, Function.update_self]
  · have hother : address ≠ start := by
      rintro rfl
      exact hstart (by rw [BitVec.sub_self, BitVec.toNat_zero])
    rw [filled, if_neg (by omega), Function.update_of_ne hother]

/-- One more cell behind the filled ones. -/
theorem filled_succ (value : Nat → Cell) (hn : n < 2 ^ w) :
    Function.update (filled memory start n value) (start + BitVec.ofNat w n) (value n) =
      filled memory start (n + 1) value := by
  rw [← filled_append value hn, filled_one, Nat.add_zero]

/-- One more cell before the filled ones. -/
theorem filled_cons (value : Nat → Cell) (hn : n < 2 ^ w) :
    Function.update (filled memory (start + BitVec.ofNat w 1) n fun k => value (1 + k)) start (value 0) =
      filled memory start (1 + n) value := by
  by_cases hnone : n = 0
  · subst hnone
    rw [filled_zero, filled_one]
  rw [← filled_append value (by omega), filled_one]
  funext address
  by_cases hstart : address = start
  · have hbehind : (start + BitVec.ofNat w 0 - (start + BitVec.ofNat w 1)).toNat = 2 ^ w - 1 + 0 :=
      offset_sub_offset start (show 1 < 2 ^ w by omega) (Nat.two_pow_pos w)
    rw [BitVec.add_zero] at hbehind
    rw [hstart, Function.update_self, filled_outside (by omega), Function.update_self]
  · rw [Function.update_of_ne hstart, filled, filled, Function.update_of_ne hstart]

/-- The loop fills the cells, if what it computes for a cell is the same before
    and after the cells in front of it are filled. -/
theorem cell_loop_eq {computed : (BitVec w → Cell) → Nat → Cell} (hn : n ≤ 2 ^ w)
    (hvalue : ∀ k < n, computed (filled memory start k value) k = value k) :
    cell_loop memory start computed n = filled memory start n value := by
  induction n with
  | zero => exact filled_zero.symm
  | succ n ih =>
    rw [cell_loop, ih (by omega) fun k hk => hvalue k (Nat.lt_succ_of_lt hk)]
    rw [hvalue n (Nat.lt_succ_self n), filled_succ value hn]

end support.copies
