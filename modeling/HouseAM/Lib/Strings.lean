import HouseAM.Types

namespace houseam.lib

/-- Counts the characters before the terminating NUL. -/
def strlen (s : CString) : Nat := s.bytes.length

/-- The comparison loop from index `i` with `n` iterations left. A character
    pair that differs, or a shared NUL, ends it. -/
def strncmp_loop (s1 s2 : Nat → Byte) : Nat → Nat → Int
  | 0, _ => 0
  | n + 1, i =>
    if s1 i ≠ s2 i ∨ s1 i = 0#8 then (s1 i).toInt - (s2 i).toInt
    else strncmp_loop s1 s2 n (i + 1)

def strncmp (s1 s2 : Nat → Byte) (n : Nat) : Int := strncmp_loop s1 s2 n 0

/-- The bytes stored from `dest[i]` on: the source is copied up to its NUL and
    the rest of the `n` bytes is padded with NULs. -/
def strncpy_loop (src : Nat → Byte) : Nat → Nat → List Byte
  | 0, _ => []
  | n + 1, i => if src i ≠ 0#8 then src i :: strncpy_loop src n (i + 1) else List.replicate (n + 1) 0#8

def strncpy (src : Nat → Byte) (n : Nat) : List Byte := strncpy_loop src n 0

theorem strncmp_loop_eq_zero_iff (s1 s2 : Nat → Byte) (n i : Nat)
    (hnul : ∀ k, k < n → s1 (i + k) ≠ 0#8) :
    strncmp_loop s1 s2 n i = 0 ↔ ∀ k, k < n → s1 (i + k) = s2 (i + k) := by
  induction n generalizing i with
  | zero => simp [strncmp_loop]
  | succ n ih =>
    have htail := ih (i + 1) (fun k hk => by
      rw [show i + 1 + k = i + (k + 1) by omega]
      exact hnul (k + 1) (by omega))
    have hhead : s1 i ≠ 0#8 := hnul 0 (by omega)
    by_cases heq : s1 i = s2 i
    · have hcontinue : ¬ (s1 i ≠ s2 i ∨ s1 i = 0#8) := by
        rintro (hne | hzero)
        · exact hne heq
        · exact hhead hzero
      rw [strncmp_loop, if_neg hcontinue, htail]
      constructor
      · intro hall k hk
        cases k with
        | zero => exact heq
        | succ k =>
          rw [show i + (k + 1) = i + 1 + k by omega]
          exact hall k (by omega)
      · intro hall k hk
        rw [show i + 1 + k = i + (k + 1) by omega]
        exact hall (k + 1) (by omega)
    · rw [strncmp_loop, if_pos (Or.inl heq)]
      constructor
      · intro hzero
        exact absurd (BitVec.eq_of_toInt_eq (by omega)) heq
      · intro hall
        exact absurd (hall 0 (by omega)) heq

/-- On strings without an early NUL, `strncmp` tests equality of `n` bytes. -/
theorem strncmp_eq_zero_iff (s1 s2 : Nat → Byte) (n : Nat) (hnul : ∀ k, k < n → s1 k ≠ 0#8) :
    strncmp s1 s2 n = 0 ↔ ∀ k, k < n → s1 k = s2 k := by
  have h := strncmp_loop_eq_zero_iff s1 s2 n 0 (by simpa using hnul)
  simpa only [strncmp, Nat.zero_add] using h

/-- The string at an address: the bytes before the first NUL, at most `n` of
    them. -/
def string_at (src : Nat → Byte) (n : Nat) : List Byte := ((List.range n).map src).takeWhile (· ≠ 0#8)

theorem string_at_succ (src : Nat → Byte) (n : Nat) :
    string_at src (n + 1) = if src 0 ≠ 0#8 then src 0 :: string_at (fun k => src (k + 1)) n else [] := by
  simp only [string_at, List.range_succ_eq_map, List.map_cons, List.map_map, List.takeWhile_cons, decide_eq_true_eq]
  rfl

theorem string_at_begins (src : Nat → Byte) (n : Nat) : string_at src n <+: (List.range n).map src :=
  List.takeWhile_prefix _

theorem string_at_length_le (src : Nat → Byte) (n : Nat) : (string_at src n).length ≤ n := by
  have hle := (string_at_begins src n).length_le
  simpa using hle

theorem string_at_get (src : Nat → Byte) (n : Nat) {k : Nat} (hk : k < (string_at src n).length) :
    (string_at src n)[k] = src k := by
  have hget := (string_at_begins src n).getElem hk
  simpa using hget

/-- The copy is the string, padded with NULs to `n` bytes. -/
theorem strncpy_loop_eq (src : Nat → Byte) (n i : Nat) :
    strncpy_loop src n i = string_at (fun k => src (i + k)) n ++
      List.replicate (n - (string_at (fun k => src (i + k)) n).length) 0#8 := by
  induction n generalizing i with
  | zero => rfl
  | succ n ih =>
    rw [strncpy_loop, string_at_succ]
    by_cases hnul : src i ≠ 0#8
    · have hrest := ih (i + 1)
      simp only [Nat.add_right_comm i 1] at hrest
      simp only [Nat.add_zero, if_pos hnul, hrest, List.length_cons, Nat.add_sub_add_right, List.cons_append]
      rfl
    · simp only [Nat.add_zero, if_neg hnul, List.length_nil, List.nil_append, Nat.sub_zero]

theorem strncpy_eq (src : Nat → Byte) (n : Nat) :
    strncpy src n = string_at src n ++ List.replicate (n - (string_at src n).length) 0#8 := by
  simpa only [strncpy, Nat.zero_add] using strncpy_loop_eq src n 0

@[simp] theorem strncpy_loop_length (src : Nat → Byte) (n i : Nat) : (strncpy_loop src n i).length = n := by
  induction n generalizing i with
  | zero => rfl
  | succ n ih =>
    rw [strncpy_loop]
    split
    · simp [ih]
    · simp

@[simp] theorem strncpy_length (src : Nat → Byte) (n : Nat) : (strncpy src n).length = n :=
  strncpy_loop_length src n 0

end houseam.lib
