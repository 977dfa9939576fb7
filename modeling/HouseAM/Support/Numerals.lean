import Mathlib.Data.Nat.Digits.Lemmas

namespace support.numerals

variable {Symbol : Type} {digit : Nat → Symbol} {digit_value : Symbol → Nat} {radix value k : Nat}
  {symbols : List Symbol}

/-- The digits of a value, the highest one first. -/
def numeral (digit : Nat → Symbol) (radix value : Nat) : List Symbol :=
  if value = 0 then [digit 0] else ((Nat.digits radix value).map digit).reverse

/-- The number that a row of digits stands for. -/
def number (digit_value : Symbol → Nat) (radix : Nat) (symbols : List Symbol) : Nat :=
  symbols.foldl (fun value symbol => value * radix + digit_value symbol) 0

/-- A row of digits that stands for a value and has no zero in front. -/
structure Canonical (digit : Nat → Symbol) (digit_value : Symbol → Nat) (radix value : Nat)
    (symbols : List Symbol) : Prop where
  nonempty : symbols ≠ []
  digits : ∀ symbol ∈ symbols, ∃ d < radix, symbol = digit d
  no_leading_zero : symbols.head? = some (digit 0) → symbols = [digit 0]
  stands_for : number digit_value radix symbols = value

theorem number_append (symbols : List Symbol) (symbol : Symbol) :
    number digit_value radix (symbols ++ [symbol]) = number digit_value radix symbols * radix + digit_value symbol := by
  rw [number, List.foldl_append]
  rfl

/-- Zeros in front do not count. -/
theorem number_replicate (hzero : digit_value (digit 0) = 0) (n : Nat) (symbols : List Symbol) :
    number digit_value radix (List.replicate n (digit 0) ++ symbols) = number digit_value radix symbols := by
  induction n with
  | zero => rfl
  | succ n ih =>
    rw [← ih, List.replicate_succ, List.cons_append, number, List.foldl_cons, hzero, Nat.zero_mul, Nat.zero_add]
    rfl

theorem number_reverse (hdigits : ∀ d < radix, digit_value (digit d) = d) {places : List Nat}
    (hplaces : ∀ d ∈ places, d < radix) :
    number digit_value radix (places.map digit).reverse = Nat.ofDigits radix places := by
  induction places with
  | nil => rfl
  | cons d places ih =>
    rw [List.map_cons, List.reverse_cons, number_append, ih fun d hd => hplaces d (List.mem_cons_of_mem _ hd),
      hdigits d (hplaces d List.mem_cons_self), Nat.ofDigits_cons, Nat.mul_comm, Nat.add_comm]

theorem number_numeral (hradix : 1 < radix) (hdigits : ∀ d < radix, digit_value (digit d) = d) :
    number digit_value radix (numeral digit radix value) = value := by
  unfold numeral
  split
  · rename_i hzero
    rw [hzero, number, List.foldl_cons, List.foldl_nil, hdigits 0 (Nat.zero_lt_of_lt hradix), Nat.zero_mul]
  · rw [number_reverse hdigits fun _ hd => Nat.digits_lt_base hradix hd, Nat.ofDigits_digits]

theorem numeral_digits (hradix : 1 < radix) {symbol : Symbol} (hsymbol : symbol ∈ numeral digit radix value) :
    ∃ d < radix, symbol = digit d := by
  unfold numeral at hsymbol
  split at hsymbol
  · exact ⟨0, Nat.zero_lt_of_lt hradix, List.mem_singleton.mp hsymbol⟩
  · rw [List.mem_reverse] at hsymbol
    obtain ⟨d, hd, rfl⟩ := List.mem_map.mp hsymbol
    exact ⟨d, Nat.digits_lt_base hradix hd, rfl⟩

theorem numeral_canonical (hradix : 1 < radix) (hdigits : ∀ d < radix, digit_value (digit d) = d) (value : Nat) :
    Canonical digit digit_value radix value (numeral digit radix value) where
  nonempty := by
    unfold numeral
    split
    · exact List.cons_ne_nil _ _
    · rename_i hpositive
      simpa [Nat.digits_eq_nil_iff_eq_zero] using hpositive
  digits := fun _ => numeral_digits hradix
  no_leading_zero := by
    intro hhead
    unfold numeral at hhead ⊢
    split
    · rfl
    · rename_i hpositive
      rw [if_neg hpositive, List.head?_reverse, List.getLast?_map,
        List.getLast?_eq_getLast_of_ne_nil (Nat.digits_ne_nil_iff_ne_zero.mpr hpositive), Option.map_some] at hhead
      have hlast := Nat.getLast_digit_ne_zero radix hpositive
      have hmem := List.getLast_mem (Nat.digits_ne_nil_iff_ne_zero.mpr hpositive : Nat.digits radix value ≠ [])
      have hvalue := congrArg digit_value (Option.some.inj hhead)
      rw [hdigits _ (Nat.digits_lt_base hradix hmem), hdigits 0 (Nat.zero_lt_of_lt hradix)] at hvalue
      exact absurd hvalue hlast
  stands_for := number_numeral hradix hdigits

theorem numeral_length_le (hradix : 1 < radix) (hk : 0 < k) (hvalue : value < radix ^ k) :
    (numeral digit radix value).length ≤ k := by
  unfold numeral
  split
  · exact hk
  · rw [List.length_reverse, List.length_map]
    exact (Nat.digits_length_le_iff hradix value).mpr hvalue

end support.numerals
