import HouseAM.Lib.Numerals

open support.numerals

namespace houseam.lib

def MINUS : Byte := 45#8

/-- The number of characters, and what is given to `putc`. -/
def puts (s : CString) : Nat × List Byte := (s.bytes.length, s.bytes)

/-- What a conversion gives to `putc` from an index of its buffer on. -/
def put_buffer (conv_buf : buffer_t) (index : Int) : Option (List Byte × buffer_t) :=
  (c_string conv_buf.bytes index).map fun string => ((puts string).2, conv_buf)

/-- The padding loop, with `n` bytes to go. -/
def pad_loop (conv_buf : buffer_t) : Nat → Int → buffer_t
  | 0, _ => conv_buf
  | n + 1, i => pad_loop (conv_buf.store i 48#8) n (i + 1)

/-! The conversions of `printf`, on a buffer that is not initialised. -/

def convert_u (garbage : Int → Byte) (value : Word) : Option (List Byte × buffer_t) :=
  (itoa value ⟨garbage, []⟩ 0 10#32).bind fun conv_buf => put_buffer conv_buf 0

/-- The alternate form converts behind the first eight bytes, and pads there. -/
def convert_x (garbage : Int → Byte) (value : Word) (alternate : Bool) : Option (List Byte × buffer_t) :=
  if alternate = false then (itoa value ⟨garbage, []⟩ 0 16#32).bind fun conv_buf => put_buffer conv_buf 0
  else
    (itoa value ⟨garbage, []⟩ 8 16#32).bind fun conv_buf =>
      (c_string conv_buf.bytes 8).bind fun string =>
        let starting_index := strlen string
        put_buffer (pad_loop conv_buf (8 - starting_index) starting_index) starting_index

def convert_d (garbage : Int → Byte) (value : Word) : Option (List Byte × buffer_t) :=
  let conv_buf : buffer_t := ⟨garbage, []⟩
  if value.toInt < 0 then
    (itoa (-value) (conv_buf.store 0 MINUS) 1 10#32).bind fun conv_buf => put_buffer conv_buf 0
  else (itoa value conv_buf 0 10#32).bind fun conv_buf => put_buffer conv_buf 0

/-- Every store was inside a buffer of so many bytes. -/
def StoresInside (size : Nat) (conv_buf : buffer_t) : Prop := ∀ i ∈ conv_buf.stores, 0 ≤ i ∧ i < size

/-- The number that a signed numeral stands for. -/
def signed_number (put : List Byte) : Int :=
  if put.head? = some MINUS then -(number digit_value 10 put.tail) else number digit_value 10 put

/-- What the conversions of a value give to `putc`: its numerals, which stand for
    the value. -/
structure NumbersConverted (garbage : Int → Byte) (value : Word) : Prop where
  unsigned : ∃ put conv_buf, convert_u garbage value = some (put, conv_buf) ∧
    Canonical digit digit_value 10 value.toNat put ∧ StoresInside 36 conv_buf
  hexadecimal : ∃ put conv_buf, convert_x garbage value false = some (put, conv_buf) ∧
    Canonical digit digit_value 16 value.toNat put ∧ StoresInside 64 conv_buf
  aligned : ∃ put conv_buf, convert_x garbage value true = some (put, conv_buf) ∧ put.length = 8 ∧
    (∀ c ∈ put, ∃ d < 16, c = digit d) ∧ number digit_value 16 put = value.toNat ∧ StoresInside 64 conv_buf
  signed : ∃ digits conv_buf, Canonical digit digit_value 10 value.toInt.natAbs digits ∧
    convert_d garbage value = some (if value.toInt < 0 then MINUS :: digits else digits, conv_buf) ∧
    signed_number (if value.toInt < 0 then MINUS :: digits else digits) = value.toInt ∧ StoresInside 36 conv_buf

variable {b b' : buffer_t} {garbage : Int → Byte} {value : Word} {characters : List Byte} {radix : Nat}

theorem numeral_nul_free (hradix : 1 < radix) (hmax : radix ≤ 36) (value : Nat) : 0#8 ∉ numeral digit radix value := by
  intro hnul
  obtain ⟨d, hd, hdigit⟩ := numeral_digits hradix hnul
  exact digit_ne_zero (by omega) hdigit.symm

theorem put_buffer_wrote {buf : Int} (hwrote : Wrote b buf (characters ++ [0#8]) b') (hnul_free : 0#8 ∉ characters)
    (hsize : characters.length < 2 ^ 32) : put_buffer b' buf = some (characters, b') := by
  rw [put_buffer, hwrote.c_string hnul_free hsize]
  rfl

theorem numeral_length {k : Nat} (hradix : 1 < radix) (hk : 0 < k) (hsize : 2 ^ 32 ≤ radix ^ k) (value : Word) :
    (numeral digit radix value.toNat).length ≤ k :=
  numeral_length_le hradix hk (Nat.lt_of_lt_of_le value.isLt hsize)

theorem decimal_length (value : Word) : (numeral digit 10 value.toNat).length ≤ 10 :=
  numeral_length (by decide) (by decide) (by decide) value

theorem hexadecimal_length (value : Word) : (numeral digit 16 value.toNat).length ≤ 8 :=
  numeral_length (by decide) (by decide) (by decide) value

theorem itoa_numeral (hradix : 2 ≤ radix) (hmax : radix ≤ 36) (value : Word) (b : buffer_t) (buf : Int) :
    ∃ b', itoa value b buf (BitVec.ofNat 32 radix) = some b' ∧
      Wrote b buf (numeral digit radix value.toNat ++ [0#8]) b' := by
  have htoNat : (BitVec.ofNat 32 radix).toNat = radix := by
    rw [BitVec.toNat_ofNat]
    exact Nat.mod_eq_of_lt (by omega)
  obtain ⟨b', hitoa, hwrote⟩ := itoa_wrote (by rwa [htoNat]) (by rwa [htoNat]) value b buf
  rw [htoNat] at hwrote
  exact ⟨b', hitoa, hwrote⟩

/-- A row in a fresh buffer stays inside if it is short enough. -/
theorem Wrote.inside_buffer {buf size : Nat} {row : List Byte} (hwrote : Wrote ⟨garbage, []⟩ buf row b')
    (hsize : buf + row.length ≤ size) : StoresInside size b' := by
  intro i hi
  rcases hwrote.stores i hi with hnone | hinside
  · exact absurd hnone List.not_mem_nil
  · omega

/-- `itoa` at the start of a buffer, and the string put. -/
theorem convert_numeral (hradix : 2 ≤ radix) (hmax : radix ≤ 36) (garbage : Int → Byte) (value : Word) :
    ∃ conv_buf, ((itoa value ⟨garbage, []⟩ 0 (BitVec.ofNat 32 radix)).bind fun conv_buf => put_buffer conv_buf 0) =
        some (numeral digit radix value.toNat, conv_buf) ∧
      Wrote ⟨garbage, []⟩ 0 (numeral digit radix value.toNat ++ [0#8]) conv_buf := by
  obtain ⟨conv_buf, hitoa, hwrote⟩ := itoa_numeral hradix hmax value ⟨garbage, []⟩ 0
  have hsize := numeral_length hradix (by decide : 0 < 32) (Nat.pow_le_pow_left hradix 32) value
  refine ⟨conv_buf, ?_, hwrote⟩
  rw [hitoa, Option.bind_some, put_buffer_wrote hwrote (numeral_nul_free hradix hmax _) (by omega)]

theorem convert_canonical {size : Nat} (hradix : 2 ≤ radix) (hmax : radix ≤ 36) (garbage : Int → Byte) (value : Word)
    (hsize : (numeral digit radix value.toNat).length < size) :
    ∃ put conv_buf,
      ((itoa value ⟨garbage, []⟩ 0 (BitVec.ofNat 32 radix)).bind fun conv_buf => put_buffer conv_buf 0) =
        some (put, conv_buf) ∧
      Canonical digit digit_value radix value.toNat put ∧ StoresInside size conv_buf := by
  obtain ⟨conv_buf, hconverted, hwrote⟩ := convert_numeral hradix hmax garbage value
  have hcanonical := numeral_canonical hradix (digit_value_digit hmax) value.toNat
  have hinside : 0 + (numeral digit radix value.toNat ++ [0#8]).length ≤ size := by
    rw [List.length_append, List.length_singleton]
    omega
  exact ⟨_, conv_buf, hconverted, hcanonical, hwrote.inside_buffer hinside⟩

theorem pad_loop_wrote {row : List Byte} {buf : Int} (hwrote : Wrote b buf row b') (n : Nat) :
    Wrote b buf (row ++ List.replicate n 48#8) (pad_loop b' n (buf + row.length)) := by
  induction n generalizing row b' with
  | zero => rwa [List.replicate_zero, List.append_nil]
  | succ n ih =>
    have hrest := ih (hwrote.store 48#8)
    rw [List.length_append, List.length_singleton, Int.natCast_add, Int.natCast_one, ← Int.add_assoc,
      List.append_assoc, List.singleton_append] at hrest
    exact hrest

/-- The padded numeral in front of the one that `itoa` wrote. -/
theorem padded_bytes {digits : List Byte} {conv_buf padded : buffer_t} (hlength : digits.length ≤ 8)
    (hwrote : Wrote b 8 (digits ++ [0#8]) conv_buf)
    (hpadded : Wrote conv_buf digits.length (List.replicate (8 - digits.length) 48#8) padded) {k : Nat} (hk : k ≤ 8) :
    padded.bytes (digits.length + k) =
      (List.replicate (8 - digits.length) 48#8 ++ digits ++ [0#8]).getD k 0#8 := by
  have hzeros : (List.replicate (8 - digits.length) 48#8).length = 8 - digits.length := List.length_replicate
  rw [List.append_assoc]
  by_cases hzero : k < 8 - digits.length
  · rw [hpadded.inside k (by omega), List.getD_append _ _ _ _ (by omega)]
  · rw [hpadded.outside _ (by omega), List.getD_append_right _ _ _ _ (by omega), hzeros,
      ← hwrote.inside (k - (8 - digits.length)) (by rw [List.length_append, List.length_singleton]; omega)]
    congr 1
    omega

theorem convert_x_aligned (garbage : Int → Byte) (value : Word) :
    ∃ conv_buf, convert_x garbage value true =
        some (List.replicate (8 - (numeral digit 16 value.toNat).length) (digit 0) ++ numeral digit 16 value.toNat,
          conv_buf) ∧
      StoresInside 64 conv_buf := by
  obtain ⟨conv_buf, hitoa, hwrote⟩ := itoa_numeral (by decide : 2 ≤ 16) (by decide) value ⟨garbage, []⟩ 8
  have hlength := hexadecimal_length value
  have hnul_free := numeral_nul_free (by decide : 1 < 16) (by decide) value.toNat
  generalize numeral digit 16 value.toNat = digits at hwrote hlength hnul_free ⊢
  have hpadded : Wrote conv_buf digits.length (List.replicate (8 - digits.length) 48#8)
      (pad_loop conv_buf (8 - digits.length) digits.length) := by
    have hpad := pad_loop_wrote (Wrote.refl conv_buf digits.length) (8 - digits.length)
    rwa [List.length_nil, Int.natCast_zero, Int.add_zero, List.nil_append] at hpad
  have hbytes {k : Nat} (hk : k ≤ 8) := padded_bytes hlength hwrote hpadded hk
  have hsize : (List.replicate (8 - digits.length) 48#8 ++ digits).length = 8 := by
    rw [List.length_append, List.length_replicate]
    omega
  have hput_free : 0#8 ∉ List.replicate (8 - digits.length) 48#8 ++ digits := by
    rw [List.mem_append, List.mem_replicate, not_or]
    exact ⟨fun h => absurd h.2 (by decide), hnul_free⟩
  refine ⟨pad_loop conv_buf (8 - digits.length) digits.length, ?_, fun i hi => ?_⟩
  · rw [convert_x, if_neg (by decide), hitoa, Option.bind_some, hwrote.c_string hnul_free (by omega),
      Option.bind_some, strlen, put_buffer, c_string_eq _ hput_free _ (by omega)]
    · rfl
    · intro k hk
      rw [hbytes (by omega), List.getD_append _ _ _ _ (by omega)]
    · rw [hsize, hbytes (Nat.le_refl 8), List.getD_append_right _ _ _ _ (by omega), hsize]
      rfl
  · have hconverted : StoresInside 64 conv_buf := hwrote.inside_buffer (by simp; omega)
    rcases hpadded.stores i hi with hstored | hpad
    · exact hconverted i hstored
    · rw [List.length_replicate] at hpad
      omega

/-- A byte was stored in front of a row. -/
theorem Wrote.prepend {buf : Int} {row : List Byte} {c : Byte} (hwrote : Wrote (b.store buf c) (buf + 1) row b') :
    Wrote b buf (c :: row) b' where
  inside := by
    intro k hk
    cases k with
    | zero =>
      rw [Int.natCast_zero, Int.add_zero, hwrote.outside buf (by omega), buffer_t.store_same]
      rfl
    | succ k =>
      rw [show buf + (k + 1 : Nat) = buf + 1 + k by omega, hwrote.inside k (Nat.lt_of_succ_lt_succ hk)]
      rfl
  outside := by
    intro i hi
    rw [List.length_cons] at hi
    rw [hwrote.outside i (by omega), buffer_t.store_other _ (by omega)]
  stores := by
    intro i hi
    rw [List.length_cons]
    rcases hwrote.stores i hi with hstored | hinside
    · rcases buffer_t.mem_store.mp hstored with hearlier | rfl
      · exact Or.inl hearlier
      · exact Or.inr (by omega)
    · exact Or.inr (by omega)

theorem digit_ne_minus {d : Nat} (hd : d < 36) : digit d ≠ MINUS := by
  have hall : ∀ d < 36, digit d ≠ MINUS := by decide
  exact hall d hd

theorem natAbs_of_neg (hneg : value.toInt < 0) : (-value).toNat = value.toInt.natAbs := by
  have hvalue : value.toNat < 2 ^ 32 := value.isLt
  rw [BitVec.toInt_eq_toNat_cond] at hneg ⊢
  rw [BitVec.toNat_neg]
  split at hneg
  · omega
  · rw [if_neg (by assumption)]
    omega

theorem natAbs_of_nonneg (hnonneg : ¬ value.toInt < 0) : value.toNat = value.toInt.natAbs := by
  have hvalue : value.toNat < 2 ^ 32 := value.isLt
  rw [BitVec.toInt_eq_toNat_cond] at hnonneg ⊢
  split at hnonneg
  · rw [if_pos (by assumption), Int.natAbs_natCast]
  · omega

/-- A signed numeral stands for its number: no digit is a minus sign. -/
theorem signed_number_eq {digits : List Byte} {value : Int}
    (hcanonical : Canonical digit digit_value 10 value.natAbs digits) :
    signed_number (if value < 0 then MINUS :: digits else digits) = value := by
  rw [signed_number]
  split
  · rename_i hneg
    rw [List.head?_cons, if_pos rfl, List.tail_cons, hcanonical.stands_for]
    omega
  · rename_i hnonneg
    have hhead : digits.head? ≠ some MINUS := by
      intro hminus
      obtain ⟨d, hd, hdigit⟩ := hcanonical.digits MINUS (List.mem_of_mem_head? hminus)
      exact digit_ne_minus (by omega) hdigit.symm
    rw [if_neg hhead, hcanonical.stands_for]
    omega

theorem convert_d_signed (garbage : Int → Byte) (value : Word) :
    ∃ conv_buf, convert_d garbage value = some (if value.toInt < 0 then MINUS :: numeral digit 10 value.toInt.natAbs
        else numeral digit 10 value.toInt.natAbs, conv_buf) ∧
      StoresInside 36 conv_buf := by
  by_cases hneg : value.toInt < 0
  · obtain ⟨conv_buf, hitoa, hwrote⟩ :=
      itoa_numeral (by decide : 2 ≤ 10) (by decide) (-value) (buffer_t.store ⟨garbage, []⟩ 0 MINUS) 1
    have hlength := decimal_length (-value)
    have hnul_free := numeral_nul_free (by decide : 1 < 10) (by decide) (-value).toNat
    rw [natAbs_of_neg hneg] at hwrote hlength hnul_free
    have hwhole : Wrote ⟨garbage, []⟩ 0 ((MINUS :: numeral digit 10 value.toInt.natAbs) ++ [0#8]) conv_buf :=
      hwrote.prepend
    have hfree : 0#8 ∉ MINUS :: numeral digit 10 value.toInt.natAbs :=
      List.not_mem_cons_of_ne_of_not_mem (by decide) hnul_free
    refine ⟨conv_buf, ?_, hwhole.inside_buffer (by simp; omega)⟩
    rw [convert_d, if_pos hneg, if_pos hneg, hitoa, Option.bind_some, put_buffer_wrote hwhole hfree (by simp; omega)]
  · obtain ⟨conv_buf, hconverted, hwrote⟩ := convert_numeral (by decide : 2 ≤ 10) (by decide) garbage value
    have hlength := decimal_length value
    rw [natAbs_of_nonneg hneg] at hconverted hwrote hlength
    refine ⟨conv_buf, ?_, hwrote.inside_buffer (by simp; omega)⟩
    rw [convert_d, if_neg hneg, if_neg hneg]
    exact hconverted

theorem numbers_converted (garbage : Int → Byte) (value : Word) : NumbersConverted garbage value := by
  have hdecimal := decimal_length value
  have hhexadecimal := hexadecimal_length value
  refine ⟨?_, ?_, ?_, ?_⟩
  · exact convert_canonical (by decide) (by decide) garbage value (by omega)
  · exact convert_canonical (by decide) (by decide) garbage value (by omega)
  · obtain ⟨conv_buf, hconverted, hinside⟩ := convert_x_aligned garbage value
    refine ⟨_, conv_buf, hconverted, ?_, fun c hc => ?_, ?_, hinside⟩
    · rw [List.length_append, List.length_replicate]
      omega
    · rcases List.mem_append.mp hc with hzero | hdigit
      · exact ⟨0, by decide, (List.mem_replicate.mp hzero).2⟩
      · exact numeral_digits (by decide) hdigit
    · rw [number_replicate (digit_value_digit (by decide : 16 ≤ 36) 0 (by decide))]
      exact number_numeral (by decide) (digit_value_digit (by decide))
  · obtain ⟨conv_buf, hconverted, hinside⟩ := convert_d_signed garbage value
    have hcanonical := numeral_canonical (by decide : 1 < 10) (digit_value_digit (by decide)) value.toInt.natAbs
    exact ⟨_, conv_buf, hcanonical, hconverted, signed_number_eq hcanonical, hinside⟩

/-- `itoa` writes the canonical numeral of every value for every radix. -/
theorem itoa_canonical (value : Word) {radix : Word} (hradix : 2 ≤ radix.toNat) (hmax : radix.toNat ≤ 36)
    (b : buffer_t) (buf : Int) :
    ∃ digits b', itoa value b buf radix = some b' ∧ Wrote b buf (digits ++ [0#8]) b' ∧
      Canonical digit digit_value radix.toNat value.toNat digits := by
  obtain ⟨b', hitoa, hwrote⟩ := itoa_wrote hradix hmax value b buf
  exact ⟨_, b', hitoa, hwrote, numeral_canonical hradix (digit_value_digit hmax) _⟩

end houseam.lib
