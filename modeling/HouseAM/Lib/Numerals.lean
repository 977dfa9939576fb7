import HouseAM.Lib.Strings
import HouseAM.Support.Numerals
import Mathlib.Data.List.GetD

open support.numerals

namespace houseam.lib

/-- A buffer on the stack and what is around it, and the indices that were
    stored to. -/
structure buffer_t where
  bytes : Int → Byte
  stores : List Int

def buffer_t.store (b : buffer_t) (index : Int) (c : Byte) : buffer_t where
  bytes := Function.update b.bytes index c
  stores := b.stores ++ [index]

theorem buffer_t.store_same (b : buffer_t) (index : Int) (c : Byte) : (b.store index c).bytes index = c :=
  Function.update_self _ _ _

theorem buffer_t.store_other (b : buffer_t) {index i : Int} (hi : i ≠ index) (c : Byte) :
    (b.store index c).bytes i = b.bytes i := Function.update_of_ne hi _ _

theorem buffer_t.mem_store {b : buffer_t} {index i : Int} {c : Byte} :
    i ∈ (b.store index c).stores ↔ i ∈ b.stores ∨ i = index := by
  simp only [store, List.mem_append, List.mem_singleton]

/-- The bytes in front of the first NUL, of at most so many. -/
def c_string_loop (bytes : Int → Byte) : Nat → Int → Option (List Byte)
  | 0, _ => none
  | n + 1, index =>
    if bytes index = 0#8 then some [] else (c_string_loop bytes n (index + 1)).map (bytes index :: ·)

theorem c_string_loop_nul_free {bytes : Int → Byte} {n : Nat} {index : Int} {characters : List Byte}
    (hloop : c_string_loop bytes n index = some characters) : 0#8 ∉ characters := by
  induction n generalizing index characters with
  | zero => cases hloop
  | succ n ih =>
    rw [c_string_loop] at hloop
    split at hloop
    · cases hloop
      exact List.not_mem_nil
    · rename_i hnonzero
      obtain ⟨rest, hrest, rfl⟩ := Option.map_eq_some_iff.mp hloop
      exact List.not_mem_cons_of_ne_of_not_mem (Ne.symm hnonzero) (ih hrest)

/-- The string at an index, which the loops through it find with an index of 32
    bits. -/
def c_string (bytes : Int → Byte) (s : Int) : Option CString :=
  match hloop : c_string_loop bytes (2 ^ 32) s with
  | some characters => some ⟨characters, c_string_loop_nul_free hloop⟩
  | none => none

def lookup : List Byte := [
  48, 49, 50, 51, 52, 53, 54, 55, 56, 57, 65, 66, 67, 68, 69, 70, 71, 72, 73, 74, 75, 76, 77, 78, 79, 80, 81, 82, 83,
  84, 85, 86, 87, 88, 89, 90]

def digit (i : Nat) : Byte := lookup.getD i 0#8

/-- The loop stores the digits from the lowest one on. It does not end for radix
    1, and traps for 0. -/
def itoa_loop (radix newval : Word) (b : buffer_t) (newbuf : Int) : Option (buffer_t × Int) :=
  if newval = 0#32 then some (b, newbuf)
  else if radix.toNat < 2 then none
  else itoa_loop radix (newval / radix) (b.store newbuf (digit (newval % radix).toNat)) (newbuf + 1)
termination_by newval.toNat
decreasing_by
  rename_i hpositive hradix
  rw [BitVec.toNat_udiv]
  have hne : newval.toNat ≠ 0 := fun h => hpositive (BitVec.eq_of_toNat_eq h)
  exact Nat.div_lt_self (by omega) (by omega)

def strrev_loop (b : buffer_t) (s beg last : Int) : buffer_t :=
  if beg < last then
    let tmp := b.bytes (s + last)
    strrev_loop ((b.store (s + last) (b.bytes (s + beg))).store (s + beg) tmp) s (beg + 1) (last - 1)
  else b
termination_by (last - beg).toNat

def strrev (b : buffer_t) (s : Int) : Option buffer_t :=
  (c_string b.bytes s).map fun string => strrev_loop b s 0 (strlen string - 1)

def itoa (value : Word) (b : buffer_t) (buf : Int) (radix : Word) : Option buffer_t :=
  if value = 0#32 then some ((b.store buf 48#8).store (buf + 1) 0#8)
  else (itoa_loop radix value b buf).bind fun (b, newbuf) => strrev (b.store newbuf 0#8) buf

/-- What a character stands for as a digit. -/
def digit_value (c : Byte) : Nat := lookup.idxOf c

variable {b b' b'' : buffer_t} {s buf : Int} {characters row : List Byte} {value radix : Word}

/-- A row of bytes was stored at an index, and nothing else. -/
structure Wrote (b : buffer_t) (buf : Int) (row : List Byte) (b' : buffer_t) : Prop where
  inside : ∀ k : Nat, k < row.length → b'.bytes (buf + k) = row.getD k 0#8
  outside : ∀ i : Int, ¬ (buf ≤ i ∧ i < buf + row.length) → b'.bytes i = b.bytes i
  stores : ∀ i ∈ b'.stores, i ∈ b.stores ∨ buf ≤ i ∧ i < buf + row.length

theorem Wrote.refl (b : buffer_t) (buf : Int) : Wrote b buf [] b where
  inside := fun _ hk => absurd hk (Nat.not_lt_zero _)
  outside := fun _ _ => rfl
  stores := fun _ hi => Or.inl hi

/-- One more byte behind the row. -/
theorem Wrote.store (hwrote : Wrote b buf row b') (c : Byte) :
    Wrote b buf (row ++ [c]) (b'.store (buf + row.length) c) where
  inside := by
    intro k hk
    rw [List.length_append, List.length_singleton] at hk
    by_cases hlast : k = row.length
    · subst hlast
      rw [b'.store_same, List.getD_append_right _ _ _ _ (Nat.le_refl _), Nat.sub_self]
      rfl
    · rw [b'.store_other (by omega), List.getD_append _ _ _ _ (by omega), hwrote.inside k (by omega)]
  outside := by
    intro i hi
    rw [List.length_append, List.length_singleton] at hi
    rw [b'.store_other (by omega), hwrote.outside i (by omega)]
  stores := by
    intro i hi
    rw [List.length_append, List.length_singleton]
    rcases buffer_t.mem_store.mp hi with hearlier | rfl
    · rcases hwrote.stores i hearlier with hbefore | hinside
      · exact Or.inl hbefore
      · exact Or.inr (by omega)
    · exact Or.inr (by omega)

/-- The string that was stored with its NUL is found. -/
theorem c_string_loop_eq {bytes : Int → Byte} {n : Nat}
    (hcharacters : ∀ k : Nat, k < characters.length → bytes (s + k) = characters.getD k 0#8)
    (hnul_free : 0#8 ∉ characters) (hend : bytes (s + characters.length) = 0#8) (hn : characters.length < n) :
    c_string_loop bytes n s = some characters := by
  induction characters generalizing s n with
  | nil =>
    obtain ⟨n, rfl⟩ := Nat.exists_eq_add_of_lt hn
    rw [List.length_nil, Nat.zero_add] at *
    rw [c_string_loop, if_pos]
    simpa using hend
  | cons c characters ih =>
    cases n with
    | zero => exact absurd hn (Nat.not_lt_zero _)
    | succ n =>
      obtain ⟨hc, hrest⟩ := not_or.mp (mt List.mem_cons.mpr hnul_free)
      have hfirst : bytes s = c := by
        have h := hcharacters 0 (Nat.succ_pos _)
        rwa [Int.natCast_zero, Int.add_zero] at h
      rw [c_string_loop, hfirst, if_neg (Ne.symm hc), ih ?_ hrest ?_ (Nat.lt_of_succ_lt_succ hn)]
      · rfl
      · intro k hk
        have h := hcharacters (k + 1) (Nat.succ_lt_succ hk)
        rw [show s + 1 + k = s + (k + 1 : Nat) by omega, h]
        rfl
      · rw [show s + 1 + characters.length = s + (c :: characters).length by simp; omega]
        exact hend

theorem c_string_eq {bytes : Int → Byte}
    (hcharacters : ∀ k : Nat, k < characters.length → bytes (s + k) = characters.getD k 0#8)
    (hnul_free : 0#8 ∉ characters) (hend : bytes (s + characters.length) = 0#8) (hsize : characters.length < 2 ^ 32) :
    c_string bytes s = some ⟨characters, hnul_free⟩ := by
  have hloop := c_string_loop_eq hcharacters hnul_free hend hsize
  unfold c_string
  split
  · rename_i found hfound
    rw [hloop] at hfound
    cases hfound
    rfl
  · rename_i hnone
    rw [hloop] at hnone
    cases hnone

/-- What was written is the string to be found there. -/
theorem Wrote.c_string (hwrote : Wrote b buf (characters ++ [0#8]) b') (hnul_free : 0#8 ∉ characters)
    (hsize : characters.length < 2 ^ 32) : lib.c_string b'.bytes buf = some ⟨characters, hnul_free⟩ := by
  have hlength : (characters ++ [0#8]).length = characters.length + 1 := by
    rw [List.length_append, List.length_singleton]
  apply c_string_eq _ hnul_free _ hsize
  · intro k hk
    rw [hwrote.inside k (by omega), List.getD_append _ _ _ _ hk]
  · rw [hwrote.inside _ (by omega), List.getD_append_right _ _ _ _ (Nat.le_refl _), Nat.sub_self]
    rfl

/-! The digits. -/

theorem digit_value_digit {radix : Nat} (hradix : radix ≤ 36) : ∀ d < radix, digit_value (digit d) = d := by
  have hall : ∀ d < 36, digit_value (digit d) = d := by decide
  exact fun d hd => hall d (by omega)

theorem digit_ne_zero {d : Nat} (hd : d < 36) : digit d ≠ 0#8 := by
  have hall : ∀ d < 36, digit d ≠ 0#8 := by decide
  exact hall d hd

/-- The loop stores the digits of what is left behind those that it has stored. -/
theorem itoa_loop_wrote (value : Word) (hradix : 1 < radix.toNat) (hwrote : Wrote b buf row b') :
    ∃ b'', itoa_loop radix value b' (buf + row.length) =
        some (b'', buf + (row ++ (Nat.digits radix.toNat value.toNat).map digit).length) ∧
      Wrote b buf (row ++ (Nat.digits radix.toNat value.toNat).map digit) b'' := by
  induction hvalue : value.toNat using Nat.strongRecOn generalizing value row b' with
  | ind left ih =>
    subst hvalue
    rw [itoa_loop]
    by_cases hzero : value = 0#32
    · subst hzero
      rw [if_pos rfl, BitVec.toNat_zero, Nat.digits_zero, List.map_nil, List.append_nil]
      exact ⟨b', rfl, hwrote⟩
    · have hpositive : 0 < value.toNat :=
        Nat.pos_of_ne_zero fun h => hzero (BitVec.eq_of_toNat_eq h)
      have hquotient : (value / radix).toNat = value.toNat / radix.toNat := BitVec.toNat_udiv
      obtain ⟨b'', hloop, hrest⟩ := ih (value / radix).toNat
        (by rw [hquotient]; exact Nat.div_lt_self hpositive hradix)
        (value / radix) (hwrote.store (digit (value % radix).toNat)) rfl
      rw [List.length_append, List.length_singleton, Int.natCast_add, Int.natCast_one, ← Int.add_assoc] at hloop
      rw [if_neg hzero, if_neg (by omega), hloop]
      rw [hquotient, BitVec.toNat_umod, List.append_assoc, List.singleton_append] at hrest
      rw [hquotient, BitVec.toNat_umod, List.append_assoc, List.singleton_append]
      rw [Nat.digits_def' hradix hpositive, List.map_cons]
      exact ⟨b'', rfl, hrest⟩

/-! The reversal. -/

/-- The loop swaps the bytes from the outer ones to the inner ones. -/
theorem strrev_loop_bytes (b : buffer_t) (s beg last k : Int) :
    (strrev_loop b s beg last).bytes (s + k) =
      if beg ≤ k ∧ k ≤ last then b.bytes (s + (beg + last - k)) else b.bytes (s + k) := by
  fun_induction strrev_loop b s beg last with
  | case1 b beg last hless tmp ih =>
    rw [ih, show beg + 1 + (last - 1) - k = beg + last - k by omega]
    by_cases hinner : beg + 1 ≤ k ∧ k ≤ last - 1
    · rw [if_pos hinner, if_pos (by omega), buffer_t.store_other _ (by omega), buffer_t.store_other _ (by omega)]
    · rw [if_neg hinner]
      by_cases hfirst : k = beg
      · subst hfirst
        rw [buffer_t.store_same, if_pos (by omega), show k + last - k = last by omega]
      · rw [buffer_t.store_other _ (by omega)]
        by_cases hlast : k = last
        · subst hlast
          rw [buffer_t.store_same, if_pos (by omega), show beg + k - k = beg by omega]
        · rw [buffer_t.store_other _ (by omega), if_neg (by omega)]
  | case2 b beg last hdone =>
    split
    · rw [show beg + last - k = k by omega]
    · rfl

theorem strrev_loop_outside {i : Int} (b : buffer_t) (s beg last : Int) (hi : ¬ (s + beg ≤ i ∧ i ≤ s + last)) :
    (strrev_loop b s beg last).bytes i = b.bytes i := by
  have hbytes := strrev_loop_bytes b s beg last (i - s)
  rwa [show s + (i - s) = i by omega, if_neg (by omega)] at hbytes

theorem strrev_loop_stores {i : Int} (b : buffer_t) (s beg last : Int) (hi : i ∈ (strrev_loop b s beg last).stores) :
    i ∈ b.stores ∨ s + beg ≤ i ∧ i ≤ s + last := by
  fun_induction strrev_loop b s beg last with
  | case1 b beg last hless tmp ih =>
    rcases ih hi with hstored | hinner
    · rw [buffer_t.mem_store, buffer_t.mem_store] at hstored
      rcases hstored with (hearlier | rfl) | rfl
      · exact Or.inl hearlier
      · exact Or.inr (by omega)
      · exact Or.inr (by omega)
    · exact Or.inr (by omega)
  | case2 b beg last hdone => exact Or.inl hi

theorem Wrote.strrev (hwrote : Wrote b buf (characters ++ [0#8]) b') (hnul_free : 0#8 ∉ characters)
    (hsize : characters.length < 2 ^ 32) :
    ∃ b'', lib.strrev b' buf = some b'' ∧ Wrote b buf (characters.reverse ++ [0#8]) b'' := by
  have hlength : (characters ++ [0#8]).length = characters.length + 1 := by
    rw [List.length_append, List.length_singleton]
  have hlength' : (characters.reverse ++ [0#8]).length = characters.length + 1 := by
    rw [List.length_append, List.length_reverse, List.length_singleton]
  refine ⟨strrev_loop b' buf 0 (characters.length - 1), ?_, ?_, fun i hi => ?_, fun i hi => ?_⟩
  · rw [lib.strrev, hwrote.c_string hnul_free hsize, Option.map_some, strlen]
  · intro k hk
    rw [hlength'] at hk
    rw [strrev_loop_bytes]
    by_cases hnul : k = characters.length
    · subst hnul
      rw [if_neg (by omega), hwrote.inside _ (by omega), List.getD_append_right _ _ _ _ (Nat.le_refl _),
        List.getD_append_right _ _ _ _ (by rw [List.length_reverse]), List.length_reverse]
    · have hmirror : (0 : Int) + (characters.length - 1) - k = (characters.length - 1 - k : Nat) := by omega
      have hreverse : k < characters.reverse.length := by
        rw [List.length_reverse]
        omega
      rw [if_pos (by omega), hmirror, hwrote.inside _ (by omega), List.getD_append _ _ _ _ (by omega),
        List.getD_append _ _ _ _ hreverse, List.getD_eq_getElem _ _ hreverse, List.getElem_reverse,
        List.getD_eq_getElem]
  · rw [hlength'] at hi
    rw [strrev_loop_outside _ _ _ _ (by omega), hwrote.outside i (by omega)]
  · rw [hlength']
    rcases strrev_loop_stores _ _ _ _ hi with hearlier | hinside
    · have hstored := hwrote.stores i hearlier
      rwa [hlength] at hstored
    · exact Or.inr (by omega)

/-- `itoa` writes the numeral and a NUL, for every value and radix. -/
theorem itoa_wrote (hradix : 2 ≤ radix.toNat) (hmax : radix.toNat ≤ 36) (value : Word) (b : buffer_t) (buf : Int) :
    ∃ b', itoa value b buf radix = some b' ∧
      Wrote b buf (numeral digit radix.toNat value.toNat ++ [0#8]) b' := by
  rw [itoa, numeral]
  by_cases hzero : value = 0#32
  · subst hzero
    rw [if_pos rfl, BitVec.toNat_zero, if_pos rfl]
    have hwrote := ((Wrote.refl b buf).store 48#8).store 0#8
    rw [List.length_nil, Int.natCast_zero, Int.add_zero] at hwrote
    exact ⟨_, rfl, hwrote⟩
  · have hpositive : value.toNat ≠ 0 := fun h => hzero (BitVec.eq_of_toNat_eq h)
    rw [if_neg hzero, if_neg hpositive]
    obtain ⟨b', hloop, hwrote⟩ := itoa_loop_wrote value hradix (Wrote.refl b buf)
    rw [List.length_nil, Int.natCast_zero, Int.add_zero, List.nil_append] at hloop
    rw [List.nil_append] at hwrote
    have hnul_free : 0#8 ∉ (Nat.digits radix.toNat value.toNat).map digit := by
      intro hnul
      obtain ⟨d, hd, hdigit⟩ := List.mem_map.mp hnul
      exact digit_ne_zero (Nat.lt_of_lt_of_le (Nat.digits_lt_base hradix hd) hmax) hdigit
    have hsize : ((Nat.digits radix.toNat value.toNat).map digit).length < 2 ^ 32 := by
      have hpower : 2 ^ 32 ≤ radix.toNat ^ 32 := Nat.pow_le_pow_left hradix 32
      have hdigits := (Nat.digits_length_le_iff hradix value.toNat).mpr (Nat.lt_of_lt_of_le value.isLt hpower)
      rw [List.length_map]
      omega
    rw [hloop, Option.bind_some]
    exact (hwrote.store 0#8).strrev hnul_free hsize

end houseam.lib
