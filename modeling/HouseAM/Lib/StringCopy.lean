import HouseAM.Lib.Strings
import HouseAM.Support.Loops
import Mathlib.Data.List.GetD
import Mathlib.Data.List.TakeWhile

open support.loops

namespace houseam.lib

/-- The two loops of `strncpy`, and its return. -/
inductive strncpy_place where
  | copying
  | padding
  | returned
  deriving DecidableEq

/-- `strncpy` between two passes: the destination, the signed index, and the
    indices of the source that were read. -/
structure strncpy_t where
  dest : Int → Byte
  i : Word
  reads : List Int
  place : strncpy_place

/-- The first loop tests the source's byte before it compares the index, which
    is unsigned there. -/
def strncpy_step (src : Int → Byte) (n : Word) (s : strncpy_t) : strncpy_t :=
  match s.place with
  | .copying =>
    if src s.i.toInt ≠ 0#8 ∧ s.i < n then
      { s with
        dest := Function.update s.dest s.i.toInt (src s.i.toInt)
        i := s.i + 1#32
        reads := s.reads ++ [s.i.toInt, s.i.toInt] }
    else { s with reads := s.reads ++ [s.i.toInt], place := .padding }
  | .padding =>
    if s.i < n then { s with dest := Function.update s.dest s.i.toInt 0#8, i := s.i + 1#32 }
    else { s with place := .returned }
  | .returned => s

def strncpy_entry (dest : Int → Byte) : strncpy_t := ⟨dest, 0#32, [], .copying⟩

/-- It has not returned yet. -/
def Running (s : strncpy_t) : Prop := s.place ≠ .returned

/-- The source is read inside its `n` bytes, and the destination's hold the
    string, cut or padded. -/
structure CopiesString (src dest : Int → Byte) (n : Nat) (after : strncpy_t) : Prop where
  reads : ∀ index ∈ after.reads, 0 ≤ index ∧ index < n
  copied : (List.range n).map (fun k : Nat => after.dest k) =
    string_at (fun k => src k) n ++ List.replicate (n - (string_at (fun k => src k) n).length) 0#8
  outside : ∀ i : Int, ¬ (0 ≤ i ∧ i < n) → after.dest i = dest i

variable {src dest : Int → Byte} {n : Word} {s : strncpy_t}

/-! Where a string ends. -/

theorem string_at_nonzero (src : Nat → Byte) (n : Nat) {k : Nat} (hk : k < (string_at src n).length) : src k ≠ 0#8 := by
  have hmem : (string_at src n)[k] ∈ string_at src n := List.getElem_mem hk
  have hnonzero := List.mem_takeWhile_imp hmem
  rw [string_at_get] at hnonzero
  exact of_decide_eq_true hnonzero

theorem string_at_end (src : Nat → Byte) (n : Nat) (hshort : (string_at src n).length < n) :
    src (string_at src n).length = 0#8 := by
  induction n generalizing src with
  | zero => omega
  | succ n ih =>
    rw [string_at_succ] at hshort ⊢
    split
    · rename_i hfirst
      rw [if_pos hfirst, List.length_cons] at hshort
      exact ih (fun k => src (k + 1)) (by omega)
    · rename_i hfirst
      exact not_not.mp hfirst

/-- A NUL in the first `n` bytes ends the string before them. -/
theorem string_at_length_lt_iff (src : Nat → Byte) (n : Nat) :
    (string_at src n).length < n ↔ ∃ k < n, src k = 0#8 := by
  constructor
  · intro hshort
    exact ⟨_, hshort, string_at_end src n hshort⟩
  · rintro ⟨k, hk, hnul⟩
    by_contra hlong
    exact string_at_nonzero src n (by omega) hnul

/-- The copy goes on exactly where it has not come to the string's end. -/
theorem string_at_more_iff (src : Nat → Byte) (n : Nat) {i : Nat} (hi : i ≤ (string_at src n).length) :
    src i ≠ 0#8 ∧ i < n ↔ i < (string_at src n).length := by
  constructor
  · rintro ⟨hnonzero, hless⟩
    by_contra hend
    have hlast : (string_at src n).length = i := by omega
    have hnul := string_at_end src n (by omega)
    rw [hlast] at hnul
    exact hnonzero hnul
  · intro hinside
    have hshorter := string_at_length_le src n
    exact ⟨string_at_nonzero src n hinside, by omega⟩

theorem strncpy_getD (src : Nat → Byte) (n k : Nat) :
    (strncpy src n).getD k 0#8 = if k < (string_at src n).length then src k else 0#8 := by
  rw [strncpy_eq]
  split
  · rename_i hinside
    rw [List.getD_append _ _ _ _ hinside, List.getD_eq_getElem _ _ hinside, string_at_get]
  · rename_i hbehind
    rw [List.getD_append_right _ _ _ _ (by omega), List.getD_eq_getElem?_getD,
      List.getElem?_getD_replicate_default_eq]

/-! What the loops keep. -/

/-- The bytes in front of the index are the result's, and the source was read
    no further than its end. -/
structure StringCopied (src dest : Int → Byte) (n : Word) (s : strncpy_t) : Prop where
  index : s.i.toNat ≤ n.toNat
  stored : ∀ j : Int, s.dest j =
    if 0 ≤ j ∧ j < s.i.toNat then (strncpy (fun k => src k) n.toNat).getD j.toNat 0#8 else dest j
  reads : ∀ index ∈ s.reads, 0 ≤ index ∧ index ≤ (string_at (fun k => src k) n.toNat).length
  copying : s.place = .copying → s.i.toNat ≤ (string_at (fun k => src k) n.toNat).length
  read_end : s.place ≠ .copying → (string_at (fun k => src k) n.toNat).length ≤ s.i.toNat ∧
    ((string_at (fun k => src k) n.toNat).length : Int) ∈ s.reads
  returned : s.place = .returned → s.i.toNat = n.toNat

def places_left : strncpy_place → Nat
  | .copying => 2
  | .padding => 1
  | .returned => 0

theorem toInt_of_le {i : Word} (hn : n.toNat < 2 ^ 31) (hi : i.toNat ≤ n.toNat) : i.toInt = i.toNat := by
  rw [BitVec.toInt_eq_toNat_of_lt]
  omega

theorem toNat_succ {i : Word} (hi : i < n) : (i + 1#32).toNat = i.toNat + 1 := by
  have hlt : i.toNat < n.toNat := hi
  have hn : n.toNat < 2 ^ 32 := n.isLt
  bv_omega

/-- One more byte of the result stored at the index. -/
theorem StringCopied.store (hcopied : StringCopied src dest n s) (hn : n.toNat < 2 ^ 31) (hi : s.i < n) {c : Byte}
    (hc : c = (strncpy (fun k => src k) n.toNat).getD s.i.toNat 0#8) (j : Int) :
    (Function.update s.dest s.i.toInt c) j =
      if 0 ≤ j ∧ j < (s.i + 1#32).toNat then (strncpy (fun k => src k) n.toNat).getD j.toNat 0#8 else dest j := by
  rw [toNat_succ hi, toInt_of_le hn hcopied.index]
  by_cases hj : j = s.i.toNat
  · rw [hj, Function.update_self, if_pos (by omega), Int.toNat_natCast, hc]
  · rw [Function.update_of_ne hj, hcopied.stored]
    by_cases hinside : 0 ≤ j ∧ j < s.i.toNat
    · rw [if_pos hinside, if_pos (by omega)]
    · rw [if_neg hinside, if_neg (by omega)]

theorem strncpy_step_copied (hn : n.toNat < 2 ^ 31) (hcopied : StringCopied src dest n s) (hrunning : Running s) :
    StringCopied src dest n (strncpy_step src n s) ∧
      n.toNat - (strncpy_step src n s).i.toNat + places_left (strncpy_step src n s).place <
        n.toNat - s.i.toNat + places_left s.place := by
  have htoInt := toInt_of_le hn hcopied.index
  have hshorter := string_at_length_le (fun k => src k) n.toNat
  unfold strncpy_step
  cases hplace : s.place with
  | copying =>
    have hlength := hcopied.copying hplace
    have hmore := string_at_more_iff (fun k => src k) n.toNat hlength
    rw [← htoInt] at hmore
    dsimp only
    split
    · rename_i hgoes
      have hi : s.i < n := hgoes.2
      have hinside : s.i.toNat < (string_at (fun k => src k) n.toNat).length := hmore.mp hgoes
      have hbyte : src s.i.toInt = (strncpy (fun k => src k) n.toNat).getD s.i.toNat 0#8 := by
        rw [strncpy_getD, if_pos hinside, htoInt]
      refine ⟨⟨?_, hcopied.store hn hi hbyte, ?_, fun _ => ?_, nofun, nofun⟩, ?_⟩
      · dsimp only
        rw [toNat_succ hi]
        omega
      · intro index hindex
        rcases List.mem_append.mp hindex with hearlier | hnow
        · exact hcopied.reads index hearlier
        · simp only [List.mem_cons, List.not_mem_nil, or_false, or_self] at hnow
          omega
      · dsimp only
        rw [toNat_succ hi]
        omega
      · dsimp only
        rw [toNat_succ hi]
        omega
    · rename_i hstop
      have hinside : ¬ s.i.toNat < (string_at (fun k => src k) n.toNat).length := fun h => hstop (hmore.mpr h)
      have hend : s.i.toNat = (string_at (fun k => src k) n.toNat).length := by omega
      have hread : s.i.toInt = (string_at (fun k => src k) n.toNat).length := by
        rw [htoInt, hend]
      refine ⟨⟨hcopied.index, hcopied.stored, ?_, nofun, fun _ => ⟨Nat.le_of_eq hend.symm, ?_⟩, nofun⟩, ?_⟩
      · intro index hindex
        rcases List.mem_append.mp hindex with hearlier | hnow
        · exact hcopied.reads index hearlier
        · rw [List.mem_singleton.mp hnow]
          omega
      · dsimp only
        rw [hread]
        exact List.mem_append_right _ (List.mem_singleton_self _)
      · dsimp only [places_left]
        omega
  | padding =>
    obtain ⟨hbehind, hread⟩ := hcopied.read_end (by rw [hplace]; nofun)
    dsimp only
    split
    · rename_i hi
      have hlt : s.i.toNat < n.toNat := hi
      have hnul : 0#8 = (strncpy (fun k => src k) n.toNat).getD s.i.toNat 0#8 := by
        rw [strncpy_getD, if_neg (by omega)]
      refine ⟨⟨?_, hcopied.store hn hi hnul, hcopied.reads, nofun, fun _ => ⟨?_, hread⟩, nofun⟩, ?_⟩
      · dsimp only
        rw [toNat_succ hi]
        omega
      · dsimp only
        rw [toNat_succ hi]
        omega
      · dsimp only
        rw [toNat_succ hi]
        omega
    · rename_i hi
      have hle : ¬ s.i.toNat < n.toNat := hi
      have hindex := hcopied.index
      refine ⟨⟨hindex, hcopied.stored, hcopied.reads, nofun, fun _ => ⟨hbehind, hread⟩, fun _ => ?_⟩, ?_⟩
      · dsimp only
        omega
      · dsimp only [places_left]
        omega
  | returned => exact absurd hplace hrunning

/-- `strncpy` returns, with the source read up to its end and no further. -/
theorem strncpy_ends (src dest : Int → Byte) (hn : n.toNat < 2 ^ 31) :
    ∃ passes after, Ends Running (strncpy_step src n) (strncpy_entry dest) passes after ∧
      StringCopied src dest n after ∧ after.place = .returned := by
  have hstart : StringCopied src dest n (strncpy_entry dest) := by
    refine ⟨Nat.zero_le _, fun j => ?_, fun _ h => absurd h List.not_mem_nil, fun _ => Nat.zero_le _,
      fun h => absurd rfl h, nofun⟩
    have hnone : ¬ (0 ≤ j ∧ j < (strncpy_entry dest).i.toNat) := by
      simp only [strncpy_entry, BitVec.toNat_zero]
      omega
    exact (if_neg hnone).symm
  obtain ⟨passes, after, ends, hend, -⟩ := ends_of_decreasing (StringCopied src dest n)
    (fun s => n.toNat - s.i.toNat + places_left s.place) (fun _ => strncpy_step_copied hn) hstart
  exact ⟨passes, after, ends, hend, not_not.mp ends.not_running⟩

theorem StringCopied.copied (hcopied : StringCopied src dest n s) (hreturned : s.place = .returned) :
    (List.range n.toNat).map (fun k : Nat => s.dest k) = strncpy (fun k => src k) n.toNat := by
  apply List.ext_getElem
  · rw [List.length_map, List.length_range, strncpy_length]
  · intro k hk hk'
    rw [strncpy_length] at hk'
    rw [List.getElem_map, List.getElem_range, hcopied.stored, hcopied.returned hreturned, if_pos (by omega),
      Int.toNat_natCast, List.getD_eq_getElem]

/-- The end of the string was read, which is inside exactly if there is a NUL. -/
theorem StringCopied.copies_iff (hcopied : StringCopied src dest n s) (hreturned : s.place = .returned) :
    CopiesString src dest n.toNat s ↔ ∃ k : Nat, k < n.toNat ∧ src k = 0#8 := by
  rw [← string_at_length_lt_iff (fun k => src k)]
  constructor
  · intro hcopies
    obtain ⟨-, hread⟩ := hcopied.read_end (by rw [hreturned]; nofun)
    have hlast := (hcopies.reads _ hread).2
    omega
  · intro hshort
    refine ⟨fun index hindex => ?_, ?_, fun i hi => ?_⟩
    · have hle := hcopied.reads index hindex
      omega
    · rw [hcopied.copied hreturned, strncpy_eq]
    · rw [hcopied.stored, hcopied.returned hreturned, if_neg hi]

/-- `strncpy` reads only the first `n` bytes exactly if one of them is NUL. -/
theorem strncpy_inside_iff (src dest : Int → Byte) (hn : n.toNat < 2 ^ 31) :
    (∃ passes after, Ends Running (strncpy_step src n) (strncpy_entry dest) passes after ∧
        CopiesString src dest n.toNat after) ↔ ∃ k : Nat, k < n.toNat ∧ src k = 0#8 := by
  obtain ⟨passes, after, ends, hcopied, hreturned⟩ := strncpy_ends src dest hn
  rw [← hcopied.copies_iff hreturned]
  constructor
  · rintro ⟨passes', after', ends', hcopies⟩
    obtain ⟨-, rfl⟩ := ends.unique ends'
    exact hcopies
  · exact fun hcopies => ⟨passes, after, ends, hcopies⟩

/-- A name of five characters in 32 bytes. -/
theorem strncpy_inside_iff_shell : ∃ passes after,
    Ends Running (strncpy_step (fun i => if i < 5 then 0x61#8 else 0#8) 32#32) (strncpy_entry fun _ => 0x62#8)
      passes after ∧
    CopiesString (fun i => if i < 5 then 0x61#8 else 0#8) (fun _ => 0x62#8) 32 after :=
  (strncpy_inside_iff (n := 32#32) _ _ (by decide)).mpr ⟨5, by decide, by decide⟩

/-- A name that fills its 32 bytes: the byte behind them is read. -/
theorem strncpy_reads_behind : ¬ ∀ (src dest : Int → Byte) (n : Word), n.toNat < 2 ^ 31 →
    ∃ passes after, Ends Running (strncpy_step src n) (strncpy_entry dest) passes after ∧
      CopiesString src dest n.toNat after := by
  intro hall
  obtain ⟨passes, after, ends, hcopies⟩ := hall (fun _ => 0x61#8) (fun _ => 0#8) 32#32 (by decide)
  obtain ⟨passes', after', ends', hcopied, hreturned⟩ :=
    strncpy_ends (n := 32#32) (fun _ => 0x61#8) (fun _ => 0#8) (by decide)
  obtain ⟨-, rfl⟩ := ends.unique ends'
  obtain ⟨k, -, hnul⟩ := (hcopied.copies_iff hreturned).mp hcopies
  exact absurd hnul (by decide)

end houseam.lib
