import HouseAM.Fish.Blink
import HouseAM.Support.Refinement
import Mathlib.Data.Fintype.EquivFin

open support.loops support.chains support.refinement

namespace houseam.fish

/-! What the calls mean: a list of blinking characters, the last one added first. -/

def At (location : BitVec 16) (b : blink_t) : Bool := b.location = location

/-- A character that is added is on, for its whole time. -/
def started (arg : blink_t) : blink_t := { arg with status := 1#16, countdown := arg.on_length }

/-- A character that takes over the timing of another one. -/
def timed (source b : blink_t) : blink_t :=
  { b with
    on_length := source.on_length
    off_length := source.off_length
    countdown := source.countdown
    status := source.status }

/-- A tick of the clock: at the end of its time a character changes over. -/
def tick (b : blink_t) : blink_t :=
  if 0 < (b.countdown - 1#16).toInt then { b with countdown := b.countdown - 1#16 }
  else
    { b with
      countdown := if b.status &&& 1#16 = 0#16 then b.on_length else b.off_length
      status := b.status ^^^ 1#16 }

/-- The first character at a location is changed. -/
def change_first (location : BitVec 16) (f : blink_t → blink_t) : List blink_t → List blink_t
  | [] => []
  | b :: blinkers => if At location b then f b :: blinkers else b :: change_first location f blinkers

/-- There is room for as many characters as there are places on the screen. -/
def answer (blinkers : List blink_t) : Request → Response × List blink_t
  | .add arg =>
    if arg.location.toNat < SCREEN_CELLS ∧ blinkers.length < 2000 then
      (.value 0, started arg.toblink_t :: blinkers)
    else (.value (-1), blinkers)
  | .remove arg =>
    if blinkers.any (At (arg.setWidth 16)) then (.value 0, blinkers.eraseP (At (arg.setWidth 16)))
    else (.value (-1), blinkers)
  | .find location =>
    match blinkers.find? (At location) with
    | none => (.value (-1), blinkers)
    | some b => (.found b, blinkers)
  | .sync arg =>
    let destination := (arg &&& 0xFFFF#32).setWidth 16
    match blinkers.find? (At ((arg >>> 16).setWidth 16)), blinkers.find? (At destination) with
    | some source, some _ => (.value 0, change_first destination (timed source) blinkers)
    | _, _ => (.value (-1), blinkers)
  | .tasklet => (.ticked, blinkers.map tick)

variable {s s' : fish_t} {cells before after : List (Fin 2000)} {blinkers : List blink_t} {i a : Fin 2000}

/-- What a structure holds besides its link. -/
def fish_t.blink (s : fish_t) (i : Fin 2000) : blink_t := (s.blink_array i).toblink_t

/-- The list in memory has these cells. The structures that are not on it are
    unused. -/
structure Linked (s : fish_t) (cells : List (Fin 2000)) : Prop where
  chain : Chain s.links s.mp1_list_head cells
  unused : ∀ i, i ∉ cells → (s.blink i).location = 0#16

/-- The list in memory holds these characters, none of them at location 0. -/
structure Holds (s : fish_t) (cells : List (Fin 2000)) (blinkers : List blink_t) : Prop extends Linked s cells where
  blinks : cells.map s.blink = blinkers
  used : ∀ i ∈ cells, (s.blink i).location ≠ 0#16

/-! Stores to the structures. -/

@[simp] theorem fish_t.set_head (s : fish_t) (i : Fin 2000) (b : mp1_blink_struct) :
    (s.set i b).mp1_list_head = s.mp1_list_head := rfl

@[simp] theorem fish_t.set_array (s : fish_t) (i : Fin 2000) (b : mp1_blink_struct) :
    (s.set i b).blink_array = Function.update s.blink_array i b := rfl

@[simp] theorem mp1_poke_array (s : fish_t) (cl : Byte) (eax : Nat) :
    (mp1_poke s cl eax).blink_array = s.blink_array := rfl

@[simp] theorem mp1_poke_head (s : fish_t) (cl : Byte) (eax : Nat) :
    (mp1_poke s cl eax).mp1_list_head = s.mp1_list_head := rfl

theorem fish_t.set_links (s : fish_t) (i : Fin 2000) (b : mp1_blink_struct) :
    (s.set i b).links = Function.update s.links i b.next := by
  funext j
  by_cases hj : j = i
  · subst hj
    simp [links]
  · simp [links, hj]

theorem fish_t.set_blink (s : fish_t) (i : Fin 2000) (b : mp1_blink_struct) :
    (s.set i b).blink = Function.update s.blink i b.toblink_t := by
  funext j
  by_cases hj : j = i
  · subst hj
    simp [blink]
  · simp [blink, hj]

/-- A structure that keeps its link leaves the list as it is. -/
theorem fish_t.set_links_same (s : fish_t) (i : Fin 2000) {b : mp1_blink_struct} (hnext : b.next = s.links i) :
    (s.set i b).links = s.links := by
  rw [set_links, hnext, Function.update_eq_self]

theorem fish_t.redirect_eq (s : fish_t) (place pointer : Option (Fin 2000)) :
    (s.redirect place pointer).mp1_list_head = (support.chains.redirect s.mp1_list_head s.links place pointer).1 ∧
      (s.redirect place pointer).links = (support.chains.redirect s.mp1_list_head s.links place pointer).2 ∧
      (s.redirect place pointer).blink = s.blink := by
  cases place with
  | none => exact ⟨rfl, rfl, rfl⟩
  | some p =>
    refine ⟨rfl, s.set_links p _, ?_⟩
    rw [fish_t.redirect, set_blink]
    exact Function.update_eq_self _ _

theorem fish_t.redirect_vmem (s : fish_t) (place pointer : Option (Fin 2000)) :
    (s.redirect place pointer).vmem = s.vmem := by
  cases place <;> rfl

theorem Linked.length_le (hlinked : Linked s cells) : cells.length ≤ 2000 := by
  simpa using hlinked.chain.length_le

/-- The list looks the same to the other structures and the head. -/
theorem Linked.congr (hlinked : Linked s cells) (hhead : s'.mp1_list_head = s.mp1_list_head)
    (hlinks : s'.links = s.links) (hlocation : ∀ i, (s'.blink i).location = (s.blink i).location) :
    Linked s' cells where
  chain := by
    rw [hhead, hlinks]
    exact hlinked.chain
  unused := by
    intro i hi
    rw [hlocation]
    exact hlinked.unused i hi

/-! The loops through the list. -/

theorem Linked.find_helper (hlinked : Linked s cells) (location : BitVec 16) :
    mp1_find_helper s location = some (cells.find? fun i => At location (s.blink i)) := by
  obtain ⟨n, hn, ends⟩ := hlinked.chain.search_ends fun i => At location (s.blink i)
  exact loop_eq_some_iff.mpr ⟨n, Nat.le_trans hn hlinked.length_le, ends⟩

theorem Linked.find_prev (hlinked : Linked s (before ++ a :: after)) : remove_find_prev s a = some before.getLast? := by
  have ends := Chain.place_ends none hlinked.chain
  rw [Option.or_none] at ends
  have hlength := hlinked.length_le
  rw [List.length_append] at hlength
  exact loop_eq_some_iff.mpr ⟨before.length, by omega, ends⟩

/-! Adding a character. -/

theorem malloc_unused (hmalloc : mp1_malloc s = some i) : (s.blink i).location = 0#16 := by
  have hfound := List.find?_some hmalloc
  exact of_decide_eq_true hfound

theorem Linked.exists_fresh (hlinked : Linked s cells) (hlength : cells.length < 2000) : ∃ i, i ∉ cells := by
  by_contra hall
  have hmem : ∀ i, i ∈ cells := fun i => not_not.mp fun h => hall ⟨i, h⟩
  have hcard : Fintype.card (Fin 2000) ≤ cells.length := by
    rw [← List.toFinset_card_of_nodup hlinked.chain.nodup, ← Finset.card_univ]
    exact Finset.card_le_card fun i _ => List.mem_toFinset.mpr (hmem i)
  rw [Fintype.card_fin] at hcard
  omega

theorem Linked.malloc_some (hlinked : Linked s cells) (hlength : cells.length < 2000) : ∃ i, mp1_malloc s = some i := by
  obtain ⟨i, hi⟩ := hlinked.exists_fresh hlength
  cases hmalloc : mp1_malloc s with
  | some j => exact ⟨j, rfl⟩
  | none =>
    have hused := List.find?_eq_none.mp hmalloc i (List.mem_finRange i)
    simp only [decide_eq_true_eq] at hused
    exact absurd (hlinked.unused i hi) hused

theorem Holds.malloc_none (hholds : Holds s cells blinkers) (hlength : cells.length = 2000) : mp1_malloc s = none := by
  have hall : cells.toFinset = Finset.univ := by
    apply Finset.eq_univ_of_card
    rw [List.toFinset_card_of_nodup hholds.chain.nodup, hlength, Fintype.card_fin]
  refine List.find?_eq_none.mpr fun i _ => ?_
  have hmem : i ∈ cells := List.mem_toFinset.mp (hall ▸ Finset.mem_univ i)
  rw [decide_eq_true_eq]
  exact hholds.used i hmem

/-- What an accepted add does to the list: a structure is put in front of it. -/
theorem add_eq {arg : mp1_blink_struct} (hlocation : arg.location.toNat < SCREEN_CELLS)
    (hmalloc : mp1_malloc s = some i) :
    (mp1_ioctl_add s arg).1 = 0 ∧ (mp1_ioctl_add s arg).2.mp1_list_head = some i ∧
      (mp1_ioctl_add s arg).2.links = Function.update s.links i s.mp1_list_head ∧
      (mp1_ioctl_add s arg).2.blink = Function.update s.blink i (started arg.toblink_t) ∧
      (mp1_ioctl_add s arg).2.vmem = Function.update s.vmem (2 * arg.location.toNat) arg.on_char := by
  rw [mp1_ioctl_add, if_neg (Nat.not_le.mpr hlocation), hmalloc]
  exact ⟨rfl, rfl, s.set_links i _, s.set_blink i _, rfl⟩

theorem Linked.add {arg : mp1_blink_struct} (hlinked : Linked s cells) (hlocation : arg.location.toNat < SCREEN_CELLS)
    (hmalloc : mp1_malloc s = some i) (hfresh : i ∉ cells) : Linked (mp1_ioctl_add s arg).2 (i :: cells) := by
  obtain ⟨-, hhead, hlinks, hblink, -⟩ := add_eq hlocation hmalloc
  constructor
  · rw [hhead, hlinks]
    exact hlinked.chain.push hfresh
  · intro j hj
    rw [List.mem_cons, not_or] at hj
    obtain ⟨hne, hother⟩ := hj
    rw [hblink, Function.update_of_ne hne]
    exact hlinked.unused j hother

theorem Holds.add {arg : mp1_blink_struct} (hholds : Holds s cells blinkers)
    (hlocation : arg.location.toNat < SCREEN_CELLS) (hmalloc : mp1_malloc s = some i) (hplaced : arg.location ≠ 0#16) :
    Holds (mp1_ioctl_add s arg).2 (i :: cells) (started arg.toblink_t :: blinkers) := by
  have hfresh : i ∉ cells := fun hi => hholds.used i hi (malloc_unused hmalloc)
  obtain ⟨-, -, -, hblink, -⟩ := add_eq hlocation hmalloc
  have hother : ∀ j ∈ cells, (mp1_ioctl_add s arg).2.blink j = s.blink j := by
    intro j hj
    have hne : j ≠ i := fun h => hfresh (h ▸ hj)
    rw [hblink, Function.update_of_ne hne]
  refine ⟨hholds.toLinked.add hlocation hmalloc hfresh, ?_, ?_⟩
  · rw [List.map_cons, hblink, Function.update_self, ← hblink, List.map_congr_left hother, hholds.blinks]
  · intro j hj
    rcases List.mem_cons.mp hj with rfl | hj
    · rw [hblink, Function.update_self]
      exact hplaced
    · rw [hother j hj]
      exact hholds.used j hj

theorem Holds.length_eq (hholds : Holds s cells blinkers) : blinkers.length = cells.length := by
  rw [← hholds.blinks, List.length_map]

theorem Holds.serve_add {arg : mp1_blink_struct} (hholds : Holds s cells blinkers) (hplaced : arg.location ≠ 0#16) :
    ∃ cells', Holds (mp1_ioctl_add s arg).2 cells' (answer blinkers (.add arg)).2 ∧
      (answer blinkers (.add arg)).1 = .value (mp1_ioctl_add s arg).1 := by
  have hlength := hholds.length_eq
  have hle := hholds.length_le
  by_cases hlocation : arg.location.toNat < SCREEN_CELLS
  · by_cases hroom : cells.length < 2000
    · obtain ⟨i, hmalloc⟩ := hholds.malloc_some hroom
      rw [answer, if_pos ⟨hlocation, hlength ▸ hroom⟩, (add_eq hlocation hmalloc).1]
      exact ⟨i :: cells, hholds.add hlocation hmalloc hplaced, rfl⟩
    · have hfull : ¬ (arg.location.toNat < SCREEN_CELLS ∧ blinkers.length < 2000) := fun h => hroom (hlength ▸ h.2)
      rw [answer, if_neg hfull, mp1_ioctl_add, if_neg (Nat.not_le.mpr hlocation), hholds.malloc_none (by omega)]
      exact ⟨cells, hholds, rfl⟩
  · rw [answer, if_neg fun h => hlocation h.1, mp1_ioctl_add, if_pos (Nat.not_lt.mp hlocation)]
    exact ⟨cells, hholds, rfl⟩

/-! Removing a character. -/

/-- A structure on the list is taken out of it and cleared. -/
theorem remove_eq {arg : Word} (hlinked : Linked s (before ++ a :: after))
    (hfound : mp1_find_helper s (arg.setWidth 16) = some (some a)) :
    ∃ s', mp1_ioctl_remove s arg = some (0, s') ∧ Linked s' (before ++ after) ∧
      s'.blink = Function.update s.blink a zeroed_struct.toblink_t ∧ s'.vmem = s.vmem := by
  have hgone := hlinked.chain.not_mem_unlinked
  obtain ⟨hhead, hlinks, hblink⟩ := s.redirect_eq before.getLast? (s.links a)
  have hother : ∀ i ∈ before ++ after, i ≠ a := fun i hi h => hgone (h ▸ hi)
  refine ⟨mp1_free (s.redirect before.getLast? (s.links a)) a, ?_, ⟨?_, ?_⟩, ?_, ?_⟩
  · rw [mp1_ioctl_remove, hfound, Option.bind_some]
    dsimp only
    rw [hlinked.find_prev, Option.map_some]
  · rw [mp1_free, fish_t.set_head, fish_t.set_links, hhead, hlinks]
    exact hlinked.chain.unlink.congr fun i hi => Function.update_of_ne (hother i hi) _ _
  · intro i hi
    rw [mp1_free, fish_t.set_blink, hblink]
    by_cases hia : i = a
    · subst hia
      rw [Function.update_self]
      rfl
    · rw [Function.update_of_ne hia]
      refine hlinked.unused i fun hmem => hi ?_
      rw [List.mem_append, List.mem_cons] at hmem
      rw [List.mem_append]
      tauto
  · rw [mp1_free, fish_t.set_blink, hblink]
  · exact s.redirect_vmem _ _

theorem Holds.find_eq (hholds : Holds s cells blinkers) (location : BitVec 16) :
    blinkers.find? (At location) = (cells.find? fun i => At location (s.blink i)).map s.blink := by
  rw [← hholds.blinks, List.find?_map]
  rfl

/-- A remove finds nothing, or takes out the first structure at its location. -/
theorem Linked.remove_cases (hlinked : Linked s cells) (arg : Word) :
    ((∀ i ∈ cells, At (arg.setWidth 16) (s.blink i) = false) ∧ mp1_ioctl_remove s arg = some (-1, s)) ∨
      ∃ before a after s', cells = before ++ a :: after ∧ At (arg.setWidth 16) (s.blink a) = true ∧
        (∀ i ∈ before, At (arg.setWidth 16) (s.blink i) = false) ∧ mp1_ioctl_remove s arg = some (0, s') ∧
        Linked s' (before ++ after) ∧ s'.blink = Function.update s.blink a zeroed_struct.toblink_t ∧
        s'.vmem = s.vmem := by
  have hfound := hlinked.find_helper (arg.setWidth 16)
  cases hfirst : cells.find? fun i => At (arg.setWidth 16) (s.blink i) with
  | none =>
    rw [hfirst] at hfound
    rw [mp1_ioctl_remove, hfound]
    exact Or.inl ⟨fun i hi => Bool.eq_false_iff.mpr (List.find?_eq_none.mp hfirst i hi), rfl⟩
  | some a =>
    rw [hfirst] at hfound
    obtain ⟨hat, before, after, rfl, hbefore⟩ := List.find?_eq_some_iff_append.mp hfirst
    obtain ⟨s', hremove, hafter⟩ := remove_eq hlinked hfound
    exact Or.inr ⟨before, a, after, s', rfl, hat, fun i hi => by simpa using hbefore i hi, hremove, hafter⟩

theorem Holds.serve_remove (hholds : Holds s cells blinkers) (arg : Word) :
    ∃ value s' cells', mp1_ioctl_remove s arg = some (value, s') ∧
      Holds s' cells' (answer blinkers (.remove arg)).2 ∧ (answer blinkers (.remove arg)).1 = .value value := by
  have hblinks := hholds.blinks
  rcases hholds.remove_cases arg with
    ⟨hnone, hremove⟩ | ⟨before, a, after, s', rfl, hat, hbefore, hremove, hlinked, hblink, -⟩
  · have hany : blinkers.any (At (arg.setWidth 16)) = false := by
      rw [← hblinks, List.any_map, List.any_eq_false]
      exact fun i hi => Bool.eq_false_iff.mp (hnone i hi)
    rw [answer, hany, if_neg Bool.false_ne_true]
    exact ⟨-1, s, cells, hremove, hholds, rfl⟩
  · have hany : blinkers.any (At (arg.setWidth 16)) = true := by
      rw [← hblinks, List.any_map, List.any_eq_true]
      exact ⟨a, List.mem_append_right _ List.mem_cons_self, hat⟩
    have herase : blinkers.eraseP (At (arg.setWidth 16)) = (before ++ after).map s.blink := by
      rw [← hblinks, List.map_append, List.map_cons, List.eraseP_append_right, List.eraseP_cons_of_pos hat,
        List.map_append]
      intro b hb
      obtain ⟨i, hi, rfl⟩ := List.mem_map.mp hb
      exact Bool.eq_false_iff.mp (hbefore i hi)
    have hkept : ∀ i ∈ before ++ after, s'.blink i = s.blink i := by
      intro i hi
      have hne : i ≠ a := fun h => hholds.chain.not_mem_unlinked (h ▸ hi)
      rw [hblink, Function.update_of_ne hne]
    rw [answer, if_pos hany, herase]
    refine ⟨0, s', before ++ after, hremove, ⟨hlinked, List.map_congr_left hkept, fun i hi => ?_⟩, rfl⟩
    rw [hkept i hi]
    refine hholds.used i ?_
    rw [List.mem_append] at hi
    rw [List.mem_append, List.mem_cons]
    tauto

/-! Looking at a character, and taking over a timing. -/

theorem Holds.serve_find (hholds : Holds s cells blinkers) (location : BitVec 16) :
    serve s (.find location) = some ((answer blinkers (.find location)).1, s) ∧
      (answer blinkers (.find location)).2 = blinkers := by
  have hfound := hholds.find_helper location
  have hfind := hholds.find_eq location
  cases hfirst : cells.find? fun i => At location (s.blink i) with
  | none =>
    rw [hfirst] at hfound hfind
    rw [serve, mp1_ioctl_find, hfound, answer, hfind]
    exact ⟨rfl, rfl⟩
  | some a =>
    rw [hfirst] at hfound hfind
    rw [serve, mp1_ioctl_find, hfound, answer, hfind]
    exact ⟨rfl, rfl⟩

theorem change_first_map {location : BitVec 16} {blink : Fin 2000 → blink_t} (f : blink_t → blink_t)
    (hnodup : cells.Nodup) (hfirst : (cells.find? fun i => At location (blink i)) = some a) :
    change_first location f (cells.map blink) = cells.map (Function.update blink a (f (blink a))) := by
  induction cells with
  | nil => cases hfirst
  | cons b rest ih =>
    obtain ⟨hfresh, hrest⟩ := List.nodup_cons.mp hnodup
    rw [List.find?_cons] at hfirst
    rw [List.map_cons, List.map_cons, change_first]
    cases hat : At location (blink b) with
    | true =>
      rw [hat] at hfirst
      cases hfirst
      have hother : ∀ i ∈ rest, Function.update blink a (f (blink a)) i = blink i := by
        intro i hi
        have hne : i ≠ a := fun h => hfresh (h ▸ hi)
        exact Function.update_of_ne hne _ _
      rw [if_pos rfl, Function.update_self, List.map_congr_left hother]
    | false =>
      rw [hat] at hfirst
      have hne : b ≠ a := fun h => hfresh (h ▸ List.mem_of_find?_eq_some hfirst)
      rw [if_neg Bool.false_ne_true, ih hrest hfirst, Function.update_of_ne hne]

/-- Testing the low bit sets no sign, so `cmovl` never moves. -/
theorem cmovl_testb (b source destination : Byte) : cmovl (testb 0x1#8 b) source destination = destination := by
  have hsign : (0x1#8 &&& b).msb = false := by
    rw [BitVec.msb_and]
    rfl
  rw [cmovl, testb, hsign, if_neg (not_not.mpr rfl)]

/-- Two structures that are found: the second one takes over the timing of the
    first one. -/
theorem sync_eq {arg : Word} {b : Fin 2000} (hsource : mp1_find_helper s ((arg >>> 16).setWidth 16) = some (some a))
    (hdestination : mp1_find_helper s ((arg &&& 0xFFFF#32).setWidth 16) = some (some b)) :
    ∃ s', mp1_ioctl_sync s arg = some (0, s') ∧ s'.mp1_list_head = s.mp1_list_head ∧ s'.links = s.links ∧
      s'.blink = Function.update s.blink b (timed (s.blink a) (s.blink b)) ∧
      s'.vmem = Function.update s.vmem (2 * (s.blink b).location.toNat) (s.blink b).off_char := by
  rw [mp1_ioctl_sync, hsource, Option.bind_some]
  dsimp only
  rw [hdestination]
  refine ⟨_, rfl, rfl, ?_, ?_, ?_⟩
  · exact s.set_links_same b rfl
  · exact s.set_blink b _
  · rw [cmovl_testb, fish_t.set_array, Function.update_self]
    rfl

theorem sync_location {a b : Fin 2000} (hblink : s'.blink = Function.update s.blink b (timed (s.blink a) (s.blink b)))
    (i : Fin 2000) : (s'.blink i).location = (s.blink i).location := by
  rw [hblink]
  by_cases hi : i = b
  · rw [hi, Function.update_self]
    rfl
  · rw [Function.update_of_ne hi]

/-- A sync does not find both of its structures, or changes the second one. -/
theorem Linked.sync_cases (hlinked : Linked s cells) (arg : Word) :
    let source := cells.find? fun i => At ((arg >>> 16).setWidth 16) (s.blink i)
    let destination := cells.find? fun i => At ((arg &&& 0xFFFF#32).setWidth 16) (s.blink i)
    ((source = none ∨ destination = none) ∧ mp1_ioctl_sync s arg = some (-1, s)) ∨
      ∃ a b s', source = some a ∧ destination = some b ∧ mp1_ioctl_sync s arg = some (0, s') ∧ Linked s' cells ∧
        s'.blink = Function.update s.blink b (timed (s.blink a) (s.blink b)) ∧
        s'.vmem = Function.update s.vmem (2 * (s.blink b).location.toNat) (s.blink b).off_char := by
  have hsource := hlinked.find_helper ((arg >>> 16).setWidth 16)
  have hdestination := hlinked.find_helper ((arg &&& 0xFFFF#32).setWidth 16)
  dsimp only
  cases hfirst : cells.find? fun i => At ((arg >>> 16).setWidth 16) (s.blink i) with
  | none =>
    rw [hfirst] at hsource
    rw [mp1_ioctl_sync, hsource]
    exact Or.inl ⟨Or.inl rfl, rfl⟩
  | some a =>
    rw [hfirst] at hsource
    cases hsecond : cells.find? fun i => At ((arg &&& 0xFFFF#32).setWidth 16) (s.blink i) with
    | none =>
      rw [hsecond] at hdestination
      rw [mp1_ioctl_sync, hsource, Option.bind_some]
      dsimp only
      rw [hdestination]
      exact Or.inl ⟨Or.inr rfl, rfl⟩
    | some b =>
      rw [hsecond] at hdestination
      obtain ⟨s', hsync, hhead, hlinks, hblink, hvmem⟩ := sync_eq hsource hdestination
      exact Or.inr ⟨a, b, s', rfl, rfl, hsync, hlinked.congr hhead hlinks (sync_location hblink), hblink, hvmem⟩

theorem Holds.serve_sync (hholds : Holds s cells blinkers) (arg : Word) :
    ∃ value s', mp1_ioctl_sync s arg = some (value, s') ∧
      Holds s' cells (answer blinkers (.sync arg)).2 ∧ (answer blinkers (.sync arg)).1 = .value value := by
  have hfind := hholds.find_eq ((arg >>> 16).setWidth 16)
  have hfind' := hholds.find_eq ((arg &&& 0xFFFF#32).setWidth 16)
  rcases hholds.sync_cases arg with ⟨hnone, hsync⟩ | ⟨a, b, s', hsource, hdestination, hsync, hlinked, hblink, -⟩
  · rcases hnone with hnone | hnone
    · rw [hnone] at hfind
      rw [answer, hfind]
      exact ⟨-1, s, hsync, hholds, rfl⟩
    · rw [hnone] at hfind'
      rw [answer, hfind']
      refine ⟨-1, s, hsync, ?_, ?_⟩
      · cases blinkers.find? (At ((arg >>> 16).setWidth 16)) <;> exact hholds
      · cases blinkers.find? (At ((arg >>> 16).setWidth 16)) <;> rfl
  · rw [hsource] at hfind
    rw [hdestination] at hfind'
    rw [answer, hfind, hfind']
    refine ⟨0, s', hsync, ⟨hlinked, ?_, fun i hi => ?_⟩, rfl⟩
    · rw [hblink, ← hholds.blinks]
      exact (change_first_map _ hholds.chain.nodup hdestination).symm
    · rw [sync_location hblink]
      exact hholds.used i hi

/-! The clock. -/

theorem tick_running {b : blink_t} (hrunning : 0 < (b.countdown - 1#16).toInt) :
    tick b = { b with countdown := b.countdown - 1#16 } := if_pos hrunning

theorem tick_off {b : blink_t} (hover : ¬ 0 < (b.countdown - 1#16).toInt) (hoff : b.status &&& 1#16 = 0#16) :
    tick b = { b with countdown := b.on_length, status := b.status ^^^ 1#16 } := by
  rw [tick, if_neg hover, if_pos hoff]

theorem tick_on {b : blink_t} (hover : ¬ 0 < (b.countdown - 1#16).toInt) (hon : ¬ b.status &&& 1#16 = 0#16) :
    tick b = { b with countdown := b.off_length, status := b.status ^^^ 1#16 } := by
  rw [tick, if_neg hover, if_neg hon]

/-- A pass lets its structure tick. -/
theorem tasklet_pass_array (s : fish_t) (a : Fin 2000) :
    (tasklet_pass s a).blink_array = (s.set a ⟨tick (s.blink a), s.links a⟩).blink_array := by
  unfold tasklet_pass
  simp only [fish_t.set_array, Function.update_self]
  split
  · rename_i hrunning
    rw [tick_running (b := s.blink a) hrunning]
    rfl
  · rename_i hover
    split
    · rename_i hoff
      simp only [end_blink, fish_t.set_array, mp1_poke_array, Function.update_self, Function.update_idem]
      rw [tick_off (b := s.blink a) hover hoff]
      rfl
    · rename_i hon
      simp only [end_blink, fish_t.set_array, mp1_poke_array, Function.update_self, Function.update_idem]
      rw [tick_on (b := s.blink a) hover hon]
      rfl

theorem tasklet_pass_head (s : fish_t) (a : Fin 2000) : (tasklet_pass s a).mp1_list_head = s.mp1_list_head := by
  unfold tasklet_pass end_blink
  dsimp only
  split
  · rfl
  · split <;> rfl

theorem tasklet_pass_links (s : fish_t) (a : Fin 2000) : (tasklet_pass s a).links = s.links := by
  have hlinks : (tasklet_pass s a).links = (s.set a ⟨tick (s.blink a), s.links a⟩).links :=
    congrArg (fun array i => (array i).next) (tasklet_pass_array s a)
  rw [hlinks]
  exact s.set_links_same a rfl

theorem tasklet_pass_blink (s : fish_t) (a : Fin 2000) :
    (tasklet_pass s a).blink = Function.update s.blink a (tick (s.blink a)) := by
  have hblink : (tasklet_pass s a).blink = (s.set a ⟨tick (s.blink a), s.links a⟩).blink :=
    congrArg (fun array i => (array i).toblink_t) (tasklet_pass_array s a)
  rw [hblink, s.set_blink]

/-- The character that is shown. -/
def shown (b : blink_t) : Byte := if b.status &&& 1#16 = 0#16 then b.off_char else b.on_char

theorem xor_one_and (status : BitVec 16) : (status ^^^ 1#16) &&& 1#16 = 0#16 ↔ ¬ status &&& 1#16 = 0#16 := by
  have hbit (w : BitVec 16) : w &&& 1#16 = 0#16 ↔ w.getLsbD 0 = false := by
    rw [BitVec.and_one_eq_setWidth_ofBool_getLsbD]
    cases w.getLsbD 0 <;> decide
  rw [hbit, hbit, BitVec.getLsbD_xor]
  cases status.getLsbD 0 <;> decide

/-- At the end of its time a character is changed on the screen, too. -/
theorem tasklet_pass_vmem (s : fish_t) (a : Fin 2000) :
    (tasklet_pass s a).vmem = if 0 < ((s.blink a).countdown - 1#16).toInt then s.vmem
      else Function.update s.vmem (2 * (s.blink a).location.toNat) (shown (tick (s.blink a))) := by
  unfold tasklet_pass
  simp only [fish_t.set_array, Function.update_self]
  by_cases hrunning : 0 < ((s.blink a).countdown - 1#16).toInt
  · have hrunning' : 0 < ((s.blink_array a).countdown - 1#16).toInt := hrunning
    rw [if_pos hrunning, if_pos hrunning']
    rfl
  · rw [if_neg hrunning]
    have hover : ¬ 0 < ((s.blink_array a).countdown - 1#16).toInt := hrunning
    rw [if_neg hover]
    by_cases hoff : (s.blink a).status &&& 1#16 = 0#16
    · have hshown : shown (tick (s.blink a)) = (s.blink a).on_char := by
        rw [tick_off hrunning hoff, shown, if_neg (mt (xor_one_and _).mp (not_not.mpr hoff))]
      have hoff' : (s.blink_array a).status &&& 1#16 = 0#16 := hoff
      rw [if_pos hoff', hshown]
      rfl
    · have hshown : shown (tick (s.blink a)) = (s.blink a).off_char := by
        rw [tick_on hrunning hoff, shown, if_pos ((xor_one_and _).mpr hoff)]
      have hon' : ¬ (s.blink_array a).status &&& 1#16 = 0#16 := hoff
      rw [if_neg hon', hshown]
      rfl

theorem tick_location (b : blink_t) : (tick b).location = b.location := by
  unfold tick
  split <;> rfl

/-- The clock goes through the list once. -/
theorem Linked.tasklet_eq (hlinked : Linked s cells) : mp1_rtc_tasklet s = some (cells.foldl tasklet_pass s) := by
  have ends := Chain.walk_ends tasklet_pass_links hlinked.chain
  rw [mp1_rtc_tasklet, loop_eq_some_iff.mpr ⟨_, hlinked.length_le, ends⟩]
  rfl

/-- The clock lets every structure of the list tick, and no other. -/
theorem Linked.ticked (hlinked : Linked s cells) :
    Linked (cells.foldl tasklet_pass s) cells ∧
      ∀ i, (cells.foldl tasklet_pass s).blink i = if i ∈ cells then tick (s.blink i) else s.blink i := by
  have hblink := foldl_visit tasklet_pass_blink hlinked.chain.nodup s
  refine ⟨hlinked.congr (foldl_keeps tasklet_pass_head cells s) (foldl_keeps tasklet_pass_links cells s) ?_, hblink⟩
  intro i
  rw [hblink]
  split
  · exact tick_location _
  · rfl

theorem Holds.ticked (hholds : Holds s cells blinkers) :
    Holds (cells.foldl tasklet_pass s) cells (blinkers.map tick) := by
  obtain ⟨hlinked, hblink⟩ := hholds.toLinked.ticked
  refine ⟨hlinked, ?_, fun i hi => ?_⟩
  · rw [← hholds.blinks, List.map_map]
    refine List.map_congr_left fun i hi => ?_
    rw [hblink, if_pos hi]
    rfl
  · rw [hblink, if_pos hi, tick_location]
    exact hholds.used i hi

/-! Every list of calls. -/

/-- Location 0 marks the structures that are not used. -/
def Request.Placed : Request → Prop
  | .add arg => arg.location ≠ 0#16
  | _ => True

theorem Holds.serve {request : Request} (hholds : Holds s cells blinkers) (hplaced : request.Placed) :
    ∃ response s' cells', fish.serve s request = some (response, s') ∧ (answer blinkers request).1 = response ∧
      Holds s' cells' (answer blinkers request).2 := by
  cases request with
  | add arg =>
    obtain ⟨cells', hafter, hvalue⟩ := hholds.serve_add hplaced
    exact ⟨_, _, cells', rfl, hvalue, hafter⟩
  | remove arg =>
    obtain ⟨value, s', cells', hremove, hafter, hvalue⟩ := hholds.serve_remove arg
    refine ⟨.value value, s', cells', ?_, hvalue, hafter⟩
    rw [fish.serve, hremove]
    rfl
  | find location =>
    obtain ⟨hserve, hsame⟩ := hholds.serve_find location
    refine ⟨_, s, cells, hserve, rfl, ?_⟩
    rw [hsame]
    exact hholds
  | sync arg =>
    obtain ⟨value, s', hsync, hafter, hvalue⟩ := hholds.serve_sync arg
    refine ⟨.value value, s', cells, ?_, hvalue, hafter⟩
    rw [fish.serve, hsync]
    rfl
  | tasklet =>
    refine ⟨.ticked, _, cells, ?_, rfl, hholds.ticked⟩
    rw [fish.serve, hholds.tasklet_eq]
    rfl

theorem fish_start_holds (vmem : Nat → Byte) : Holds (fish_start vmem) [] [] where
  chain := .nil
  unused := fun _ _ => rfl
  blinks := rfl
  used := fun _ hi => absurd hi List.not_mem_nil

/-- From the start of the program, calls of which none adds a character at
    location 0 all return, with the answers of the list of characters; the list in
    memory then holds these characters. -/
theorem blink_list_refines (vmem : Nat → Byte) (requests : List Request) (hplaced : ∀ r ∈ requests, r.Placed) :
    ∃ responses s cells blinkers,
      Trace (fun s r response s' => fish.serve s r = some (response, s')) (fish_start vmem) requests responses s ∧
      Trace (fun l r response l' => answer l r = (response, l')) [] requests responses blinkers ∧
      Holds s cells blinkers := by
  have hagrees : Agrees (fun s r response s' => fish.serve s r = some (response, s'))
      (fun l r response l' => answer l r = (response, l')) Request.Placed
      (fun s blinkers => ∃ cells, Holds s cells blinkers) := by
    rintro s blinkers request hrequest ⟨cells, hholds⟩
    obtain ⟨response, s', cells', hserve, hanswer, hafter⟩ := hholds.serve hrequest
    exact ⟨response, s', _, hserve, Prod.ext hanswer rfl, cells', hafter⟩
  obtain ⟨responses, s, blinkers, hmachine, hspec, cells, hholds⟩ :=
    hagrees.traces ⟨[], fish_start_holds vmem⟩ hplaced
  exact ⟨responses, s, cells, blinkers, hmachine, hspec, hholds⟩

/-- The character that `main` adds, removes and looks for again. -/
theorem blink_list_refines_main : ∃ responses s cells blinkers,
    Trace (fun s r response s' => fish.serve s r = some (response, s')) (fish_start fun _ => 0#8)
      [.add ⟨⟨540#16, 73#8, 77#8, 7#16, 6#16, 0#16, 0#16⟩, none⟩, .tasklet, .remove 540#32, .find 540#16] responses s ∧
    Trace (fun l r response l' => answer l r = (response, l')) []
      [.add ⟨⟨540#16, 73#8, 77#8, 7#16, 6#16, 0#16, 0#16⟩, none⟩, .tasklet, .remove 540#32, .find 540#16] responses
      blinkers ∧
    Holds s cells blinkers := by
  refine blink_list_refines (fun _ => 0#8) _ fun r hr => ?_
  simp only [List.mem_cons, List.not_mem_nil, or_false] at hr
  rcases hr with rfl | rfl | rfl | rfl
  · exact fun h => absurd h (by decide)
  · trivial
  · trivial
  · trivial

end houseam.fish
