import HouseAM.Support.Machine

namespace support.machine

variable {mem mem' : Memory} {base place : Word} {room : Nat} {w : Word} {ws : List Word} {m m' : Machine}

theorem load_congr (hsame : ∀ i < 4, mem' (place + BitVec.ofNat 32 i) = mem (place + BitVec.ofNat 32 i)) :
    load mem' place = load mem place := by
  have hzero := hsame 0 (by decide)
  rw [BitVec.add_zero] at hzero
  have hone := hsame 1 (by decide)
  have htwo := hsame 2 (by decide)
  have hthree := hsame 3 (by decide)
  rw [load, load, hzero, hone, htwo, hthree]

theorem load_store (mem : Memory) (place w : Word) : load (store mem place w) place = w := by
  have hbyte (i : Word) (hi : i.toNat < 4) : store mem place w (place + i) = w.extractLsb' (8 * i.toNat) 8 := by
    rw [store, add_sub_cancel_left, if_pos hi]
  have hfirst := hbyte 0#32 (by decide)
  rw [BitVec.add_zero] at hfirst
  rw [load, hbyte 3#32 (by decide), hbyte 2#32 (by decide), hbyte 1#32 (by decide), hfirst]
  apply BitVec.eq_of_getLsbD_eq
  intro i hi
  simp only [BitVec.getLsbD_append, BitVec.getLsbD_extractLsb']
  grind

theorem store_other {position : Word} (hother : 4 ≤ (position - place).toNat) :
    store mem place w position = mem position := by
  rw [store, if_neg (Nat.not_lt.mpr hother)]

/-- These words are in memory from a place on, one behind the other. -/
def Lies (mem : Memory) : Word → List Word → Prop
  | _, [] => True
  | place, w :: ws => load mem place = w ∧ Lies mem (place + 4#32) ws

theorem Lies.congr (hlies : Lies mem place ws)
    (hsame : ∀ i < 4 * ws.length, mem' (place + BitVec.ofNat 32 i) = mem (place + BitVec.ofNat 32 i)) :
    Lies mem' place ws := by
  induction ws generalizing place with
  | nil => exact trivial
  | cons w ws ih =>
    rw [List.length_cons] at hsame
    refine ⟨(load_congr fun i hi => hsame i (by omega)).trans hlies.1, ih hlies.2 ?_⟩
    intro i hi
    have hlater := hsame (4 + i) (by omega)
    rw [BitVec.ofNat_add, ← BitVec.add_assoc] at hlater
    exact hlater

theorem lies_append {vs : List Word} :
    Lies mem place (vs ++ ws) ↔ Lies mem place vs ∧ Lies mem (place + BitVec.ofNat 32 (4 * vs.length)) ws := by
  induction vs generalizing place with
  | nil => simp [Lies]
  | cons v vs ih =>
    have hplace : place + 4#32 + BitVec.ofNat 32 (4 * vs.length) =
        place + BitVec.ofNat 32 (4 * (v :: vs).length) := by
      rw [BitVec.add_assoc, ← BitVec.ofNat_add, List.length_cons, Nat.mul_add, Nat.add_comm]
    rw [List.cons_append, Lies, Lies, ih, hplace, and_assoc]

theorem Lies.get {i : Nat} (hlies : Lies mem place ws) (hget : ws[i]? = some w) :
    load mem (place + BitVec.ofNat 32 (4 * i)) = w := by
  obtain ⟨hlt, rfl⟩ := List.getElem?_eq_some_iff.mp hget
  rw [← List.take_append_drop i ws, lies_append, List.length_take, Nat.min_eq_left hlt.le,
    List.drop_eq_getElem_cons hlt] at hlies
  exact hlies.2.1

theorem exists_lies (mem : Memory) (place : Word) (n : Nat) : ∃ ws : List Word, ws.length = n ∧ Lies mem place ws := by
  induction n generalizing place with
  | zero => exact ⟨[], rfl, trivial⟩
  | succ n ih =>
    obtain ⟨ws, hlength, hlies⟩ := ih (place + 4#32)
    exact ⟨load mem place :: ws, congrArg (· + 1) hlength, rfl, hlies⟩

/-- How far below a place another one is. -/
def depth (base place : Word) : Nat := (base - 1#32 - place).toNat

/-- So many words have been pushed from a place on, with the last one first, and
    no more than the words that there is room for has been written. -/
structure Pushed (base : Word) (room : Nat) (mem : Memory) (ws : List Word) (m : Machine) : Prop where
  fits : ws.length ≤ room
  esp : m.esp = base - BitVec.ofNat 32 (4 * ws.length)
  words : Lies m.mem m.esp ws
  kept : ∀ place, 4 * room ≤ depth base place → m.mem place = mem place

theorem Pushed.empty (room : Nat) (m : Machine) : Pushed m.esp room m.mem [] m where
  fits := Nat.zero_le room
  esp := (BitVec.sub_zero m.esp).symm
  words := trivial
  kept _ _ := rfl

theorem Pushed.of_same (hpushed : Pushed base room mem ws m) (hesp : m'.esp = m.esp) (hmem : m'.mem = m.mem) :
    Pushed base room mem ws m' where
  fits := hpushed.fits
  esp := hesp.trans hpushed.esp
  words := by
    rw [hesp, hmem]
    exact hpushed.words
  kept := by
    rw [hmem]
    exact hpushed.kept

theorem Pushed.push (hpushed : Pushed base room mem ws m) (hlt : ws.length < room) (hroom : 4 * room < 2 ^ 32)
    (w : Word) : Pushed base room mem (w :: ws) (m.push w) where
  fits := hlt
  esp := by
    change m.esp - 4#32 = _
    rw [hpushed.esp, List.length_cons, Nat.mul_add, BitVec.ofNat_add, sub_add_eq_sub_sub]
  words := by
    refine ⟨load_store m.mem (m.esp - 4#32) w, ?_⟩
    change Lies _ (m.esp - 4#32 + 4#32) ws
    rw [BitVec.sub_add_cancel]
    refine hpushed.words.congr fun i hi => store_other ?_
    bv_omega
  kept := by
    intro place hplace
    refine (store_other ?_).trans (hpushed.kept place hplace)
    have hesp := hpushed.esp
    rw [depth] at hplace
    bv_omega

/-- What an instruction that pushes does. -/
theorem Pushed.push_goto (hpushed : Pushed base room mem ws m) (hlt : ws.length < room) (hroom : 4 * room < 2 ^ 32)
    (w eip : Word) : Pushed base room mem (w :: ws) ((m.push w).goto eip) :=
  (hpushed.push hlt hroom w).of_same rfl rfl

theorem Pushed.top (hpushed : Pushed base room mem (w :: ws) m) : m.top = w := hpushed.words.1

theorem Pushed.pop (hpushed : Pushed base room mem (w :: ws) m) : Pushed base room mem ws m.pop where
  fits := Nat.le_of_succ_le hpushed.fits
  esp := by
    have hesp := hpushed.esp
    rw [List.length_cons, Nat.mul_add, BitVec.ofNat_add] at hesp
    change m.esp + 4#32 = _
    rw [hesp, sub_add_eq_sub_sub]
    exact BitVec.sub_add_cancel _ _
  words := hpushed.words.2
  kept := hpushed.kept

/-- A word of memory that is not in the room for the stack. -/
theorem Pushed.load_eq (hpushed : Pushed base room mem ws m)
    (hapart : ∀ i < 4, 4 * room ≤ depth base (place + BitVec.ofNat 32 i)) : load m.mem place = load mem place :=
  load_congr fun i hi => hpushed.kept _ (hapart i hi)

/-- An argument of a function that has just been called. -/
def Machine.argument (m : Machine) (k : Nat) : Word := load m.mem (m.esp + BitVec.ofNat 32 (4 * (k + 1)))

/-- A function that was called with so many arguments has come back to the place
    on top of the stack. Of what it found on the stack, the words behind its
    arguments are the same. -/
structure Returned (args words : Nat) (m m' : Machine) : Prop where
  eip : m'.eip = m.top
  esp : m'.esp = m.esp + 4#32
  ebp : m'.reg .ebp = m.reg .ebp
  cs : m'.cs = m.cs
  ss : m'.ss = m.ss
  data : m'.data = m.data
  kept : ∀ i < 4 * words, m'.mem (m.esp + BitVec.ofNat 32 (4 * (args + 1)) + BitVec.ofNat 32 i) =
    m.mem (m.esp + BitVec.ofNat 32 (4 * (args + 1)) + BitVec.ofNat 32 i)

/-- The words of the caller are where it left them. -/
theorem Returned.pushed {words : Nat} {vs : List Word} (hpushed : Pushed base room mem (w :: (vs ++ ws)) m)
    (hreturned : Returned vs.length words m m') (hle : ws.length ≤ words) :
    ∃ us : List Word, us.length = vs.length ∧ Pushed base room m'.mem (us ++ ws) m' := by
  obtain ⟨us, hlength, hargs⟩ := exists_lies m'.mem m'.esp vs.length
  have hbehind : m'.esp + BitVec.ofNat 32 (4 * us.length) = m.esp + BitVec.ofNat 32 (4 * (vs.length + 1)) := by
    rw [hreturned.esp, hlength, Nat.mul_add, Nat.add_comm, BitVec.ofNat_add, ← BitVec.add_assoc]
  have hcaller : Lies m.mem (m.esp + BitVec.ofNat 32 (4 * (vs.length + 1))) ws := by
    have hwords := (lies_append.mp hpushed.words.2).2
    rw [BitVec.add_assoc, ← BitVec.ofNat_add, Nat.add_comm] at hwords
    exact hwords
  refine ⟨us, hlength, ?_, ?_, ?_, fun _ _ => rfl⟩
  · have hfits := hpushed.fits
    simp only [List.length_cons, List.length_append, hlength] at hfits ⊢
    omega
  · rw [hreturned.esp, hpushed.esp, List.length_cons, List.length_append, List.length_append, hlength, Nat.mul_add,
      BitVec.ofNat_add, sub_add_eq_sub_sub]
    exact BitVec.sub_add_cancel _ _
  · refine lies_append.mpr ⟨hargs, ?_⟩
    rw [hbehind]
    exact hcaller.congr fun i hi => hreturned.kept i (by omega)

end support.machine
