import HouseAM.Filesystem.Blocks
import HouseAM.Process.Execute
import HouseAM.Support.Loops

open houseam.filesystem houseam.paging houseam.system_call support.loops

namespace houseam.process

variable {img : Image} {inode : Word} {m n p : Nat} {rest stores : List (Word × Byte)}

/-- The locals of the load loop, and the stores of its reads so far. -/
structure Loader where
  k : Int
  l : Int
  done_flag : Int
  stores : List (Word × Byte)

variable {s s' : Loader}

/-- In front of the loop: the first read is made. -/
def Loader.start (img : Image) (inode : Word) : Loader :=
  let k := read_data img inode 0#32 READ_SIZE
  { k := k.1, l := k.1, done_flag := 0, stores := chunk 0 k.2 }

def Loader.Running (s : Loader) : Prop := s.k ≠ 0 ∨ s.done_flag ≠ 1

instance (s : Loader) : Decidable s.Running := inferInstanceAs (Decidable (_ ∨ _))

def Loader.pass (img : Image) (inode : Word) (s : Loader) : Loader :=
  let k := read_data img inode (BitVec.ofInt 32 s.l) READ_SIZE
  { k := k.1
    l := s.l + k.1
    done_flag := if k.1 ≠ READ_SIZE then 1 else s.done_flag
    stores := s.stores ++ chunk s.l k.2 }

/-- The load loop, when nothing it reads or stores faults, ends after so many reads
    behind the first one. -/
def LoopEnds (img : Image) (inode : Word) : Nat → Loader → Prop :=
  Ends Loader.Running (Loader.pass img inode) (Loader.start img inode)

theorem chunk_append (l : Int) (bytes rest : List Byte) :
    chunk l (bytes ++ rest) = chunk l bytes ++ chunk (l + bytes.length) rest := by
  induction bytes generalizing l with
  | nil => simp [chunk]
  | cons b bytes ih =>
    simp only [List.cons_append, chunk, ih, List.length_cons]
    rw [show l + 1 + (bytes.length : Int) = l + ((bytes.length + 1 : Nat) : Int) by omega]

/-- The stores of a load of bytes in a row. -/
theorem mem_chunk {l : Int} {bytes : List Byte} {store : Word × Byte} :
    store ∈ chunk l bytes ↔
      ∃ i : Nat, ∃ hi : i < bytes.length, store = (VIRTUAL_ADDR + BitVec.ofInt 32 (l + i), bytes[i]) := by
  induction bytes generalizing l with
  | nil => simp [chunk]
  | cons b bytes ih =>
    rw [chunk, List.mem_cons, ih]
    constructor
    · rintro (rfl | ⟨i, hi, rfl⟩)
      · exact ⟨0, Nat.zero_lt_succ _, by simp⟩
      · refine ⟨i + 1, Nat.succ_lt_succ hi, ?_⟩
        rw [show l + 1 + (i : Int) = l + ((i + 1 : Nat) : Int) by omega]
        rfl
    · rintro ⟨i, hi, rfl⟩
      cases i with
      | zero => exact Or.inl (by simp)
      | succ i =>
        refine Or.inr ⟨i, Nat.lt_of_succ_lt_succ hi, ?_⟩
        rw [show l + 1 + (i : Int) = l + ((i + 1 : Nat) : Int) by omega]
        rfl

/-- A read that returns 0 is the loop's last one. -/
theorem Loader.pass_running (img : Image) (inode : Word) (s : Loader) :
    (s.pass img inode).Running ↔ (read_data img inode (BitVec.ofInt 32 s.l) READ_SIZE).1 ≠ 0 := by
  simp only [Loader.Running, Loader.pass]
  constructor
  · rintro (hk | hflag) hzero
    · exact hk hzero
    · rw [hzero, if_pos (by decide)] at hflag
      exact hflag rfl
  · exact Or.inl

/-- The loop as `load` runs it is the loop over these locals. -/
theorem load_loop_ends (hload : load_loop img inode n s.l = some rest) (hrunning : s.Running) :
    ∃ m s', m ≤ n ∧ Ends Loader.Running (Loader.pass img inode) s m s' ∧ s'.stores = s.stores ++ rest := by
  induction n generalizing s rest with
  | zero => cases hload
  | succ n ih =>
    rw [load_loop] at hload
    by_cases hlast : (read_data img inode (BitVec.ofInt 32 s.l) READ_SIZE).1 = 0
    · rw [if_pos hlast] at hload
      cases hload
      have hstop : ¬ (s.pass img inode).Running := fun h => (s.pass_running img inode).mp h hlast
      exact ⟨1, s.pass img inode, by omega, .pass hrunning (.stop hstop), rfl⟩
    · rw [if_neg hlast, Option.map_eq_some_iff] at hload
      obtain ⟨later, hlater, rfl⟩ := hload
      obtain ⟨m, s', hm, ends, hstores⟩ := ih (s := s.pass img inode) hlater ((s.pass_running img inode).mpr hlast)
      refine ⟨m + 1, s', by omega, .pass hrunning ends, ?_⟩
      rw [hstores, Loader.pass, List.append_assoc]

theorem ends_load_loop (ends : Ends Loader.Running (Loader.pass img inode) s m s') (hrunning : s.Running)
    (hm : m ≤ n) :
    ∃ rest, load_loop img inode n s.l = some rest ∧ s'.stores = s.stores ++ rest := by
  induction ends generalizing n with
  | stop hstop => exact absurd hrunning hstop
  | @pass s s' m _ ends ih =>
    obtain ⟨n, rfl⟩ := Nat.exists_eq_succ_of_ne_zero (Nat.ne_zero_of_lt hm)
    rw [load_loop]
    by_cases hlast : (read_data img inode (BitVec.ofInt 32 s.l) READ_SIZE).1 = 0
    · have hstop : ¬ (s.pass img inode).Running := fun h => (s.pass_running img inode).mp h hlast
      obtain ⟨-, rfl⟩ := ends.unique (.stop hstop)
      exact ⟨_, if_pos hlast, rfl⟩
    · obtain ⟨later, hlater, hstores⟩ := ih ((s.pass_running img inode).mpr hlast) (Nat.le_of_succ_le_succ hm)
      refine ⟨_, by rw [if_neg hlast]; exact congrArg _ hlater, ?_⟩
      rw [hstores, Loader.pass, List.append_assoc]

theorem Loader.start_running (img : Image) (inode : Word) : (Loader.start img inode).Running :=
  Or.inr (show (0 : Int) ≠ 1 by decide)

/-- The stores of `load` are those of a loop that ends in time. -/
theorem load_eq_some_iff :
    load img inode = some stores ↔ ∃ n s, n ≤ 2 ^ 32 ∧ LoopEnds img inode n s ∧ s.stores = stores := by
  rw [load, Option.map_eq_some_iff]
  constructor
  · rintro ⟨rest, hrest, rfl⟩
    exact load_loop_ends (s := Loader.start img inode) hrest (Loader.start_running img inode)
  · rintro ⟨n, s, hn, ends, rfl⟩
    obtain ⟨rest, hrest, hstores⟩ := ends_load_loop ends (Loader.start_running img inode) hn
    exact ⟨rest, hrest, hstores.symm⟩

/-! When the loop ends. -/

/-- What the first pieces of a file's load have done. -/
structure Loading (img : Image) (inode : Word) (s : Loader) : Prop where
  nonneg : 0 ≤ s.l
  l_le : s.l ≤ img.fileLength inode
  stores_eq : s.stores = chunk 0 ((img.fileBytes inode).take s.l.toNat)
  ended : ¬ s.Running → s.l = img.fileLength inode

theorem offset_toNat (hp : p < 2 ^ 32) : (BitVec.ofInt 32 (p : Int)).toNat = p := by
  rw [BitVec.toNat_ofInt]
  omega

theorem Loading.start (hwhole : img.Whole inode) : Loading img inode (Loader.start img inode) := by
  have hzero : (0#32).toNat ≤ img.fileLength inode := Nat.zero_le _
  have hread := hwhole.read_data hzero READ_SIZE
  simp only [BitVec.toNat_zero, Nat.sub_zero, List.drop_zero] at hread
  refine ⟨?_, ?_, ?_, fun hstop => absurd (Loader.start_running img inode) hstop⟩
  · rw [Loader.start, hread]
    exact Int.natCast_nonneg _
  · rw [Loader.start, hread]
    exact Int.ofNat_le.mpr (Nat.min_le_right _ _)
  · rw [Loader.start, hread]
    dsimp only
    rw [Int.toNat_natCast, ← img.fileBytes_length inode, ← List.take_eq_take_min]

/-- One more piece. -/
theorem Loading.pass (hwhole : img.Whole inode) (hloading : Loading img inode s) :
    Loading img inode (s.pass img inode) ∧
      (s.pass img inode).l = s.l + min (READ_SIZE : Int) (img.fileLength inode - s.l) := by
  obtain ⟨hnonneg, hle, hstores, -⟩ := hloading
  obtain ⟨p, hp⟩ := Int.eq_ofNat_of_zero_le hnonneg
  rw [hp, Int.toNat_natCast] at hstores
  have hlength := img.fileLength_lt inode
  have hoffset : (BitVec.ofInt 32 s.l).toNat = p := by
    rw [hp]
    exact offset_toNat (by omega)
  have hwithin : (BitVec.ofInt 32 s.l).toNat ≤ img.fileLength inode := by omega
  have hread := hwhole.read_data hwithin READ_SIZE
  rw [hoffset] at hread
  have hl : (s.pass img inode).l = (p + min READ_SIZE (img.fileLength inode - p) : Nat) := by
    rw [Loader.pass, hread, hp]
    exact (Nat.cast_add _ _).symm
  refine ⟨⟨?_, ?_, ?_, fun hstop => ?_⟩, by rw [hl]; omega⟩
  · rw [hl]
    exact Int.natCast_nonneg _
  · rw [hl]
    omega
  · rw [hl, Int.toNat_natCast, Loader.pass, hread, hstores, hp]
    have hshort : ((img.fileBytes inode).take p).length = p := by
      rw [List.length_take, img.fileBytes_length]
      omega
    have hrest : img.fileLength inode - p = ((img.fileBytes inode).drop p).length := by
      rw [List.length_drop, img.fileBytes_length]
    rw [hrest, List.take_add, ← List.take_eq_take_min, chunk_append, hshort, Int.zero_add]
  · rw [s.pass_running, hread, not_not] at hstop
    rw [hl]
    simp only [READ_SIZE] at hstop ⊢
    omega

/-- The load of a file whose blocks are all there ends behind its last byte. -/
theorem whole_loads (hwhole : img.Whole inode) :
    ∃ n s, n ≤ 2 ^ 32 ∧ LoopEnds img inode n s ∧ s.l = img.fileLength inode ∧
      s.stores = chunk 0 (img.fileBytes inode) := by
  have hlength := img.fileLength_lt inode
  have hstart := Loading.start hwhole
  -- each read gets closer to the end, and the one there stops the loop
  let left (s : Loader) : Nat := (img.fileLength inode - s.l).toNat + if s.Running then 1 else 0
  have hkeep (s : Loader) (hloading : Loading img inode s) (hrunning : s.Running) :
      Loading img inode (s.pass img inode) ∧ left (s.pass img inode) < left s := by
    obtain ⟨hnext, hl⟩ := hloading.pass hwhole
    refine ⟨hnext, ?_⟩
    have hle := hloading.l_le
    have hended := hnext.ended
    simp only [left, if_pos hrunning, READ_SIZE] at hl ⊢
    by_cases hmore : (s.pass img inode).Running
    · have hread := (s.pass_running img inode).mp hmore
      have hmoved : (s.pass img inode).l = s.l + (read_data img inode (BitVec.ofInt 32 s.l) READ_SIZE).1 := rfl
      rw [if_pos hmore]
      omega
    · rw [if_neg hmore]
      omega
  obtain ⟨n, s, ends, hloading, hn⟩ := ends_of_decreasing (Loading img inode) left hkeep hstart
  have hl := hloading.ended ends.not_running
  refine ⟨n, s, ?_, ends, hl, ?_⟩
  · have hnonneg := hstart.nonneg
    simp only [left, if_pos (Loader.start_running img inode)] at hn
    omega
  · rw [hloading.stores_eq, hl, Int.toNat_natCast, List.take_of_length_le (img.fileBytes_length inode).le]

/-- When the load loop ends without a fault: all blocks of the file and the entry behind them are
    there, or not even the first one is, but some entry the falling offset comes
    by before it gets back to the file. -/
structure LoopTerminates (img : Image) (inode : Word) : Prop where
  inode_lt : inode.toNat < img.inode_count.toNat
  found : img.HasBlock inode 0 → ∀ j, j * BLOCK_SIZE ≤ img.fileLength inode → img.HasBlock inode j
  lost : ¬ img.HasBlock inode 0 → ∃ j, j < 2 ^ 20 ∧ img.fileLength inode < (j + 1) * BLOCK_SIZE ∧ img.HasBlock inode j

/-- The offset is negative, and as an unsigned number above a position; nothing
    is stored. -/
structure Falling (bottom : Nat) (s : Loader) : Prop where
  above : (bottom : Int) ≤ s.l + 2 ^ 32
  negative : s.l < 0
  stores_eq : s.stores = []

/-- One more read behind the file's end: it finds a block, and ends the loop, or
    the offset falls. -/
theorem Falling.pass (hinode : inode.toNat < img.inode_count.toNat) {j : Nat}
    (hbehind : img.fileLength inode < (j + 1) * BLOCK_SIZE) (hblock : img.HasBlock inode j)
    (hs : Falling (j * 4096 + 4095) s) :
    Falling (j * 4096 + 4095) (s.pass img inode) ∧
      ((s.pass img inode).l = s.l ∧ ¬ (s.pass img inode).Running ∨ (s.pass img inode).l = s.l - 1) := by
  simp only [BLOCK_SIZE] at hbehind
  have habove := hs.above
  have hnegative := hs.negative
  have hoffset : ((BitVec.ofInt 32 s.l).toNat : Int) = s.l + 2 ^ 32 := by
    rw [BitVec.toNat_ofInt]
    omega
  have hpast : img.fileLength inode ≤ (BitVec.ofInt 32 s.l).toNat := by omega
  have hread := read_data_behind hpast (show 0 < READ_SIZE by decide)
  have hstores : (s.pass img inode).stores = [] := by
    rw [Loader.pass, hread, hs.stores_eq]
    rfl
  have hl : (s.pass img inode).l = s.l + (read_data img inode (BitVec.ofInt 32 s.l) READ_SIZE).1 := rfl
  have hnext := s.pass_running img inode
  by_cases hfound : inode.toNat < img.inode_count.toNat ∧
      img.HasBlock inode ((BitVec.ofInt 32 s.l).toNat / BLOCK_SIZE)
  · rw [hread, if_pos hfound] at hl hnext
    exact ⟨⟨by omega, by omega, hstores⟩, Or.inl ⟨by omega, fun h => hnext.mp h rfl⟩⟩
  · have hbottom : s.l + 2 ^ 32 ≠ (j * 4096 + 4095 : Nat) := by
      intro hbottom
      refine hfound ⟨hinode, ?_⟩
      rw [show (BitVec.ofInt 32 s.l).toNat / BLOCK_SIZE = j by simp only [BLOCK_SIZE]; omega]
      exact hblock
    rw [hread, if_neg hfound] at hl
    exact ⟨⟨by omega, by omega, hstores⟩, Or.inr (by omega)⟩

/-- A first read that fails leaves the offset at the top. -/
theorem Falling.start (hlost : ¬ img.HasBlock inode 0) {j : Nat} (hj : j < 2 ^ 20) :
    Falling (j * 4096 + 4095) (Loader.start img inode) := by
  have hfirst : read_data img inode 0#32 READ_SIZE = (-1, []) := by
    rw [read_data_missing]
    exact hlost
  refine ⟨?_, ?_, ?_⟩ <;> simp only [Loader.start, hfirst, chunk]
  · omega
  · decide

/-- Without the first block the offset falls from 2^32 until a read finds a block
    behind the file's end, and that returns 0. -/
theorem lost_loads (hinode : inode.toNat < img.inode_count.toNat) (hlost : ¬ img.HasBlock inode 0) {j : Nat}
    (hj : j < 2 ^ 20) (hbehind : img.fileLength inode < (j + 1) * BLOCK_SIZE) (hblock : img.HasBlock inode j) :
    ∃ n s, n ≤ 2 ^ 32 ∧ LoopEnds img inode n s ∧ s.stores = [] := by
  have hstart := Falling.start hlost hj
  let left (s : Loader) : Nat := (s.l + 2 ^ 32 - (j * 4096 + 4095)).toNat + if s.Running then 1 else 0
  have hkeep (s : Loader) (hs : Falling (j * 4096 + 4095) s) (hrunning : s.Running) :
      Falling (j * 4096 + 4095) (s.pass img inode) ∧ left (s.pass img inode) < left s := by
    obtain ⟨hnext, hmoves⟩ := hs.pass hinode hbehind hblock
    refine ⟨hnext, ?_⟩
    have habove := hnext.above
    simp only [left, if_pos hrunning]
    rcases hmoves with ⟨hstays, hstop⟩ | hfalls
    · rw [hstays, if_neg hstop]
      omega
    · rw [hfalls]
      split
      · omega
      · omega
  obtain ⟨n, s, ends, hs, hn⟩ := ends_of_decreasing (Falling (j * 4096 + 4095)) left hkeep hstart
  have hnegative := hstart.negative
  simp only [left, if_pos (Loader.start_running img inode)] at hn
  exact ⟨n, s, by omega, ends, hs.stores_eq⟩

/-- A read in front of a missing block gets 100 bytes that are all before it, or
    takes the offset back. -/
theorem read_before_missing (hfirst : img.HasBlock inode 0) (hinode : inode.toNat < img.inode_count.toNat) {j : Nat}
    (hj : j * 4096 ≤ img.fileLength inode) (hmissing : ¬ img.HasBlock inode j) (hp : p ≤ j * 4096) :
    (read_data img inode (BitVec.ofInt 32 (p : Int)) READ_SIZE).1 = 100 ∧ p + 100 ≤ j * 4096 ∨
      (read_data img inode (BitVec.ofInt 32 (p : Int)) READ_SIZE).1 = -1 ∧ 0 < p := by
  have hlength := img.fileLength_lt inode
  have hpositive : j ≠ 0 := by
    rintro rfl
    exact hmissing hfirst
  have hoffset : (BitVec.ofInt 32 (p : Int)).toNat = p := offset_toNat (by omega)
  have hle : (BitVec.ofInt 32 (p : Int)).toNat ≤ img.fileLength inode := by omega
  rcases read_data_blocks hle READ_SIZE with ⟨hreadable, hvalue⟩ | ⟨hfails, hvalue⟩
  · apply Or.inl
    have hnot : ¬ img.LooksAt inode (BitVec.ofInt 32 (p : Int)) READ_SIZE j :=
      fun h => hmissing (hreadable.blocks j h)
    simp only [Image.LooksAt, hoffset, READ_SIZE, BLOCK_SIZE] at hnot hvalue ⊢
    omega
  · refine Or.inr ⟨hvalue, Nat.pos_of_ne_zero ?_⟩
    rintro rfl
    refine hfails ⟨hinode, fun i hi => ?_⟩
    simp only [Image.LooksAt, hoffset, READ_SIZE, BLOCK_SIZE] at hi
    rw [show i = 0 by omega]
    exact hfirst

/-- With the first block, but without one up to the file's end, the offset never
    gets past that one. -/
theorem not_loads_missing (hfirst : img.HasBlock inode 0) (hinode : inode.toNat < img.inode_count.toNat) {j : Nat}
    (hj : j * BLOCK_SIZE ≤ img.fileLength inode) (hmissing : ¬ img.HasBlock inode j) : ¬ LoopEnds img inode n s := by
  have hread {p : Nat} (hp : p ≤ j * 4096) := read_before_missing hfirst hinode hj hmissing hp
  refine not_ends (fun s : Loader => s.Running ∧ 0 ≤ s.l ∧ s.l ≤ (j * 4096 : Nat)) (fun s hs => ?_) ?_
  · obtain ⟨hrunning, hlo, hhi⟩ := hs
    obtain ⟨p, hp⟩ := Int.eq_ofNat_of_zero_le hlo
    have hl : (s.pass img inode).l = s.l + (read_data img inode (BitVec.ofInt 32 s.l) READ_SIZE).1 := rfl
    have hnext := s.pass_running img inode
    rw [hp] at hl hnext
    rcases hread (p := p) (by omega) with ⟨hvalue, hroom⟩ | ⟨hvalue, hroom⟩
    · rw [hvalue] at hl hnext
      exact ⟨hrunning, hnext.mpr (by decide), by omega, by omega⟩
    · rw [hvalue] at hl hnext
      exact ⟨hrunning, hnext.mpr (by decide), by omega, by omega⟩
  · refine ⟨Loader.start_running img inode, ?_⟩
    have hl : (Loader.start img inode).l = (read_data img inode (BitVec.ofInt 32 ((0 : Nat) : Int)) READ_SIZE).1 := rfl
    rcases hread (Nat.zero_le _) with ⟨hvalue, hroom⟩ | ⟨-, hnothing⟩
    · rw [hl, hvalue]
      omega
    · exact absurd hnothing (Nat.lt_irrefl 0)

/-- The loop goes on for as long as no read returns 0. -/
theorem not_loads_nonzero (hnonzero : ∀ offset : Word, (read_data img inode offset READ_SIZE).1 ≠ 0) :
    ¬ LoopEnds img inode n s :=
  not_ends Loader.Running
    (fun s hrunning => ⟨hrunning, (s.pass_running img inode).mpr (hnonzero _)⟩) (Loader.start_running img inode)

/-- A loop that ends takes at most 2^32 passes. -/
theorem ends_in_time (hends : LoopTerminates img inode) : ∃ n s, n ≤ 2 ^ 32 ∧ LoopEnds img inode n s := by
  by_cases hfirst : img.HasBlock inode 0
  · obtain ⟨n, s, hn, ends, -⟩ := whole_loads ⟨hends.inode_lt, hends.found hfirst⟩
    exact ⟨n, s, hn, ends⟩
  · obtain ⟨j, hj, hbehind, hblock⟩ := hends.lost hfirst
    obtain ⟨n, s, hn, ends, -⟩ := lost_loads hends.inode_lt hfirst hj hbehind hblock
    exact ⟨n, s, hn, ends⟩

theorem loopTerminates_of_ends (ends : LoopEnds img inode n s) : LoopTerminates img inode := by
  have hinode : inode.toNat < img.inode_count.toNat := by
    by_contra houtside
    refine not_loads_nonzero (fun offset hzero => houtside ?_) ends
    exact ((read_data_eq_zero_iff (by decide)).mp hzero).1
  refine ⟨hinode, fun hfirst j hj => ?_, fun hlost => ?_⟩
  · by_contra hmissing
    exact not_loads_missing hfirst hinode hj hmissing ends
  · by_contra hnone
    refine not_loads_nonzero (fun offset hzero => hnone ?_) ends
    obtain ⟨-, hblock, hend⟩ := (read_data_eq_zero_iff (by decide)).mp hzero
    have hlt := offset.isLt
    refine ⟨offset.toNat / BLOCK_SIZE, ?_, ?_, hblock⟩
    · simp only [BLOCK_SIZE]
      omega
    · simp only [BLOCK_SIZE]
      omega

/-- The bound on the passes cuts off only loops that never end. -/
theorem load_eq_none_iff : load img inode = none ↔ ¬ LoopTerminates img inode := by
  rw [Option.eq_none_iff_forall_ne_some]
  constructor
  · intro hnone hends
    obtain ⟨n, s, hn, ends⟩ := ends_in_time hends
    exact hnone s.stores (load_eq_some_iff.mpr ⟨n, s, hn, ends, rfl⟩)
  · intro hends stores hload
    obtain ⟨n, s, -, ends, -⟩ := load_eq_some_iff.mp hload
    exact hends (loopTerminates_of_ends ends)

/-- A file whose blocks are all there is loaded from `VIRTUAL_ADDR` on, each byte
    once. -/
theorem load_whole (hwhole : img.Whole inode) : load img inode = some (chunk 0 (img.fileBytes inode)) := by
  obtain ⟨n, s, hn, ends, -, hstores⟩ := whole_loads hwhole
  exact load_eq_some_iff.mpr ⟨n, s, hn, ends, hstores⟩

/-- Without the first block, a load that ends has stored nothing. -/
theorem load_lost (hlost : ¬ img.HasBlock inode 0) (hload : load img inode = some stores) : stores = [] := by
  obtain ⟨n, s, -, ends, rfl⟩ := load_eq_some_iff.mp hload
  have hends := loopTerminates_of_ends ends
  obtain ⟨j, hj, hbehind, hblock⟩ := hends.lost hlost
  obtain ⟨m, s', -, ends', hnothing⟩ := lost_loads hends.inode_lt hlost hj hbehind hblock
  rw [(ends.unique ends').2, hnothing]

end houseam.process
