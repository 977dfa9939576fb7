import HouseAM.Filesystem.Addresses
import HouseAM.Process.Load

open houseam.filesystem houseam.paging houseam.system_call support.loops

namespace houseam.process

variable {m : module_t} {sys : System} {paging : paging_t} {inode offset : Word} {length n p : Nat} {s : Loader}
  {stores : List (Word × Byte)}

/-- An access to an address does not fault. -/
def Present (sys : System) (paging : paging_t) (va : Word) : Prop :=
  (paging.translate sys.layout sys.others va).isSome

instance (sys : System) (paging : paging_t) (va : Word) : Decidable (Present sys paging va) :=
  inferInstanceAs (Decidable (_ = true))

/-- Nor does one to the rest of its page. -/
theorem present_page {va va' : Word} (hpage : va.toNat / BLOCK_SIZE = va'.toNat / BLOCK_SIZE) :
    Present sys paging va ↔ Present sys paging va' := by
  rw [Present, Present, paging_t.translate, paging_t.translate, support.paging.translate_isSome_page hpage]

/-- An access faults in none of its bytes if its address is mapped. -/
theorem access_present_iff (m : module_t) (access : Access) :
    (∀ i, i < access.size → Present sys paging (access.address m sys.img + BitVec.ofNat 32 i)) ↔
      Present sys paging (access.address m sys.img) := by
  constructor
  · intro hall
    have hsize : 0 < access.size := by cases access <;> exact Nat.zero_lt_succ _
    rw [← present_page (access.one_page m sys.img hsize)]
    exact hall 0 hsize
  · intro haddress i hi
    exact (present_page (access.one_page m sys.img hi)).mpr haddress

/-- So does the search in a directory entry. -/
theorem direntry_present_iff (m : module_t) (i : Nat) :
    (∀ j, j < 64 → Present sys paging (m.direntry i + BitVec.ofNat 32 j)) ↔ Present sys paging (m.direntry i) := by
  constructor
  · intro hall
    rw [← present_page (m.direntry_one_page i (show 0 < 64 by decide))]
    exact hall 0 (by decide)
  · intro haddress j hj
    exact (present_page (m.direntry_one_page i hj)).mpr haddress

/-- A call of `read_data` does not fault: the boot block, for its counts, and
    what the call looks at are mapped. -/
def ReadMapped (m : module_t) (sys : System) (paging : paging_t) (inode offset : Word) (length : Nat) : Prop :=
  Present sys paging m.mod_start ∧
    ∀ access ∈ read_data_accesses sys.img inode offset length, Present sys paging (access.address m sys.img)

instance (m : module_t) (sys : System) (paging : paging_t) (inode offset : Word) (length : Nat) :
    Decidable (ReadMapped m sys paging inode offset length) := inferInstanceAs (Decidable (_ ∧ _))

/-- Nor does the one that loads the piece of a program at `VIRTUAL_ADDR+l`: it
    stores to mapped addresses, too. -/
def PieceMapped (m : module_t) (sys : System) (paging : paging_t) (inode : Word) (l : Int) : Prop :=
  ReadMapped m sys paging inode (BitVec.ofInt 32 l) READ_SIZE ∧
    ∀ store ∈ chunk l (read_data sys.img inode (BitVec.ofInt 32 l) READ_SIZE).2, Present sys paging store.1

instance (m : module_t) (sys : System) (paging : paging_t) (inode : Word) (l : Int) :
    Decidable (PieceMapped m sys paging inode l) := inferInstanceAs (Decidable (_ ∧ _))

/-- The load loop ends after so many reads behind the first one. When one of them
    faults it does not: `page_fault_int` never returns. -/
def LoadsIn (m : module_t) (sys : System) (paging : paging_t) (inode : Word) (n : Nat) (s : Loader) : Prop :=
  PieceMapped m sys paging inode 0 ∧
    FaultingEnds (fun s => PieceMapped m sys paging inode s.l) Loader.Running (Loader.pass sys.img inode)
      (Loader.start sys.img inode) n s

/-- What the load needs at a position of a file: the read looks at mapped
    addresses, and a byte gets to one. -/
structure PositionMapped (m : module_t) (sys : System) (paging : paging_t) (inode : Word) (q : Nat) : Prop where
  reads : ReadsAt (fun access => Present sys paging (access.address m sys.img)) sys.img inode q
  store : q < sys.img.fileLength inode → Present sys paging (VIRTUAL_ADDR + BitVec.ofInt 32 (q : Int))

/-- The piece at a position of a file whose blocks are all there. -/
theorem piece_mapped_iff (hwhole : sys.img.Whole inode) (hp : p ≤ sys.img.fileLength inode) :
    PieceMapped m sys paging inode p ↔ Present sys paging m.mod_start ∧
      ∀ q, p ≤ q → q < p + READ_SIZE → q ≤ sys.img.fileLength inode → PositionMapped m sys paging inode q := by
  have hlength := sys.img.fileLength_lt inode
  have hoffset : (BitVec.ofInt 32 (p : Int)).toNat = p := offset_toNat (by omega)
  have hle : (BitVec.ofInt 32 (p : Int)).toNat ≤ sys.img.fileLength inode := by omega
  have haccesses := (hwhole.readable hle READ_SIZE).accesses_iff
    (P := fun access => Present sys paging (access.address m sys.img)) hle (by decide)
  rw [hoffset] at haccesses
  rw [PieceMapped, ReadMapped, haccesses, hwhole.read_data hle READ_SIZE, hoffset]
  have hpiece : (((sys.img.fileBytes inode).drop p).take READ_SIZE).length =
      min READ_SIZE (sys.img.fileLength inode - p) := by simp
  constructor
  · rintro ⟨⟨hcounts, hreads⟩, hstores⟩
    refine ⟨hcounts, fun q hlo hhi hq => ⟨hreads q hlo hhi hq, fun hbefore => ?_⟩⟩
    have hstore := hstores _ (mem_chunk.mpr ⟨q - p, by rw [hpiece]; omega, rfl⟩)
    rwa [show (p : Int) + ((q - p : Nat) : Int) = q by omega] at hstore
  · rintro ⟨hcounts, hall⟩
    refine ⟨⟨hcounts, fun q hlo hhi hq => (hall q hlo hhi hq).reads⟩, fun store hstore => ?_⟩
    obtain ⟨i, hi, rfl⟩ := mem_chunk.mp hstore
    rw [hpiece] at hi
    have hbyte := (hall (p + i) (by omega) (by omega) (by omega)).store (by omega)
    exact_mod_cast hbyte

/-! What the end of a load says. -/

theorem LoadsIn.ends (hloads : LoadsIn m sys paging inode n s) : LoopEnds sys.img inode n s := hloads.2.ends

theorem LoadsIn.terminates (hloads : LoadsIn m sys paging inode n s) : LoopTerminates sys.img inode :=
  loopTerminates_of_ends hloads.ends

/-- Some read has returned 0, without a fault. -/
theorem LoadsIn.last_read (hloads : LoadsIn m sys paging inode n s) :
    ∃ l : Int, PieceMapped m sys paging inode l ∧
      (read_data sys.img inode (BitVec.ofInt 32 l) READ_SIZE).1 = 0 := by
  by_contra hnone
  refine not_faultingEnds Loader.Running (fun s hrunning => ⟨hrunning, fun hfits => ?_⟩)
    (Loader.start_running sys.img inode) hloads.2
  exact (s.pass_running sys.img inode).mpr fun hzero => hnone ⟨s.l, hfits, hzero⟩

/-- That read has looked at the length. -/
theorem LoadsIn.length_present (hloads : LoadsIn m sys paging inode n s) :
    Present sys paging ((Access.length inode).address m sys.img) := by
  obtain ⟨l, ⟨⟨-, hreads⟩, -⟩, hzero⟩ := hloads.last_read
  obtain ⟨hinode, hblock, hend⟩ := (read_data_eq_zero_iff (by decide)).mp hzero
  rw [read_data_accesses_behind hinode hblock hend (by decide)] at hreads
  exact hreads (.length inode) (List.mem_cons_of_mem _ List.mem_cons_self)

/-- Every position of a file whose blocks are all there has been read. -/
theorem LoadsIn.position (hloads : LoadsIn m sys paging inode n s) (hwhole : sys.img.Whole inode) {q : Nat}
    (hq : q ≤ sys.img.fileLength inode) : PositionMapped m sys paging inode q := by
  by_contra hunmapped
  -- a piece that does not fault is in front of the position
  have hbefore (p : Nat) (hp : p ≤ q) (hpiece : PieceMapped m sys paging inode p) : p + READ_SIZE ≤ q := by
    obtain ⟨-, hall⟩ := (piece_mapped_iff hwhole (Nat.le_trans hp hq)).mp hpiece
    by_contra hreached
    exact hunmapped (hall q hp (Nat.lt_of_not_le hreached) hq)
  refine not_faultingEnds (fun s : Loader => s.Running ∧ Loading sys.img inode s ∧ s.l ≤ q) (fun s hs => ?_) ?_ hloads.2
  · obtain ⟨hrunning, hloading, hle⟩ := hs
    obtain ⟨p, hp⟩ := Int.eq_ofNat_of_zero_le hloading.nonneg
    refine ⟨hrunning, fun hfits => ?_⟩
    obtain ⟨hnext, hl⟩ := hloading.pass hwhole
    rw [hp] at hfits
    have hroom := hbefore p (by omega) hfits
    simp only [READ_SIZE] at hroom hl
    refine ⟨(s.pass_running sys.img inode).mpr ?_, hnext, by omega⟩
    have hmoved : (s.pass sys.img inode).l = s.l + (read_data sys.img inode (BitVec.ofInt 32 s.l) READ_SIZE).1 := rfl
    omega
  · have hstart := Loading.start hwhole
    have hroom := hbefore 0 (Nat.zero_le q) hloads.1
    have hzero : (0#32).toNat ≤ sys.img.fileLength inode := Nat.zero_le _
    have hl : (Loader.start sys.img inode).l = (read_data sys.img inode 0#32 READ_SIZE).1 := rfl
    rw [hwhole.read_data hzero READ_SIZE] at hl
    simp only [BitVec.toNat_zero, READ_SIZE] at hl hroom
    exact ⟨Loader.start_running sys.img inode, hstart, by omega⟩

/-- Without the first block the offset has fallen by every entry above the last
    block there is. -/
theorem LoadsIn.entry (hloads : LoadsIn m sys paging inode n s) (hlost : ¬ sys.img.HasBlock inode 0) {i : Nat}
    (hi : i < 2 ^ 20) (hnone : ∀ j, i < j → j < 2 ^ 20 → ¬ sys.img.HasBlock inode j) :
    Present sys paging ((Access.data_block_num inode i).address m sys.img) := by
  by_contra hunmapped
  refine not_faultingEnds (fun s : Loader => s.Running ∧ (i * 4096 + 4095 : Nat) ≤ s.l + 2 ^ 32 ∧ s.l < 0)
    (fun s hs => ?_) ?_ hloads.2
  · obtain ⟨hrunning, habove, hnegative⟩ := hs
    refine ⟨hrunning, fun hfits => ?_⟩
    have hoffset : ((BitVec.ofInt 32 s.l).toNat : Int) = s.l + 2 ^ 32 := by
      rw [BitVec.toNat_ofInt]
      omega
    have hentry := read_data_accesses_entry hfits.1.2
    have hindex : i < (BitVec.ofInt 32 s.l).toNat / BLOCK_SIZE := by
      refine Nat.lt_of_le_of_ne ?_ fun hsame => hunmapped (hsame ▸ hentry)
      simp only [BLOCK_SIZE]
      omega
    have hmissing : ¬ sys.img.HasBlock inode ((BitVec.ofInt 32 s.l).toNat / BLOCK_SIZE) :=
      hnone _ hindex (by simp only [BLOCK_SIZE]; omega)
    have hread : (read_data sys.img inode (BitVec.ofInt 32 s.l) READ_SIZE).1 = -1 := by
      rw [read_data_missing hmissing]
    have hl : (s.pass sys.img inode).l = s.l + (read_data sys.img inode (BitVec.ofInt 32 s.l) READ_SIZE).1 := rfl
    rw [hread] at hl
    simp only [BLOCK_SIZE] at hindex
    exact ⟨(s.pass_running sys.img inode).mpr (by rw [hread]; decide), by omega, by omega⟩
  · have hl : (Loader.start sys.img inode).l = (read_data sys.img inode 0#32 READ_SIZE).1 := rfl
    rw [read_data_missing (by exact hlost)] at hl
    exact ⟨Loader.start_running sys.img inode, by omega, by omega⟩

/-! When a load ends. -/

/-- When the load loop ends: what it looks at is mapped. All blocks of the file and
    the entry behind them are there, and where the bytes are and where they go
    is mapped; or the first block is missing, and the falling offset comes by mapped
    entries up to one that is there, before it gets back to the file. -/
structure LoadEnds (m : module_t) (sys : System) (paging : paging_t) (inode : Word) : Prop where
  inode_lt : inode.toNat < sys.img.inode_count.toNat
  counts : Present sys paging m.mod_start
  length : Present sys paging ((Access.length inode).address m sys.img)
  first : Present sys paging ((Access.data_block_num inode 0).address m sys.img)
  found : sys.img.HasBlock inode 0 → ∀ j, j * BLOCK_SIZE ≤ sys.img.fileLength inode →
    sys.img.HasBlock inode j ∧ Present sys paging ((Access.data_block_num inode j).address m sys.img)
  bytes : sys.img.HasBlock inode 0 → ∀ i : Nat, i < sys.img.fileLength inode →
    Present sys paging ((Access.data_block (sys.img.blockAt inode i) (i % BLOCK_SIZE)).address m sys.img) ∧
      Present sys paging (VIRTUAL_ADDR + BitVec.ofInt 32 (i : Int))
  lost : ¬ sys.img.HasBlock inode 0 → ∃ j, j < 2 ^ 20 ∧ sys.img.fileLength inode < (j + 1) * BLOCK_SIZE ∧
    sys.img.HasBlock inode j ∧
      ∀ i, j ≤ i → i < 2 ^ 20 → Present sys paging ((Access.data_block_num inode i).address m sys.img)

theorem LoadEnds.terminates (hends : LoadEnds m sys paging inode) : LoopTerminates sys.img inode where
  inode_lt := hends.inode_lt
  found := fun hfirst j hj => (hends.found hfirst j hj).1
  lost := fun hlost => by
    obtain ⟨j, hj, hbehind, hblock, -⟩ := hends.lost hlost
    exact ⟨j, hj, hbehind, hblock⟩

theorem LoadEnds.whole (hends : LoadEnds m sys paging inode) (hfirst : sys.img.HasBlock inode 0) :
    sys.img.Whole inode := ⟨hends.inode_lt, fun j hj => (hends.found hfirst j hj).1⟩

theorem LoadEnds.position (hends : LoadEnds m sys paging inode) (hfirst : sys.img.HasBlock inode 0) {q : Nat}
    (hq : q ≤ sys.img.fileLength inode) : PositionMapped m sys paging inode q where
  reads :=
    { entry := (hends.found hfirst _ (Nat.le_trans (Nat.div_mul_le_self q BLOCK_SIZE) hq)).2
      length := hends.length
      byte := fun hbefore => (hends.bytes hfirst q hbefore).1 }
  store := fun hbefore => (hends.bytes hfirst q hbefore).2

theorem LoadsIn.loadEnds (hloads : LoadsIn m sys paging inode n s) : LoadEnds m sys paging inode := by
  obtain ⟨hinode, hfound, hlost⟩ := hloads.terminates
  refine ⟨hinode, hloads.1.1.1, hloads.length_present, read_data_accesses_entry hloads.1.1.2, fun hfirst j hj => ?_,
    fun hfirst i hi => ?_, fun hmissing => ?_⟩
  · have hposition := hloads.position ⟨hinode, hfound hfirst⟩ hj
    have hentry := hposition.reads.entry
    rw [Nat.mul_div_cancel j (by decide)] at hentry
    exact ⟨hfound hfirst j hj, hentry⟩
  · have hposition := hloads.position ⟨hinode, hfound hfirst⟩ (Nat.le_of_lt hi)
    exact ⟨hposition.reads.byte hi, hposition.store hi⟩
  · obtain ⟨j, hj, hbehind, hblock⟩ := hlost hmissing
    obtain ⟨last, hle, hlast, hthere, hnone⟩ := filesystem.Image.exists_last_block hj hblock
    refine ⟨last, hlast, ?_, hthere, fun i hlo hhi => ?_⟩
    · exact Nat.lt_of_lt_of_le hbehind (Nat.mul_le_mul_right _ (Nat.succ_le_succ hle))
    · exact hloads.entry hmissing hhi fun j hj => hnone j (Nat.lt_of_le_of_lt hlo hj)

/-- A falling offset looks at one entry, and at the length if that one is there. -/
theorem LoadEnds.falling (hends : LoadEnds m sys paging inode) {j : Nat}
    (hbehind : sys.img.fileLength inode < (j + 1) * BLOCK_SIZE)
    (hentries : ∀ i, j ≤ i → i < 2 ^ 20 → Present sys paging ((Access.data_block_num inode i).address m sys.img))
    (hs : Falling (j * 4096 + 4095) s) : PieceMapped m sys paging inode s.l := by
  obtain ⟨habove, hnegative, -⟩ := hs
  simp only [BLOCK_SIZE] at hbehind
  have hoffset : ((BitVec.ofInt 32 s.l).toNat : Int) = s.l + 2 ^ 32 := by
    rw [BitVec.toNat_ofInt]
    omega
  have hpast : sys.img.fileLength inode ≤ (BitVec.ofInt 32 s.l).toNat := by omega
  have hentry := hentries ((BitVec.ofInt 32 s.l).toNat / BLOCK_SIZE) (by simp only [BLOCK_SIZE]; omega)
    (by simp only [BLOCK_SIZE]; omega)
  refine ⟨⟨hends.counts, ?_⟩, ?_⟩
  · by_cases hblock : sys.img.HasBlock inode ((BitVec.ofInt 32 s.l).toNat / BLOCK_SIZE)
    · rw [read_data_accesses_behind hends.inode_lt hblock hpast (by decide), List.forall_mem_cons,
        List.forall_mem_singleton]
      exact ⟨hentry, hends.length⟩
    · rw [read_data_accesses_missing hblock, List.forall_mem_singleton]
      exact hentry
  · rw [read_data_behind hpast (by decide)]
    exact fun _ h => absurd h List.not_mem_nil

theorem LoadEnds.loads (hends : LoadEnds m sys paging inode) : ∃ n s, n ≤ 2 ^ 32 ∧ LoadsIn m sys paging inode n s := by
  by_cases hfirst : sys.img.HasBlock inode 0
  · have hwhole := hends.whole hfirst
    have hpiece (p : Nat) (hp : p ≤ sys.img.fileLength inode) : PieceMapped m sys paging inode p :=
      (piece_mapped_iff hwhole hp).mpr ⟨hends.counts, fun q _ _ hq => hends.position hfirst hq⟩
    obtain ⟨n, s, hn, ends, -⟩ := whole_loads hwhole
    refine ⟨n, s, hn, hpiece 0 (Nat.zero_le _), ?_⟩
    refine ends.faulting (Loading sys.img inode) (fun s hloading _ => ⟨?_, (hloading.pass hwhole).1⟩)
      (Loading.start hwhole)
    obtain ⟨p, hp⟩ := Int.eq_ofNat_of_zero_le hloading.nonneg
    rw [hp]
    exact hpiece p (by have hle := hloading.l_le; omega)
  · obtain ⟨j, hj, hbehind, hblock, hentries⟩ := hends.lost hfirst
    obtain ⟨n, s, hn, ends, -⟩ := lost_loads hends.inode_lt hfirst hj hbehind hblock
    refine ⟨n, s, hn, ⟨⟨hends.counts, ?_⟩, ?_⟩, ?_⟩
    · rw [read_data_accesses_missing (by exact hfirst), List.forall_mem_singleton]
      exact hends.first
    · rw [read_data_missing (by exact hfirst)]
      exact fun _ h => absurd h List.not_mem_nil
    · exact ends.faulting (Falling (j * 4096 + 4095))
        (fun s hs _ => ⟨hends.falling hbehind hentries hs, (hs.pass hends.inode_lt hbehind hblock).1⟩)
        (Falling.start hfirst hj)

/-- The load loop ends exactly if nothing it reads or stores is unmapped, the
    inode is one of the image's, and its block list is complete up to the entry
    behind the file's end, or lacks the first block and has some block behind the
    end. -/
theorem loader_ends_iff (m : module_t) (sys : System) (paging : paging_t) (inode : Word) :
    (∃ n s, LoadsIn m sys paging inode n s) ↔ LoadEnds m sys paging inode := by
  constructor
  · rintro ⟨n, s, hloads⟩
    exact hloads.loadEnds
  · intro hends
    obtain ⟨n, s, -, hloads⟩ := hends.loads
    exact ⟨n, s, hloads⟩

/-- The stores that load a program, with the faults of their reads. -/
def load_mapped (m : module_t) (sys : System) (paging : paging_t) (inode : Word) : Option (List (Word × Byte)) :=
  if PieceMapped m sys paging inode 0 then
    match loop (stillRunning Loader.Running)
        (guarded (fun s => PieceMapped m sys paging inode s.l) (Loader.pass sys.img inode)) (2 ^ 32)
        (some (Loader.start sys.img inode)) with
    | some (some s) => some s.stores
    | some none => none
    | none => none
  else none

theorem load_mapped_eq_some_iff :
    load_mapped m sys paging inode = some stores ↔
      ∃ n s, n ≤ 2 ^ 32 ∧ LoadsIn m sys paging inode n s ∧ s.stores = stores := by
  rw [load_mapped]
  by_cases hstart : PieceMapped m sys paging inode 0
  · rw [if_pos hstart]
    constructor
    · intro hload
      split at hload
      · rename_i s hloop
        cases hload
        obtain ⟨n, hn, ends⟩ := loop_eq_some_iff.mp hloop
        exact ⟨n, s, hn, ⟨hstart, ends⟩, rfl⟩
      · cases hload
      · cases hload
    · rintro ⟨n, s, hn, hloads, rfl⟩
      rw [loop_eq_some_iff.mpr ⟨n, hn, hloads.2⟩]
  · rw [if_neg hstart]
    exact iff_of_false (fun h => by cases h) fun ⟨_, _, _, hloads, _⟩ => hstart hloads.1

/-- The bound on the passes cuts off only loops that never end. -/
theorem load_mapped_isSome_iff : (load_mapped m sys paging inode).isSome ↔ LoadEnds m sys paging inode := by
  rw [Option.isSome_iff_exists]
  constructor
  · rintro ⟨stores, hload⟩
    obtain ⟨n, s, -, hloads, -⟩ := load_mapped_eq_some_iff.mp hload
    exact hloads.loadEnds
  · intro hends
    obtain ⟨n, s, hn, hloads⟩ := hends.loads
    exact ⟨s.stores, load_mapped_eq_some_iff.mpr ⟨n, s, hn, hloads, rfl⟩⟩

/-! The kernel's own tables. -/

theorem present_kernel {va : Word} (hfilled : Filled sys.layout paging) (hlo : 0x400000 ≤ va.toNat)
    (hhi : va.toNat < 0x800000) : Present sys paging va := by
  rw [Present, translate_kernel hfilled hlo hhi]
  rfl

/-- What is inside the arrays of an image in the kernel's page. -/
theorem present_inside (hfilled : Filled sys.layout paging) (hplace : m.InKernelPage sys.img) {access : Access}
    (haccess : access.Inside sys.img) : Present sys paging (access.address m sys.img) :=
  present_kernel hfilled (hplace.access_bounds haccess).1 (hplace.access_bounds haccess).2

theorem present_counts (hfilled : Filled sys.layout paging) (hplace : m.InKernelPage sys.img) :
    Present sys paging m.mod_start := by
  obtain ⟨hlo, hhi⟩ := hplace
  simp only [BLOCK_SIZE] at hhi
  exact present_kernel hfilled hlo (by omega)

/-- A byte of a program is stored to a mapped address if that is in its page. -/
theorem present_store_iff (hfilled : Filled sys.layout paging) (q : Fin 6) {i : Nat} (hi : i ≤ 0x3B8000) :
    Present sys (paging.setEntry (page_entry (pid q))) (VIRTUAL_ADDR + BitVec.ofInt 32 (i : Int)) ↔ i < 0x3B8000 := by
  rcases Nat.eq_or_lt_of_le hi with rfl | hlt
  · refine iff_of_false ?_ (Nat.lt_irrefl _)
    rw [Present, translate_elsewhere (hfilled.setEntry _) (by rw [InProgram]; decide) (by decide)]
    exact Bool.false_ne_true
  · obtain ⟨mapping, htranslate, -⟩ := translate_program sys (paging.setEntry_same (page_entry (pid q))) hlt
    rw [Present, htranslate]
    exact iff_of_true rfl hlt

/-- A valid file of an image in the kernel's page is loaded exactly if it ends with
    the program's page. -/
theorem loadEnds_fileOk_iff (hfilled : Filled sys.layout paging) (hplace : m.InKernelPage sys.img)
    (hfile : sys.img.FileOk inode) (q : Fin 6) :
    LoadEnds m sys (paging.setEntry (page_entry (pid q))) inode ↔ sys.img.fileLength inode ≤ 0x3B8000 := by
  have hfirst : sys.img.HasBlock inode 0 := hfile.whole.blocks 0 (Nat.zero_le _)
  have hinside (access : Access) (haccess : access.Inside sys.img) :
      Present sys (paging.setEntry (page_entry (pid q))) (access.address m sys.img) :=
    present_inside (hfilled.setEntry _) hplace haccess
  constructor
  · intro hends
    by_contra hlong
    have hstore := (hends.bytes hfirst 0x3B8000 (Nat.lt_of_not_le hlong)).2
    exact Nat.lt_irrefl _ ((present_store_iff hfilled q (Nat.le_refl _)).mp hstore)
  · intro hfits
    have hfront := (hfile.readsAt (Nat.zero_le _)).imp hinside
    refine ⟨hfile.inode_lt, present_counts (hfilled.setEntry _) hplace, hfront.length, hfront.entry, fun _ j hj => ?_,
      fun _ i hi => ?_, fun hlost => absurd hfirst hlost⟩
    · have hreads := (hfile.readsAt hj).imp hinside
      have hentry := hreads.entry
      rw [Nat.mul_div_cancel j (by decide)] at hentry
      exact ⟨hfile.whole.blocks j hj, hentry⟩
    · have hreads := (hfile.readsAt (Nat.le_of_lt hi)).imp hinside
      exact ⟨hreads.byte hi, (present_store_iff hfilled q (by omega)).mpr (by omega)⟩

/-- The small image, with an executable that fills its block, and a block list
    that leads out of the image behind it. -/
def full_executable_image : Image :=
  { filesystem.small_image with
    inode_start := fun n =>
      if n = 1 then ⟨4096#32, fun j => if j = 0 then 0#32 else 9#32⟩ else ⟨3#32, fun _ => 1#32⟩ }

/-- The loop does not always end: a read that fails at the end of an executable
    takes the offset back, and the next ones take it there again. -/
theorem loader_not_ends : ¬ ∀ (m : module_t) (sys : System) (paging : paging_t) (q : Fin 6) (command : CString)
    (d : dentry_t) (leftover : Nat → Byte), Filled sys.layout paging → m.InKernelPage sys.img →
      (∀ n j, 0 ≤ ((sys.img.inode_start n).data_block_num j).toInt) →
        read_dentry_by_name sys.img (some (command_word command)) = some d →
          is_elf sys.img d.inode_num leftover = true →
            ∃ n s, LoadsIn m sys (paging.setEntry (page_entry (pid q))) d.inode_num n s := by
  intro hall
  have hblocks : ∀ n j, 0 ≤ ((full_executable_image.inode_start n).data_block_num j).toInt := by
    intro n j
    simp only [full_executable_image]
    split
    · dsimp only
      split <;> decide
    · exact show 0 ≤ (1#32).toInt by decide
  obtain ⟨n, s, hloads⟩ := hall small_module ⟨full_executable_image, small_layout, fun _ _ => 0#32⟩
    (page_fill small_layout ⟨fun _ => 0#32, fun _ => 0#32, fun _ => 0#32⟩) 0 shell_name
    (copy_dentry (.named shell_name.bytes 2#32 1#32)) (fun _ => 0#8) (page_fill_filled _ _) ⟨by decide, by decide⟩
    hblocks rfl (by decide)
  refine not_loads_missing ?_ ?_ (show 1 * BLOCK_SIZE ≤ full_executable_image.fileLength 1#32 by decide) ?_ hloads.ends
  · decide
  · decide
  · decide

end houseam.process
