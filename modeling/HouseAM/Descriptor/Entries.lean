import HouseAM.Descriptor.Listing

open houseam.lib houseam.filesystem houseam.terminal support.runs

namespace houseam.system_call

variable {img : Image} {s s' start : Task} {fd : Int} {count n : Nat} {log : List (Task × Call)} {call : Call}

/-! The indices at which the directory's calls access `direntries`. -/

def read_dentry_by_index_accesses (img : Image) (index : Nat) : List Int :=
  if img.dir_count.toNat ≤ index then [] else [index]

/-- The entry is copied before its index is looked at, and the index is a signed
    number. -/
def dir_read_accesses (img : Image) (fd : Fin 8) (pcb : pcb_t) : List Int :=
  let idx := (pcb.fd_arr fd).file_position
  idx.toInt :: read_dentry_by_index_accesses img idx.toNat

/-- The accesses of a read of a descriptor, behind the checks of `sys_read`. -/
def sys_read_accesses (img : Image) (fd : Int) (buf : Nat) (nbytes : Int) (s : Task) : List Int :=
  if fd < 0 ∨ nbytes < 0 ∨ fd > PCB_LENGTH - 1 ∨ fd = 1 ∨ buf = 0 then []
  else
    let a := s.pcb.fd_arr (fd_index fd)
    if a.file_operations = .table .dir_operations ∧ a.flags ≠ 0#32 then dir_read_accesses img (fd_index fd) s.pcb
    else []

def accessesOn (img : Image) (fd : Int) (s : Task) : Call → List Int
  | .sys_read fd' buf nbytes => if fd' = fd then sys_read_accesses img fd' buf nbytes s else []
  | _ => []

/-- The steps of a log access only the 63 entries of the table. -/
def EntriesInside (img : Image) (fd : Int) (log : List (Task × Call)) : Prop :=
  ∀ taken ∈ log, ∀ index ∈ accessesOn img fd taken.1 taken.2, 0 ≤ index ∧ index ≤ 62

theorem accessesOn_other (hrequest : ¬ call.RequestOn fd) : accessesOn img fd s call = [] := by
  cases call with
  | sys_read fd' buf nbytes =>
    rw [accessesOn]
    split
    · rename_i hsame
      rw [sys_read_accesses, if_pos]
      by_contra hchecks
      exact hrequest ⟨hsame, by omega, by omega⟩
    · rfl
  | _ => rfl

/-- A read of the directory accesses the entry it has counted up to. -/
theorem DirOpen.accesses (hopen : DirOpen fd count s) (hlo : 2 ≤ fd) (hhi : fd ≤ 7) (hrequest : call.RequestOn fd)
    (hcount : count < 2 ^ 31) :
    (∀ index ∈ accessesOn img fd s call, index = count) ∧ (count : Int) ∈ accessesOn img fd s call := by
  cases call with
  | sys_read fd' buf nbytes =>
    obtain ⟨rfl, hbuf, hnbytes⟩ := hrequest
    have hchecks : ¬ (fd' < 0 ∨ nbytes < 0 ∨ fd' > PCB_LENGTH - 1 ∨ fd' = 1 ∨ buf = 0) := by
      simp only [PCB_LENGTH]
      omega
    have hflags : (s.pcb.fd_arr (fd_index fd')).flags ≠ 0#32 := by
      rw [hopen.flags]
      decide
    have hnat : (BitVec.ofNat 32 count).toNat = count := by
      rw [BitVec.toNat_ofNat, Nat.mod_eq_of_lt (by omega)]
    have hint : (BitVec.ofNat 32 count).toInt = count := by
      rw [BitVec.toInt_eq_toNat_of_lt (by omega), hnat]
    have haccesses : accessesOn img fd' s (.sys_read fd' buf nbytes) =
        (count : Int) :: read_dentry_by_index_accesses img count := by
      rw [accessesOn, if_pos rfl, sys_read_accesses, if_neg hchecks]
      dsimp only
      rw [if_pos ⟨hopen.operations, hflags⟩, dir_read_accesses, hopen.position, hint, hnat]
    rw [haccesses]
    refine ⟨fun index hindex => ?_, List.mem_cons_self⟩
    rcases List.mem_cons.mp hindex with heq | hchecked
    · exact heq
    · rw [read_dentry_by_index_accesses] at hchecked
      split at hchecked
      · exact absurd hchecked List.not_mem_nil
      · exact List.mem_singleton.mp hchecked
  | _ => exact hrequest.elim

theorem run_listing (hopen : DirOpen fd 0 start) (hlo : 2 ≤ fd) (hhi : fd ≤ 7)
    (run : Run (step img) (fun _ call => call ≠ .sys_close fd) start log s) : Listing img fd log s := by
  refine run.invariant ⟨hopen, by simp [readsOn]⟩ ?_
  intro log s call s' _ hlisting hclose hstep
  exact hlisting.step hlo hhi hstep hclose

theorem EntriesInside.snoc : EntriesInside img fd (log ++ [(s, call)]) ↔
    EntriesInside img fd log ∧ ∀ index ∈ accessesOn img fd s call, 0 ≤ index ∧ index ≤ 62 := by
  simp only [EntriesInside, List.forall_mem_append, List.forall_mem_singleton]

/-- A step that is not a request leaves the number of reads as it is. -/
theorem readsOn_length_other (hrequest : ¬ call.RequestOn fd) :
    (readsOn img fd (log ++ [(s, call)])).length = (readsOn img fd log).length := by
  rw [readsOn_append, readOn_eq_none hrequest, Option.toList_none, List.append_nil]

/-- Counting one more request. -/
theorem DirOpen.readsOn_length (hopen : DirOpen fd count s) (hlo : 2 ≤ fd) (hhi : fd ≤ 7)
    (hrequest : call.RequestOn fd) :
    (readsOn img fd (log ++ [(s, call)])).length = (readsOn img fd log).length + 1 := by
  cases call with
  | sys_read fd' buf nbytes =>
    obtain ⟨rfl, hbuf, hnbytes⟩ := hrequest
    obtain ⟨r, s', hread, -, -⟩ := hopen.sys_read img hlo hhi hbuf hnbytes
    have hcall : readOn img fd' s (.sys_read fd' buf nbytes) = some (nbytes.toNat, r) := by
      rw [readOn, if_pos ⟨rfl, hbuf, hnbytes⟩, hread]
    rw [readsOn_append, hcall, Option.toList_some, List.length_append, List.length_singleton]
  | _ => exact hrequest.elim

/-- In every run of a process's descriptor calls, the reads of a directory since
    its open access only the entries of the table exactly if there were at most
    63 of them. -/
theorem entries_inside_iff (hopen : DirOpen fd 0 start) (hlo : 2 ≤ fd) (hhi : fd ≤ 7)
    (run : Run (step img) (fun _ call => call ≠ .sys_close fd) start log s) :
    EntriesInside img fd log ↔ (readsOn img fd log).length ≤ 63 := by
  induction run with
  | start => exact ⟨fun _ => Nat.zero_le _, fun _ _ h => absurd h List.not_mem_nil⟩
  | @step log s s' call run hclose hstep ih =>
    have hcounted := (run_listing hopen hlo hhi run).dirOpen
    rw [EntriesInside.snoc, ih]
    by_cases hrequest : call.RequestOn fd
    · rw [hcounted.readsOn_length hlo hhi hrequest]
      constructor
      · rintro ⟨hle, hinside⟩
        have hlast := hinside _ (hcounted.accesses hlo hhi hrequest (by omega)).2
        omega
      · intro hle
        refine ⟨by omega, fun index hindex => ?_⟩
        have heq := (hcounted.accesses hlo hhi hrequest (by omega)).1 index hindex
        omega
    · rw [readsOn_length_other hrequest, accessesOn_other hrequest]
      exact and_iff_left fun _ h => absurd h List.not_mem_nil

/-- A directory can be read any number of times. -/
theorem exists_run_reads (img : Image) (hopen : DirOpen fd 0 start) (hlo : 2 ≤ fd) (hhi : fd ≤ 7) (n : Nat) :
    ∃ log s, Run (step img) (fun _ call => call ≠ .sys_close fd) start log s ∧ (readsOn img fd log).length = n := by
  induction n with
  | zero => exact ⟨[], start, .start, rfl⟩
  | succ n ih =>
    obtain ⟨log, s, run, hlength⟩ := ih
    have hcounted := (run_listing hopen hlo hhi run).dirOpen
    obtain ⟨r, s', hread, -, -⟩ := hcounted.sys_read img hlo hhi Nat.one_ne_zero (Int.le_refl 0)
    have hrequest : (Call.sys_read fd 1 0).RequestOn fd := ⟨rfl, Nat.one_ne_zero, Int.le_refl 0⟩
    have hstep : step img s (.sys_read fd 1 0) = some s' := by
      rw [step, hread]
      rfl
    refine ⟨_, s', run.step (by simp) hstep, ?_⟩
    rw [hcounted.readsOn_length hlo hhi hrequest, hlength]

/-- The small directory is read to its end, and once more. -/
theorem entries_inside_iff_small : ∃ log s,
    Run (step small_image) (fun _ call => call ≠ .sys_close 2)
        ⟨(sys_open small_image (some directory_name) zeroed_pcb).2, zeroed⟩ log s ∧
      (readsOn small_image 2 log).length = 5 ∧ EntriesInside small_image 2 log := by
  obtain ⟨hlo, hhi, hopen⟩ := sys_open_dirOpen zeroed
    (show sys_open small_image (some directory_name) zeroed_pcb = (2, _) from rfl) (by decide) rfl rfl
  obtain ⟨log, s, run, hlength⟩ := exists_run_reads small_image hopen hlo hhi 5
  refine ⟨log, s, run, hlength, (entries_inside_iff hopen hlo hhi run).mpr ?_⟩
  rw [hlength]
  decide

/-- The entries are not always inside: the read behind the 63rd copies what
    follows the table. -/
theorem entries_not_inside : ¬ ∀ (img : Image) (fd : Int) (start : Task) (log : List (Task × Call)) (s : Task),
    0 ≤ img.dir_count.toInt → img.dir_count.toInt ≤ 63 → DirOpen fd 0 start → 2 ≤ fd → fd ≤ 7 →
      Run (step img) (fun _ call => call ≠ .sys_close fd) start log s → EntriesInside img fd log := by
  intro hall
  obtain ⟨hlo, hhi, hopen⟩ := sys_open_dirOpen zeroed
    (show sys_open small_image (some directory_name) zeroed_pcb = (2, _) from rfl) (by decide) rfl rfl
  obtain ⟨log, s, run, hlength⟩ := exists_run_reads small_image hopen hlo hhi 63
  have hcounted := (run_listing hopen hlo hhi run).dirOpen
  obtain ⟨r, s', hread, -, -⟩ := hcounted.sys_read small_image hlo hhi Nat.one_ne_zero (Int.le_refl 0)
  have hstep : step small_image s (.sys_read 2 1 0) = some s' := by
    rw [step, hread]
    rfl
  have hinside := hall small_image 2 _ _ _ (by decide) (by decide) hopen hlo hhi (run.step (by simp) hstep)
  have hrequest : (Call.sys_read 2 1 0).RequestOn 2 := ⟨rfl, Nat.one_ne_zero, Int.le_refl 0⟩
  have hlast := (EntriesInside.snoc.mp hinside).2 _ (hcounted.accesses hlo hhi hrequest (by omega)).2
  omega

end houseam.system_call
