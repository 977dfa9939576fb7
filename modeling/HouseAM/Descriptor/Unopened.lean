import HouseAM.Descriptor.Run
import HouseAM.Support.Runs

open houseam.lib houseam.filesystem houseam.terminal support.runs

namespace houseam.system_call

variable {img : Image} {start s s' : Task} {fd : Int} {log : List (Task × Call)} {call : Call}

/-- The descriptors of a process just started in a slot whose memory was still
    zero or was cleared by `sys_halt`. -/
def Started (pcb : pcb_t) : Prop :=
  ∃ slot : pcb_t, (slot.fd_arr = zeroed_pcb.fd_arr ∨ slot.fd_arr = slot.clear_fds.fd_arr) ∧
    pcb.fd_arr = slot.set_std.fd_arr

theorem Started.closed {pcb : pcb_t} (hstarted : Started pcb) {i : Fin 8} (hi : 2 ≤ i.val) :
    (pcb.fd_arr i).flags = 0#32 ∧ (pcb.fd_arr i).file_operations = .null := by
  obtain ⟨slot, hslot, hpcb⟩ := hstarted
  rw [hpcb, pcb_t.set_std_other slot hi]
  rcases hslot with h | h
  · rw [h]
    exact ⟨rfl, rfl⟩
  · rw [h]
    exact ⟨rfl, rfl⟩

/-- The same descriptors are open, at the same positions. -/
def SameOpen (before after : pcb_t) : Prop :=
  ∀ i, (after.fd_arr i).flags = (before.fd_arr i).flags ∧
    ((before.fd_arr i).flags ≠ 0#32 → (after.fd_arr i).file_position = (before.fd_arr i).file_position)

/-- Closing, reading and writing the descriptor fail with -1 and leave the open
    descriptors alone. -/
structure Rejects (img : Image) (fd : Int) (s : Task) : Prop where
  close : (sys_close fd s.pcb).1 = -1 ∧ SameOpen s.pcb (sys_close fd s.pcb).2
  read : ∀ (buf : Nat) (nbytes : Int), buf ≠ 0 → 0 ≤ nbytes →
    ∃ r s', sys_read img fd buf nbytes s = .done (r, s') ∧ r.value = -1 ∧ SameOpen s.pcb s'.pcb
  write : ∀ (buf : Nat → Byte) (nbytes : Int), 0 ≤ nbytes →
    ∃ s', sys_write fd (some buf) nbytes s = .done (-1, s') ∧ SameOpen s.pcb s'.pcb

theorem SameOpen.refl (pcb : pcb_t) : SameOpen pcb pcb := fun _ => ⟨rfl, fun _ => rfl⟩

/-- A close of a closed descriptor fails, whatever its jump table. -/
theorem sys_close_closed (pcb : pcb_t) (hlo : 2 ≤ fd) (hhi : fd ≤ 7)
    (hflags : (pcb.fd_arr (fd_index fd)).flags = 0#32) :
    (sys_close fd pcb).1 = -1 ∧ SameOpen pcb (sys_close fd pcb).2 := by
  rw [sys_close_eq pcb (by simp only [PCB_LENGTH]; omega), hflags]
  refine ⟨rfl, fun i => ?_⟩
  by_cases hi : i = fd_index fd
  · subst hi
    simp [closed_entry, hflags]
  · simp [hi]

/-- A closed descriptor is rejected when it still has the directory jump table,
    which every close installs. -/
theorem rejects_of_dir_operations (hlo : 2 ≤ fd) (hhi : fd ≤ 7)
    (hflags : (s.pcb.fd_arr (fd_index fd)).flags = 0#32)
    (hops : (s.pcb.fd_arr (fd_index fd)).file_operations = .table .dir_operations) : Rejects img fd s where
  close := sys_close_closed s.pcb hlo hhi hflags
  read := by
    intro buf nbytes hbuf hnbytes
    refine ⟨⟨-1, []⟩, s, ?_, rfl, SameOpen.refl s.pcb⟩
    rw [sys_read, if_neg (by simp only [PCB_LENGTH]; omega)]
    simp [hops, hflags]
  write := by
    intro buf nbytes hnbytes
    refine ⟨s, ?_, SameOpen.refl s.pcb⟩
    simp only [sys_write]
    rw [if_neg (by simp only [PCB_LENGTH]; omega), hops]

/-- Reading a descriptor without a jump table follows the null pointer. -/
theorem sys_read_null (hlo : 2 ≤ fd) (hhi : fd ≤ 7)
    (hops : (s.pcb.fd_arr (fd_index fd)).file_operations = .null) {buf : Nat} (hbuf : buf ≠ 0) {nbytes : Int}
    (hnbytes : 0 ≤ nbytes) : sys_read img fd buf nbytes s = .faults := by
  rw [sys_read, if_neg (by simp only [PCB_LENGTH]; omega)]
  simp only [hops]

/-- The jump table of a closed descriptor tells whether it was ever closed by a
    call. -/
structure ClosedTable (fd : Int) (log : List (Task × Call)) (s : Task) : Prop where
  never : (¬ ∃ taken ∈ log, taken.2 = .sys_close fd) → (s.pcb.fd_arr (fd_index fd)).flags = 0#32 →
    (s.pcb.fd_arr (fd_index fd)).file_operations = .null
  once : (∃ taken ∈ log, taken.2 = .sys_close fd) → (s.pcb.fd_arr (fd_index fd)).flags = 0#32 →
    (s.pcb.fd_arr (fd_index fd)).file_operations = .table .dir_operations

theorem closed_append : (∃ taken ∈ log ++ [(s, call)], taken.2 = .sys_close fd) ↔
    (∃ taken ∈ log, taken.2 = .sys_close fd) ∨ call = .sys_close fd := by
  simp only [List.mem_append, List.mem_singleton]
  constructor
  · rintro ⟨taken, h | rfl, hcall⟩
    · exact Or.inl ⟨taken, h, hcall⟩
    · exact Or.inr hcall
  · rintro (⟨taken, h, hcall⟩ | hcall)
    · exact ⟨taken, Or.inl h, hcall⟩
    · exact ⟨(s, call), Or.inr rfl, hcall⟩

/-- One step keeps the account of a descriptor's jump table. -/
theorem ClosedTable.step (htable : ClosedTable fd log s) (hlo : 2 ≤ fd) (hhi : fd ≤ 7)
    (hstep : system_call.step img s call = some s') : ClosedTable fd (log ++ [(s, call)]) s' := by
  have hchange := step_entry hstep (fd_index fd)
  generalize hafter : s'.pcb.fd_arr (fd_index fd) = after at hchange
  cases hchange with
  | unchanged hclose =>
    have hcall : call ≠ .sys_close fd := fun h => hclose fd h hlo hhi rfl
    refine ⟨fun hnever hflags => ?_, fun honce hflags => ?_⟩
    · rw [closed_append] at hnever
      rw [hafter] at hflags ⊢
      exact htable.never (fun h => hnever (Or.inl h)) hflags
    · rw [closed_append] at honce
      rw [hafter] at hflags ⊢
      exact htable.once (honce.resolve_right hcall) hflags
  | opened hfirst hfound =>
    refine ⟨fun _ hflags => ?_, fun _ hflags => ?_⟩ <;>
      · rw [hafter] at hflags
        exact absurd hflags (by simp [opened_entry])
  | closed hclo hchi hindex =>
    rw [fd_index_injective (by omega) hchi (by omega) hhi hindex]
    refine ⟨fun hnever _ => ?_, fun _ _ => ?_⟩
    · exact absurd (closed_append.mpr (Or.inr rfl)) hnever
    · rw [hafter, closed_entry]
  | advanced position _ _ _ hopen =>
    refine ⟨fun _ hflags => ?_, fun _ hflags => ?_⟩ <;>
      · rw [hafter] at hflags
        exact absurd hflags hopen

/-- In every run of a started process, a descriptor that is not open is rejected
    exactly when it was passed to `sys_close` before. A read of one that never
    was follows a null pointer. -/
theorem unopened_rejected_iff (hstarted : Started start.pcb) (run : Run (step img) (fun _ _ => True) start log s)
    (hlo : 2 ≤ fd) (hhi : fd ≤ 7) (hclosed : (s.pcb.fd_arr (fd_index fd)).flags = 0#32) :
    Rejects img fd s ↔ ∃ taken ∈ log, taken.2 = .sys_close fd := by
  have hindex : 2 ≤ (fd_index fd).val := by
    simp only [fd_index, Fin.ofNat]
    omega
  have htable : ClosedTable fd log s := by
    refine run.invariant ?_ ?_
    · exact ⟨fun _ _ => (hstarted.closed hindex).2, by simp⟩
    · intro log s call s' _ hinv _ hstep
      exact hinv.step hlo hhi hstep
  constructor
  · intro hrejects
    by_contra hnever
    obtain ⟨r, s', hread, -, -⟩ := hrejects.read 1 0 (by decide) (by decide)
    rw [sys_read_null hlo hhi (htable.never hnever hclosed) (by decide) (by decide)] at hread
    cases hread
  · intro honce
    exact rejects_of_dir_operations hlo hhi hclosed (htable.once honce hclosed)

/-- A file opened and closed again as descriptor 2, in a slot of zeroed memory. -/
theorem unopened_rejected_iff_frame0 : ∃ log s,
    Run (step small_image) (fun _ _ => True) ⟨zeroed_pcb.set_std, zeroed⟩ log s ∧
      log.map (·.2) = [.sys_open (some frame0_name), .sys_close 2] ∧
      (Rejects small_image 2 s ↔ ∃ taken ∈ log, taken.2 = .sys_close 2) := by
  have hboot : Run (step small_image) (fun _ _ => True) ⟨zeroed_pcb.set_std, zeroed⟩ [] _ := .start
  have hopen := hboot.step trivial (show step small_image _ (.sys_open (some frame0_name)) = _ from rfl)
  have hclose := hopen.step trivial (show step small_image _ (.sys_close 2) = _ from rfl)
  refine ⟨_, _, hclose, rfl, ?_⟩
  exact unopened_rejected_iff ⟨zeroed_pcb, Or.inl rfl, rfl⟩ hclose (by decide) (by decide) (by decide)

/-- Not every unopened descriptor is rejected: a process that reads descriptor 2
    first thing follows a null pointer. -/
theorem unopened_not_rejected : ¬ ∀ (img : Image) (start : Task) (log : List (Task × Call)) (s : Task) (fd : Int),
    Started start.pcb → Run (step img) (fun _ _ => True) start log s → 2 ≤ fd → fd ≤ 7 →
      (s.pcb.fd_arr (fd_index fd)).flags = 0#32 → Rejects img fd s := by
  intro hall
  have hrejects := hall small_image ⟨zeroed_pcb.set_std, zeroed⟩ [] _ 2 ⟨zeroed_pcb, Or.inl rfl, rfl⟩ .start
    (by decide) (by decide) (by decide)
  obtain ⟨r, s', hread, -, -⟩ := hrejects.read 4096 1 (by decide) (by decide)
  cases hread

end houseam.system_call
