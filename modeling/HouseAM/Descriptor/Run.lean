import HouseAM.Descriptor.Calls

open houseam.lib houseam.filesystem houseam.terminal

namespace houseam.system_call

/-- The calls of a process on its descriptors, and what interrupts do to the
    terminal between two of them. -/
inductive Call where
  | sys_open (filename : Option CString)
  | sys_close (fd : Int)
  | sys_read (fd : Int) (buf : Nat) (nbytes : Int)
  | sys_write (fd : Int) (buf : Option (Nat → Byte)) (nbytes : Int)
  | interrupt (term : terminal_t)

/-- The state behind a call that returned. -/
def Outcome.after {α : Type} : Outcome (α × Task) → Option Task
  | .done result => some result.2
  | .waits => none
  | .faults => none

/-- One call by the process. There is no step for a call that does not return. -/
def step (img : Image) (s : Task) : Call → Option Task
  | .sys_open filename => some { s with pcb := (sys_open img filename s.pcb).2 }
  | .sys_close fd => some { s with pcb := (sys_close fd s.pcb).2 }
  | .sys_read fd buf nbytes => (sys_read img fd buf nbytes s).after
  | .sys_write fd buf nbytes => (sys_write fd buf nbytes s).after
  | .interrupt term => some { s with term := term }

variable {img : Image} {s s' : Task} {call : Call} {i : Fin 8}

/-- The entry an open fills in over an old one. -/
def opened_entry (dir_ent : dentry_t) (old : fd_array_t) : fd_array_t where
  flags := 1#32
  inode := dir_ent.inode_num
  file_position := 0#32
  file_operations := opened_operations dir_ent.filetype old.file_operations

/-- The entry a close leaves behind. -/
def closed_entry (old : fd_array_t) : fd_array_t :=
  { old with flags := 0#32, file_operations := .table .dir_operations }

theorem first_closed_flags {pcb : pcb_t} (hfirst : first_closed pcb = some i) : (pcb.fd_arr i).flags = 0#32 := by
  simpa using List.find?_some hfirst

theorem first_closed_ge_two {pcb : pcb_t} (hfirst : first_closed pcb = some i) : 2 ≤ i.val := by
  have hmem := List.mem_of_find?_eq_some hfirst
  clear hfirst
  revert i
  decide

/-- What an open does: nothing, or a new entry in the first closed place. -/
theorem sys_open_cases (img : Image) (filename : Option CString) (pcb : pcb_t) :
    sys_open img filename pcb = (-1, pcb) ∨
      ∃ i d, first_closed pcb = some i ∧ read_dentry_by_name img filename = some d ∧
        sys_open img filename pcb = ((i.val : Int), pcb.setFd i (opened_entry d (pcb.fd_arr i))) := by
  cases filename with
  | none => exact Or.inl rfl
  | some filename =>
    unfold sys_open
    cases hfirst : first_closed pcb with
    | none => exact Or.inl rfl
    | some i =>
      have hflags := first_closed_flags hfirst
      dsimp only
      rw [hflags, if_neg (by decide)]
      cases hfound : read_dentry_by_name img (some filename) with
      | none => exact Or.inl rfl
      | some d => exact Or.inr ⟨i, d, rfl, rfl, rfl⟩

/-- A successful open fills in the entry of the descriptor it returns. -/
theorem sys_open_entry {fd : Int} {filename : Option CString} {d : dentry_t} {pcb pcb' : pcb_t}
    (hopen : sys_open img filename pcb = (fd, pcb')) (hfd : 0 ≤ fd)
    (hfound : read_dentry_by_name img filename = some d) :
    2 ≤ fd ∧ fd ≤ 7 ∧ ∃ old, pcb'.fd_arr (fd_index fd) = opened_entry d old := by
  rcases sys_open_cases img filename pcb with h | ⟨i, d', hfirst, hfound', h⟩
  · rw [hopen] at h
    cases h
    omega
  · rw [hopen] at h
    cases h
    rw [hfound] at hfound'
    cases hfound'
    have hlo := first_closed_ge_two hfirst
    have hindex : fd_index (i.val : Int) = i := by simp [fd_index]
    exact ⟨by omega, by omega, pcb.fd_arr i, by rw [hindex, pcb_t.setFd_same]⟩

theorem sys_close_rejected {fd : Int} (pcb : pcb_t) (hrange : fd < 2 ∨ fd > PCB_LENGTH - 1) :
    sys_close fd pcb = (-1, pcb) := by
  rw [sys_close, if_pos hrange]

/-- A close in range succeeds exactly on an open descriptor, and leaves the
    same entry behind when it fails. -/
theorem sys_close_eq {fd : Int} (pcb : pcb_t) (hrange : ¬ (fd < 2 ∨ fd > PCB_LENGTH - 1)) :
    sys_close fd pcb = (if (pcb.fd_arr (fd_index fd)).flags = 0#32 then -1 else 0,
      pcb.setFd (fd_index fd) (closed_entry (pcb.fd_arr (fd_index fd)))) := by
  rw [sys_close, if_neg hrange]
  dsimp only
  simp only [pcb_t.setFd_same, pcb_t.setFd_setFd]
  split
  · rename_i hflags
    rw [closed_entry, hflags]
  · rfl

theorem dir_read_pcb (img : Image) (fd : Fin 8) (pcb : pcb_t) :
    (dir_read img fd pcb).2 =
      pcb.setFd fd { pcb.fd_arr fd with file_position := (pcb.fd_arr fd).file_position + 1#32 } := by
  unfold dir_read
  dsimp only
  split <;> rfl

/-- A read changes at most the position of the descriptor it reads, and that
    only while the descriptor is open. -/
theorem sys_read_pcb {fd : Int} {buf : Nat} {nbytes : Int} {r : Returned}
    (hread : sys_read img fd buf nbytes s = .done (r, s')) :
    s'.pcb = s.pcb ∨ (0 ≤ fd ∧ fd ≤ 7 ∧ (s.pcb.fd_arr (fd_index fd)).flags ≠ 0#32 ∧
      ∃ position, s'.pcb = s.pcb.setFd (fd_index fd)
        { s.pcb.fd_arr (fd_index fd) with file_position := position }) := by
  unfold sys_read at hread
  split at hread
  · cases hread
    exact Or.inl rfl
  · rename_i hrange
    have hfd : 0 ≤ fd ∧ fd ≤ 7 := by
      simp only [PCB_LENGTH] at hrange
      omega
    dsimp only at hread
    split at hread
    · cases hread
    · cases hread
    · rename_i ops hops
      split at hread
      · cases hread
        exact Or.inl rfl
      · rename_i hopen
        cases ops with
        | std_operations =>
          simp only [call_read] at hread
          split at hread
          · cases hread
          · cases hread
            exact Or.inl rfl
        | dir_operations =>
          have hflags : (s.pcb.fd_arr (fd_index fd)).flags ≠ 0#32 := fun h => hopen ⟨Or.inr rfl, h⟩
          simp only [call_read, Outcome.done.injEq, Prod.mk.injEq] at hread
          obtain ⟨-, rfl⟩ := hread
          exact Or.inr ⟨hfd.1, hfd.2, hflags, _, dir_read_pcb img _ _⟩
        | file_operations =>
          have hflags : (s.pcb.fd_arr (fd_index fd)).flags ≠ 0#32 := fun h => hopen ⟨Or.inl rfl, h⟩
          simp only [call_read, Outcome.done.injEq, Prod.mk.injEq] at hread
          obtain ⟨-, rfl⟩ := hread
          simp only [file_read, if_neg hflags]
          exact Or.inr ⟨hfd.1, hfd.2, hflags, _, rfl⟩
        | rtc_operations =>
          cases hread
          exact Or.inl rfl

theorem sys_write_pcb {fd : Int} {buf : Option (Nat → Byte)} {nbytes value : Int}
    (hwrite : sys_write fd buf nbytes s = .done (value, s')) : s'.pcb = s.pcb := by
  unfold sys_write at hwrite
  split at hwrite
  · cases hwrite
    rfl
  · split at hwrite
    · cases hwrite
      rfl
    · split at hwrite <;> cases hwrite <;> rfl

/-- How one call changes a descriptor's entry: it stays, is filled in by an
    open, is cleared by a close of this descriptor, or has its position moved
    by a read of it. -/
inductive EntryChange (img : Image) (s : Task) (i : Fin 8) : Call → fd_array_t → Prop where
  | unchanged {call : Call} (hclose : ∀ fd, call = .sys_close fd → 2 ≤ fd → fd ≤ 7 → fd_index fd ≠ i) :
      EntryChange img s i call (s.pcb.fd_arr i)
  | opened {filename : Option CString} {d : dentry_t} (hfirst : first_closed s.pcb = some i)
      (hfound : read_dentry_by_name img filename = some d) :
      EntryChange img s i (.sys_open filename) (opened_entry d (s.pcb.fd_arr i))
  | closed {fd : Int} (hlo : 2 ≤ fd) (hhi : fd ≤ 7) (hindex : fd_index fd = i) :
      EntryChange img s i (.sys_close fd) (closed_entry (s.pcb.fd_arr i))
  | advanced {fd : Int} {buf : Nat} {nbytes : Int} (position : Word) (hlo : 0 ≤ fd) (hhi : fd ≤ 7)
      (hindex : fd_index fd = i) (hopen : (s.pcb.fd_arr i).flags ≠ 0#32) :
      EntryChange img s i (.sys_read fd buf nbytes) { s.pcb.fd_arr i with file_position := position }

/-- The changes one step can make to one descriptor. -/
theorem step_entry (hstep : step img s call = some s') (i : Fin 8) :
    EntryChange img s i call (s'.pcb.fd_arr i) := by
  cases call with
  | sys_open filename =>
    cases hstep
    rcases sys_open_cases img filename s.pcb with h | ⟨j, d, hfirst, hfound, h⟩
    · rw [h]
      exact .unchanged (by simp)
    · rw [h]
      by_cases hij : i = j
      · subst hij
        simpa only [pcb_t.setFd_same] using EntryChange.opened hfirst hfound
      · simp only [pcb_t.setFd_other _ _ hij]
        exact .unchanged (by simp)
  | sys_close fd =>
    cases hstep
    by_cases hrange : fd < 2 ∨ fd > PCB_LENGTH - 1
    · rw [sys_close_rejected s.pcb hrange]
      refine .unchanged ?_
      rintro fd' heq hlo hhi
      cases heq
      simp only [PCB_LENGTH] at hrange
      omega
    · rw [sys_close_eq s.pcb hrange]
      simp only [PCB_LENGTH] at hrange
      by_cases hi : i = fd_index fd
      · subst hi
        simpa only [pcb_t.setFd_same] using EntryChange.closed (by omega) (by omega) rfl
      · simp only [pcb_t.setFd_other _ _ hi]
        refine .unchanged ?_
        rintro fd' heq - -
        cases heq
        exact Ne.symm hi
  | sys_read fd buf nbytes =>
    simp only [step] at hstep
    cases hread : sys_read img fd buf nbytes s with
    | done result =>
      rw [hread] at hstep
      cases hstep
      rcases sys_read_pcb hread with h | ⟨hlo, hhi, hopen, position, h⟩
      · rw [h]
        exact .unchanged (by simp)
      · rw [h]
        by_cases hi : i = fd_index fd
        · subst hi
          simpa only [pcb_t.setFd_same] using EntryChange.advanced position hlo hhi rfl hopen
        · simp only [pcb_t.setFd_other _ _ hi]
          exact .unchanged (by simp)
    | waits => rw [hread] at hstep; cases hstep
    | faults => rw [hread] at hstep; cases hstep
  | sys_write fd buf nbytes =>
    simp only [step] at hstep
    cases hwrite : sys_write fd buf nbytes s with
    | done result =>
      rw [hwrite] at hstep
      cases hstep
      rw [sys_write_pcb hwrite]
      exact .unchanged (by simp)
    | waits => rw [hwrite] at hstep; cases hstep
    | faults => rw [hwrite] at hstep; cases hstep
  | interrupt term =>
    cases hstep
    exact .unchanged (by simp)

theorem SameButFds.of_sys_read {fd : Int} {buf : Nat} {nbytes : Int} {r : Returned}
    (hread : sys_read img fd buf nbytes s = .done (r, s')) : SameButFds s.pcb s'.pcb := by
  rcases sys_read_pcb hread with h | ⟨-, -, -, position, h⟩
  · rw [h]
    exact SameButFds.refl s.pcb
  · rw [h]
    exact s.pcb.setFd_sameButFds _ _

/-- The calls of a process change its PCB only in the descriptor table. -/
theorem step_sameButFds (hstep : step img s call = some s') : SameButFds s.pcb s'.pcb := by
  cases call with
  | sys_open filename =>
    cases hstep
    rcases sys_open_cases img filename s.pcb with h | ⟨i, d, -, -, h⟩
    · rw [h]
      exact SameButFds.refl s.pcb
    · rw [h]
      exact s.pcb.setFd_sameButFds _ _
  | sys_close fd =>
    cases hstep
    by_cases hrange : fd < 2 ∨ fd > PCB_LENGTH - 1
    · rw [sys_close_rejected s.pcb hrange]
      exact SameButFds.refl s.pcb
    · rw [sys_close_eq s.pcb hrange]
      exact s.pcb.setFd_sameButFds _ _
  | sys_read fd buf nbytes =>
    simp only [step] at hstep
    cases hread : sys_read img fd buf nbytes s with
    | done result => rw [hread] at hstep; cases hstep; exact SameButFds.of_sys_read hread
    | waits => rw [hread] at hstep; cases hstep
    | faults => rw [hread] at hstep; cases hstep
  | sys_write fd buf nbytes =>
    simp only [step] at hstep
    cases hwrite : sys_write fd buf nbytes s with
    | done result => rw [hwrite] at hstep; cases hstep; rw [sys_write_pcb hwrite]; exact SameButFds.refl s.pcb
    | waits => rw [hwrite] at hstep; cases hstep
    | faults => rw [hwrite] at hstep; cases hstep
  | interrupt term =>
    cases hstep
    exact SameButFds.refl s.pcb

end houseam.system_call
