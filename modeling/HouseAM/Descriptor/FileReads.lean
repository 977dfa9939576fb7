import HouseAM.Descriptor.Run
import HouseAM.Support.Pieces
import HouseAM.Support.Runs

open houseam.lib houseam.filesystem houseam.terminal support.stream support.runs

namespace houseam.system_call

variable {img : Image} {s s' : Task} {fd : Int} {inode : Word} {position : Nat}

/-- The descriptor is open on a file and stands at a position in it. -/
structure FileOpen (img : Image) (inode : Word) (fd : Int) (position : Nat) (s : Task) : Prop where
  flags : (s.pcb.fd_arr (fd_index fd)).flags = 1#32
  inode_eq : (s.pcb.fd_arr (fd_index fd)).inode = inode
  position_eq : (s.pcb.fd_arr (fd_index fd)).file_position.toNat = position
  operations : (s.pcb.fd_arr (fd_index fd)).file_operations = .table .file_operations
  position_le : position ≤ img.fileLength inode

/-- How many bytes a read of `nbytes` gets at a position of a file. -/
def available (img : Image) (inode : Word) (position : Nat) (nbytes : Int) : Nat :=
  min nbytes.toNat (img.fileLength inode - position)

/-- A read of an open file that the argument checks let through is a call of
    `file_read`. -/
theorem FileOpen.sys_read_file (hopen : FileOpen img inode fd position s) (hlo : 2 ≤ fd) (hhi : fd ≤ 7) {buf : Nat}
    (hbuf : buf ≠ 0) {nbytes : Int} (hnbytes : 0 ≤ nbytes) :
    let entry := s.pcb.fd_arr (fd_index fd)
    let k := read_data img inode entry.file_position nbytes.toNat
    sys_read img fd buf nbytes s = .done (⟨if k.1 < 0 then 0 else k.1, k.2⟩, { s with
      pcb := s.pcb.setFd (fd_index fd)
        { entry with file_position := entry.file_position + BitVec.ofInt 32 k.1 } }) := by
  have hchecks : ¬ (fd < 0 ∨ nbytes < 0 ∨ fd > PCB_LENGTH - 1 ∨ fd = 1 ∨ buf = 0) := by
    simp only [PCB_LENGTH]
    omega
  have hflags : ¬ (s.pcb.fd_arr (fd_index fd)).flags = 0#32 := by
    rw [hopen.flags]
    decide
  dsimp only
  rw [sys_read, if_neg hchecks]
  simp only [hopen.operations, hflags, and_false, if_false, call_read, file_read, hopen.inode_eq]

/-- Reading an open file returns the bytes at its position and moves on past
    them. -/
theorem FileOpen.sys_read (hfile : img.FileOk inode) (hopen : FileOpen img inode fd position s)
    (hlo : 2 ≤ fd) (hhi : fd ≤ 7) {buf : Nat} (hbuf : buf ≠ 0) {nbytes : Int} (hnbytes : 0 ≤ nbytes) :
    ∃ s', sys_read img fd buf nbytes s = .done (⟨available img inode position nbytes,
        ((img.fileBytes inode).drop position).take nbytes.toNat⟩, s') ∧
      FileOpen img inode fd (position + available img inode position nbytes) s' := by
  have hlength := hfile.fileLength_lt
  have hle := hopen.position_le
  have hdata := read_data_spec hfile (s.pcb.fd_arr (fd_index fd)).file_position (by
    rw [hopen.position_eq]
    simp only [BLOCK_SIZE]
    omega) nbytes.toNat
  rw [hopen.position_eq] at hdata
  have hcall := hopen.sys_read_file hlo hhi hbuf hnbytes
  rw [hcall, hdata]
  refine ⟨_, by rw [if_neg (by omega)]; rfl, ?_⟩
  refine ⟨?_, ?_, ?_, ?_, ?_⟩
  · simpa only [pcb_t.setFd_same] using hopen.flags
  · simpa only [pcb_t.setFd_same] using hopen.inode_eq
  · simp only [pcb_t.setFd_same, BitVec.toNat_add, hopen.position_eq, BitVec.toNat_ofInt, available]
    omega
  · simpa only [pcb_t.setFd_same] using hopen.operations
  · simp only [available]
    omega

/-- A read request on a descriptor that the argument checks let through. -/
def Call.RequestOn (fd : Int) : Call → Prop
  | .sys_read fd' buf nbytes => fd' = fd ∧ buf ≠ 0 ∧ 0 ≤ nbytes
  | _ => False

/-- Every other step but a close of this descriptor leaves its entry alone while
    it is open. -/
theorem step_other_entry {call : Call} (hstep : step img s call = some s') (hlo : 2 ≤ fd) (hhi : fd ≤ 7)
    (hopen : (s.pcb.fd_arr (fd_index fd)).flags ≠ 0#32) (hrequest : ¬ call.RequestOn fd)
    (hclose : call ≠ .sys_close fd) : s'.pcb.fd_arr (fd_index fd) = s.pcb.fd_arr (fd_index fd) := by
  have hchange := step_entry hstep (fd_index fd)
  generalize hafter : s'.pcb.fd_arr (fd_index fd) = after at hchange
  cases hchange with
  | unchanged => rfl
  | opened hfirst hfound => exact absurd (first_closed_flags hfirst) hopen
  | closed hclo hchi hindex =>
    rw [fd_index_injective (by omega) hchi (by omega) hhi hindex] at hclose
    exact absurd rfl hclose
  | @advanced fd' buf nbytes moved hrlo hrhi hindex _ =>
    obtain rfl := fd_index_injective hrlo hrhi (by omega) hhi hindex
    have hrejected : fd' < 0 ∨ nbytes < 0 ∨ fd' > PCB_LENGTH - 1 ∨ fd' = 1 ∨ buf = 0 := by
      by_contra hchecks
      exact hrequest ⟨rfl, by omega, by omega⟩
    rw [step, system_call.sys_read, if_pos hrejected] at hstep
    cases hstep
    exact hafter.symm

/-- Every other step but a close of this descriptor leaves an open file where
    it stands. -/
theorem FileOpen.step_other (hopen : FileOpen img inode fd position s) (hlo : 2 ≤ fd) (hhi : fd ≤ 7)
    {call : Call} (hstep : step img s call = some s') (hrequest : ¬ call.RequestOn fd)
    (hclose : call ≠ .sys_close fd) : FileOpen img inode fd position s' := by
  have hflags : (s.pcb.fd_arr (fd_index fd)).flags ≠ 0#32 := by
    rw [hopen.flags]
    decide
  have hsame := step_other_entry hstep hlo hhi hflags hrequest hclose
  refine ⟨?_, ?_, ?_, ?_, hopen.position_le⟩
  · rw [hsame, hopen.flags]
  · rw [hsame, hopen.inode_eq]
  · rw [hsame, hopen.position_eq]
  · rw [hsame, hopen.operations]

/-- A successful open of a regular file starts at its first byte. -/
theorem sys_open_fileOpen {filename : Option CString} {d : dentry_t} (term : terminal_t) {pcb pcb' : pcb_t}
    (hopen : sys_open img filename pcb = (fd, pcb')) (hfd : 0 ≤ fd)
    (hfound : read_dentry_by_name img filename = some d) (htype : d.filetype = 2#32) :
    2 ≤ fd ∧ fd ≤ 7 ∧ FileOpen img d.inode_num fd 0 ⟨pcb', term⟩ := by
  obtain ⟨hlo, hhi, old, hentry⟩ := sys_open_entry hopen hfd hfound
  refine ⟨hlo, hhi, ?_, ?_, ?_, ?_, Nat.zero_le _⟩
  all_goals
    rw [hentry]
    simp [opened_entry, opened_operations, htype]

/-- The request of a call and what it returns, for a request on a descriptor. -/
def readOn (img : Image) (fd : Int) (s : Task) : Call → Option (Nat × Returned)
  | .sys_read fd' buf nbytes =>
    if fd' = fd ∧ buf ≠ 0 ∧ 0 ≤ nbytes then
      match sys_read img fd' buf nbytes s with
      | .done result => some (nbytes.toNat, result.1)
      | .waits => none
      | .faults => none
    else none
  | _ => none

/-- The requests made of a descriptor in a log, each with what it returned. -/
def readsOn (img : Image) (fd : Int) (log : List (Task × Call)) : List (Nat × Returned) :=
  log.filterMap fun taken => readOn img fd taken.1 taken.2

/-- The bytes that the requests on a descriptor returned, one after the other. -/
def delivered (img : Image) (fd : Int) (log : List (Task × Call)) : List Byte :=
  ((readsOn img fd log).map (·.2.stored)).flatten

theorem readOn_eq_none {call : Call} (hrequest : ¬ call.RequestOn fd) : readOn img fd s call = none := by
  cases call with
  | sys_read fd' buf nbytes => exact if_neg hrequest
  | _ => rfl

/-- The reads on a descriptor hand out a file's contents piece after piece: each
    gets the bytes behind those delivered so far, and nothing else matters. -/
structure ReadsConsecutive (img : Image) (inode : Word) (fd : Int) (log : List (Task × Call)) (s : Task) :
    Prop where
  pieces_eq : (readsOn img fd log).map (·.2.stored) =
    pieces (img.fileBytes inode) ((readsOn img fd log).map (·.1))
  values_eq : ∀ r ∈ readsOn img fd log, r.2.value = r.2.stored.length
  prefix_contents : delivered img fd log <+: img.fileBytes inode
  next : ∀ (buf : Nat) (nbytes : Int), buf ≠ 0 → 0 ≤ nbytes →
    ∃ s', sys_read img fd buf nbytes s =
      .done (⟨min nbytes (img.fileLength inode - (delivered img fd log).length),
        ((img.fileBytes inode).drop (delivered img fd log).length).take nbytes.toNat⟩, s')
  ended : delivered img fd log = img.fileBytes inode → ∀ (buf : Nat) (nbytes : Int), buf ≠ 0 → 0 ≤ nbytes →
    ∃ s', sys_read img fd buf nbytes s = .done (⟨0, []⟩, s')

/-- What a run keeps: the descriptor stands behind the bytes delivered so far,
    which are the file's. -/
structure Delivering (img : Image) (inode : Word) (fd : Int) (log : List (Task × Call)) (s : Task) : Prop where
  fileOpen : FileOpen img inode fd (delivered img fd log).length s
  pieces_eq : (readsOn img fd log).map (·.2.stored) =
    pieces (img.fileBytes inode) ((readsOn img fd log).map (·.1))
  values_eq : ∀ r ∈ readsOn img fd log, r.2.value = r.2.stored.length

variable {log : List (Task × Call)} {call : Call}

theorem readsOn_append (img : Image) (fd : Int) (log : List (Task × Call)) (s : Task) (call : Call) :
    readsOn img fd (log ++ [(s, call)]) = readsOn img fd log ++ (readOn img fd s call).toList := by
  simp only [readsOn, List.filterMap_append, List.filterMap_cons, List.filterMap_nil]
  cases readOn img fd s call <;> rfl

theorem Delivering.delivered_eq (hdelivering : Delivering img inode fd log s) :
    delivered img fd log = (img.fileBytes inode).take ((readsOn img fd log).map (·.1)).sum := by
  rw [delivered, hdelivering.pieces_eq, pieces_flatten]

/-- Dropping what was requested drops what was delivered, the two differing only
    past the end of the file. -/
theorem Delivering.drop_requested (hdelivering : Delivering img inode fd log s) :
    (img.fileBytes inode).drop ((readsOn img fd log).map (·.1)).sum =
      (img.fileBytes inode).drop (delivered img fd log).length := by
  rw [hdelivering.delivered_eq, List.length_take]
  rcases Nat.le_total ((readsOn img fd log).map (·.1)).sum (img.fileBytes inode).length with h | h
  · rw [Nat.min_eq_left h]
  · rw [Nat.min_eq_right h, List.drop_eq_nil_of_le h, List.drop_length]

/-- One more request is answered with the next piece of the file. -/
theorem Delivering.request (hfile : img.FileOk inode) (hdelivering : Delivering img inode fd log s)
    (hlo : 2 ≤ fd) (hhi : fd ≤ 7) (hstep : step img s call = some s') (hrequest : call.RequestOn fd) :
    Delivering img inode fd (log ++ [(s, call)]) s' := by
  cases call with
  | sys_read fd' buf nbytes =>
    obtain ⟨rfl, hbuf, hnbytes⟩ := hrequest
    obtain ⟨next, hread, hopen⟩ := hdelivering.fileOpen.sys_read hfile hlo hhi hbuf hnbytes
    rw [step, hread] at hstep
    cases hstep
    have hcall : readOn img fd' s (.sys_read fd' buf nbytes) = some (nbytes.toNat,
        ⟨available img inode (delivered img fd' log).length nbytes,
          ((img.fileBytes inode).drop (delivered img fd' log).length).take nbytes.toNat⟩) := by
      rw [readOn, if_pos ⟨rfl, hbuf, hnbytes⟩, hread]
    have hlength : (((img.fileBytes inode).drop (delivered img fd' log).length).take nbytes.toNat).length =
        available img inode (delivered img fd' log).length nbytes := by
      simp [available]
    refine ⟨?_, ?_, ?_⟩
    · rw [delivered, readsOn_append, hcall]
      simp only [Option.toList_some, List.map_append, List.map_cons, List.map_nil, List.flatten_append,
        List.flatten_cons, List.flatten_nil, List.append_nil, List.length_append, hlength]
      exact hopen
    · rw [readsOn_append, hcall]
      simp only [Option.toList_some, List.map_append, List.map_cons, List.map_nil]
      rw [pieces_concat, hdelivering.pieces_eq, hdelivering.drop_requested]
    · intro r hr
      rw [readsOn_append, hcall] at hr
      rcases List.mem_append.mp hr with h | h
      · exact hdelivering.values_eq r h
      · rw [Option.toList_some, List.mem_singleton] at h
        subst h
        exact congrArg Nat.cast hlength.symm
  | _ => exact hrequest.elim

/-- Every step but a close of the descriptor keeps it delivering. -/
theorem Delivering.step (hfile : img.FileOk inode) (hdelivering : Delivering img inode fd log s)
    (hlo : 2 ≤ fd) (hhi : fd ≤ 7) (hstep : system_call.step img s call = some s') (hclose : call ≠ .sys_close fd) :
    Delivering img inode fd (log ++ [(s, call)]) s' := by
  by_cases hrequest : call.RequestOn fd
  · exact hdelivering.request hfile hlo hhi hstep hrequest
  · have hreads : readsOn img fd (log ++ [(s, call)]) = readsOn img fd log := by
      rw [readsOn_append, readOn_eq_none hrequest, Option.toList_none, List.append_nil]
    refine ⟨?_, ?_, ?_⟩
    · rw [delivered, hreads]
      exact hdelivering.fileOpen.step_other hlo hhi hstep hrequest hclose
    · rw [hreads]
      exact hdelivering.pieces_eq
    · rw [hreads]
      exact hdelivering.values_eq

theorem Delivering.readsConsecutive (hfile : img.FileOk inode) (hdelivering : Delivering img inode fd log s)
    (hlo : 2 ≤ fd) (hhi : fd ≤ 7) : ReadsConsecutive img inode fd log s := by
  have hle := hdelivering.fileOpen.position_le
  have hnext (buf : Nat) (nbytes : Int) (hbuf : buf ≠ 0) (hnbytes : 0 ≤ nbytes) :
      ∃ s', sys_read img fd buf nbytes s =
        .done (⟨min nbytes (img.fileLength inode - (delivered img fd log).length),
          ((img.fileBytes inode).drop (delivered img fd log).length).take nbytes.toNat⟩, s') := by
    obtain ⟨s', hread, -⟩ := hdelivering.fileOpen.sys_read hfile hlo hhi hbuf hnbytes
    refine ⟨s', ?_⟩
    rw [hread, available]
    congr 3
    omega
  refine ⟨hdelivering.pieces_eq, hdelivering.values_eq, ?_, hnext, ?_⟩
  · rw [hdelivering.delivered_eq]
    exact List.take_prefix _ _
  · intro hall buf nbytes hbuf hnbytes
    obtain ⟨s', hread⟩ := hnext buf nbytes hbuf hnbytes
    refine ⟨s', ?_⟩
    rw [hread, hall, List.drop_length, List.take_nil, Image.fileBytes_length]
    congr 3
    omega

/-- In every run of a process's descriptor calls, the reads between the open and
    the close of a regular file return consecutive pieces of it. -/
theorem file_reads_consecutive (himg : img.WellFormed) {start : Task}
    (run : Run (step img) (fun _ _ => True) start log s) {before after : List (Task × Call)} {u : Task}
    {filename : Option CString} (hlog : log = before ++ (u, .sys_open filename) :: after)
    (hopen : (sys_open img filename u.pcb).1 = fd) (hfd : 0 ≤ fd) {d : dentry_t}
    (hfound : read_dentry_by_name img filename = some d) (htype : d.filetype = 2#32)
    (hkept : ∀ taken ∈ after, taken.2 ≠ .sys_close fd) : ReadsConsecutive img d.inode_num fd after s := by
  have hfile := himg.fileOk_of_found hfound htype
  obtain ⟨v, hfirst, hrest⟩ := run.after hlog
  cases hfirst
  obtain ⟨hlo, hhi, hstart⟩ := sys_open_fileOpen u.term (Prod.ext hopen rfl) hfd hfound htype
  have hopened : Run (step img) (fun _ call => call ≠ .sys_close fd) _ after s := hrest.restrict hkept
  have hdelivering : Delivering img d.inode_num fd after s := by
    refine hopened.invariant ?_ ?_
    · exact ⟨hstart, rfl, by simp [readsOn]⟩
    · intro log s call s' _ hinv hclose hstep
      exact hinv.step hfile hlo hhi hstep hclose
  exact hdelivering.readsConsecutive hfile hlo hhi

/-- Two descriptors on the same text: what one reads does not move the other. -/
theorem file_reads_consecutive_frame0 : ∃ log s,
    Run (step small_image) (fun _ _ => True) ⟨zeroed_pcb, zeroed⟩ log s ∧
      log.map (·.2) = [.sys_open (some frame0_name), .sys_open (some frame0_name), .sys_read 3 4096 2,
        .sys_read 2 4096 2, .sys_read 2 4096 2] ∧
      ReadsConsecutive small_image 2#32 2 log.tail s := by
  have hboot : Run (step small_image) (fun _ _ => True) ⟨zeroed_pcb, zeroed⟩ [] _ := .start
  have hfirst := hboot.step trivial (show step small_image _ (.sys_open (some frame0_name)) = _ from rfl)
  have hsecond := hfirst.step trivial (show step small_image _ (.sys_open (some frame0_name)) = _ from rfl)
  have hother := hsecond.step trivial (show step small_image _ (.sys_read 3 4096 2) = _ from rfl)
  have hread := hother.step trivial (show step small_image _ (.sys_read 2 4096 2) = _ from rfl)
  have hrest := hread.step trivial (show step small_image _ (.sys_read 2 4096 2) = _ from rfl)
  refine ⟨_, _, hrest, rfl, ?_⟩
  exact file_reads_consecutive small_image_wellFormed hrest (show _ = [] ++ _ :: _ from rfl) rfl (by decide) rfl rfl
    (by simp)

end houseam.system_call
