import HouseAM.Descriptor.FileReads
import HouseAM.Filesystem.Blocks

open houseam.lib houseam.filesystem houseam.terminal support.runs

namespace houseam.system_call

variable {img : Image} {s s' start : Task} {fd : Int} {inode : Word} {position : Nat} {log : List (Task × Call)}
  {call : Call}

/-- Where a descriptor stands, as an unsigned word. -/
def positionOf (fd : Int) (s : Task) : Word := (s.pcb.fd_arr (fd_index fd)).file_position

/-- A request on the descriptor finds every block it looks at in the image. -/
def FindsBlocks (img : Image) (inode : Word) (fd : Int) (s : Task) : Call → Prop
  | .sys_read fd' buf nbytes => fd' = fd → buf ≠ 0 → 0 ≤ nbytes → img.Readable inode (positionOf fd s) nbytes.toNat
  | _ => True

/-- The position of a descriptor only rises, within the file, and stays when
    `read_data` fails. Behind a read of something that returned 0, all of them
    return 0. -/
structure PositionSteady (img : Image) (inode : Word) (fd : Int) (log : List (Task × Call)) : Prop where
  rises : ∀ taken ∈ log, ∀ after, step img taken.1 taken.2 = some after →
    (positionOf fd taken.1).toNat ≤ (positionOf fd after).toNat
  within : ∀ taken ∈ log, ∀ after, step img taken.1 taken.2 = some after →
    (positionOf fd after).toNat ≤ img.fileLength inode
  kept : ∀ taken ∈ log, ∀ after, step img taken.1 taken.2 = some after → ∀ (buf : Nat) (nbytes : Int),
    taken.2 = .sys_read fd buf nbytes → buf ≠ 0 → 0 ≤ nbytes →
      (read_data img inode (positionOf fd taken.1) nbytes.toNat).1 = -1 → positionOf fd after = positionOf fd taken.1
  ended : (readsOn img fd log).Pairwise fun earlier later =>
    0 < earlier.1 → earlier.2.value = 0 → 0 < later.1 → later.2.value = 0

theorem FileOpen.positionOf_eq (hopen : FileOpen img inode fd position s) : (positionOf fd s).toNat = position :=
  hopen.position_eq

/-- A request whose blocks are there returns what is left, up to its size, and
    moves the position behind it. -/
theorem FileOpen.request (hopen : FileOpen img inode fd position s) (hlo : 2 ≤ fd) (hhi : fd ≤ 7) {buf : Nat}
    (hbuf : buf ≠ 0) {nbytes : Int} (hnbytes : 0 ≤ nbytes)
    (hreadable : img.Readable inode (positionOf fd s) nbytes.toNat) :
    ∃ r s', system_call.sys_read img fd buf nbytes s = .done (r, s') ∧ r.value = available img inode position nbytes ∧
      FileOpen img inode fd (position + available img inode position nbytes) s' := by
  have hmax := (img.inode_start inode.toNat).length.isLt
  have hlen : (img.inode_start inode.toNat).length.toNat = img.fileLength inode := rfl
  have hle := hopen.position_le
  have hposition := hopen.positionOf_eq
  rcases read_data_blocks (hposition.le.trans hle) nbytes.toNat with ⟨-, hvalue⟩ | ⟨hfails, -⟩
  · rw [hposition] at hvalue
    rw [positionOf] at hvalue hposition
    refine ⟨_, _, hopen.sys_read_file hlo hhi hbuf hnbytes, ?_, ?_, ?_, ?_, ?_, ?_⟩
    · rw [hvalue, if_neg (by omega), available]
    · simpa only [pcb_t.setFd_same] using hopen.flags
    · simpa only [pcb_t.setFd_same] using hopen.inode_eq
    · simp only [pcb_t.setFd_same, BitVec.toNat_add, hposition, BitVec.toNat_ofInt, available, hvalue]
      omega
    · simpa only [pcb_t.setFd_same] using hopen.operations
    · simp only [available]
      omega
  · exact absurd hreadable hfails

/-- A request that misses a block moves the position back by one. -/
theorem FileOpen.request_fails (hopen : FileOpen img inode fd position s) (hlo : 2 ≤ fd) (hhi : fd ≤ 7) {buf : Nat}
    (hbuf : buf ≠ 0) {nbytes : Int} (hnbytes : 0 ≤ nbytes)
    (hmissing : ¬ img.Readable inode (positionOf fd s) nbytes.toNat) :
    (read_data img inode (positionOf fd s) nbytes.toNat).1 = -1 ∧
      ∃ r s', system_call.sys_read img fd buf nbytes s = .done (r, s') ∧ positionOf fd s' ≠ positionOf fd s := by
  have hposition := hopen.positionOf_eq
  rcases read_data_blocks (hposition.le.trans hopen.position_le) nbytes.toNat with ⟨hreadable, -⟩ | ⟨-, hvalue⟩
  · exact absurd hreadable hmissing
  · refine ⟨hvalue, _, _, hopen.sys_read_file hlo hhi hbuf hnbytes, ?_⟩
    rw [positionOf] at hvalue
    simp only [positionOf, pcb_t.setFd_same, hvalue]
    intro hsame
    exact absurd (BitVec.self_eq_add_right.mp hsame.symm) (by decide)

/-- What a run keeps while every request finds its blocks. -/
structure Steady (img : Image) (inode : Word) (fd : Int) (log : List (Task × Call)) (s : Task) : Prop where
  fileOpen : FileOpen img inode fd (positionOf fd s).toNat s
  steady : PositionSteady img inode fd log
  atEnd : ∀ r ∈ readsOn img fd log, 0 < r.1 → r.2.value = 0 → (positionOf fd s).toNat = img.fileLength inode

/-- Steadiness of one more step. -/
theorem PositionSteady.snoc (hsteady : PositionSteady img inode fd log) (hstep : step img s call = some s')
    (hrises : (positionOf fd s).toNat ≤ (positionOf fd s').toNat)
    (hwithin : (positionOf fd s').toNat ≤ img.fileLength inode)
    (hkept : ∀ (buf : Nat) (nbytes : Int), call = .sys_read fd buf nbytes → buf ≠ 0 → 0 ≤ nbytes →
      (read_data img inode (positionOf fd s) nbytes.toNat).1 = -1 → positionOf fd s' = positionOf fd s)
    (hended : ∀ last, readOn img fd s call = some last → ∀ r ∈ readsOn img fd log, 0 < r.1 → r.2.value = 0 →
      0 < last.1 → last.2.value = 0) : PositionSteady img inode fd (log ++ [(s, call)]) where
  rises := by
    intro taken htaken after hafter
    rcases List.mem_append.mp htaken with hearlier | hlast
    · exact hsteady.rises taken hearlier after hafter
    · obtain rfl := List.mem_singleton.mp hlast
      rw [hstep] at hafter
      cases hafter
      exact hrises
  within := by
    intro taken htaken after hafter
    rcases List.mem_append.mp htaken with hearlier | hlast
    · exact hsteady.within taken hearlier after hafter
    · obtain rfl := List.mem_singleton.mp hlast
      rw [hstep] at hafter
      cases hafter
      exact hwithin
  kept := by
    intro taken htaken after hafter
    rcases List.mem_append.mp htaken with hearlier | hlast
    · exact hsteady.kept taken hearlier after hafter
    · obtain rfl := List.mem_singleton.mp hlast
      rw [hstep] at hafter
      cases hafter
      exact hkept
  ended := by
    rw [readsOn_append, List.pairwise_append]
    refine ⟨hsteady.ended, ?_, fun r hr last hlast => ?_⟩
    · cases readOn img fd s call with
      | none => exact List.Pairwise.nil
      | some last => exact List.pairwise_singleton _ last
    · exact hended last (Option.mem_toList.mp hlast) r hr

/-- A request that finds its blocks keeps it. -/
theorem Steady.request (hsteady : Steady img inode fd log s) (hlo : 2 ≤ fd) (hhi : fd ≤ 7) {buf : Nat}
    (hbuf : buf ≠ 0) {nbytes : Int} (hnbytes : 0 ≤ nbytes)
    (hreadable : img.Readable inode (positionOf fd s) nbytes.toNat)
    (hstep : system_call.step img s (.sys_read fd buf nbytes) = some s') :
    Steady img inode fd (log ++ [(s, .sys_read fd buf nbytes)]) s' := by
  obtain ⟨r, next, hread, hvalue, hopen⟩ := hsteady.fileOpen.request hlo hhi hbuf hnbytes hreadable
  have hmoved := hopen.positionOf_eq
  have hwithin := hopen.position_le
  rw [system_call.step, hread] at hstep
  cases hstep
  have hcall : readOn img fd s (.sys_read fd buf nbytes) = some (nbytes.toNat, r) := by
    rw [readOn, if_pos ⟨rfl, hbuf, hnbytes⟩, hread]
  refine ⟨by rw [hmoved]; exact hopen, ?_, ?_⟩
  · refine hsteady.steady.snoc (by rw [system_call.step, hread]; rfl) ?_ (hmoved ▸ hwithin) ?_ ?_
    · rw [hmoved]
      exact Nat.le_add_right _ _
    · intro buf' nbytes' heq _ _ hfails
      cases heq
      rcases read_data_blocks hsteady.fileOpen.position_le nbytes.toNat with ⟨-, hgiven⟩ | ⟨hmissing, -⟩
      · omega
      · exact absurd hreadable hmissing
    · intro last hlast r' hr' hpos hzero _
      rw [hcall] at hlast
      cases hlast
      rw [hvalue, available, hsteady.atEnd r' hr' hpos hzero, Nat.sub_self, Nat.min_zero]
      rfl
  · intro r' hr' hpos hzero
    rw [readsOn_append, hcall] at hr'
    rcases List.mem_append.mp hr' with hearlier | hlast
    · rw [hmoved, available, hsteady.atEnd r' hearlier hpos hzero, Nat.sub_self, Nat.min_zero, Nat.add_zero]
    · -- the read that returns 0 has nothing left to return
      rw [Option.toList_some, List.mem_singleton] at hlast
      subst hlast
      rw [hvalue, available] at hzero
      rw [hmoved, available]
      omega

/-- Every step but a close keeps it, if its request finds its blocks. -/
theorem Steady.step (hsteady : Steady img inode fd log s) (hlo : 2 ≤ fd) (hhi : fd ≤ 7)
    (hstep : system_call.step img s call = some s') (hclose : call ≠ .sys_close fd)
    (hfinds : FindsBlocks img inode fd s call) : Steady img inode fd (log ++ [(s, call)]) s' := by
  by_cases hrequest : call.RequestOn fd
  · cases call with
    | sys_read fd' buf nbytes =>
      obtain ⟨rfl, hbuf, hnbytes⟩ := hrequest
      exact hsteady.request hlo hhi hbuf hnbytes (hfinds rfl hbuf hnbytes) hstep
    | _ => exact hrequest.elim
  · have hopen := hsteady.fileOpen.step_other hlo hhi hstep hrequest hclose
    have hsame : positionOf fd s' = positionOf fd s := BitVec.eq_of_toNat_eq hopen.positionOf_eq
    have hnone : readOn img fd s call = none := readOn_eq_none hrequest
    refine ⟨by rw [hsame]; exact hopen, ?_, ?_⟩
    · refine hsteady.steady.snoc hstep (by rw [hsame]) (hsame ▸ hopen.position_le) (fun _ _ _ _ _ _ => hsame) ?_
      intro last hlast
      rw [hnone] at hlast
      cases hlast
    · rw [readsOn_append, hnone, Option.toList_none, List.append_nil, hsame]
      exact hsteady.atEnd

theorem FileOpen.steady (hopen : FileOpen img inode fd position s) : Steady img inode fd [] s where
  fileOpen := by
    rw [hopen.positionOf_eq]
    exact hopen
  steady := ⟨fun _ h => absurd h List.not_mem_nil, fun _ h => absurd h List.not_mem_nil,
    fun _ h => absurd h List.not_mem_nil, List.Pairwise.nil⟩
  atEnd := fun _ h => absurd h List.not_mem_nil

theorem run_steady (hopen : FileOpen img inode fd position start) (hlo : 2 ≤ fd) (hhi : fd ≤ 7)
    (run : Run (step img) (fun s call => call ≠ .sys_close fd ∧ FindsBlocks img inode fd s call) start log s) :
    Steady img inode fd log s :=
  run.invariant hopen.steady fun _ _ _ _ _ hsteady hallowed hstep =>
    hsteady.step hlo hhi hstep hallowed.1 hallowed.2

/-- What holds of a longer log holds of a shorter one. -/
theorem PositionSteady.earlier {later : List (Task × Call)} (hsteady : PositionSteady img inode fd (log ++ later)) :
    PositionSteady img inode fd log where
  rises := fun taken htaken => hsteady.rises taken (List.mem_append_left _ htaken)
  within := fun taken htaken => hsteady.within taken (List.mem_append_left _ htaken)
  kept := fun taken htaken => hsteady.kept taken (List.mem_append_left _ htaken)
  ended := by
    have hended := hsteady.ended
    rw [readsOn, List.filterMap_append, List.pairwise_append] at hended
    exact hended.1

/-- In every run of a process's descriptor calls, the position of an open file
    is steady exactly if every request on it finds its blocks in the image. -/
theorem position_steady_iff (hopen : FileOpen img inode fd position start) (hlo : 2 ≤ fd) (hhi : fd ≤ 7)
    (run : Run (step img) (fun _ call => call ≠ .sys_close fd) start log s) :
    PositionSteady img inode fd log ↔ ∀ taken ∈ log, FindsBlocks img inode fd taken.1 taken.2 := by
  constructor
  · intro hsteady
    induction run with
    | start => exact fun _ h => absurd h List.not_mem_nil
    | @step log s s' call run hclose hstep ih =>
      have hearlier := ih hsteady.earlier
      intro taken htaken
      rcases List.mem_append.mp htaken with hmem | hlast
      · exact hearlier taken hmem
      · obtain rfl := List.mem_singleton.mp hlast
        have hopened := (run_steady hopen hlo hhi (run.restrict_and hearlier)).fileOpen
        cases call with
        | sys_read fd' buf nbytes =>
          rintro rfl hbuf hnbytes
          by_contra hmissing
          obtain ⟨hfails, r, next, hread, hmoved⟩ := hopened.request_fails hlo hhi hbuf hnbytes hmissing
          have hnext : step img s (.sys_read fd' buf nbytes) = some next := by
            rw [step, hread]
            rfl
          exact hmoved (hsteady.kept _ htaken next hnext buf nbytes rfl hbuf hnbytes hfails)
        | _ => exact trivial
  · intro hfinds
    exact (run_steady hopen hlo hhi (run.restrict_and hfinds)).steady

/-- The descriptor table of a process that has opened the text. -/
def frame0_task (img : Image) : Task := ⟨(sys_open img (some frame0_name) zeroed_pcb).2, zeroed⟩

/-- The text is read to its end, and once more. -/
theorem position_steady_iff_frame0 : ∃ log s,
    Run (step small_image) (fun _ call => call ≠ .sys_close 2) (frame0_task small_image) log s ∧
      log.map (·.2) = [.sys_read 2 4096 2, .sys_read 2 4096 2, .sys_read 2 4096 2] ∧
      PositionSteady small_image 2#32 2 log := by
  have hopened : Run (step small_image) (fun _ call => call ≠ .sys_close 2) (frame0_task small_image) [] _ := .start
  have hfirst := hopened.step (by simp) (show step small_image _ (.sys_read 2 4096 2) = _ from rfl)
  have hsecond := hfirst.step (by simp) (show step small_image _ (.sys_read 2 4096 2) = _ from rfl)
  have hthird := hsecond.step (by simp) (show step small_image _ (.sys_read 2 4096 2) = _ from rfl)
  refine ⟨_, _, hthird, rfl, ?_⟩
  obtain ⟨hlo, hhi, hopen⟩ := sys_open_fileOpen zeroed (show sys_open small_image (some frame0_name) zeroed_pcb =
    (2, _) from rfl) (by decide) rfl rfl
  apply (position_steady_iff hopen hlo hhi hthird).mpr
  intro taken htaken
  have hreadable (offset : Word) (length : Nat) : small_image.Readable 2#32 offset length :=
    ⟨by decide, fun _ _ => show (1#32).toInt < (2#32).toInt by decide⟩
  simp only [List.nil_append, List.cons_append, List.mem_cons, List.not_mem_nil, or_false] at htaken
  rcases htaken with rfl | rfl | rfl <;> exact fun _ _ _ => hreadable _ _

/-- The small image with block lists that lead out of it. -/
def lost_image : Image := { filesystem.small_image with inode_start := fun _ => ⟨3#32, fun _ => 9#32⟩ }

/-- A position is not always steady: a read of a block that is not there leaves
    it in front of the file. -/
theorem position_not_steady : ¬ ∀ (img : Image) (inode : Word) (fd : Int) (position : Nat) (start : Task)
    (log : List (Task × Call)) (s : Task), FileOpen img inode fd position start → 2 ≤ fd → fd ≤ 7 →
      Run (step img) (fun _ call => call ≠ .sys_close fd) start log s → PositionSteady img inode fd log := by
  intro hall
  obtain ⟨hlo, hhi, hopen⟩ := sys_open_fileOpen zeroed (show sys_open lost_image (some frame0_name) zeroed_pcb =
    (2, _) from rfl) (by decide) rfl rfl
  have hopened : Run (step lost_image) (fun _ call => call ≠ .sys_close 2) (frame0_task lost_image) [] _ := .start
  have hread := hopened.step (by simp) (show step lost_image _ (.sys_read 2 4096 2) = _ from rfl)
  have hwithin := (hall _ _ _ _ _ _ _ hopen hlo hhi hread).within _ (List.mem_singleton_self _) _ rfl
  exact absurd hwithin (by decide)

end houseam.system_call
