import HouseAM.Descriptor.FileReads
import HouseAM.Filesystem.Lookup

open houseam.lib houseam.filesystem houseam.terminal support.runs

namespace houseam.system_call

variable {img : Image} {s s' : Task} {fd : Int} {count : Nat} {log : List (Task × Call)} {call : Call}

/-- What the read number `k` of a directory returns: the name of entry `k` with
    its length, padded with NULs, and nothing behind the last entry. -/
def listed (img : Image) (k : Nat) : Returned :=
  if k < img.dir_count.toNat then
    ⟨(img.direntries k).name.length,
      (img.direntries k).name ++ List.replicate (FILENAME_LEN - (img.direntries k).name.length) 0#8⟩
  else ⟨0, []⟩

/-- The descriptor is open on the directory and was read so many times. -/
structure DirOpen (fd : Int) (count : Nat) (s : Task) : Prop where
  flags : (s.pcb.fd_arr (fd_index fd)).flags = 1#32
  position : (s.pcb.fd_arr (fd_index fd)).file_position = BitVec.ofNat 32 count
  operations : (s.pcb.fd_arr (fd_index fd)).file_operations = .table .dir_operations

theorem dir_read_listed {i : Fin 8} {pcb : pcb_t} (hcount : count ≤ img.dir_count.toNat)
    (hposition : (pcb.fd_arr i).file_position = BitVec.ofNat 32 count) :
    (dir_read img i pcb).1 = listed img count := by
  have hmax := img.dir_count.isLt
  have hindex : (pcb.fd_arr i).file_position.toNat = count := by
    rw [hposition, BitVec.toNat_ofNat, Nat.mod_eq_of_lt (by omega)]
  rw [dir_read, listed, read_dentry_by_index, hindex]
  by_cases hentry : count < img.dir_count.toNat
  · rw [if_pos hentry, if_neg (Nat.not_le.mpr hentry)]
    have hcopied := strncpy_name (copy_dentry (img.direntries count))
    rw [copy_dentry_name, FILENAME_LEN] at hcopied
    dsimp only
    rw [name_length_eq, copy_dentry_name, hcopied, FILENAME_LEN]
  · rw [if_neg hentry, if_pos (Nat.le_of_not_lt hentry)]

/-- Reading an open directory returns the next name and moves on past it. -/
theorem DirOpen.sys_read (img : Image) (hopen : DirOpen fd count s) (hlo : 2 ≤ fd) (hhi : fd ≤ 7) {buf : Nat}
    (hbuf : buf ≠ 0) {nbytes : Int} (hnbytes : 0 ≤ nbytes) :
    ∃ r s', system_call.sys_read img fd buf nbytes s = .done (r, s') ∧ DirOpen fd (count + 1) s' ∧
      (count ≤ img.dir_count.toNat → r = listed img count) := by
  have hchecks : ¬ (fd < 0 ∨ nbytes < 0 ∨ fd > PCB_LENGTH - 1 ∨ fd = 1 ∨ buf = 0) := by
    simp only [PCB_LENGTH]
    omega
  have hflags : ¬ (s.pcb.fd_arr (fd_index fd)).flags = 0#32 := by
    rw [hopen.flags]
    decide
  have hcall : system_call.sys_read img fd buf nbytes s =
      .done ((dir_read img (fd_index fd) s.pcb).1, { s with pcb := (dir_read img (fd_index fd) s.pcb).2 }) := by
    rw [system_call.sys_read, if_neg hchecks]
    simp only [hopen.operations, hflags, and_false, if_false, call_read]
  refine ⟨_, _, hcall, ⟨?_, ?_, ?_⟩, fun hcount => dir_read_listed hcount hopen.position⟩
  · simpa only [dir_read_pcb, pcb_t.setFd_same] using hopen.flags
  · simp only [dir_read_pcb, pcb_t.setFd_same, hopen.position]
    exact (BitVec.ofNat_add count 1).symm
  · simpa only [dir_read_pcb, pcb_t.setFd_same] using hopen.operations

/-- A successful open of the directory starts before its first entry. -/
theorem sys_open_dirOpen {filename : Option CString} {d : dentry_t} (term : terminal_t) {pcb pcb' : pcb_t}
    (hopen : sys_open img filename pcb = (fd, pcb')) (hfd : 0 ≤ fd)
    (hfound : read_dentry_by_name img filename = some d) (htype : d.filetype = 1#32) :
    2 ≤ fd ∧ fd ≤ 7 ∧ DirOpen fd 0 ⟨pcb', term⟩ := by
  obtain ⟨hlo, hhi, old, hentry⟩ := sys_open_entry hopen hfd hfound
  refine ⟨hlo, hhi, ?_, ?_, ?_⟩
  all_goals
    rw [hentry]
    simp [opened_entry, opened_operations, htype]

/-- What a run keeps: the descriptor counts the reads, and those up to the one
    behind the last entry returned the names in order. -/
structure Listing (img : Image) (fd : Int) (log : List (Task × Call)) (s : Task) : Prop where
  dirOpen : DirOpen fd (readsOn img fd log).length s
  names : ∀ k r, (readsOn img fd log)[k]? = some r → k ≤ img.dir_count.toNat → r.2 = listed img k

theorem DirOpen.step_other (hopen : DirOpen fd count s) (hlo : 2 ≤ fd) (hhi : fd ≤ 7)
    (hstep : step img s call = some s') (hrequest : ¬ call.RequestOn fd) (hclose : call ≠ .sys_close fd) :
    DirOpen fd count s' := by
  have hflags : (s.pcb.fd_arr (fd_index fd)).flags ≠ 0#32 := by
    rw [hopen.flags]
    decide
  have hsame := step_other_entry hstep hlo hhi hflags hrequest hclose
  refine ⟨?_, ?_, ?_⟩
  · rw [hsame, hopen.flags]
  · rw [hsame, hopen.position]
  · rw [hsame, hopen.operations]

/-- One more request is answered with the next name. -/
theorem Listing.request (hlisting : Listing img fd log s) (hlo : 2 ≤ fd) (hhi : fd ≤ 7)
    (hstep : step img s call = some s') (hrequest : call.RequestOn fd) : Listing img fd (log ++ [(s, call)]) s' := by
  cases call with
  | sys_read fd' buf nbytes =>
    obtain ⟨rfl, hbuf, hnbytes⟩ := hrequest
    obtain ⟨r, next, hread, hopen, hlisted⟩ := hlisting.dirOpen.sys_read img hlo hhi hbuf hnbytes
    rw [step, hread] at hstep
    cases hstep
    have hcall : readOn img fd' s (.sys_read fd' buf nbytes) = some (nbytes.toNat, r) := by
      rw [readOn, if_pos ⟨rfl, hbuf, hnbytes⟩, hread]
    have hreads : readsOn img fd' (log ++ [(s, .sys_read fd' buf nbytes)]) =
        readsOn img fd' log ++ [(nbytes.toNat, r)] := by
      rw [readsOn_append, hcall, Option.toList_some]
    refine ⟨?_, fun k answer hk hcount => ?_⟩
    · rw [hreads, List.length_append]
      exact hopen
    · rw [hreads] at hk
      rcases Nat.lt_or_ge k (readsOn img fd' log).length with hearlier | hlast
      · rw [List.getElem?_append_left hearlier] at hk
        exact hlisting.names k answer hk hcount
      · rw [List.getElem?_append_right hlast, List.getElem?_singleton, Option.ite_none_right_eq_some] at hk
        obtain ⟨hindex, hanswer⟩ := hk
        have hlength : k = (readsOn img fd' log).length := by omega
        cases hanswer
        subst hlength
        exact hlisted hcount
  | _ => exact hrequest.elim

/-- Every step but a close of the descriptor keeps it listing. -/
theorem Listing.step (hlisting : Listing img fd log s) (hlo : 2 ≤ fd) (hhi : fd ≤ 7)
    (hstep : system_call.step img s call = some s') (hclose : call ≠ .sys_close fd) :
    Listing img fd (log ++ [(s, call)]) s' := by
  by_cases hrequest : call.RequestOn fd
  · exact hlisting.request hlo hhi hstep hrequest
  · have hreads : readsOn img fd (log ++ [(s, call)]) = readsOn img fd log := by
      rw [readsOn_append, readOn_eq_none hrequest, Option.toList_none, List.append_nil]
    refine ⟨?_, ?_⟩
    · rw [hreads]
      exact hlisting.dirOpen.step_other hlo hhi hstep hrequest hclose
    · rw [hreads]
      exact hlisting.names

/-- The names of different entries of the directory are different. -/
def Image.NamesDistinct (img : Image) : Prop :=
  ∀ i j, i < img.dir_count.toNat → j < img.dir_count.toNat →
    (img.direntries i).name = (img.direntries j).name → i = j

/-- The reads of a directory list it: they return its names in order, each with
    its length, and then nothing, and each name leads back to its entry. -/
structure ListsDirectory (img : Image) (fd : Int) (log : List (Task × Call)) (s : Task) : Prop where
  names : ∀ k r, (readsOn img fd log)[k]? = some r → k ≤ img.dir_count.toNat → r.2 = listed img k
  next : (readsOn img fd log).length ≤ img.dir_count.toNat → ∀ (buf : Nat) (nbytes : Int), buf ≠ 0 → 0 ≤ nbytes →
    ∃ s', sys_read img fd buf nbytes s = .done (listed img (readsOn img fd log).length, s')
  found : ∀ k r, (readsOn img fd log)[k]? = some r → k < img.dir_count.toNat →
    ∀ name : CString, name.bytes = r.2.stored.take r.2.value.toNat →
      ∃ d, read_dentry_by_name img (some name) = some d ∧ d.filetype = (img.direntries k).filetype ∧
        d.inode_num = (img.direntries k).inode_num

/-- With distinct names, a search for one of them finds its entry. -/
theorem read_dentry_by_name_distinct (hdistinct : Image.NamesDistinct img) {k : Nat} (hk : k < img.dir_count.toNat)
    {name : CString} (hname : name.bytes = (img.direntries k).name) :
    read_dentry_by_name img (some name) = some (copy_dentry (img.direntries k)) := by
  refine Image.FirstNamed.found ⟨hk, hname.symm, fun j hj hsame => ?_⟩
  exact absurd (hdistinct j k (by omega) hk (hsame.trans hname)) (Nat.ne_of_lt hj)

theorem listed_name {k : Nat} (hk : k < img.dir_count.toNat) :
    (listed img k).stored.take (listed img k).value.toNat = (img.direntries k).name := by
  rw [listed, if_pos hk]
  simp

theorem small_image_distinct : Image.NamesDistinct small_image := by
  intro i j hi hj
  have hall : ∀ i < 3, ∀ j < 3, (small_image.direntries i).name = (small_image.direntries j).name → i = j := by
    decide +kernel
  exact hall i hi j hj

/-- In every run of a process's descriptor calls, the reads between the open and
    the close of a directory whose names are distinct list it. -/
theorem directory_listed (hdistinct : Image.NamesDistinct img) {start : Task}
    (run : Run (step img) (fun _ _ => True) start log s) {before after : List (Task × Call)} {u : Task}
    {filename : Option CString} (hlog : log = before ++ (u, .sys_open filename) :: after)
    (hopen : (sys_open img filename u.pcb).1 = fd) (hfd : 0 ≤ fd) {d : dentry_t}
    (hfound : read_dentry_by_name img filename = some d) (htype : d.filetype = 1#32)
    (hkept : ∀ taken ∈ after, taken.2 ≠ .sys_close fd) : ListsDirectory img fd after s := by
  obtain ⟨v, hfirst, hrest⟩ := run.after hlog
  cases hfirst
  obtain ⟨hlo, hhi, hstart⟩ := sys_open_dirOpen u.term (Prod.ext hopen rfl) hfd hfound htype
  have hopened : Run (step img) (fun _ call => call ≠ .sys_close fd) _ after s := hrest.restrict hkept
  have hlisting : Listing img fd after s := by
    refine hopened.invariant ?_ ?_
    · exact ⟨hstart, by simp [readsOn]⟩
    · intro log s call s' _ hinv hclose hstep
      exact hinv.step hlo hhi hstep hclose
  refine ⟨hlisting.names, fun hcount buf nbytes hbuf hnbytes => ?_, fun k r hr hk name hname => ?_⟩
  · obtain ⟨r, s', hread, -, hlisted⟩ := hlisting.dirOpen.sys_read img hlo hhi hbuf hnbytes
    exact ⟨s', hlisted hcount ▸ hread⟩
  · rw [hlisting.names k r hr (Nat.le_of_lt hk), listed_name hk] at hname
    exact ⟨_, read_dentry_by_name_distinct hdistinct hk hname, rfl, rfl⟩

/-- The whole directory is listed while another descriptor reads it too. -/
theorem directory_listed_small : ∃ log s,
    Run (step small_image) (fun _ _ => True) ⟨zeroed_pcb, zeroed⟩ log s ∧
      log.map (·.2) = [.sys_open (some directory_name), .sys_open (some directory_name), .sys_read 2 4096 32,
        .sys_read 3 4096 32, .sys_read 2 4096 32, .sys_read 2 4096 32, .sys_read 2 4096 32] ∧
      ListsDirectory small_image 2 log.tail s := by
  have hboot : Run (step small_image) (fun _ _ => True) ⟨zeroed_pcb, zeroed⟩ [] _ := .start
  have hfirst := hboot.step trivial (show step small_image _ (.sys_open (some directory_name)) = _ from rfl)
  have hsecond := hfirst.step trivial (show step small_image _ (.sys_open (some directory_name)) = _ from rfl)
  have hname := hsecond.step trivial (show step small_image _ (.sys_read 2 4096 32) = _ from rfl)
  have hother := hname.step trivial (show step small_image _ (.sys_read 3 4096 32) = _ from rfl)
  have hnext := hother.step trivial (show step small_image _ (.sys_read 2 4096 32) = _ from rfl)
  have hlast := hnext.step trivial (show step small_image _ (.sys_read 2 4096 32) = _ from rfl)
  have hend := hlast.step trivial (show step small_image _ (.sys_read 2 4096 32) = _ from rfl)
  refine ⟨_, _, hend, rfl, ?_⟩
  apply directory_listed small_image_distinct hend (show _ = [] ++ _ :: _ from rfl)
  · rfl
  · decide
  · rfl
  · rfl
  · simp

end houseam.system_call
