import HouseAM.Syscalls.Cat

open houseam.filesystem houseam.system_call support.clients support.runs

namespace houseam.syscalls

variable {img : Image} {s : Task} {fd : Int} {buf : array_t} {history : Transcript}

namespace ls

def SBUFSIZE : Nat := 33

def directory_open_failed : CString := ⟨literal "directory open failed\n", by decide⟩

def directory_entry_read_failed : CString := ⟨literal "directory entry read failed\n", by decide⟩

/-- One pass of the loop, which ends the program with a status. -/
def pass (fd : Int) (buf : array_t) : Process (array_t ⊕ Int) := do
  let (cnt, buf) ← ece391_read fd buf 0 (SBUFSIZE - 1 : Nat)
  if cnt = 0 then return .inr 0
  else if cnt = -1 then
    ece391_fdputs 1 directory_entry_read_failed
    return .inr 3
  else
    let buf ← Program.given (buf.store cnt.toNat [NEWLINE])
    let accepted ← ece391_write 1 buf 0 (cnt + 1)
    if accepted = -1 then return .inr 3 else return .inl buf

def main (fuel : Nat) (buf : array_t) : Process Int := do
  let fd ← ece391_open directory_name
  if fd = -1 then
    ece391_fdputs 1 directory_open_failed
    return 2
  else Program.iterate (pass fd) fuel buf

/-- A name on a line of its own. -/
def line (name : List Byte) : List Byte := name ++ [NEWLINE]

/-- What `ls` is for: it shows the names in the directory, each on a line. -/
def shows (img : Image) (pcb : pcb_t) : Int × List Byte :=
  if found img pcb directory_name = none then (2, directory_open_failed.bytes)
  else (0, (listing img).flatMap line)

end ls

/-- A name that was read is shown with a newline behind it. -/
theorem ls_pass {total : List Byte} {m : Nat} (hshowing : Showing img fd 32 33 ls.line total m buf history s) :
    (ls.pass fd buf).Ensures (kernel img) (Program.Passes (kernel img) (Showing img fd 32 33 ls.line total)
      (fun status history _ => (status, written history) = (0, total)) m) history s := by
  refine hshowing.read (by omega) ?_ ?_
  · intro buf' history' s' hshown
    dsimp only
    rw [if_pos rfl]
    exact fun t _ t' _ => congrArg _ hshown
  · intro chunk buf' history' s' hgot
    have hpos := hgot.chunk_pos
    have hle := hgot.chunk_le
    have hroom := hgot.room
    dsimp only
    rw [if_neg (by omega), if_neg (by omega), Int.toNat_natCast]
    have hfits : chunk.length + [NEWLINE].length ≤ buf'.bytes.length := by
      rw [List.length_singleton]
      omega
    have hstore := array_t.store_eq hfits
    have hroom' := (array_t.store_length hstore).trans hroom
    have htake : buf'.bytes.take chunk.length = chunk := (List.prefix_iff_eq_take.mp hgot.prefix_bytes).symm
    have hline : (chunk.length : Int) + 1 = (ls.line chunk).length := by
      rw [ls.line, List.length_append, List.length_singleton, Nat.cast_add, Nat.cast_one]
    refine Program.Ensures.given hstore ?_
    rw [hline]
    refine Program.Ensures.bind (ensures_write hgot.standard ?_ ?_ fun history'' t hshown ht => ?_)
    · rw [htake, List.drop_zero]
      exact List.prefix_append _ _
    · rw [hroom', ls.line, List.length_append, List.length_singleton]
      omega
    · rw [if_neg (by omega)]
      exact fun t' ht' => hgot.next _ history'' t' hroom' (Eq.trans ht' ht) hshown

theorem ls_ensures (himg : img.WellFormed) (htypes : Image.FileTypes img) (hstd : Standard s.pcb)
    (hdirectory : ∀ d, read_dentry_by_name img (some directory_name) = some d → d.filetype = 1#32)
    (hbuf : buf.bytes.length = 33) {fuel : Nat} (henough : img.dir_count.toNat < fuel) :
    (ls.main fuel buf).Ensures (kernel img)
      (fun status history _ => (status, written history) = ls.shows img s.pcb) [] s := by
  refine Program.Ensures.bind (ensures_open fun history t hopened ht => ?_)
  cases hfound : found img s.pcb directory_name with
  | none =>
    rw [found_none hfound] at ht ⊢
    rw [if_pos rfl]
    have hstd' : Standard t.pcb := ht ▸ hstd
    refine Program.Ensures.bind (ensures_fdputs hstd' fun history' t' hshown _ => ?_)
    intro u _
    rw [hshown, hopened, ls.shows, if_pos hfound]
    rfl
  | some d =>
    obtain ⟨fd, pcb', chunks, hopen, hfd, hstd', hyields, -, hlisting, -⟩ :=
      opens himg htypes hstd hfound (n := 32) (by decide)
    rw [hlisting (hdirectory d (found_some hfound).2)] at hyields
    rw [hopen] at ht ⊢
    rw [if_neg hfd]
    have hstart : Showing img fd 32 33 ls.line ((listing img).flatMap ls.line) (listing img).length buf history t := by
      refine ⟨hbuf, ht ▸ hstd', listing img, rfl, ht ▸ hyields, ?_⟩
      rw [hopened]
      rfl
    have hfuel : (listing img).length < fuel := Nat.lt_of_le_of_lt (listing_length_le img) henough
    refine (Program.iterate_ensures (fun _ _ _ _ hshowing => ls_pass hshowing) hstart hfuel).mono ?_
    intro status history' t' hshown
    rw [hshown, ls.shows, if_neg (by rw [hfound]; exact Option.some_ne_none d)]

/-- In every run of `ls`, whatever happens to the terminal meanwhile, it shows the
    names in the directory and ends: its calls are all answered, and it keeps to
    its array. -/
theorem ls_shows (himg : img.WellFormed) (htypes : Image.FileTypes img) (hstd : Standard s.pcb)
    (hdirectory : ∀ d, read_dentry_by_name img (some directory_name) = some d → d.filetype = 1#32)
    (hbuf : buf.bytes.length = 33) {fuel : Nat} (henough : img.dir_count.toNat < fuel)
    {log : List (Session Task Request Returned Int × Turn Task)} {session : Session Task Request Returned Int}
    (run : Run (turn (kernel img)) (Allowed (kernel img)) (ls.main fuel buf, s) log session) :
    Fulfils (kernel img) (fun status history _ => (status, written history) = ls.shows img s.pcb)
      (historyOf (kernel img) log) session :=
  (ls_ensures himg htypes hstd hdirectory hbuf henough).run run

/-- The listing of a small directory. -/
theorem ls_shows_small : ∃ log status t,
    Run (turn (kernel small_image)) (Allowed (kernel small_image))
      (ls.main 4 (small_buf 33), ⟨zeroed_pcb.set_std, terminal.zeroed⟩) log (.done status, t) ∧
    (status, written (historyOf (kernel small_image) log)) =
      (0, [directory_name, shell_name, frame0_name].flatMap fun name => ls.line name.bytes) := by
  have hshows : ls.shows small_image zeroed_pcb.set_std =
      (0, [directory_name, shell_name, frame0_name].flatMap fun name => ls.line name.bytes) := by decide
  have hdirectory : ∀ d, read_dentry_by_name small_image (some directory_name) = some d → d.filetype = 1#32 := by
    intro d hfound
    cases hfound
    rfl
  have hstd : Standard zeroed_pcb.set_std := rfl
  rw [← hshows]
  exact exists_done fun log session run =>
    ls_shows small_image_wellFormed small_image_types hstd hdirectory List.length_replicate (by decide) run

end houseam.syscalls
