import HouseAM.Syscalls.Reading

open houseam.filesystem houseam.system_call support.clients support.runs

namespace houseam.syscalls

variable {img : Image} {s : Task} {fd : Int} {buf : array_t} {history : Transcript}
  {chunks : List (List Byte)} {fuel : Nat}

namespace cat

def could_not_read_arguments : CString := ⟨literal "could not read arguments\n", by decide⟩

def file_not_found : CString := ⟨literal "file not found\n", by decide⟩

def file_read_failed : CString := ⟨literal "file read failed\n", by decide⟩

/-- One pass of the loop, which ends the program with a status. -/
def pass (fd : Int) (buf : array_t) : Process (array_t ⊕ Int) := do
  let (cnt, buf) ← ece391_read fd buf 0 1024
  if cnt = 0 then return .inr 0
  else if cnt = -1 then
    ece391_fdputs 1 file_read_failed
    return .inr 3
  else
    let accepted ← ece391_write 1 buf 0 cnt
    if accepted = -1 then return .inr 3 else return .inl buf

/-- The part of `main` that has a file name. -/
def open_and_copy (fuel : Nat) (buf : array_t) (filename : CString) : Process Int := do
  let fd ← ece391_open filename
  if fd = -1 then
    ece391_fdputs 1 file_not_found
    return 2
  else Program.iterate (pass fd) fuel buf

def main (fuel : Nat) (buf : array_t) : Process Int := do
  let (result, buf) ← ece391_getargs buf 1024
  if result ≠ 0 then
    ece391_fdputs 1 could_not_read_arguments
    return 3
  else
    let filename ← Program.given (buf.string 0)
    open_and_copy fuel buf filename

end cat

/-- The status that `cat` ends with and what it shows, for the file it opens. -/
def cat.copied (img : Image) : Option dentry_t → Int × List Byte
  | none => (2, file_not_found.bytes)
  | some d => (0, contents img d)

/-- What `cat` is for: it shows the file that its argument names. -/
def cat.shows (img : Image) (pcb : pcb_t) : Int × List Byte :=
  if pcb.argument 0 = 0#8 then (3, could_not_read_arguments.bytes)
  else copied img (found img pcb (text_of (List.ofFn pcb.argument)))

/-- One pass shows one chunk. -/
theorem cat_pass {total : List Byte} {m : Nat} (hshowing : Showing img fd 1024 1024 id total m buf history s) :
    (cat.pass fd buf).Ensures (kernel img) (Program.Passes (kernel img) (Showing img fd 1024 1024 id total)
      (fun status history _ => (status, written history) = (0, total)) m) history s := by
  refine hshowing.read (le_refl _) ?_ ?_
  · intro buf' history' s' hshown
    dsimp only
    rw [if_pos rfl]
    exact fun t _ t' _ => congrArg _ hshown
  · intro chunk buf' history' s' hgot
    have hpos := hgot.chunk_pos
    have hle := hgot.chunk_le
    have hroom := hgot.room
    dsimp only
    rw [if_neg (by omega), if_neg (by omega)]
    refine Program.Ensures.bind (ensures_write hgot.standard hgot.prefix_bytes (by omega)
      fun history'' t hshown ht => ?_)
    rw [if_neg (by omega)]
    exact fun t' ht' => hgot.next buf' history'' t' hroom (Eq.trans ht' ht) hshown

/-- The part of the program behind the open. -/
theorem cat_copies {total : List Byte} (hstd : Standard s.pcb) (hbuf : buf.bytes.length = 1024)
    (hyields : Yields img fd 1024 chunks s.pcb) (htotal : written history ++ chunks.flatten = total)
    (hfuel : chunks.length < fuel) :
    (Program.iterate (cat.pass fd) fuel buf).Ensures (kernel img)
      (fun status history _ => (status, written history) = (0, total)) history s := by
  have hstart : Showing img fd 1024 1024 id total chunks.length buf history s :=
    ⟨hbuf, hstd, chunks, rfl, hyields, by rwa [List.flatMap_id]⟩
  exact Program.iterate_ensures (fun _ _ _ _ hshowing => cat_pass hshowing) hstart hfuel

/-- The part of the program behind the request for its argument. -/
theorem cat_opens (filename : CString) (himg : img.WellFormed) (htypes : Image.FileTypes img) (hstd : Standard s.pcb)
    (hbuf : buf.bytes.length = 1024) :
    ∃ enough, ∀ fuel, enough ≤ fuel → ∀ history, written history = [] → ∀ t : Task, t.pcb = s.pcb →
      (cat.open_and_copy fuel buf filename).Ensures (kernel img)
        (fun status history _ => (status, written history) = cat.copied img (found img s.pcb filename)) history t := by
  cases hfound : found img s.pcb filename with
  | none =>
    refine ⟨0, fun fuel _ history hhistory t ht => ?_⟩
    refine Program.Ensures.bind (ensures_open fun history' t' hopened ht' => ?_)
    rw [ht, found_none hfound] at ht' ⊢
    rw [if_pos rfl]
    have hstd' : Standard t'.pcb := ht' ▸ hstd
    refine Program.Ensures.bind (ensures_fdputs hstd' fun history'' t'' hshown _ => ?_)
    intro u _
    rw [hshown, hopened, hhistory, List.nil_append]
    rfl
  | some d =>
    obtain ⟨fd, pcb', chunks, hopen, hfd, hstd', hyields, hcontents, -, -⟩ :=
      opens himg htypes hstd hfound (n := 1024) (by decide)
    refine ⟨chunks.length + 1, fun fuel hfuel history hhistory t ht => ?_⟩
    refine Program.Ensures.bind (ensures_open fun history' t' hopened ht' => ?_)
    rw [ht, hopen] at ht' ⊢
    rw [if_neg hfd]
    refine cat_copies (ht' ▸ hstd') hbuf (ht' ▸ hyields) ?_ hfuel
    rw [hopened, hhistory, List.nil_append, hcontents]

theorem main_ensures (himg : img.WellFormed) (htypes : Image.FileTypes img) (hstd : Standard s.pcb)
    (hargument : 0#8 ∈ List.ofFn s.pcb.argument) (hbuf : buf.bytes.length = 1024) :
    ∃ enough, ∀ fuel, enough ≤ fuel → (cat.main fuel buf).Ensures (kernel img)
      (fun status history _ => (status, written history) = cat.shows img s.pcb) [] s := by
  have hroom : 128 ≤ buf.bytes.length := by omega
  by_cases hnone : s.pcb.argument 0 = 0#8
  · refine ⟨0, fun fuel _ => Program.Ensures.bind (ensures_getargs (by decide) hroom fun history t hasked ht => ?_)⟩
    rw [if_pos hnone, cat.shows, if_pos hnone]
    dsimp only
    rw [if_pos (by decide)]
    have hstd' : Standard t.pcb := ht ▸ hstd
    refine Program.Ensures.bind (ensures_fdputs hstd' fun history' t' hshown _ => ?_)
    intro t'' _
    rw [hshown, hasked]
    rfl
  · let buf' : array_t := { buf with bytes := List.ofFn s.pcb.argument ++ buf.bytes.drop 128 }
    have hbuf' : buf'.bytes.length = 1024 := by
      simp only [buf', List.length_append, List.length_ofFn, List.length_drop]
      omega
    obtain ⟨enough, hrest⟩ := cat_opens (text_of (List.ofFn s.pcb.argument)) himg htypes hstd hbuf'
    refine ⟨enough, fun fuel hfuel => ?_⟩
    refine Program.Ensures.bind (ensures_getargs (by decide) hroom fun history t hasked ht => ?_)
    rw [if_neg hnone, cat.shows, if_neg hnone]
    have hstring : buf'.string 0 = some (text_of (List.ofFn s.pcb.argument)) := string_of_append hargument
    dsimp only
    rw [if_neg (by decide)]
    exact Program.Ensures.given hstring (hrest fuel hfuel history hasked t ht)

/-- In every run of `cat`, whatever happens to the terminal meanwhile, it shows
    the file that its argument names and ends: its calls are all answered, and
    it keeps to its array. -/
theorem cat_shows (himg : img.WellFormed) (htypes : Image.FileTypes img) (hstd : Standard s.pcb)
    (hargument : 0#8 ∈ List.ofFn s.pcb.argument) (hbuf : buf.bytes.length = 1024) :
    ∃ enough, ∀ fuel, enough ≤ fuel → ∀ log session,
      Run (turn (kernel img)) (Allowed (kernel img)) (cat.main fuel buf, s) log session →
      Fulfils (kernel img) (fun status history _ => (status, written history) = cat.shows img s.pcb)
        (historyOf (kernel img) log) session := by
  obtain ⟨enough, hensures⟩ := main_ensures himg htypes hstd hargument hbuf
  exact ⟨enough, fun fuel hfuel log session run => (hensures fuel hfuel).run run⟩

/-- A PCB as a command with a text leaves it. -/
def pcb_with (text : CString) : pcb_t := { zeroed_pcb.set_std with argument := fun i => text.get i.val }

/-- A buffer that is not initialised. -/
def small_buf (size : Nat) : array_t := ⟨0x83FFB00, List.replicate size 0x5A#8, by decide⟩

/-- `cat frame0`. -/
theorem cat_shows_frame0 : ∃ enough, ∀ fuel, enough ≤ fuel → ∀ log session,
    Run (turn (kernel small_image)) (Allowed (kernel small_image))
      (cat.main fuel (small_buf 1024), ⟨pcb_with frame0_name, terminal.zeroed⟩) log session →
    Fulfils (kernel small_image) (fun status history _ => (status, written history) = (0, [0x61#8, 0x62#8, 0x63#8]))
      (historyOf (kernel small_image) log) session := by
  have hshows : cat.shows small_image (pcb_with frame0_name) = (0, [0x61#8, 0x62#8, 0x63#8]) := by decide
  rw [← hshows]
  exact cat_shows small_image_wellFormed small_image_types rfl (by decide) List.length_replicate

end houseam.syscalls
