import HouseAM.Syscalls.OneFile
import HouseAM.Syscalls.Opened

open houseam.filesystem houseam.system_call support.clients support.lines support.runs

namespace houseam.syscalls.grep

variable {img : Image} {job : Job} {data data' : array_t} {rest : List Byte} {fd : Int}
  {history history' : Transcript} {t : Task} {pcb : pcb_t} {last fuel : Nat}

/-- What the outer loop keeps, while the file is read into the array. -/
structure Filling (img : Image) (job : Job) (fd : Int) (pcb : pcb_t) (m : Nat) (locals : array_t × Nat)
    (history : Transcript) (t : Task) : Prop where
  only : OnlyAt fd pcb t.pcb
  room : locals.2 < BUFSIZE
  rest : ∃ rest, rest.length = m ∧ Opened img fd rest t.pcb ∧ Text job rest 0 locals.2 locals.1 history

/-- What the outer loop ends with. -/
structure Filled (img : Image) (job : Job) (fd : Int) (pcb : pcb_t) (status : Int) (history : Transcript) (t : Task) :
    Prop where
  status_eq : status = 0
  only : OnlyAt fd pcb t.pcb
  grown : job.before <+: written history
  shown : job.clean → written history = job.total
  opened : ∃ rest, Opened img fd rest t.pcb

/-- A read fills the array behind what it holds. -/
theorem Text.filled {n : Nat} (htext : Text job rest 0 last data history) (hn : last + n = BUFSIZE)
    (hstore : data.store last (rest.take n) = some data') (hshown : written history' = written history) :
    Text job (rest.drop n) 0 (last + (rest.take n).length) data' history' := by
  obtain ⟨hroom, hguard, hgrown, seg, more, hdrop, hseg, hclean⟩ := htext
  have hchunk : (rest.take n).length = min n rest.length := List.length_take
  rw [List.drop_zero] at hdrop
  rw [Nat.zero_add] at hseg
  have hsplit : seg ++ rest.take n ++ rest.drop n = seg ++ rest := by
    rw [List.append_assoc, List.take_append_drop]
  refine ⟨(array_t.store_length hstore).trans hroom, fun h => ?_, hshown ▸ hgrown, ?_⟩
  · rw [get_of_drop_eq (array_t.store_drop hstore (by omega))]
    exact hguard h
  · refine ⟨seg ++ rest.take n, data'.bytes.drop (last + (rest.take n).length), ?_, ?_, fun h => ?_⟩
    · have hfront := array_t.store_take hstore
      rw [hdrop, hseg, List.take_left, ← hseg] at hfront
      rw [← hfront, List.take_append_drop, List.drop_zero]
    · rw [List.length_append, Nat.zero_add, hseg]
    · rw [hsplit, hshown]
      exact hclean h

/-- A pass of the outer loop reads as much as there is room for and searches it. -/
theorem pass_ensures {m : Nat} (hlo : 2 ≤ fd) (hhi : fd ≤ 7) (hstd : Standard pcb)
    (hfilling : Filling img job fd pcb m (data, last) history t) :
    (pass job.s job.fname fd (data, last)).Ensures (kernel img)
      (Program.Passes (kernel img) (Filling img job fd pcb) (Filled img job fd pcb) m) history t := by
  obtain ⟨honly, hlast, rest, hm, hopened, htext⟩ := hfilling
  dsimp only at hlast htext
  obtain ⟨n, hn⟩ := Nat.exists_eq_add_of_le (Nat.le_of_lt hlast)
  have hnbytes : (BUFSIZE : Int) - last = n := by omega
  have hroom := htext.room
  have hchunk : (rest.take n).length = min n rest.length := List.length_take
  have hstore := array_t.store_eq (show last + (rest.take n).length ≤ data.bytes.length by omega)
  obtain ⟨pcb', hreads, hopened'⟩ := hopened.reads hlo hhi n
  rw [pass]
  dsimp only
  rw [hnbytes]
  refine Program.Ensures.bind (ensures_read hreads hstore fun history' t' hshown ht' => ?_)
  have honly' : OnlyAt fd pcb t'.pcb := honly.trans (ht' ▸ OnlyAt.readsAs hreads)
  have hfull : last + (rest.take n).length = BUFSIZE ∨ rest.drop n = [] := by
    by_cases hlarge : n ≤ rest.length
    · exact .inl (by omega)
    · exact .inr (List.drop_eq_nil_of_le (by omega))
  have hempty : ((rest.take n).length : Int) = 0 → rest.drop n = [] := by
    intro hzero
    exact List.drop_eq_nil_of_le (by omega)
  dsimp only
  rw [if_neg (by omega), ← Nat.cast_add, Int.toNat_natCast]
  refine Program.Ensures.bind ((scans_ensure (honly'.standard hlo hhi hstd) (by omega) hfull hempty
    (htext.filled hn.symm hstore hshown)).mono ?_)
  rintro ⟨data'', last''⟩ history'' t'' ⟨htask, hlast'', htext'', hended⟩
  have honly'' : OnlyAt fd pcb t''.pcb := htask ▸ honly'
  have hopened'' : Opened img fd (rest.drop n) t''.pcb := by
    rw [htask, ht']
    exact hopened'
  by_cases hzero : ((rest.take n).length : Int) = 0
  · rw [if_pos hzero]
    intro t₁ ht₁ t₂ ht₂
    have hpcb : t₂.pcb = t''.pcb := Eq.trans ht₂ ht₁
    exact ⟨rfl, hpcb ▸ honly'', htext''.grown, hended hzero, _, hpcb ▸ hopened''⟩
  · rw [if_neg hzero]
    intro t₁ ht₁
    have hpcb : t₁.pcb = t''.pcb := ht₁
    refine ⟨(rest.drop n).length, ?_, hpcb ▸ honly'', hlast'', rest.drop n, rfl, hpcb ▸ hopened'', htext''⟩
    rw [List.length_drop]
    omega

/-- The outer loop searches the whole file. -/
theorem passes_ensure {m : Nat} (hlo : 2 ≤ fd) (hhi : fd ≤ 7) (hstd : Standard pcb)
    (hfilling : Filling img job fd pcb m (data, last) history t) (hfuel : m < fuel) :
    (Program.iterate (pass job.s job.fname fd) fuel (data, last)).Ensures (kernel img) (Filled img job fd pcb)
      history t := by
  refine Program.iterate_ensures ?_ hfilling hfuel
  rintro m ⟨data, last⟩ history t hfilling
  exact pass_ensures hlo hhi hstd hfilling

/-- A file that `grep` is for: it has no NUL in it and no line longer than the
    array. -/
def IsText (text : List Byte) : Prop := 0#8 ∉ text ∧ Fits NEWLINE BUFSIZE text

/-- What the search of a file ends with. -/
structure Searched (job : Job) (pcb : pcb_t) (status : Int) (history : Transcript) (t : Task) : Prop where
  status_eq : status = 0
  grown : job.before <+: written history
  shown : job.clean → written history = job.total
  closed : ∃ fd, 2 ≤ fd ∧ fd ≤ 7 ∧ (pcb.fd_arr (fd_index fd)).flags = 0#32 ∧ OnlyAt fd pcb t.pcb ∧
    (t.pcb.fd_arr (fd_index fd)).flags = 0#32

theorem contents_length_lt (img : Image) {d : dentry_t} (htype : d.filetype ≠ 1#32) :
    (contents img d).length < 2 ^ 32 := by
  unfold contents
  split
  · rw [Image.fileBytes_length]
    exact img.fileLength_lt d.inode_num
  · exact Nat.two_pow_pos 32

/-- A file is searched and closed again. -/
theorem do_one_file_ensures (himg : img.WellFormed) (htypes : Image.FileTypes img) (hstd : Standard t.pcb)
    {d : dentry_t} (hfound : found img t.pcb job.fname = some d) (htype : d.filetype ≠ 1#32) (hdata : data.bytes.length = BUFSIZE + 1)
    (hbefore : job.before = written history)
    (hclean : job.clean → data.get BUFSIZE ≠ NEWLINE ∧ IsText (contents img d) ∧
      written history ++ report NEWLINE (hit job.s job.fname) (contents img d) = job.total) (hfuel : 2 ^ 32 ≤ fuel) :
    (do_one_file fuel job.s job.fname data).Ensures (kernel img) (Searched job t.pcb) history t := by
  obtain ⟨fd, pcb', hopen, hlo, hhi, hclosed, honly, hopened⟩ := opened_of_found himg htypes hfound htype
  have hlength := contents_length_lt img htype
  refine Program.Ensures.bind (ensures_open fun history₁ t₁ hshown₁ ht₁ => ?_)
  rw [hopen] at ht₁ ⊢
  have htext : Text job (contents img d) 0 0 data history₁ := by
    refine ⟨hdata, fun h => (hclean h).1, by rw [hbefore, hshown₁], [], data.bytes, rfl, rfl, fun h => ?_⟩
    obtain ⟨-, ⟨hnul, hfits⟩, htotal⟩ := hclean h
    exact ⟨hnul, hfits, by rw [hshown₁]; exact htotal⟩
  have hfilling : Filling img job fd t.pcb (contents img d).length (data, 0) history₁ t₁ :=
    ⟨ht₁ ▸ honly, Nat.succ_pos 1023, contents img d, rfl, ht₁ ▸ hopened, htext⟩
  dsimp only
  rw [if_neg (by omega)]
  refine Program.Ensures.bind ((passes_ensure hlo hhi hstd hfilling (by omega)).mono ?_)
  rintro status history₂ t₂ ⟨rfl, honly₂, hgrown, hshown, rest, hopened₂⟩
  have hrange : ¬ (fd < 2 ∨ fd > PCB_LENGTH - 1) := by
    simp only [PCB_LENGTH]
    omega
  have hflags : ¬ (t₂.pcb.fd_arr (fd_index fd)).flags = 0#32 := by
    rw [hopened₂.flags]
    decide
  rw [if_neg (by decide)]
  refine Program.Ensures.bind (ensures_close fun history₃ t₃ hshown₃ ht₃ => ?_)
  rw [sys_close_eq _ hrange, if_neg hflags] at ht₃ ⊢
  dsimp only
  rw [if_neg (by decide)]
  intro t₄ ht₄
  have hpcb : t₄.pcb = _ := Eq.trans ht₄ ht₃
  refine ⟨rfl, hshown₃ ▸ hgrown, hshown₃ ▸ hshown, fd, hlo, hhi, hclosed, ?_, ?_⟩
  · rw [hpcb]
    exact honly₂.trans (OnlyAt.setFd fd t₂.pcb _)
  · rw [hpcb, pcb_t.setFd_same]
    rfl

end houseam.syscalls.grep
