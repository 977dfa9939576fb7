import HouseAM.Syscalls.Search

open houseam.filesystem houseam.system_call support.clients support.lines

namespace houseam.syscalls.grep

variable {img : Image} {s fname : CString} {data data' : array_t} {line more seg rest total : List Byte}
  {last line_start i : Nat} {b c : Byte} {cnt fd : Int} {history : Transcript} {t : Task} {pcb : pcb_t}

/-- What is shown of a line, if the string is in it. A NUL ends it. -/
def hit (s fname : CString) (line : List Byte) : List Byte :=
  if s.bytes <:+: line then fname.bytes ++ (colon.bytes ++ ((text_of line).bytes ++ newline.bytes)) else []

theorem hit_nil (hs : s.bytes ≠ []) (fname : CString) : hit s fname [] = [] :=
  if_neg fun h => hs (List.infix_nil.mp h)

theorem ensures_show_line {post : Unit → Transcript → Task → Prop} (hstd : Standard t.pcb)
    (hdrop : data.bytes.drop line_start = line ++ 0#8 :: more)
    (hpost : ∀ history' t',
      written history' = written history ++ (fname.bytes ++ (colon.bytes ++ ((text_of line).bytes ++ newline.bytes))) →
      t'.pcb = t.pcb → post () history' t') :
    (show_line fname data line_start).Ensures (kernel img) post history t := by
  have hstring : data.string line_start = some (text_of line) := by
    have hmem : 0#8 ∈ line ++ [0#8] := List.mem_append_right _ (List.mem_singleton_self _)
    rw [array_t.string, hdrop, List.append_cons, string_of_append hmem, text_of_end]
  refine Program.Ensures.bind (ensures_fdputs hstd fun history₁ t₁ hshown₁ ht₁ => ?_)
  refine Program.Ensures.bind (ensures_fdputs (ht₁ ▸ hstd) fun history₂ t₂ hshown₂ ht₂ => ?_)
  have hpcb₂ := ht₂.trans ht₁
  refine Program.Ensures.given hstring ?_
  refine Program.Ensures.bind (ensures_fdputs (hpcb₂ ▸ hstd) fun history₃ t₃ hshown₃ ht₃ => ?_)
  have hpcb₃ := ht₃.trans hpcb₂
  refine ensures_fdputs (hpcb₃ ▸ hstd) fun history₄ t₄ hshown₄ ht₄ => hpost history₄ t₄ ?_ (ht₄.trans hpcb₃)
  rw [hshown₄, hshown₃, hshown₂, hshown₁]
  simp only [List.append_assoc]

/-- The search of a line shows it if the string is in it. -/
theorem ensures_do_one_line {post : Unit → Transcript → Task → Prop} (hs : s.bytes ≠ []) (hstd : Standard t.pcb)
    (hdrop : data.bytes.drop line_start = line ++ 0#8 :: more)
    (hpost : ∀ history' t', written history' = written history ++ hit s fname line → t'.pcb = t.pcb →
      post () history' t') :
    (do_one_line s fname data line_start (line_start + line.length)).Ensures (kernel img) post history t := by
  have hfound := search_line_iff hdrop hs
  rw [do_one_line, Nat.add_sub_cancel_left]
  by_cases hhit : s.bytes <:+: line
  · rw [if_pos (hfound.mpr hhit)]
    refine ensures_show_line hstd hdrop fun history' t' hshown => hpost history' t' ?_
    rw [hshown, hit, if_pos hhit]
  · rw [if_neg (mt hfound.mp hhit)]
    intro t' ht'
    refine hpost history t' ?_ ht'
    rw [hit, if_neg hhit, List.append_nil]

/-- The end of a line is overwritten. -/
theorem stored_line (hdrop : data.bytes.drop i = line ++ c :: more) :
    ∃ data', data.store (i + line.length) [b] = some data' ∧ data'.bytes.drop i = line ++ b :: more := by
  have hlength : data.bytes.length - i = line.length + (more.length + 1) := by
    rw [← List.length_drop, hdrop, List.length_append, List.length_cons]
  have hroom : i + line.length + [b].length ≤ data.bytes.length := by
    rw [List.length_singleton]
    omega
  have hstore := array_t.store_eq hroom
  refine ⟨_, hstore, ?_⟩
  have htake : data.bytes.take (i + line.length) = data.bytes.take i ++ line := by
    rw [List.take_add, hdrop, List.take_left]
  have hbehind : data.bytes.drop (i + line.length + [b].length) = more := by
    rw [← List.drop_drop, ← List.drop_drop, hdrop, List.drop_left]
    rfl
  have hfront : (data.bytes.take i).length = i := List.length_take_of_le (by omega)
  rw [htake, hbehind, List.append_assoc, List.append_assoc, List.drop_left' hfront]
  rfl

/-- A store leaves the bytes behind it, also where they are looked at one by one. -/
theorem get_of_drop_eq {k : Nat} (hdrop : data'.bytes.drop k = data.bytes.drop k) : data'.get k = data.get k := by
  have hget := get_drop hdrop 0
  rwa [Nat.add_zero, ← get_drop (Eq.refl (data.bytes.drop k)) 0] at hget

/-- What a file is searched for: the string, the file's name, what was shown before,
    and what there is to show altogether, if the file is clean. -/
structure Job where
  s : CString
  fname : CString
  clean : Prop
  before : List Byte
  total : List Byte
  sought : s.bytes ≠ []

/-- The array holds bytes of a file from one place up to another, and so much of
    the file is still to be read. Of a clean file it is known what was shown. -/
structure Text (job : Job) (rest : List Byte) (line_start last : Nat) (data : array_t) (history : Transcript) :
    Prop where
  room : data.bytes.length = BUFSIZE + 1
  no_newline : job.clean → data.get BUFSIZE ≠ NEWLINE
  grown : job.before <+: written history
  held : ∃ seg more, data.bytes.drop line_start = seg ++ more ∧ last = line_start + seg.length ∧
    (job.clean → 0#8 ∉ seg ++ rest ∧ Fits NEWLINE BUFSIZE (seg ++ rest) ∧
      written history ++ report NEWLINE (hit job.s job.fname) (seg ++ rest) = job.total)

/-- What the inner loop keeps. -/
structure Scanning (job : Job) (rest : List Byte) (pcb : pcb_t) (last m : Nat) (locals : array_t × Nat)
    (history : Transcript) (t : Task) : Prop where
  task : t.pcb = pcb
  to_go : last - locals.2 = m
  text : Text job rest locals.2 last locals.1 history

/-- What the inner loop leaves. -/
structure Scanned (job : Job) (rest : List Byte) (pcb : pcb_t) (cnt : Int) (locals : array_t × Nat)
    (history : Transcript) (t : Task) : Prop where
  task : t.pcb = pcb
  room : locals.2 < BUFSIZE
  text : Text job rest 0 locals.2 locals.1 history
  ended : cnt = 0 → job.clean → written history = job.total

variable {job : Job}

theorem get_store (hstore : data.store i [b] = some data') : data'.get i = b := by
  unfold array_t.store at hstore
  split at hstore
  · rename_i hroom
    have hfront : (data.bytes.take i).length = i := List.length_take_of_le (by omega)
    have hbytes : data'.bytes.drop i = b :: data.bytes.drop (i + [b].length) := by
      rw [← Option.some.inj hstore, List.append_assoc, List.drop_left' hfront]
      rfl
    exact get_drop hbytes 0
  · cases hstore

/-- A store of a NUL puts no newline behind the text. -/
theorem no_newline_store (hstore : data.store i [0#8] = some data') (hi : i ≤ BUFSIZE)
    (hguard : data.get BUFSIZE ≠ NEWLINE) : data'.get BUFSIZE ≠ NEWLINE := by
  by_cases hat : i = BUFSIZE
  · rw [← hat, get_store hstore]
    decide
  · rw [get_of_drop_eq (array_t.store_drop hstore (by rw [List.length_singleton]; omega))]
    exact hguard

/-- The first mark of a text is where a text without one ends in front of it. -/
theorem prefix_of_first {text behind : List Byte} (hsplit : seg ++ c :: more = text ++ c :: behind) (hc : c ∉ text) :
    text <+: seg := by
  rcases List.append_eq_append_iff.mp hsplit with ⟨between, rfl, hbehind⟩ | ⟨between, rfl, -⟩
  · cases between with
    | nil => rw [List.append_nil]
    | cons b between =>
      obtain ⟨rfl, -⟩ := List.cons.inj hbehind
      exact absurd (List.mem_append_right _ List.mem_cons_self) hc
  · exact List.prefix_append _ _

/-- The start of a line that goes on is moved to the front of the array, up to a
    NUL in it. -/
theorem moved (hdrop : data.bytes.drop line_start = seg ++ c :: more) (hstart : 0 < line_start) :
    ∃ data₁ data₂, data.store (line_start + seg.length) [0#8] = some data₁ ∧
      ece391_strcpy data₁ 0 line_start = some data₂ ∧ data₂.bytes.length = data.bytes.length ∧
      (0#8 ∉ seg → ∃ more, data₂.bytes = seg ++ more) ∧
      ∀ k, line_start + seg.length ≤ k → data₂.bytes.drop k = data₁.bytes.drop k := by
  obtain ⟨data₁, hstore, hstored⟩ := stored_line (b := 0#8) hdrop
  have hlength₁ := array_t.store_length hstore
  have hlength : data₁.bytes.length - line_start = seg.length + (more.length + 1) := by
    rw [← List.length_drop, hstored, List.length_append, List.length_cons]
  have hnul : 0#8 ∈ seg ++ 0#8 :: more := List.mem_append_right _ List.mem_cons_self
  obtain ⟨text, behind, hsplit, htext⟩ := List.eq_append_cons_of_mem hnul
  obtain ⟨cut, rfl⟩ := prefix_of_first hsplit htext
  have hshort : text.length ≤ (text ++ cut).length := by
    rw [List.length_append]
    exact Nat.le_add_right _ _
  rw [hsplit] at hstored
  obtain ⟨data₂, hcopy, hbytes⟩ := strcpy_loop_eq hstored htext (n := data₁.bytes.length) (by omega) hstart
  rw [List.take_zero, List.nil_append, Nat.zero_add] at hbytes
  refine ⟨data₁, data₂, hstore, hcopy, ?_, fun hclean => ?_, fun k hk => ?_⟩
  · rw [← hlength₁, hbytes, List.length_append, List.length_cons, List.length_drop]
    omega
  · cases cut with
    | nil =>
      rw [List.append_nil]
      exact ⟨_, hbytes⟩
    | cons b cut =>
      rw [List.append_assoc, List.cons_append] at hsplit
      obtain ⟨rfl, -⟩ := List.cons.inj (List.append_cancel_left hsplit)
      exact absurd (List.mem_append_right _ List.mem_cons_self) hclean
  · obtain ⟨j, rfl⟩ := Nat.exists_eq_add_of_le (show text.length + 1 ≤ k by omega)
    rw [hbytes, ← List.drop_drop, ← List.drop_drop, List.drop_left, List.drop_one, List.tail_cons, List.drop_drop]

/-- A line is ended and searched, and what is behind it is left. -/
theorem ensures_line {Result : Type} {post : Result → Transcript → Task → Prop} {next : array_t → Process Result}
    (hs : s.bytes ≠ []) (hstd : Standard t.pcb) (hroom : data.bytes.length = BUFSIZE + 1)
    (hdrop : data.bytes.drop line_start = line ++ c :: more)
    (hpost : ∀ data' history' t', data'.bytes.length = BUFSIZE + 1 →
      (data.get BUFSIZE ≠ NEWLINE → data'.get BUFSIZE ≠ NEWLINE) →
      data'.bytes.drop (line_start + line.length + 1) = more → written history' = written history ++ hit s fname line →
      t'.pcb = t.pcb → (next data').Ensures (kernel img) post history' t') :
    ((Program.given (data.store (line_start + line.length) [0#8])).bind fun data =>
      (do_one_line s fname data line_start (line_start + line.length)).bind fun _ => next data).Ensures (kernel img)
        post history t := by
  have hlength : data.bytes.length - line_start = line.length + (more.length + 1) := by
    rw [← List.length_drop, hdrop, List.length_append, List.length_cons]
  obtain ⟨data', hstore, hstored⟩ := stored_line (b := 0#8) hdrop
  refine Program.Ensures.given hstore ?_
  refine Program.Ensures.bind (ensures_do_one_line hs hstd hstored fun history' t' hshown ht' => ?_)
  refine hpost data' history' t' ((array_t.store_length hstore).trans hroom)
    (no_newline_store hstore (by omega)) ?_ hshown ht'
  rw [Nat.add_assoc, ← List.drop_drop, ← List.drop_drop, hstored, List.drop_left]
  rfl

/-- A pass of the inner loop: what was shown and what is left to be searched stay
    the same altogether. -/
theorem scan_ensures (hstd : Standard pcb) (hlast : last ≤ BUFSIZE) (hfull : last = BUFSIZE ∨ rest = [])
    (hcnt : cnt = 0 → rest = []) (ht : t.pcb = pcb) (htext : Text job rest line_start last data history) :
    (scan job.s job.fname last cnt (data, line_start)).Ensures (kernel img)
      (Program.Passes (kernel img) (Scanning job rest pcb last) (Scanned job rest pcb cnt) (last - line_start))
      history t := by
  obtain ⟨hroom, hguard, hgrown, seg, more, hdrop, hseg, hclean⟩ := htext
  have hlength : data.bytes.length - line_start = seg.length + more.length := by
    rw [← List.length_drop, hdrop, List.length_append]
  have hfront : (data.bytes.take line_start).length = line_start := List.length_take_of_le (by omega)
  have hstd' : Standard t.pcb := ht ▸ hstd
  have hnil := hit_nil job.sought job.fname
  rw [scan]
  rcases line_cases NEWLINE seg with hline | ⟨line, after, rfl, hline⟩
  · have hbytes : data.bytes = data.bytes.take line_start ++ seg ++ more := by
      rw [List.append_assoc, ← hdrop, List.take_append_drop]
    have hend := find_line_end_eq hbytes hline (show _ ≤ last by omega) (.inl (by omega))
    rw [hfront, ← hseg] at hend
    rw [hend]
    obtain ⟨c, more, rfl⟩ := List.exists_cons_of_length_pos (show 0 < more.length by omega)
    by_cases hgoes : data.get last ≠ NEWLINE ∧ cnt ≠ 0 ∧ line_start ≠ 0
    · rw [if_pos hgoes]
      have hstart : 0 < line_start := Nat.pos_of_ne_zero hgoes.2.2
      obtain ⟨data₁, data₂, hstore, hcopy, hlength₂, hmoved, hsame⟩ := moved hdrop hstart
      have hroom₂ := hlength₂.trans hroom
      rw [← hseg] at hstore
      refine Program.Ensures.given hstore (Program.Ensures.given hcopy ?_)
      intro t₁ ht₁ t₂ ht₂
      refine ⟨(Eq.trans ht₂ ht₁).trans ht, by dsimp only; omega, ⟨hroom₂, fun h => ?_, hgrown, ?_⟩,
        fun h => absurd h hgoes.2.1⟩
      · rw [get_of_drop_eq (hsame BUFSIZE (by omega))]
        exact no_newline_store hstore hlast (hguard h)
      · by_cases hnul : 0#8 ∈ seg
        · refine ⟨data₂.bytes.take (last - line_start), data₂.bytes.drop (last - line_start), ?_, ?_, fun h => ?_⟩
          · rw [List.take_append_drop, List.drop_zero]
          · rw [List.length_take, Nat.zero_add]
            omega
          · exact absurd (List.mem_append_left _ hnul) (hclean h).1
        · obtain ⟨more₂, hbytes₂⟩ := hmoved hnul
          exact ⟨seg, more₂, hbytes₂, by dsimp only; omega, hclean⟩
    · rw [if_neg hgoes]
      have hends : job.clean → Ends NEWLINE rest := by
        intro h
        by_cases hnone : rest = []
        · exact .inl hnone
        · have hlast' := hfull.resolve_right hnone
          have hstart : line_start = 0 := by
            by_contra hne
            exact hgoes ⟨hlast' ▸ hguard h, fun h => hnone (hcnt h), hne⟩
          exact (hclean h).2.1.ends hline (by omega)
      rw [hseg]
      refine ensures_line job.sought hstd' hroom hdrop ?_
      intro data' history' t' hroom' hguard' hdrop' hshown ht'
      rw [if_pos (by omega)]
      intro t₁ ht₁ t₂ ht₂
      have htotal (h : job.clean) : written history' ++ report NEWLINE (hit job.s job.fname) rest = job.total := by
        rw [hshown, ← (hclean h).2.2, report_ends hnil hline (hends h), List.append_assoc]
      refine ⟨((Eq.trans ht₂ ht₁).trans ht').trans ht, Nat.succ_pos 1023,
        ⟨hroom', fun h => hguard' (hguard h), ?_, ?_⟩, fun hzero h => ?_⟩
      · exact hshown ▸ hgrown.trans (List.prefix_append _ _)
      · refine ⟨[], data'.bytes, rfl, rfl, fun h => ⟨fun hnul => ?_, ?_, htotal h⟩⟩
        · exact (hclean h).1 (List.mem_append_right _ hnul)
        · exact (hclean h).2.1.behind hline (hends h)
      · have hall := htotal h
        rwa [hcnt hzero, report_nil hnil, List.append_nil] at hall
  · rw [List.append_assoc, List.cons_append] at hdrop
    rw [List.length_append, List.length_cons] at hseg
    have hbytes : data.bytes = data.bytes.take line_start ++ line ++ NEWLINE :: (after ++ more) := by
      rw [List.append_assoc, ← hdrop, List.take_append_drop]
    have hend := find_line_end_eq hbytes hline (show _ ≤ last by omega) (.inr ⟨_, rfl⟩)
    rw [hfront] at hend
    have hat : data.get (line_start + line.length) = NEWLINE := by
      have hdrop' : data.bytes.drop (line_start + line.length) = NEWLINE :: (after ++ more) := by
        rw [← List.drop_drop, hdrop, List.drop_left]
      exact get_drop hdrop' 0
    rw [hend, if_neg fun h => h.1 hat]
    refine ensures_line job.sought hstd' hroom hdrop ?_
    intro data' history' t' hroom' hguard' hdrop' hshown ht'
    have hgrown' : job.before <+: written history' := hshown ▸ hgrown.trans (List.prefix_append _ _)
    have hafter (h : job.clean) : 0#8 ∉ after ++ rest ∧ Fits NEWLINE BUFSIZE (after ++ rest) ∧
        written history' ++ report NEWLINE (hit job.s job.fname) (after ++ rest) = job.total := by
      obtain ⟨hnul, hfits, htotal⟩ := hclean h
      rw [List.append_assoc, List.cons_append] at hnul hfits htotal
      refine ⟨fun h => hnul (List.mem_append_right _ (List.mem_cons_of_mem _ h)), ((fits_append hline).mp hfits).2, ?_⟩
      rw [hshown, ← htotal, report_append hline, List.append_assoc]
    by_cases hdone : line_start + line.length + 1 ≥ last
    · obtain rfl : after = [] := List.length_eq_zero_iff.mp (by omega)
      rw [if_pos hdone]
      intro t₁ ht₁ t₂ ht₂
      refine ⟨((Eq.trans ht₂ ht₁).trans ht').trans ht, Nat.succ_pos 1023,
        ⟨hroom', fun h => hguard' (hguard h), hgrown', [], data'.bytes, rfl, rfl, hafter⟩, fun hzero h => ?_⟩
      have hall := (hafter h).2.2
      rwa [hcnt hzero, List.append_nil, report_nil hnil, List.append_nil] at hall
    · rw [if_neg hdone]
      intro t₁ ht₁
      refine ⟨last - (line_start + line.length + 1), by omega, (Eq.trans ht₁ ht').trans ht, rfl,
        hroom', fun h => hguard' (hguard h), hgrown', ?_⟩
      exact ⟨after, more, hdrop', by dsimp only; omega, hafter⟩

/-- The inner loop searches what was read. -/
theorem scans_ensure (hstd : Standard t.pcb) (hlast : last ≤ BUFSIZE) (hfull : last = BUFSIZE ∨ rest = [])
    (hcnt : cnt = 0 → rest = []) (htext : Text job rest 0 last data history) :
    (Program.iterate (scan job.s job.fname last cnt) (BUFSIZE + 2) (data, 0)).Ensures (kernel img)
      (Scanned job rest t.pcb cnt) history t := by
  have hstart : Scanning job rest t.pcb last last (data, 0) history t := ⟨rfl, rfl, htext⟩
  refine Program.iterate_ensures ?_ hstart (by omega)
  rintro m ⟨data, line_start⟩ history t' ⟨ht', rfl, htext'⟩
  exact scan_ensures hstd hlast hfull hcnt ht' htext'

end houseam.syscalls.grep
