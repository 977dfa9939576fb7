import HouseAM.Syscalls.Ls
import HouseAM.Syscalls.Matches
import Mathlib.Data.List.Forall2
import Mathlib.Data.List.GetD

open houseam.filesystem houseam.system_call support.clients support.lines support.runs

namespace houseam.syscalls.grep

variable {img : Image} {buf : array_t} {fd : Int} {history : Transcript} {t : Task} {pcb : pcb_t} {fuel : Nat}
  {search : CString} {name chunk : List Byte} {stack : Nat → array_t}

/-- What is shown for a name of the directory: nothing if it starts with a dot, and
    the matching lines of a text. -/
def Shows (img : Image) (search : CString) (name chunk : List Byte) : Prop :=
  if name.head? = some 0x2E#8 then chunk = []
  else ∀ d, read_dentry_by_name img (some (text_of name)) = some d → IsText (contents img d) →
    chunk = report NEWLINE (hit search (text_of name)) (contents img d)

/-- What the loop over the directory keeps: so many entries are left. -/
structure Looking (img : Image) (search : CString) (fd : Int) (m : Nat) (locals : array_t × Nat) (history : Transcript)
    (t : Task) : Prop where
  room : locals.1.bytes.length = SBUFSIZE
  standard : Standard t.pcb
  free : ∃ i : Fin 8, 2 ≤ i.val ∧ (t.pcb.fd_arr i).flags = 0#32
  rest : ∃ k behind chunks, k + m = img.dir_count.toNat ∧ DirOpen fd k t ∧
    behind ++ (names img k m).takeWhile (· ≠ []) = listing img ∧
    List.Forall₂ (Shows img search) behind chunks ∧ written history = chunks.flatten

/-- Only directories have names that start with a dot. -/
def DotNames (img : Image) : Prop :=
  ∀ k < img.dir_count.toNat, (img.direntries k).filetype = 1#32 → (img.direntries k).name.head? = some 0x2E#8

theorem text_of_name (d : dentry_t) : (text_of d.name).bytes = d.name := by
  have hname : d.name = (text_of (List.ofFn d.filename)).bytes := rfl
  rw [hname, text_of_self]

/-- What the search of a named file leaves. -/
structure Looked (img : Image) (search : CString) (name before : List Byte) (pcb : pcb_t) (status : Int)
    (history : Transcript) (t : Task) : Prop where
  status_eq : status = 0
  shown : ∃ chunk, written history = before ++ chunk ∧ Shows img search name chunk
  closed : ∃ fd, 2 ≤ fd ∧ fd ≤ 7 ∧ (pcb.fd_arr (fd_index fd)).flags = 0#32 ∧ OnlyAt fd pcb t.pcb ∧
    (t.pcb.fd_arr (fd_index fd)).flags = 0#32

/-- A name of the directory that does not start with a dot is one of a file that
    can be opened and searched. -/
theorem named_file_ensures (himg : img.WellFormed) (htypes : Image.FileTypes img) (hdots : DotNames img)
    (hstd : Standard t.pcb) (hfree : ∃ i : Fin 8, 2 ≤ i.val ∧ (t.pcb.fd_arr i).flags = 0#32) {k : Nat}
    (hk : k < img.dir_count.toNat) (hhead : (img.direntries k).name.head? ≠ some 0x2E#8) (hsearch : search.bytes ≠ [])
    (hroom : buf.bytes.length = BUFSIZE + 1) (hguard : buf.get BUFSIZE ≠ NEWLINE) (hfuel : 2 ^ 32 ≤ fuel) :
    (do_one_file fuel search (text_of (img.direntries k).name) buf).Ensures (kernel img)
      (Looked img search (img.direntries k).name (written history) t.pcb) history t := by
  obtain ⟨j, hfirst⟩ := Image.exists_firstNamed hk rfl
  rw [← text_of_name] at hfirst
  have hnamed := hfirst.found
  have htype : (copy_dentry (img.direntries j)).filetype ≠ 1#32 := by
    intro hdir
    have hdot := hdots j hfirst.lt hdir
    rw [hfirst.name_eq, text_of_name] at hdot
    exact hhead hdot
  have hfound : found img t.pcb (text_of (img.direntries k).name) = some (copy_dentry (img.direntries j)) := by
    obtain ⟨i, hi, hclosed⟩ := hfree
    rw [found, if_neg fun hnone => first_closed_eq_none hnone hi hclosed]
    exact hnamed
  let job : Job :=
    { s := search
      fname := text_of (img.direntries k).name
      clean := IsText (contents img (copy_dentry (img.direntries j)))
      before := written history
      total := written history ++ report NEWLINE (hit search (text_of (img.direntries k).name))
        (contents img (copy_dentry (img.direntries j)))
      sought := hsearch }
  have hensures : (do_one_file fuel job.s job.fname buf).Ensures (kernel img) (Searched job t.pcb) history t :=
    do_one_file_ensures himg htypes hstd hfound htype hroom rfl (fun h => ⟨hguard, h, rfl⟩) hfuel
  refine hensures.mono fun status history' t' hsearched => ⟨hsearched.status_eq, ?_, hsearched.closed⟩
  obtain ⟨chunk, hchunk⟩ := hsearched.grown
  refine ⟨chunk, hchunk.symm, ?_⟩
  rw [Shows, if_neg hhead]
  intro d hd htext
  obtain rfl := Option.some.inj (hnamed.symm.trans hd)
  have hshown := hsearched.shown htext
  rw [← hchunk] at hshown
  exact List.append_cancel_left hshown

/-- What the loop over the directory ends with. -/
def Listed (img : Image) (search : CString) (status : Int) (history : Transcript) : Prop :=
  status = 0 ∧ ∃ chunks, List.Forall₂ (Shows img search) (listing img) chunks ∧ written history = chunks.flatten

/-- Behind the last name a read of the directory gets nothing. -/
theorem listed_end {k m : Nat} (hk : k + m = img.dir_count.toNat) (hend : m = 0 ∨ (img.direntries k).name = []) :
    (∃ stored, listed img k = ⟨0, stored⟩ ∧ stored.length ≤ FILENAME_LEN) ∧
      (names img k m).takeWhile (· ≠ []) = [] := by
  cases m with
  | zero =>
    rw [listed, if_neg (by omega)]
    exact ⟨⟨[], rfl, Nat.zero_le _⟩, rfl⟩
  | succ m =>
    have hname := hend.resolve_left (Nat.succ_ne_zero m)
    have hnames : names img k (m + 1) = (img.direntries k).name :: names img (k + 1) m := rfl
    rw [listed, if_pos (by omega), hnames, hname]
    exact ⟨⟨_, rfl, by rw [List.nil_append, List.length_replicate, List.length_nil]; exact Nat.sub_le _ _⟩, rfl⟩

/-- A name is read as a string: a NUL is stored behind it. -/
theorem named_string {more : List Byte} (hbytes : buf.bytes = name ++ more) (hmore : more ≠ []) :
    ∃ buf', buf.store name.length [0#8] = some buf' ∧ buf'.bytes.length = buf.bytes.length ∧
      buf'.string 0 = some (text_of name) := by
  have hroom : name.length + [0#8].length ≤ buf.bytes.length := by
    have hpos := List.length_pos_of_ne_nil hmore
    rw [hbytes, List.length_append, List.length_singleton]
    omega
  have hstore := array_t.store_eq hroom
  refine ⟨_, hstore, array_t.store_length hstore, ?_⟩
  have hmem : 0#8 ∈ name ++ [0#8] := List.mem_append_right _ (List.mem_singleton_self _)
  rw [array_t.string, List.drop_zero]
  dsimp only
  rw [hbytes, List.take_left, string_of_append hmem, text_of_end]

theorem DirOpen.of_entry {k : Nat} {t' : Task} (hdir : DirOpen fd k t)
    (hsame : t'.pcb.fd_arr (fd_index fd) = t.pcb.fd_arr (fd_index fd)) : DirOpen fd k t' where
  flags := by
    rw [hsame]
    exact hdir.flags
  position := by
    rw [hsame]
    exact hdir.position
  operations := by
    rw [hsame]
    exact hdir.operations

/-- Nothing is shown for a name that starts with a dot, and the file of any other
    name is searched. -/
theorem name_ensures (himg : img.WellFormed) (htypes : Image.FileTypes img) (hdots : DotNames img)
    {post : (array_t × Nat) ⊕ Int → Transcript → Task → Prop} {data : array_t} {n k : Nat} {more : List Byte}
    (hstd : Standard t.pcb) (hfree : ∃ i : Fin 8, 2 ≤ i.val ∧ (t.pcb.fd_arr i).flags = 0#32)
    (hdir : DirOpen fd (k + 1) t) (hk : k < img.dir_count.toNat) (hname : (img.direntries k).name ≠ [])
    (hsearch : search.bytes ≠ []) (hdata : data.bytes.length = BUFSIZE + 1) (hguard : data.get BUFSIZE ≠ NEWLINE)
    (hfuel : 2 ^ 32 ≤ fuel) (hbuf : buf.bytes = (img.direntries k).name ++ more) (hmore : more ≠ [])
    (hnext : ∀ buf' chunk history' t', buf'.bytes.length = buf.bytes.length → Standard t'.pcb →
      (∃ i : Fin 8, 2 ≤ i.val ∧ (t'.pcb.fd_arr i).flags = 0#32) → DirOpen fd (k + 1) t' →
      Shows img search (img.direntries k).name chunk → written history' = written history ++ chunk →
      post (.inl (buf', n)) history' t') :
    (if buf.get 0 = 0x2E#8 then return .inl (buf, n)
      else do
        let buf ← Program.given (buf.store (img.direntries k).name.length [0#8])
        let fname ← Program.given (buf.string 0)
        let status ← do_one_file fuel search fname data
        if status ≠ 0 then return .inr 3 else return .inl (buf, n) :
        Process ((array_t × Nat) ⊕ Int)).Ensures (kernel img) post history t := by
  have hget : buf.get 0 = 0x2E#8 ↔ (img.direntries k).name.head? = some 0x2E#8 := by
    obtain ⟨b, name, hcons⟩ := List.exists_cons_of_ne_nil hname
    rw [array_t.get, hbuf, hcons]
    exact Option.some_inj.symm
  by_cases hdot : (img.direntries k).name.head? = some 0x2E#8
  · rw [if_pos (hget.mpr hdot)]
    intro t₁ ht₁
    have hpcb : t₁.pcb = t.pcb := ht₁
    have hdir₁ : DirOpen fd (k + 1) t₁ := DirOpen.of_entry hdir (by rw [hpcb])
    have hshows : Shows img search (img.direntries k).name [] := by rw [Shows, if_pos hdot]
    exact hnext buf [] history t₁ rfl (hpcb ▸ hstd) (hpcb ▸ hfree) hdir₁ hshows (List.append_nil _).symm
  · obtain ⟨buf', hstore, hlength, hstring⟩ := named_string hbuf hmore
    rw [if_neg (mt hget.mp hdot)]
    refine Program.Ensures.given hstore (Program.Ensures.given hstring (Program.Ensures.bind ?_))
    refine (named_file_ensures himg htypes hdots hstd hfree hk hdot hsearch hdata hguard hfuel).mono ?_
    rintro status history' t' ⟨rfl, ⟨chunk, hwritten, hshows⟩, file, hlo', hhi', hopened, honly, hclosed⟩
    have hne : fd_index fd ≠ fd_index file := by
      intro heq
      have hflags := hdir.flags
      rw [heq, hopened] at hflags
      exact absurd hflags (by decide)
    have hfile : 2 ≤ (fd_index file).val := by
      simp only [fd_index, Fin.ofNat]
      omega
    rw [if_neg (by decide)]
    intro t₁ ht₁
    have hpcb : t₁.pcb = t'.pcb := ht₁
    have hdir₁ : DirOpen fd (k + 1) t₁ := DirOpen.of_entry hdir (by rw [hpcb, honly _ hne])
    refine hnext buf' chunk history' t₁ hlength ?_ ⟨_, hfile, hpcb ▸ hclosed⟩ hdir₁ hshows hwritten
    rw [hpcb]
    exact honly.standard hlo' hhi' hstd

/-- A pass of the loop reads a name and searches its file. -/
theorem main_pass_ensures (himg : img.WellFormed) (htypes : Image.FileTypes img) (hdots : DotNames img)
    (hlo : 2 ≤ fd) (hhi : fd ≤ 7) (hsearch : search.bytes ≠ [])
    (hstack : ∀ n, (stack n).bytes.length = BUFSIZE + 1 ∧ (stack n).get BUFSIZE ≠ NEWLINE) (hfuel : 2 ^ 32 ≤ fuel)
    {n m : Nat} (hlooking : Looking img search fd m (buf, n) history t) :
    (main_pass fuel search fd stack (buf, n)).Ensures (kernel img) (Program.Passes (kernel img)
      (Looking img search fd) (fun status history _ => Listed img search status history) m) history t := by
  obtain ⟨hroom, hstd, hfree, k, behind, chunks, hk, hdir, hlisting, hshows, hwritten⟩ := hlooking
  obtain ⟨s', hreads, hdir'⟩ := DirOpen.readsAs hdir hlo hhi (show k ≤ img.dir_count.toNat by omega) (SBUFSIZE - 1)
  dsimp only at hroom
  by_cases hend : m = 0 ∨ (img.direntries k).name = []
  · obtain ⟨⟨stored, hlisted, hfits⟩, hnone⟩ := listed_end hk hend
    rw [hlisted] at hreads
    rw [hnone, List.append_nil] at hlisting
    have hstore := array_t.store_start (show stored.length ≤ buf.bytes.length by
      rw [hroom]
      exact hfits.trans (by decide))
    refine Program.Ensures.bind (ensures_read hreads hstore fun history' t' hshown _ => ?_)
    dsimp only
    rw [if_pos rfl]
    intro t₁ ht₁ t₂ ht₂
    exact ⟨rfl, chunks, hlisting ▸ hshows, hshown.trans hwritten⟩
  · obtain ⟨hm, hname⟩ := not_or.mp hend
    obtain ⟨m, rfl⟩ := Nat.exists_eq_succ_of_ne_zero hm
    have hlength := (img.direntries k).name_length_le
    have hpos := List.length_pos_of_ne_nil hname
    rw [listed, if_pos (by omega)] at hreads
    have hnames : names img k (m + 1) = (img.direntries k).name :: names img (k + 1) m := rfl
    rw [Nat.succ_eq_add_one, hnames, List.takeWhile_cons, if_pos (decide_eq_true hname), List.append_cons] at hlisting
    have hpadded : ((img.direntries k).name ++
        List.replicate (FILENAME_LEN - (img.direntries k).name.length) 0#8).length = SBUFSIZE - 1 := by
      rw [List.length_append, List.length_replicate, Nat.add_sub_cancel' hlength]
      rfl
    have hstore := array_t.store_start (show _ ≤ buf.bytes.length by
      rw [hpadded, hroom]
      exact Nat.sub_le _ _)
    have hroom' := (array_t.store_length hstore).trans hroom
    refine Program.Ensures.bind (ensures_read hreads hstore fun history₁ t₁ hshown₁ ht₁ => ?_)
    have honly : OnlyAt fd t.pcb t₁.pcb := ht₁ ▸ OnlyAt.readsAs hreads
    have hfree₁ : ∃ i : Fin 8, 2 ≤ i.val ∧ (t₁.pcb.fd_arr i).flags = 0#32 := by
      obtain ⟨i, hi, hclosed⟩ := hfree
      refine ⟨i, hi, ?_⟩
      rw [honly i]
      · exact hclosed
      · rintro rfl
        rw [hdir.flags] at hclosed
        exact absurd hclosed (by decide)
    dsimp only
    rw [if_neg (by omega), if_neg (by omega), Int.toNat_natCast]
    refine name_ensures himg htypes hdots (honly.standard hlo hhi hstd) hfree₁
      (DirOpen.of_entry hdir' (by rw [ht₁])) (by omega) hname hsearch (hstack n).1 (hstack n).2 hfuel
      (List.append_assoc _ _ _) ?_ ?_
    · refine List.append_ne_nil_of_right_ne_nil _ (List.ne_nil_of_length_pos ?_)
      rw [hpadded, List.length_drop, hroom]
      decide
    · intro buf' chunk history' t' hlength' hstd' hfree' hopen' hshows' hwritten'
      refine ⟨m, Nat.lt_succ_self m, hlength'.trans hroom', hstd', hfree', k + 1, _, chunks ++ [chunk], by omega,
        hopen',
        hlisting, List.rel_append hshows (.cons hshows' .nil), ?_⟩
      rw [hwritten', hshown₁, hwritten, List.flatten_append, List.flatten_singleton]

/-- What `grep` is for: for every name of the directory it shows the lines of the
    file that its argument is in. -/
def Greps (img : Image) (pcb : pcb_t) (status : Int) (history : Transcript) : Prop :=
  if pcb.argument 0 = 0#8 then status = 3 ∧ written history = could_not_read_argument.bytes
  else if found img pcb directory_name = none then status = 2 ∧ written history = directory_open_failed.bytes
  else Listed img (text_of (List.ofFn pcb.argument)) status history

/-- The loop over the directory. -/
theorem main_passes_ensure (himg : img.WellFormed) (htypes : Image.FileTypes img) (hdots : DotNames img)
    (hlo : 2 ≤ fd) (hhi : fd ≤ 7) (hsearch : search.bytes ≠ []) (hbuf : buf.bytes.length = SBUFSIZE)
    (hstack : ∀ n, (stack n).bytes.length = BUFSIZE + 1 ∧ (stack n).get BUFSIZE ≠ NEWLINE) (hfuel : 2 ^ 32 ≤ fuel)
    (hstd : Standard t.pcb) (hfree : ∃ i : Fin 8, 2 ≤ i.val ∧ (t.pcb.fd_arr i).flags = 0#32) (hdir : DirOpen fd 0 t)
    (hnothing : written history = []) :
    (Program.iterate (main_pass fuel search fd stack) fuel (buf, 0)).Ensures (kernel img)
      (fun status history _ => Listed img search status history) history t := by
  have hstart : Looking img search fd img.dir_count.toNat (buf, 0) history t :=
    ⟨hbuf, hstd, hfree, 0, [], [], Nat.zero_add _, hdir, rfl, .nil, hnothing⟩
  refine Program.iterate_ensures ?_ hstart (Nat.lt_of_lt_of_le img.dir_count.isLt hfuel)
  rintro m ⟨buf, n⟩ history t hlooking
  exact main_pass_ensures himg htypes hdots hlo hhi hsearch hstack hfuel hlooking

/-- Opening the directory leaves a second closed descriptor. -/
theorem directory_opened {i j : Fin 8} (hdirectory : ∀ d, read_dentry_by_name img (some directory_name) = some d →
      d.filetype = 1#32)
    (hstd : Standard pcb) (hi : 2 ≤ i.val) (hj : 2 ≤ j.val) (hne : i ≠ j) (hclosed : (pcb.fd_arr i).flags = 0#32)
    (hclosed' : (pcb.fd_arr j).flags = 0#32) (hfound : found img pcb directory_name ≠ none) :
    ∃ (fd : Int) (pcb' : pcb_t), sys_open img (some directory_name) pcb = (fd, pcb') ∧ 2 ≤ fd ∧ fd ≤ 7 ∧
      Standard pcb' ∧ (∃ k : Fin 8, 2 ≤ k.val ∧ (pcb'.fd_arr k).flags = 0#32) ∧
      DirOpen fd 0 ⟨pcb', terminal.zeroed⟩ := by
  obtain ⟨d, hd⟩ := Option.ne_none_iff_exists'.mp hfound
  obtain ⟨⟨k, hfirst⟩, hnamed⟩ := found_some hd
  have hopen := sys_open_found hfirst hnamed
  obtain ⟨hlo, hhi, hdir⟩ := sys_open_dirOpen terminal.zeroed hopen (Int.natCast_nonneg _) hnamed (hdirectory d hnamed)
  have honly := OnlyAt.setFd k.val pcb (opened_entry d (pcb.fd_arr k))
  have hindex : fd_index k.val = k := Fin.ofNat_val_eq_self k
  rw [hindex] at honly
  refine ⟨_, _, hopen, hlo, hhi, honly.standard hlo hhi hstd, ?_, hdir⟩
  by_cases hik : i = k
  · refine ⟨j, hj, ?_⟩
    rw [honly j (by rw [hindex]; exact hik ▸ hne.symm)]
    exact hclosed'
  · refine ⟨i, hi, ?_⟩
    rw [honly i (by rw [hindex]; exact hik)]
    exact hclosed

theorem main_ensures {search : array_t} (himg : img.WellFormed) (htypes : Image.FileTypes img) (hdots : DotNames img)
    (hdirectory : ∀ d, read_dentry_by_name img (some directory_name) = some d → d.filetype = 1#32)
    (hstd : Standard t.pcb) {i j : Fin 8} (hi : 2 ≤ i.val) (hj : 2 ≤ j.val) (hne : i ≠ j)
    (hclosed : (t.pcb.fd_arr i).flags = 0#32) (hclosed' : (t.pcb.fd_arr j).flags = 0#32)
    (hargument : 0#8 ∈ List.ofFn t.pcb.argument) (hsearch : search.bytes.length = BUFSIZE)
    (hbuf : buf.bytes.length = SBUFSIZE)
    (hstack : ∀ n, (stack n).bytes.length = BUFSIZE + 1 ∧ (stack n).get BUFSIZE ≠ NEWLINE) (hfuel : 2 ^ 32 ≤ fuel) :
    (main fuel search buf stack).Ensures (kernel img) (fun status history _ => Greps img t.pcb status history) []
      t := by
  have hroom : 128 ≤ search.bytes.length := by
    rw [hsearch]
    decide
  refine Program.Ensures.bind (ensures_getargs (by decide) hroom fun history t₁ hasked ht₁ => ?_)
  by_cases hnone : t.pcb.argument 0 = 0#8
  · rw [if_pos hnone]
    dsimp only
    rw [if_pos (by decide)]
    refine Program.Ensures.bind (ensures_fdputs (ht₁ ▸ hstd) fun history' t' hshown _ => ?_)
    intro t'' _
    rw [Greps, if_pos hnone, hshown, hasked]
    exact ⟨rfl, rfl⟩
  · rw [if_neg hnone]
    have hstring :
        array_t.string ⟨search.address, List.ofFn t.pcb.argument ++ search.bytes.drop 128, search.not_null⟩ 0 =
          some (text_of (List.ofFn t.pcb.argument)) := string_of_append hargument
    have hnonempty : (text_of (List.ofFn t.pcb.argument)).bytes ≠ [] := by
      have htake : (List.ofFn t.pcb.argument).takeWhile (· ≠ 0#8) ≠ [] := by
        rw [List.ofFn_succ, List.takeWhile_cons, if_pos (decide_eq_true hnone)]
        exact List.cons_ne_nil _ _
      exact htake
    dsimp only
    rw [if_neg (by decide)]
    refine Program.Ensures.given hstring ?_
    refine Program.Ensures.bind (ensures_open fun history₂ t₂ hshown₂ ht₂ => ?_)
    rw [ht₁] at ht₂ ⊢
    by_cases hfound : found img t.pcb directory_name = none
    · rw [found_none hfound] at ht₂ ⊢
      dsimp only
      rw [if_pos rfl]
      refine Program.Ensures.bind (ensures_fdputs (ht₂ ▸ hstd) fun history' t' hshown _ => ?_)
      intro t'' _
      rw [Greps, if_neg hnone, if_pos hfound, hshown, hshown₂, hasked]
      exact ⟨rfl, rfl⟩
    · obtain ⟨fd, pcb', hopen, hlo, hhi, hstd', hfree', hdir⟩ :=
        directory_opened hdirectory hstd hi hj hne hclosed hclosed' hfound
      rw [hopen] at ht₂ ⊢
      dsimp only at ht₂ ⊢
      rw [if_neg (by omega)]
      refine (main_passes_ensure himg htypes hdots hlo hhi hnonempty hbuf hstack hfuel (ht₂ ▸ hstd') (ht₂ ▸ hfree')
        (DirOpen.of_entry hdir (by rw [ht₂])) (hshown₂.trans hasked)).mono ?_
      intro status history' t' hlisted
      rw [Greps, if_neg hnone, if_neg hfound]
      exact hlisted

end houseam.syscalls.grep
