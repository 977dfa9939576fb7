import HouseAM.Descriptor.Listing
import HouseAM.Descriptor.Table
import HouseAM.Syscalls.Library

open houseam.filesystem houseam.lib houseam.system_call support.clients

namespace houseam.syscalls

variable {img : Image} {s s' : Task} {fd : Int} {i : Nat} {nbytes value : Int} {buf buf' : array_t} {r : Returned}
  {history : Transcript} {bytes stored : List Byte} {pcb pcb' : pcb_t} {chunk : List Byte}
  {chunks : List (List Byte)} {inode : Word} {position k : Nat}

/-- The standard output is what `sys_execute` set it to. -/
def Standard (pcb : pcb_t) : Prop := (pcb.fd_arr 1).file_operations = .table .std_operations

theorem CString.all_nonzero (text : CString) : ∀ b ∈ text.bytes, decide (b ≠ 0#8) = true := by
  rintro b hb
  exact decide_eq_true fun hzero => text.nul_free (hzero ▸ hb)

theorem text_of_self (text : CString) : text_of text.bytes = text := by
  simp only [text_of, List.takeWhile_eq_self_iff.mpr (CString.all_nonzero text)]

theorem text_of_eq (text : CString) (behind : List Byte) : text_of (text.bytes ++ 0#8 :: behind) = text := by
  have htake : (text.bytes ++ 0#8 :: behind).takeWhile (· ≠ 0#8) = text.bytes := by
    rw [List.takeWhile_append_of_pos (CString.all_nonzero text)]
    simp
  simp only [text_of, htake]

/-- A NUL at the end adds nothing to a text. -/
theorem text_of_end (bytes : List Byte) : text_of (bytes ++ [0#8]) = text_of bytes := by
  have htake : (bytes ++ [0#8]).takeWhile (· ≠ 0#8) = bytes.takeWhile (· ≠ 0#8) := by
    rw [List.takeWhile_append]
    split
    · rename_i hall
      have hwhole := (List.takeWhile_prefix fun b : Byte => decide (b ≠ 0#8)).eq_of_length hall
      rw [hwhole]
      simp
    · rfl
  simp only [text_of, htake]

/-- What is behind the NUL does not matter. -/
theorem string_of_append {behind : List Byte} (hmem : 0#8 ∈ bytes) :
    string_of (bytes ++ behind) = some (text_of bytes) := by
  obtain ⟨text, rest, rfl, htext⟩ := List.eq_append_cons_of_mem hmem
  have heq (behind : List Byte) := text_of_eq ⟨text, htext⟩ behind
  rw [string_of, if_pos (List.mem_append_left _ hmem), List.append_assoc, List.cons_append, heq, heq]

theorem array_t.store_eq (hroom : i + stored.length ≤ buf.bytes.length) :
    buf.store i stored =
      some { buf with bytes := buf.bytes.take i ++ stored ++ buf.bytes.drop (i + stored.length) } :=
  if_pos hroom

/-- What a store from the start of an array leaves. -/
theorem array_t.store_start (hroom : stored.length ≤ buf.bytes.length) :
    buf.store 0 stored = some { buf with bytes := stored ++ buf.bytes.drop stored.length } := by
  rw [array_t.store_eq (by omega)]
  simp

theorem array_t.store_length (hstore : buf.store i stored = some buf') : buf'.bytes.length = buf.bytes.length := by
  unfold array_t.store at hstore
  split at hstore
  · cases hstore
    simp only [List.length_append, List.length_take, List.length_drop]
    omega
  · cases hstore

theorem array_t.store_take (hstore : buf.store i stored = some buf') :
    buf'.bytes.take (i + stored.length) = buf.bytes.take i ++ stored := by
  unfold array_t.store at hstore
  split at hstore
  · rename_i hroom
    cases hstore
    have hlength : (buf.bytes.take i ++ stored).length = i + stored.length := by
      rw [List.length_append, List.length_take]
      omega
    exact List.take_left' hlength
  · cases hstore

/-- A store leaves what is behind it. -/
theorem array_t.store_drop {k : Nat} (hstore : buf.store i stored = some buf') (hk : i + stored.length ≤ k) :
    buf'.bytes.drop k = buf.bytes.drop k := by
  unfold array_t.store at hstore
  split at hstore
  · rename_i hroom
    cases hstore
    have hlength : (buf.bytes.take i ++ stored).length = i + stored.length := by
      rw [List.length_append, List.length_take]
      omega
    obtain ⟨n, rfl⟩ := Nat.exists_eq_add_of_le hk
    rw [← List.drop_drop, List.drop_left' hlength, List.drop_drop]
  · cases hstore

theorem written_append (history : Transcript) (served : Request × Returned) :
    written (history ++ [served]) = written history ++ shown served := by
  simp [written]

/-- Only writes show anything. -/
theorem written_read (history : Transcript) (fd : Int) (address : Nat) (nbytes : Int) (r : Returned) :
    written (history ++ [(.ece391_read fd address nbytes, r)]) = written history := by
  rw [written_append]
  exact List.append_nil _

/-- The bytes that a write reads from its buffer. -/
theorem range_getD {n : Nat} (hroom : i + n ≤ bytes.length) :
    (List.range n).map (fun k => bytes.getD (i + k) 0#8) = (bytes.drop i).take n := by
  apply List.ext_getElem
  · simp only [List.length_map, List.length_range, List.length_take, List.length_drop]
    omega
  · intro k hk _
    simp only [List.length_map, List.length_range] at hk
    rw [List.getElem_map, List.getElem_range, List.getElem_take, List.getElem_drop, List.getElem_eq_getD]

/-! What a program's calls return, whatever happens to the terminal. -/

/-- A read of a descriptor returns so much in a state, and leads to another one. -/
def ReadsAs (img : Image) (fd nbytes : Int) (pcb : pcb_t) (r : Returned) (pcb' : pcb_t) : Prop :=
  ∀ (buf : Nat) (s : Task), buf ≠ 0 → s.pcb = pcb → ∃ s', sys_read img fd buf nbytes s = .done (r, s') ∧ s'.pcb = pcb'

theorem array_t.place_ne (buf : array_t) (i : Nat) : buf.address + i ≠ 0 := by
  have hne := buf.not_null
  omega

theorem ensures_read {post : Int × array_t → Transcript → Task → Prop}
    (hread : ReadsAs img fd nbytes s.pcb r pcb') (hstore : buf.store i r.stored = some buf')
    (hpost : ∀ history' s', written history' = written history → s'.pcb = pcb' →
      post (r.value, buf') history' s') :
    (ece391_read fd buf i nbytes).Ensures (kernel img) post history s := by
  intro t ht
  obtain ⟨t', hcall, ht'⟩ := hread _ t (buf.place_ne i) ht
  refine ⟨r, t', congrArg returned hcall, ?_⟩
  simp only [hstore]
  exact fun s' hs' => hpost _ s' (written_read _ _ _ _ _) (hs'.trans ht')

theorem sys_write_std (hstd : Standard s.pcb) (buf : Nat → Byte) (hnbytes : 0 ≤ nbytes) :
    ∃ s', sys_write 1 (some buf) nbytes s = .done (nbytes, s') ∧ s'.pcb = s.pcb := by
  have hchecks : ¬ ((1 : Int) < 1 ∨ nbytes < 0 ∨ (1 : Int) > PCB_LENGTH - 1) := by
    simp only [PCB_LENGTH]
    omega
  have hops : (s.pcb.fd_arr (fd_index 1)).file_operations = .table .std_operations := hstd
  rw [sys_write, if_neg hchecks, hops]
  exact ⟨_, rfl, rfl⟩

/-- A write to the standard output is accepted. -/
theorem serve_write (img : Image) (hstd : Standard s.pcb) (buf : Nat → Byte) (hnbytes : 0 ≤ nbytes) :
    ∃ s', serve img s (.ece391_write 1 buf nbytes) = some (⟨nbytes, []⟩, s') ∧ s'.pcb = s.pcb := by
  obtain ⟨s', hcall, hs'⟩ := sys_write_std hstd buf hnbytes
  exact ⟨s', by rw [serve, hcall, returned, Option.map_some], hs'⟩

theorem shown_write (buf : Nat → Byte) (hnbytes : 0 ≤ nbytes) :
    shown (.ece391_write 1 buf nbytes, ⟨nbytes, []⟩) = (List.range nbytes.toNat).map buf := by
  have haccepted : nbytes ≠ -1 := by omega
  exact if_pos ⟨rfl, haccepted⟩

/-- Writing bytes of an array puts them on the screen. -/
theorem ensures_write {post : Int → Transcript → Task → Prop} (hstd : Standard s.pcb)
    (hbytes : bytes <+: buf.bytes.drop i) (hroom : i + bytes.length ≤ buf.bytes.length)
    (hpost : ∀ history' s', written history' = written history ++ bytes → s'.pcb = s.pcb →
      post bytes.length history' s') :
    (ece391_write 1 buf i bytes.length).Ensures (kernel img) post history s := by
  rw [ece391_write, if_pos (by rw [Int.toNat_natCast]; exact hroom)]
  intro t ht
  have ht' : Standard t.pcb := by
    rw [ht]
    exact hstd
  obtain ⟨t', hserve, hpcb⟩ := serve_write img ht' (fun k => buf.get (i + k))
    (Int.natCast_nonneg bytes.length)
  refine ⟨_, t', hserve, fun s' hs' => hpost _ _ ?_ ((hs'.trans hpcb).trans ht)⟩
  rw [written_append, shown_write _ (Int.natCast_nonneg _), Int.toNat_natCast]
  simp only [array_t.get]
  rw [range_getD hroom, ← List.prefix_iff_eq_take.mp hbytes]

/-- `ece391_fdputs` puts its string on the screen. -/
theorem ensures_fdputs {post : Unit → Transcript → Task → Prop} {text : CString}
    (hstd : Standard s.pcb)
    (hpost : ∀ history' s', written history' = written history ++ text.bytes → s'.pcb = s.pcb → post () history' s') :
    (ece391_fdputs 1 text).Ensures (kernel img) post history s := by
  intro t ht
  have ht' : Standard t.pcb := by
    rw [ht]
    exact hstd
  obtain ⟨t', hserve, hpcb⟩ := serve_write img ht' text.get (Int.natCast_nonneg (ece391_strlen text))
  refine ⟨_, t', hserve, fun s' hs' => hpost _ _ ?_ ((hs'.trans hpcb).trans ht)⟩
  have hbytes := range_getD (i := 0) (Nat.zero_add text.bytes.length).le
  rw [List.drop_zero, List.take_length] at hbytes
  simp only [Nat.zero_add] at hbytes
  rw [written_append, shown_write _ (Int.natCast_nonneg _), Int.toNat_natCast, ece391_strlen]
  exact congrArg _ hbytes

/-- Only a read of the keyboard depends on the terminal. -/
theorem readsAs_of {ops : file_ops_t} {address : Nat}
    (hops : (s.pcb.fd_arr (fd_index fd)).file_operations = .table ops) (hne : ops ≠ .std_operations)
    (haddress : address ≠ 0) (hread : sys_read img fd address nbytes s = .done (r, s')) :
    ReadsAs img fd nbytes s.pcb r s'.pcb := by
  intro buf t hbuf ht
  unfold sys_read at hread ⊢
  by_cases hchecks : fd < 0 ∨ nbytes < 0 ∨ fd > PCB_LENGTH - 1 ∨ fd = 1
  · rw [if_pos (by tauto)] at hread ⊢
    cases hread
    exact ⟨t, rfl, ht⟩
  · rw [if_neg (by tauto)] at hread ⊢
    simp only [hops, ht] at hread ⊢
    split at hread
    · rename_i hclosed
      cases hread
      exact ⟨t, if_pos hclosed, ht⟩
    · rename_i hopen
      rw [if_neg hopen]
      cases ops with
      | std_operations => exact absurd rfl hne
      | dir_operations =>
        cases hread
        exact ⟨⟨_, t.term⟩, by rw [call_read, ht], rfl⟩
      | file_operations =>
        cases hread
        exact ⟨⟨_, t.term⟩, by rw [call_read, ht], rfl⟩
      | rtc_operations =>
        cases hread
        exact ⟨t, rfl, ht⟩

/-- A read leaves the standard output alone. -/
theorem Standard.readsAs (hstd : Standard pcb) (hread : ReadsAs img fd nbytes pcb r pcb') (term : terminal.terminal_t) :
    Standard pcb' := by
  obtain ⟨s', hcall, rfl⟩ := hread 1 ⟨pcb, term⟩ Nat.one_ne_zero rfl
  rcases sys_read_pcb hcall with hsame | ⟨-, -, -, position, hmoved⟩
  · rw [Standard, hsame]
    exact hstd
  · rw [Standard, hmoved]
    by_cases hone : 1 = fd_index fd
    · rw [← hone, pcb_t.setFd_same]
      exact hstd
    · rw [pcb_t.setFd_other _ _ hone]
      exact hstd

/-- Reading a descriptor again and again gives out chunks, and then nothing. -/
inductive Yields (img : Image) (fd : Int) (nbytes : Nat) : List (List Byte) → pcb_t → Prop where
  | ended {stored : List Byte} {pcb pcb' : pcb_t} (hread : ReadsAs img fd nbytes pcb ⟨0, stored⟩ pcb')
      (hroom : stored.length ≤ nbytes) : Yields img fd nbytes [] pcb
  | chunk {chunk behind : List Byte} {chunks : List (List Byte)} {pcb pcb' : pcb_t}
      (hread : ReadsAs img fd nbytes pcb ⟨chunk.length, chunk ++ behind⟩ pcb') (hne : chunk ≠ [])
      (hroom : (chunk ++ behind).length ≤ nbytes) (rest : Yields img fd nbytes chunks pcb') :
      Yields img fd nbytes (chunk :: chunks) pcb

/-- A file gives out the contents behind its position. -/
theorem FileOpen.yields {n : Nat} (hfile : img.FileOk inode) (hopen : FileOpen img inode fd position s)
    (hlo : 2 ≤ fd) (hhi : fd ≤ 7) (hn : 0 < n) :
    ∃ chunks, Yields img fd n chunks s.pcb ∧ chunks.flatten = (img.fileBytes inode).drop position ∧
      chunks.length ≤ img.fileLength inode - position := by
  have hne : file_ops_t.file_operations ≠ .std_operations := by simp
  induction hrest : img.fileLength inode - position using Nat.strongRecOn generalizing position s with
  | ind rest ih =>
    obtain ⟨s', hcall, hnext⟩ := hopen.sys_read hfile hlo hhi Nat.one_ne_zero (Int.natCast_nonneg n)
    have hreads := readsAs_of hopen.operations hne Nat.one_ne_zero hcall
    rw [available, Int.toNat_natCast, hrest] at hreads hnext
    have hlength : (((img.fileBytes inode).drop position).take n).length = min n rest := by
      rw [List.length_take, List.length_drop, Image.fileBytes_length, hrest]
    by_cases hend : rest = 0
    · have hnothing : ((img.fileBytes inode).drop position).length = 0 := by
        rw [List.length_drop, Image.fileBytes_length, hrest, hend]
      rw [hend, Nat.min_zero] at hreads
      refine ⟨[], .ended hreads (by rw [hlength]; omega), ?_, Nat.zero_le _⟩
      exact (List.length_eq_zero_iff.mp hnothing).symm
    · obtain ⟨chunks, hyields, hflatten, hcount⟩ := ih (rest - min n rest) (by omega) hnext (by omega)
      refine ⟨((img.fileBytes inode).drop position).take n :: chunks, ?_, ?_, ?_⟩
      · refine @Yields.chunk img fd n _ [] chunks _ _ ?_ ?_ ?_ hyields
        · rwa [List.append_nil, hlength]
        · exact List.ne_nil_of_length_pos (by omega)
        · rw [List.append_nil, hlength]
          omega
      · have htake := List.take_eq_take_min (l := (img.fileBytes inode).drop position) (i := n)
        rw [List.length_drop, Image.fileBytes_length, hrest] at htake
        rw [List.flatten_cons, hflatten, htake, ← List.drop_drop, List.take_append_drop]
      · rw [List.length_cons]
        omega

/-- The names of a number of entries. -/
def names (img : Image) (first count : Nat) : List (List Byte) :=
  (List.range' first count).map fun k => (img.direntries k).name

/-- The names that a program finds in the directory: it stops at an empty one. -/
def listing (img : Image) : List (List Byte) := (names img 0 img.dir_count.toNat).takeWhile (· ≠ [])

theorem listing_length_le (img : Image) : (listing img).length ≤ img.dir_count.toNat := by
  have hle := (List.takeWhile_sublist (l := names img 0 img.dir_count.toNat) fun name => decide (name ≠ [])).length_le
  rw [names, List.length_map, List.length_range'] at hle
  exact hle

theorem DirOpen.readsAs (hopen : DirOpen fd k s) (hlo : 2 ≤ fd) (hhi : fd ≤ 7) (hk : k ≤ img.dir_count.toNat)
    (n : Nat) : ∃ s', ReadsAs img fd n s.pcb (listed img k) s'.pcb ∧ DirOpen fd (k + 1) s' := by
  obtain ⟨r, s', hcall, hnext, hlisted⟩ := hopen.sys_read img hlo hhi Nat.one_ne_zero (Int.natCast_nonneg n)
  rw [hlisted hk] at hcall
  exact ⟨s', readsAs_of hopen.operations (by simp) Nat.one_ne_zero hcall, hnext⟩

/-- The directory gives out its names, one by one. -/
theorem DirOpen.yields {n count : Nat} (hopen : DirOpen fd k s) (hlo : 2 ≤ fd) (hhi : fd ≤ 7)
    (hcount : k + count = img.dir_count.toNat) (hn : FILENAME_LEN ≤ n) :
    Yields img fd n ((names img k count).takeWhile (· ≠ [])) s.pcb := by
  induction count generalizing k s with
  | zero =>
    have hk : k ≤ img.dir_count.toNat := by omega
    obtain ⟨s', hreads, -⟩ := DirOpen.readsAs hopen hlo hhi hk n
    rw [listed, if_neg (by omega)] at hreads
    exact .ended hreads (Nat.zero_le _)
  | succ count ih =>
    have hk : k ≤ img.dir_count.toNat := by omega
    obtain ⟨s', hreads, hnext⟩ := DirOpen.readsAs hopen hlo hhi hk n
    rw [listed, if_pos (by omega)] at hreads
    have hlength := (img.direntries k).name_length_le
    have hnames : names img k (count + 1) = (img.direntries k).name :: names img (k + 1) count := rfl
    rw [hnames]
    by_cases hempty : (img.direntries k).name = []
    · rw [hempty] at hreads ⊢
      refine .ended hreads ?_
      rwa [List.nil_append, List.length_replicate]
    · rw [List.takeWhile_cons, if_pos (decide_eq_true hempty)]
      refine .chunk hreads hempty ?_ (ih hnext (by omega))
      rw [List.length_append, List.length_replicate]
      omega

theorem readsAs_rtc {n : Nat} (hops : (s.pcb.fd_arr (fd_index fd)).file_operations = .table .rtc_operations)
    (hlo : 2 ≤ fd) (hhi : fd ≤ 7) : ReadsAs img fd n s.pcb ⟨0, []⟩ s.pcb := by
  have hchecks : ¬ (fd < 0 ∨ (n : Int) < 0 ∨ fd > PCB_LENGTH - 1 ∨ fd = 1 ∨ 1 = 0) := by
    simp only [PCB_LENGTH]
    omega
  have hcall : sys_read img fd 1 n s = .done (⟨0, []⟩, s) := by
    rw [sys_read, if_neg hchecks]
    simp [hops, call_read]
  exact readsAs_of hops (by simp) Nat.one_ne_zero hcall

/-- The real-time clock gives out nothing. -/
theorem yields_rtc {n : Nat} (hops : (s.pcb.fd_arr (fd_index fd)).file_operations = .table .rtc_operations)
    (hlo : 2 ≤ fd) (hhi : fd ≤ 7) : Yields img fd n [] s.pcb :=
  .ended (readsAs_rtc hops hlo hhi) (Nat.zero_le _)

/-- What a loop keeps that reads a descriptor and shows each chunk in some way:
    so much was shown already, and there are chunks left. -/
structure Showing (img : Image) (fd : Int) (nbytes size : Nat) (render : List Byte → List Byte) (total : List Byte)
    (m : Nat) (buf : array_t) (history : Transcript) (s : Task) : Prop where
  room : buf.bytes.length = size
  standard : Standard s.pcb
  rest : ∃ chunks, chunks.length = m ∧ Yields img fd nbytes chunks s.pcb ∧
    written history ++ chunks.flatMap render = total

/-- A chunk was read, and the loop can go on once it has shown it. -/
structure Got (img : Image) (fd : Int) (nbytes size : Nat) (render : List Byte → List Byte) (total : List Byte)
    (m : Nat) (chunk : List Byte) (buf : array_t) (history : Transcript) (s : Task) : Prop where
  chunk_pos : 0 < chunk.length
  chunk_le : chunk.length ≤ nbytes
  prefix_bytes : chunk <+: buf.bytes
  room : buf.bytes.length = size
  standard : Standard s.pcb
  next : ∀ (buf' : array_t) history' (s' : Task), buf'.bytes.length = size → s'.pcb = s.pcb →
    written history' = written history ++ render chunk →
    ∃ l < m, Showing img fd nbytes size render total l buf' history' s'

/-- A pass of such a loop starts with a read, which finds the end or a chunk. -/
theorem Showing.read {n size m : Nat} {render : List Byte → List Byte} {total : List Byte} {Result : Type}
    {post : Result → Transcript → Task → Prop} {next : Int × array_t → Process Result}
    (hshowing : Showing img fd n size render total m buf history s) (hn : n ≤ size)
    (hend : ∀ buf' history' s', written history' = total → (next (0, buf')).Ensures (kernel img) post history' s')
    (hchunk : ∀ chunk buf' history' s', Got img fd n size render total m chunk buf' history' s' →
      (next (chunk.length, buf')).Ensures (kernel img) post history' s') :
    (Program.bind (ece391_read fd buf 0 n) next).Ensures (kernel img) post history s := by
  obtain ⟨hroom, hstd, chunks, hm, hyields, htotal⟩ := hshowing
  cases hyields with
  | @ended stored _ pcb' hread hfits =>
    have hstore := array_t.store_start (show stored.length ≤ buf.bytes.length by omega)
    refine Program.Ensures.bind (ensures_read hread hstore fun history' s' hwritten _ => ?_)
    refine hend _ history' s' ?_
    rw [hwritten, ← htotal, List.flatMap_nil, List.append_nil]
  | @chunk chunk behind chunks _ pcb' hread hne hfits rest =>
    have hstore := array_t.store_start (show (chunk ++ behind).length ≤ buf.bytes.length by omega)
    have hlength := (array_t.store_length hstore).trans hroom
    refine Program.Ensures.bind (ensures_read hread hstore fun history' s' hwritten hs' => ?_)
    have hstd' : Standard s'.pcb := hs' ▸ hstd.readsAs hread s.term
    rw [List.length_append] at hfits
    rw [List.length_cons] at hm
    refine hchunk chunk _ history' s' ⟨List.length_pos_of_ne_nil hne, by omega, ?_, hlength, hstd', ?_⟩
    · rw [List.append_assoc]
      exact List.prefix_append _ _
    · intro buf' history'' t hlength' ht hshown
      refine ⟨chunks.length, by omega, hlength', ht ▸ hstd', chunks, rfl, ?_, ?_⟩
      · rw [ht, hs']
        exact rest
      · rw [hshown, hwritten, ← htotal, List.flatMap_cons, List.append_assoc]

/-! Opening a file, and asking for the argument. -/

theorem sys_open_fails {filename : Option CString}
    (hfails : first_closed pcb = none ∨ read_dentry_by_name img filename = none) :
    sys_open img filename pcb = (-1, pcb) := by
  rcases sys_open_cases img filename pcb with hopen | ⟨i, d, hfirst, hfound, -⟩
  · exact hopen
  · rcases hfails with hfails | hfails
    · rw [hfirst] at hfails
      cases hfails
    · rw [hfound] at hfails
      cases hfails

theorem sys_open_found {filename : CString} {d : dentry_t} {j : Fin 8} (hfirst : first_closed pcb = some j)
    (hfound : read_dentry_by_name img (some filename) = some d) :
    sys_open img (some filename) pcb = ((j.val : Int), pcb.setFd j (opened_entry d (pcb.fd_arr j))) := by
  have hclosed : (pcb.fd_arr j).flags ≠ 1#32 := by
    rw [first_closed_flags hfirst]
    decide
  simp only [sys_open, hfirst, hfound, if_neg hclosed, opened_entry]

/-- What reading an opened file gives out altogether. -/
def contents (img : Image) (d : dentry_t) : List Byte :=
  if d.filetype = 2#32 then img.fileBytes d.inode_num
  else if d.filetype = 1#32 then (listing img).flatten
  else []

/-- The file that a program opens: none while all its descriptors are in use. -/
def found (img : Image) (pcb : pcb_t) (filename : CString) : Option dentry_t :=
  if first_closed pcb = none then none else read_dentry_by_name img (some filename)

theorem found_none {filename : CString} (hnone : found img pcb filename = none) :
    sys_open img (some filename) pcb = (-1, pcb) := by
  unfold found at hnone
  split at hnone
  · rename_i hfull
    exact sys_open_fails (.inl hfull)
  · exact sys_open_fails (.inr hnone)

theorem found_some {filename : CString} {d : dentry_t} (hfound : found img pcb filename = some d) :
    (∃ j, first_closed pcb = some j) ∧ read_dentry_by_name img (some filename) = some d := by
  unfold found at hfound
  split at hfound
  · cases hfound
  · rename_i hroom
    exact ⟨Option.ne_none_iff_exists'.mp hroom, hfound⟩

/-- What an open that finds a file leads to. -/
theorem opens (himg : img.WellFormed) (htypes : Image.FileTypes img) {filename : CString} {d : dentry_t}
    (hstd : Standard pcb) (hopens : found img pcb filename = some d) {n : Nat} (hn : FILENAME_LEN ≤ n) :
    ∃ fd pcb' chunks, sys_open img (some filename) pcb = (fd, pcb') ∧ fd ≠ -1 ∧ Standard pcb' ∧
      Yields img fd n chunks pcb' ∧ chunks.flatten = contents img d ∧
      (d.filetype = 1#32 → chunks = listing img) ∧
      chunks.length ≤ img.fileLength d.inode_num + img.dir_count.toNat := by
  obtain ⟨⟨j, hfirst⟩, hfound⟩ := found_some hopens
  have hopen := sys_open_found hfirst hfound
  have hlarge := first_closed_ge_two hfirst
  have hfd : 0 ≤ (j.val : Int) := Int.natCast_nonneg _
  have hstd' : Standard (pcb.setFd j (opened_entry d (pcb.fd_arr j))) := by
    have hne : 1 ≠ j := by
      rintro rfl
      exact absurd hlarge (by decide)
    rw [Standard, pcb_t.setFd_other _ _ hne]
    exact hstd
  have hne : (j.val : Int) ≠ -1 := by omega
  obtain ⟨k, hk, hentry⟩ := read_dentry_by_name_some hfound
  have htype := htypes k hk
  rw [← copy_dentry_filetype, ← hentry] at htype
  rcases htype with htype | htype | htype
  · have hops : ((pcb.setFd j (opened_entry d (pcb.fd_arr j))).fd_arr (fd_index j.val)).file_operations =
        .table .rtc_operations := by
      have hindex : fd_index j.val = j := Fin.ofNat_val_eq_self j
      rw [hindex, pcb_t.setFd_same]
      simp [opened_entry, opened_operations, htype]
    refine ⟨_, _, [], hopen, hne, hstd', yields_rtc (s := ⟨_, terminal.zeroed⟩) hops (by omega) (by omega), ?_, ?_, ?_⟩
    · simp [contents, htype]
    · simp [htype]
    · exact Nat.zero_le _
  · obtain ⟨hlo, hhi, hdir⟩ := sys_open_dirOpen terminal.zeroed hopen hfd hfound htype
    refine ⟨_, _, listing img, hopen, hne, hstd', DirOpen.yields hdir hlo hhi (Nat.zero_add _) hn, ?_, fun _ => rfl, ?_⟩
    · simp [contents, htype]
    · exact (listing_length_le img).trans (Nat.le_add_left _ _)
  · obtain ⟨hlo, hhi, hfile⟩ := sys_open_fileOpen terminal.zeroed hopen hfd hfound htype
    have hok := himg.fileOk_of_found hfound htype
    obtain ⟨chunks, hyields, hflatten, hlength⟩ := FileOpen.yields hok hfile hlo hhi (Nat.lt_of_lt_of_le (by decide) hn)
    refine ⟨_, _, chunks, hopen, hne, hstd', hyields, ?_, ?_, ?_⟩
    · rw [hflatten, List.drop_zero, contents, if_pos htype]
    · simp [htype]
    · omega

theorem ensures_open {post : Int → Transcript → Task → Prop} {filename : CString}
    (hpost : ∀ history' s', written history' = written history →
      s'.pcb = (sys_open img (some filename) s.pcb).2 → post (sys_open img (some filename) s.pcb).1 history' s') :
    (ece391_open filename).Ensures (kernel img) post history s := by
  intro t ht
  refine ⟨_, _, rfl, fun s' hs' => ?_⟩
  have ht' : t.pcb = s.pcb := ht
  simp only [ht'] at hs' ⊢
  refine hpost _ s' ?_ hs'
  rw [written_append]
  exact List.append_nil _

/-- The argument of a program: the text its PCB holds. -/
theorem ensures_getargs {post : Int × array_t → Transcript → Task → Prop} (hnbytes : 0 ≤ nbytes)
    (hroom : 128 ≤ buf.bytes.length)
    (hpost : ∀ history' s', written history' = written history → s'.pcb = s.pcb →
      post (if s.pcb.argument 0 = 0#8 then (-1, buf)
        else (0, { buf with bytes := List.ofFn s.pcb.argument ++ buf.bytes.drop 128 })) history' s') :
    (ece391_getargs buf nbytes).Ensures (kernel img) post history s := by
  intro t ht
  refine ⟨_, t, rfl, ?_⟩
  have ht' : t.pcb = s.pcb := ht
  have hchecks : ¬ (buf.address = 0 ∨ nbytes < 0) := by
    have hne := buf.not_null
    omega
  have hshown (r : Returned) : written (history ++ [(.ece391_getargs buf.address nbytes, r)]) = written history := by
    rw [written_append]
    exact List.append_nil _
  rw [sys_getargs, if_neg hchecks, ht']
  by_cases hnone : s.pcb.argument 0 = 0#8
  · rw [if_pos hnone]
    have hstore : buf.store 0 [] = some buf := by
      rw [array_t.store_start (Nat.zero_le _)]
      rfl
    simp only [hstore]
    intro s' hs'
    have hafter := hpost _ s' (hshown ⟨-1, []⟩) (hs'.trans ht')
    rwa [if_pos hnone] at hafter
  · rw [if_neg hnone]
    have hfits : (List.ofFn s.pcb.argument).length ≤ buf.bytes.length := by
      rw [List.length_ofFn]
      exact hroom
    simp only [array_t.store_start hfits, List.length_ofFn]
    intro s' hs'
    have hafter := hpost _ s' (hshown ⟨0, List.ofFn s.pcb.argument⟩) (hs'.trans ht')
    rwa [if_neg hnone] at hafter

end houseam.syscalls
