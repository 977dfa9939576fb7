import HouseAM.Process.Invariant

open houseam.filesystem houseam.paging houseam.system_call houseam.terminal support.paging

namespace houseam.process

variable {sys : System} {k k' : Kernel} {f : Frame} {q : Fin 6} {c : CString} {d : dentry_t} {img : Image}
  {inode : Word} {leftover : Nat → Byte} {stores : List (Word × Byte)} {save_value : Word}

/-- The part of the command before its first space. -/
theorem command_word_bytes (c : CString) : (command_word c).bytes = c.bytes.takeWhile (· ≠ SPACE) := by
  have hparse (bytes : List Byte) : (parse_loop bytes).1 = bytes.takeWhile (· ≠ SPACE) := by
    induction bytes with
    | nil => rfl
    | cons b bytes ih =>
      rw [parse_loop, List.takeWhile_cons]
      by_cases hspace : b ≠ SPACE
      · simp only [hspace, ne_eq, not_false_eq_true, decide_true, if_true, ih]
      · simp only [if_neg hspace, decide_eq_false hspace, Bool.false_eq_true, if_false]
  exact hparse c.bytes

/-! The header of an executable. -/

/-- A byte of the header buffer behind its read: the file's where it has one and
    its first block is there, and else what the stack held. -/
def header_byte (img : Image) (inode : Word) (leftover : Nat → Byte) (i : Nat) : Byte :=
  if (inode.toNat < img.inode_count.toNat ∧ img.HasBlock inode 0) ∧ i < img.fileLength inode then img.fileByte inode i
  else leftover i

/-- The buffer begins with the magic number. -/
def HeaderMagic (img : Image) (inode : Word) (leftover : Nat → Byte) : Prop :=
  header_byte img inode leftover 0 = 0x7F#8 ∧ header_byte img inode leftover 1 = 0x45#8 ∧
    header_byte img inode leftover 2 = 0x4C#8 ∧ header_byte img inode leftover 3 = 0x46#8

theorem fileBytes_getD (img : Image) (inode : Word) {length i : Nat} (hi : i < length) (b : Byte) :
    ((img.fileBytes inode).take length).getD i b = if i < img.fileLength inode then img.fileByte inode i else b := by
  rw [List.getD_eq_getElem?_getD, List.getElem?_take, if_pos hi]
  by_cases hinside : i < img.fileLength inode
  · rw [if_pos hinside, List.getElem?_eq_getElem (by simpa using hinside)]
    simp [Image.fileBytes]
  · rw [if_neg hinside, List.getElem?_eq_none (by simpa using hinside)]
    rfl

theorem header_byte_eq (img : Image) (inode : Word) (leftover : Nat → Byte) {i : Nat} (hi : i < HEADER_BUF_SIZE) :
    (read_data img inode 0#32 HEADER_BUF_SIZE).2.getD i (leftover i) = header_byte img inode leftover i := by
  rw [header_byte]
  by_cases hfirst : img.HasBlock inode 0
  · by_cases hinode : inode.toNat < img.inode_count.toNat
    · rw [read_data_front hinode hfirst (by decide), fileBytes_getD img inode hi]
      simp only [hinode, hfirst, true_and]
    · rw [if_neg fun h => hinode h.1.1, read_data_no_inode hinode]
      rfl
  · rw [if_neg fun h => hfirst h.1.2, read_data_missing (by exact hfirst)]
    rfl

theorem is_elf_iff : is_elf img inode leftover = true ↔ HeaderMagic img inode leftover := by
  simp only [is_elf, header_byte_eq img inode leftover (show 0 < HEADER_BUF_SIZE by decide),
    header_byte_eq img inode leftover (show 1 < HEADER_BUF_SIZE by decide),
    header_byte_eq img inode leftover (show 2 < HEADER_BUF_SIZE by decide),
    header_byte_eq img inode leftover (show 3 < HEADER_BUF_SIZE by decide), HeaderMagic, Bool.and_eq_true,
    decide_eq_true_eq, and_assoc]

/-- An inode of the image whose file has at least four bytes, the magic number. -/
structure ElfFile (img : Image) (inode : Word) : Prop where
  inode_lt : inode.toNat < img.inode_count.toNat
  block : img.HasBlock inode 0
  length_ge : 4 ≤ img.fileLength inode
  magic : (img.fileBytes inode).take 4 = [0x7F#8, 0x45#8, 0x4C#8, 0x46#8]

/-- The bytes a read of the header can get: none if the inode number is out of
    range or the first block is missing. -/
def header_length (img : Image) (inode : Word) : Nat :=
  if inode.toNat < img.inode_count.toNat ∧ img.HasBlock inode 0 then img.fileLength inode else 0

/-- The read gets fewer than four bytes, and what the stack held behind them
    completes the magic number. -/
def StaleMagic (img : Image) (inode : Word) (leftover : Nat → Byte) : Prop :=
  header_length img inode < 4 ∧ HeaderMagic img inode leftover

theorem fileBytes_take_four (hlength : 4 ≤ img.fileLength inode) :
    (img.fileBytes inode).take 4 =
      [img.fileByte inode 0, img.fileByte inode 1, img.fileByte inode 2, img.fileByte inode 3] := by
  rw [Image.fileBytes, ← List.map_take, List.take_range, Nat.min_eq_left hlength]
  rfl

/-- With four bytes of its own, the header does not depend on the stack. -/
theorem elfFile_iff (leftover : Nat → Byte) :
    ElfFile img inode ↔ 4 ≤ header_length img inode ∧ HeaderMagic img inode leftover := by
  have hbyte (hread : inode.toNat < img.inode_count.toNat ∧ img.HasBlock inode 0)
      (hlength : 4 ≤ img.fileLength inode) (i : Nat) (hi : i < 4) :
      header_byte img inode leftover i = img.fileByte inode i := if_pos ⟨hread, by omega⟩
  constructor
  · rintro ⟨hinode, hblock, hlength, hmagic⟩
    rw [fileBytes_take_four hlength] at hmagic
    simp only [List.cons.injEq, and_true] at hmagic
    have hread := hbyte ⟨hinode, hblock⟩ hlength
    rw [header_length, if_pos ⟨hinode, hblock⟩, HeaderMagic, hread 0 (by decide), hread 1 (by decide),
      hread 2 (by decide), hread 3 (by decide)]
    exact ⟨hlength, hmagic⟩
  · rintro ⟨hlength, hmagic⟩
    rw [header_length] at hlength
    split at hlength
    · rename_i hfirst
      have hread := hbyte hfirst hlength
      rw [HeaderMagic, hread 0 (by decide), hread 1 (by decide), hread 2 (by decide), hread 3 (by decide)] at hmagic
      refine ⟨hfirst.1, hfirst.2, hlength, ?_⟩
      rw [fileBytes_take_four hlength]
      simp only [hmagic]
    · exact absurd hlength (by decide)

/-- The magic number is the file's own or was left on the stack. -/
theorem headerMagic_iff :
    HeaderMagic img inode leftover ↔ ElfFile img inode ∨ StaleMagic img inode leftover := by
  rw [elfFile_iff leftover, StaleMagic]
  constructor
  · intro hmagic
    rcases Nat.lt_or_ge (header_length img inode) 4 with hshort | hlong
    · exact Or.inr ⟨hshort, hmagic⟩
    · exact Or.inl ⟨hlong, hmagic⟩
  · rintro (⟨-, hmagic⟩ | ⟨-, hmagic⟩)
    · exact hmagic
    · exact hmagic

theorem StaleMagic.not_elfFile (hstale : StaleMagic img inode leftover) : ¬ ElfFile img inode :=
  fun helf => Nat.not_lt.mpr ((elfFile_iff leftover).mp helf).1 hstale.1

/-! The copies and assignments that start a program. -/

/-- Every byte of a file has a mapped address, with the page of the process that
    is about to start. -/
def Mapped (sys : System) (paging : paging_t) (length : Nat) : Prop :=
  ∀ i : Nat, i < length → (paging.translate sys.layout sys.others (VIRTUAL_ADDR + BitVec.ofInt 32 (i : Int))).isSome

/-- Copies succeed when all their addresses are mapped, and change memory only. -/
theorem copy_ops_some_iff (sys : System) (q : Fin 6) (f : Frame) (k : Kernel) (save_value : Word)
    (stores : List (Word × Byte)) :
    (∃ s, perform_all sys q f (copy_ops stores) (k, save_value) = some s) ↔
      ∀ store ∈ stores, (k.translate sys store.1).isSome := by
  induction stores generalizing k with
  | nil => exact iff_of_true ⟨_, rfl⟩ fun _ h => absurd h List.not_mem_nil
  | cons store stores ih =>
    rw [copy_ops, List.map_cons, perform_all_cons, perform, List.forall_mem_cons]
    cases htranslate : k.translate sys store.1 with
    | none => simp
    | some mapping =>
      rw [Option.map_some, Option.bind_some]
      have hrest := ih { k with memory := Function.update k.memory mapping.physical store.2 }
      rw [copy_ops] at hrest
      rw [hrest, Option.isSome_some, eq_self, true_and]
      rfl

/-- The assignments to the new PCB and the TSS. -/
def Op.IsFinish : Op → Prop
  | .terminal_num | .proc_num | .parent_proc_num | .std _ | .save_stack | .esp0 => True
  | _ => False

theorem perform_isFinish {op : Op} (hop : op.IsFinish) (sys : System) (q : Fin 6) (f : Frame) (k : Kernel)
    (save_value : Word) :
    ∃ k', perform sys q f op (k, save_value) = some (k', save_value) ∧ k'.memory = k.memory ∧
      k'.paging = k.paging := by
  cases op with
  | parent_proc_num =>
    rw [perform]
    split
    · exact ⟨k, rfl, rfl, rfl⟩
    · exact ⟨_, rfl, rfl, rfl⟩
  | terminal_num | proc_num | std fd | save_stack | esp0 => exact ⟨_, rfl, rfl, rfl⟩
  | _ => exact hop.elim

/-- Such assignments always succeed. -/
theorem finish_ops_some (sys : System) (q : Fin 6) (f : Frame) (k : Kernel) (save_value : Word) {ops : List Op}
    (hops : ∀ op ∈ ops, op.IsFinish) :
    ∃ k', perform_all sys q f ops (k, save_value) = some (k', save_value) ∧ k'.memory = k.memory ∧
      k'.paging = k.paging := by
  induction ops generalizing k with
  | nil => exact ⟨k, rfl, rfl, rfl⟩
  | cons op ops ih =>
    obtain ⟨hop, hrest⟩ := List.forall_mem_cons.mp hops
    obtain ⟨next, hfirst, hmemory, hpaging⟩ := perform_isFinish hop sys q f k save_value
    obtain ⟨k', hall, hmemory', hpaging'⟩ := ih next hrest
    refine ⟨k', ?_, hmemory'.trans hmemory, hpaging'.trans hpaging⟩
    rw [perform_all_cons, hfirst, Option.bind_some, hall]

theorem finish_isFinish :
    ∀ op ∈ ([.terminal_num, .proc_num, .parent_proc_num, .std 0, .std 1, .save_stack, .esp0] : List Op),
      op.IsFinish := by
  simp [Op.IsFinish]

theorem start_ops_some_iff (sys : System) (q : Fin 6) (f : Frame) (k : Kernel) (save_value : Word)
    (stores : List (Word × Byte)) :
    (∃ s, perform_all sys q f (start_ops stores) (k, save_value) = some s) ↔
      ∀ store ∈ stores, ((k.paging.setEntry (page_entry (pid q))).translate sys.layout sys.others store.1).isSome := by
  have hcopies := copy_ops_some_iff sys q f { k with paging := k.paging.setEntry (page_entry (pid q)) }
    (page_entry (pid q)) stores
  rw [start_ops_eq, perform_all_append, perform_all_append, perform_entry, Option.bind_some]
  refine Iff.trans ?_ hcopies
  constructor
  · rintro ⟨s, hs⟩
    rw [Option.bind_eq_some_iff] at hs
    obtain ⟨copied, hcopied, -⟩ := hs
    exact ⟨copied, hcopied⟩
  · rintro ⟨copied, hcopied⟩
    obtain ⟨k', hfinish, -, -⟩ := finish_ops_some sys q f copied.1 copied.2 finish_isFinish
    exact ⟨_, by rw [hcopied, Option.bind_some]; exact hfinish⟩

/-- The assignments of the parse. -/
def Op.IsParse : Op → Prop
  | .claim | .argument _ _ => True
  | _ => False

theorem perform_isParse {op : Op} {s s' : Kernel × Word} (hop : op.IsParse)
    (hperform : perform sys q f op s = some s') :
    s'.1.memory = s.1.memory ∧ s'.1.paging = s.1.paging := by
  cases op with
  | claim =>
    cases hperform
    exact ⟨rfl, rfl⟩
  | argument j b =>
    rw [perform, Kernel.store_byte] at hperform
    split at hperform
    · cases hperform
    · split at hperform
      · cases hperform
        exact ⟨rfl, rfl⟩
      · split at hperform
        · cases hperform
        · cases hperform
          exact ⟨rfl, rfl⟩
  | _ => exact hop.elim

/-- They change neither memory nor the paging. -/
theorem perform_all_isParse {ops : List Op} {s s' : Kernel × Word} (hops : ∀ op ∈ ops, op.IsParse)
    (hperform : perform_all sys q f ops s = some s') : s'.1.memory = s.1.memory ∧ s'.1.paging = s.1.paging := by
  induction ops generalizing s with
  | nil =>
    cases hperform
    exact ⟨rfl, rfl⟩
  | cons op ops ih =>
    obtain ⟨hop, hrest⟩ := List.forall_mem_cons.mp hops
    rw [perform_all_cons, Option.bind_eq_some_iff] at hperform
    obtain ⟨next, hfirst, hnext⟩ := hperform
    obtain ⟨hmemory, hpaging⟩ := perform_isParse hop hfirst
    obtain ⟨hmemory', hpaging'⟩ := ih hrest hnext
    exact ⟨hmemory'.trans hmemory, hpaging'.trans hpaging⟩

theorem parse_isParse (text : Option (List Byte)) : ∀ op ∈ Op.claim :: argument_ops text, op.IsParse := by
  have hcopy (bytes : List Byte) (j : Nat) : ∀ op ∈ copy_text j bytes, op.IsParse := by
    induction bytes generalizing j with
    | nil => exact List.forall_mem_singleton.mpr trivial
    | cons b bytes ih => exact List.forall_mem_cons.mpr ⟨trivial, ih (j + 1)⟩
  refine List.forall_mem_cons.mpr ⟨trivial, ?_⟩
  cases text with
  | none => exact fun _ h => absurd h List.not_mem_nil
  | some bytes => exact hcopy bytes 0

/-- A call that gets behind the parse: it has a slot, its word fits its array and
    no store of its text faults. -/
structure GetsBehindParse (sys : System) (f : Frame) (c : CString) (q : Fin 6) (k parsed : Kernel) : Prop where
  slot : first_free k.processes = some q
  word : (command_word c).bytes.length < ARG_BUFFER_SIZE
  stores : perform_all sys q f (.claim :: argument_ops (command_text c)) (k.enter f, 0#32) = some (parsed, 0#32)

/-- So does every call with a free slot whose command fits its arrays. -/
theorem gets_behind_parse (sys : System) (f : Frame) (hfirst : first_free k.processes = some q)
    (hshort : Short BUFFER_SIZE (some c)) : ∃ parsed, GetsBehindParse sys f c q k parsed := by
  obtain ⟨hword, htexts⟩ := hshort c rfl
  cases htext : command_text c with
  | none => exact ⟨_, hfirst, hword, by rw [htext]; rfl⟩
  | some text =>
    have hcopy := copy_text_short sys 0#32 { k.enter f with processes := Function.update k.processes q 1#32 } f q
      text 0 (by simpa [BUFFER_SIZE] using htexts text htext)
    exact ⟨_, hfirst, hword, by rw [htext]; exact hcopy⟩

/-- How such a call goes on behind the parse. -/
structure Continues (sys : System) (f : Frame) (c : CString) (q : Fin 6) (k parsed : Kernel) : Prop where
  memory : parsed.memory = k.memory
  paging : parsed.paging = k.paging
  unnamed : read_dentry_by_name sys.img (some (command_word c)) = none →
    sys_execute sys f (some c) k = some (parsed.leave_ret f.ebp NEG_ONE, none)
  refused : ∀ d, read_dentry_by_name sys.img (some (command_word c)) = some d →
    ¬ HeaderMagic sys.img d.inode_num f.leftover →
      sys_execute sys f (some c) k = some (parsed.leave_ret f.ebp NEG_ONE, none)
  endless : ∀ d, read_dentry_by_name sys.img (some (command_word c)) = some d →
    HeaderMagic sys.img d.inode_num f.leftover → load sys.img d.inode_num = none → sys_execute sys f (some c) k = none
  faulted : ∀ d stores, read_dentry_by_name sys.img (some (command_word c)) = some d →
    HeaderMagic sys.img d.inode_num f.leftover → load sys.img d.inode_num = some stores →
      perform_all sys q f (start_ops stores) (parsed, 0#32) = none → sys_execute sys f (some c) k = none
  started : ∀ d stores s, read_dentry_by_name sys.img (some (command_word c)) = some d →
    HeaderMagic sys.img d.inode_num f.leftover → load sys.img d.inode_num = some stores →
      perform_all sys q f (start_ops stores) (parsed, 0#32) = some s →
        sys_execute sys f (some c) k =
          some (s.1.context_switch (entry_pt sys.img d.inode_num f.leftover), some q)

theorem sys_execute_continues {parsed : Kernel} (hparse : GetsBehindParse sys f c q k parsed) :
    Continues sys f c q k parsed := by
  obtain ⟨hmemory, hpaging⟩ := perform_all_isParse (parse_isParse _) hparse.stores
  have hslot : first_free (k.enter f).processes = some q := hparse.slot
  have hcall := sys_execute.eq_def sys f (some c) k
  simp only [hslot, if_neg (Nat.not_le.mpr hparse.word), hparse.stores] at hcall
  refine ⟨hmemory, hpaging, fun hnone => ?_, fun d hfound hmagic => ?_, fun d hfound hmagic hload => ?_,
    fun d stores hfound hmagic hload hfault => ?_, fun d stores s hfound hmagic hload hstart => ?_⟩
  · rw [hcall, hnone]
  · rw [← is_elf_iff] at hmagic
    rw [hcall, hfound]
    exact if_neg hmagic
  · rw [← is_elf_iff] at hmagic
    rw [hcall, hfound]
    simp only [if_pos hmagic, hload]
  · rw [← is_elf_iff] at hmagic
    rw [hcall, hfound]
    simp only [if_pos hmagic, hload, hfault]
  · rw [← is_elf_iff] at hmagic
    rw [hcall, hfound]
    simp only [if_pos hmagic, hload, hstart]

/-- The load of a file ends, and every byte is stored to a mapped address. -/
structure Loads (sys : System) (paging : paging_t) (inode : Word) : Prop where
  ends : LoopTerminates sys.img inode
  mapped : sys.img.HasBlock inode 0 → Mapped sys paging (sys.img.fileLength inode)

theorem load_stores_mapped (sys : System) (paging : paging_t) (hload : load sys.img inode = some stores) :
    (∀ store ∈ stores, (paging.translate sys.layout sys.others store.1).isSome) ↔
      (sys.img.HasBlock inode 0 → Mapped sys paging (sys.img.fileLength inode)) := by
  by_cases hfirst : sys.img.HasBlock inode 0
  · obtain ⟨n, s, -, ends, -⟩ := load_eq_some_iff.mp hload
    have hends := loopTerminates_of_ends ends
    rw [load_whole ⟨hends.inode_lt, hends.found hfirst⟩, Option.some.injEq] at hload
    rw [← hload]
    constructor
    · intro hall _ i hi
      have hmapped := hall _ (mem_chunk.mpr ⟨i, by simpa using hi, rfl⟩)
      rwa [Int.zero_add] at hmapped
    · intro hmapped store hstore
      obtain ⟨i, hi, rfl⟩ := mem_chunk.mp hstore
      rw [Int.zero_add]
      exact hmapped hfirst i (by simpa using hi)
  · rw [load_lost hfirst hload]
    exact iff_of_true (fun _ h => absurd h List.not_mem_nil) fun h => absurd h hfirst

/-- With a free slot and a command that fits, the call returns -1 exactly if no
    entry of the name has the magic number in its header. -/
theorem sys_execute_returned_iff (sys : System) (f : Frame) (hfirst : first_free k.processes = some q)
    (hshort : Short BUFFER_SIZE (some c)) :
    (∃ k', sys_execute sys f (some c) k = some (k', none)) ↔
      ∀ d, read_dentry_by_name sys.img (some (command_word c)) = some d →
        ¬ HeaderMagic sys.img d.inode_num f.leftover := by
  obtain ⟨parsed, hparse⟩ := gets_behind_parse sys f hfirst hshort
  have hcall := sys_execute_continues hparse
  constructor
  · rintro ⟨k', hreturned⟩ d hfound hmagic
    cases hload : load sys.img d.inode_num with
    | none =>
      rw [hcall.endless d hfound hmagic hload] at hreturned
      cases hreturned
    | some stores =>
      cases hstart : perform_all sys q f (start_ops stores) (parsed, 0#32) with
      | none =>
        rw [hcall.faulted d stores hfound hmagic hload hstart] at hreturned
        cases hreturned
      | some s =>
        rw [hcall.started d stores s hfound hmagic hload hstart] at hreturned
        cases hreturned
  · intro hnone
    cases hfound : read_dentry_by_name sys.img (some (command_word c)) with
    | none => exact ⟨_, hcall.unnamed hfound⟩
    | some d => exact ⟨_, hcall.refused d hfound (hnone d hfound)⟩

/-- And it starts a program exactly if that entry has it, and its file loads. -/
theorem sys_execute_started_iff (sys : System) (f : Frame) (hfirst : first_free k.processes = some q)
    (hshort : Short BUFFER_SIZE (some c)) :
    (∃ k' p, sys_execute sys f (some c) k = some (k', some p)) ↔
      ∃ d, read_dentry_by_name sys.img (some (command_word c)) = some d ∧ HeaderMagic sys.img d.inode_num f.leftover ∧
        Loads sys (k.paging.setEntry (page_entry (pid q))) d.inode_num := by
  obtain ⟨parsed, hparse⟩ := gets_behind_parse sys f hfirst hshort
  have hcall := sys_execute_continues hparse
  have hmapped (inode : Word) (stores : List (Word × Byte)) (hload : load sys.img inode = some stores) :
      (∃ s, perform_all sys q f (start_ops stores) (parsed, 0#32) = some s) ↔
        (sys.img.HasBlock inode 0 →
          Mapped sys (k.paging.setEntry (page_entry (pid q))) (sys.img.fileLength inode)) := by
    rw [start_ops_some_iff, hcall.paging, load_stores_mapped sys _ hload]
  constructor
  · rintro ⟨k', p, hstarted⟩
    cases hfound : read_dentry_by_name sys.img (some (command_word c)) with
    | none =>
      rw [hcall.unnamed hfound] at hstarted
      cases hstarted
    | some d =>
      have hmagic : HeaderMagic sys.img d.inode_num f.leftover := by
        by_contra hmagic
        rw [hcall.refused d hfound hmagic] at hstarted
        cases hstarted
      cases hload : load sys.img d.inode_num with
      | none =>
        rw [hcall.endless d hfound hmagic hload] at hstarted
        cases hstarted
      | some stores =>
        cases hstart : perform_all sys q f (start_ops stores) (parsed, 0#32) with
        | none =>
          rw [hcall.faulted d stores hfound hmagic hload hstart] at hstarted
          cases hstarted
        | some s =>
          obtain ⟨n, last, -, ends, -⟩ := load_eq_some_iff.mp hload
          exact ⟨d, rfl, hmagic, loopTerminates_of_ends ends, (hmapped _ stores hload).mp ⟨s, hstart⟩⟩
  · rintro ⟨d, hfound, hmagic, hends, hpages⟩
    obtain ⟨n, last, hn, ends⟩ := ends_in_time hends
    have hload : load sys.img d.inode_num = some last.stores := load_eq_some_iff.mpr ⟨n, last, hn, ends, rfl⟩
    obtain ⟨s, hstart⟩ := (hmapped _ last.stores hload).mpr hpages
    exact ⟨_, _, hcall.started d last.stores s hfound hmagic hload hstart⟩

end houseam.process
