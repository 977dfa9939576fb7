import HouseAM.Process.Assignments
import HouseAM.Process.Spaces

open houseam.filesystem houseam.paging houseam.system_call houseam.terminal support.paging support.runs

namespace houseam.process

variable {sys : System} {k k' : Kernel} {f : Frame} {p q : Fin 6} {a : Activation} {rest : List Activation}
  {start c c' : Config} {log : List (Config × Event)} {e : Event} {save_value : Word}

/-- A key press in the middle of kernel code with frame `f` starts a shell, which
    runs until it halts. Then the handler returns to the interrupted code. -/
structure Nested (sys : System) (f : Frame) (stack : List Activation) (k k' : Kernel) : Prop where
  run : ∃ (cpu : cpu_t) (handler : Frame) (garbage : Byte) (temp : Nat) (shell : Activation) (begun ended : Kernel)
      (log : List (Config × Event)),
    cpu.user = false ∧ block cpu.esp = block f.esp ∧ cpu.esp.toNat ≤ f.esp.toNat ∧
    step sys ⟨stack, { k with cpu := cpu }⟩ (.key handler garbage temp) = some ⟨shell :: stack, begun⟩ ∧
    Run (step sys) (fun c e => e.Bounded NUMBER_ROOM c.kernel ∧ stack.length < c.stack.length)
      ⟨shell :: stack, begun⟩ log ⟨stack, ended⟩ ∧
    k' = { ended with cpu := k.cpu }

/-- A state of the nested shell's run: the interrupted process waits, and its
    page is as it was. -/
structure Above (sys : System) (a : Activation) (rest : List Activation) (memory : Word → Byte) (c : Config) :
    Prop where
  inv : Inv sys c
  waits : a :: rest <:+ c.stack
  page : ∀ physical, InPage a.process_id physical → c.kernel.memory physical = memory physical

/-- A process that starts in another slot stores nothing in the page. -/
theorem Started.page {command : CString} (hstarted : Started sys f command q k k')
    (hspace : AddressSpace sys.layout sys.others k'.paging (pid q)) (hne : p ≠ q) {physical : Word}
    (hpage : InPage p physical) : k'.memory physical = k.memory physical := by
  by_contra hchanged
  obtain ⟨va, mapping, htranslate, rfl⟩ := hstarted.memory physical hchanged
  exact mapped_not_in_page hspace hne htranslate hpage

theorem Above.step {memory : Word → Byte} (habove : Above sys a rest memory c)
    (hbounded : e.Bounded NUMBER_ROOM c.kernel)
    (hlonger : (a :: rest).length < c.stack.length) (hstep : process.step sys c e = some c') :
    Above sys a rest memory c' := by
  have hinv' := habove.inv.step hbounded hstep
  obtain ⟨stack, k⟩ := c
  cases stack with
  | nil => cases hstep
  | cons head tail =>
    have hinv := habove.inv
    have hwaits : a :: rest <:+ tail := by
      rcases List.suffix_cons_iff.mp habove.waits with heq | hsuffix
      · rw [heq] at hlonger
        exact absurd hlonger (Nat.lt_irrefl _)
      · exact hsuffix
    have hmem : a ∈ tail := hwaits.subset List.mem_cons_self
    have hne : a.process_id ≠ head.process_id := hinv.linked.ne_head hmem
    cases step_effect hinv hbounded hstep with
    | own _ _ _ _ hmemory =>
      refine ⟨hinv', habove.waits, fun physical hpage => ?_⟩
      rw [← habove.page physical hpage]
      by_contra hchanged
      obtain ⟨va, mapping, htranslate, -, rfl⟩ := hmemory physical hchanged
      exact mapped_not_in_page (hinv.separated.space head tail rfl) hne htranslate hpage
    | returned term _ _ hreturned =>
      refine ⟨hinv', habove.waits, fun physical hpage => ?_⟩
      exact (congrFun hreturned.memory physical).trans (habove.page physical hpage)
    | started term _ _ hstarted =>
      refine ⟨hinv', habove.waits.trans (List.suffix_cons _ _), fun physical hpage => ?_⟩
      have hother := hinv.linked.ne_free (List.mem_cons_of_mem head hmem) (first_free_zero hstarted.first)
      exact (hstarted.page (hinv'.separated.space _ _ rfl) hother hpage).trans (habove.page physical hpage)
    | resumed _ _ _ hresumed =>
      refine ⟨hinv', hwaits, fun physical hpage => ?_⟩
      exact (congrFun hresumed.memory physical).trans (habove.page physical hpage)
    | restarted hrest => exact absurd hmem (hrest ▸ List.not_mem_nil)
    | emptied hrest => exact absurd hmem (hrest ▸ List.not_mem_nil)

/-- A key press that starts the shell, in code that may be in the middle of
    installing another page. -/
theorem Resting.key_starts {garbage : Byte} {temp : Nat} {shell : Activation} (hrest : Resting sys ⟨a :: rest, k⟩)
    (hstep : process.step sys ⟨a :: rest, k⟩ (.key f garbage temp) = some ⟨shell :: a :: rest, k'⟩) :
    ∃ term, Started sys f shell_name shell.process_id { k with term := term } k' ∧
      Inv sys ⟨shell :: a :: rest, k'⟩ := by
  simp only [process.step, reduceCtorEq, if_false] at hstep
  obtain ⟨hfits, hkey⟩ := Option.ite_none_right_eq_some.mp hstep
  split at hkey
  · have hrest' : Resting sys ⟨a :: rest, { k with term := (keyboard_interrupt k.term garbage temp).1 }⟩ :=
      ⟨hrest.linked.frame (fun _ _ => rfl) (fun _ _ => SameNumbers.refl _) (fun _ _ _ _ => rfl), hrest.filled,
        hrest.place⟩
    rcases execute_cases hfits (Or.inr (shell_name_short NUMBER_ROOM)) (hrest'.placed hfits (some shell_name))
        hkey with
      ⟨k'', hstack, -⟩ | ⟨c, q, k'', hc, hstarted, hstack⟩
    · have hlength := congrArg (fun c => c.stack.length) hstack
      simp at hlength
    · cases hc
      cases hstack
      exact ⟨_, hstarted, hrest'.started hfits hstarted _⟩
  · have hlength := congrArg (fun c => c.stack.length) (Option.some.inj hkey)
    simp at hlength

/-- The interrupted code finds the page of its own process installed, and the
    page as it left it. -/
structure Interrupted (a : Activation) (rest : List Activation) (k k' : Kernel) : Prop where
  entry : k'.paging.page_dir PAGE_VALUE = page_entry (pid a.process_id)
  page : ∀ physical, InPage a.process_id physical → k'.memory physical = k.memory physical
  others : ∀ q, k'.processes q = 0#32 → ∀ b ∈ a :: rest, b.process_id ≠ q

theorem Nested.interrupted (hnested : Nested sys f (a :: rest) k k') (hlinked : Linked k (a :: rest))
    (hfilled : Filled sys.layout k.paging) (hblock : block f.esp = slot_block a.process_id) :
    Interrupted a rest k k' := by
  obtain ⟨cpu, handler, garbage, temp, shell, begun, ended, log, hkernel, hplace, -, hstep, run, rfl⟩ := hnested.run
  have hrest : Resting sys ⟨a :: rest, { k with cpu := cpu }⟩ := by
    refine ⟨hlinked.frame (fun _ _ => rfl) (fun _ _ => SameNumbers.refl _) (fun _ _ _ _ => rfl), hfilled, ?_⟩
    rintro b below ⟨rfl, rfl⟩
    change block (if cpu.user = true then k.esp0 else cpu.esp) = slot_block a.process_id
    rw [hkernel, if_neg (by decide), hplace, hblock]
  obtain ⟨term, hstarted, hinv⟩ := hrest.key_starts hstep
  have hother : a.process_id ≠ shell.process_id := hinv.linked.ne_head List.mem_cons_self
  have hbegun : Above sys a rest k.memory ⟨shell :: a :: rest, begun⟩ :=
    ⟨hinv, List.suffix_cons _ _, fun physical hpage => hstarted.page (hinv.separated.space _ _ rfl) hother hpage⟩
  have hended : Above sys a rest k.memory ⟨a :: rest, ended⟩ := by
    refine run.invariant (motive := fun _ c => Above sys a rest k.memory c) hbegun ?_
    intro log s e s' _ habove hallowed hstep
    exact habove.step hallowed.1 hallowed.2 hstep
  exact ⟨hended.inv.entry a rest rfl, hended.page, fun q hq b hb => hended.inv.linked.ne_free hb hq⟩

/-- What a call that starts process `q` with an image leaves, when nothing comes
    in between: `q`'s page with the image in it, and process `p`'s page as it was. -/
structure Loaded (p q : Fin 6) (bytes : List Byte) (k k' : Kernel) : Prop where
  entry : k'.paging.page_dir PAGE_VALUE = page_entry (pid q)
  image : ∀ i (hi : i < bytes.length), k'.memory (BitVec.ofNat 32 (programAddress q i)) = bytes[i]
  caller : ∀ physical, InPage p physical → k'.memory physical = k.memory physical

theorem page_entry_injective : ∀ p q : Fin 6, page_entry (pid p) = page_entry (pid q) → p = q := by
  decide

/-- With the process's page installed, the assignments behind those to the page
    directory load the image. -/
theorem finish_ops_loaded (sys : System) (k : Kernel) (save_value : Word) {bytes : List Byte}
    (hcaller : q = 0 ∨ get_pcb f.esp ≠ proc_block q)
    (hentry : k.paging.page_dir PAGE_VALUE = page_entry (pid q)) (hbytes : bytes.length ≤ 0x3B8000) (hne : p ≠ q) :
    ∃ k', perform_all sys q f (finish_ops bytes) (k, save_value) = some (k', save_value) ∧ Loaded p q bytes k k' := by
  obtain ⟨memory, hcopies, hframe, himage⟩ := copy_ops_spec sys f k save_value hentry bytes 0 (by omega)
  have hfinish := perform_finish sys { k with memory := memory } save_value hcaller
  simp only [Nat.cast_zero] at hcopies
  have hloading : perform_all sys q f (.flush_tlb :: copy_ops (chunk 0 bytes)) (k, save_value) =
      some ({ k with memory := memory }, save_value) := hcopies
  rw [finish_ops, perform_all_append, hloading, Option.bind_some, hfinish]
  refine ⟨_, rfl, hentry, ?_, ?_⟩
  · intro i hi
    have hbyte := himage i hi
    rw [Nat.zero_add] at hbyte
    exact hbyte
  · intro physical hpage
    apply hframe physical
    have hval : p.val ≠ q.val := fun h => hne (Fin.ext h)
    simp only [InPage] at hpage
    simp only [programAddress]
    omega

/-- The three assignments of `page_dir[32]`, through `save_value`. -/
theorem perform_entry_ops (k : Kernel) (save_value : Word) :
    perform_all sys q f [.set_entry, .load_entry, .store_entry] (k, save_value) =
      some ({ k with paging := k.paging.setEntry (page_entry (pid q)) }, page_entry (pid q)) := by
  simp [perform_all, perform]

section Resumed

variable {text : Option (List Byte)} {bytes : List Byte}

theorem loaded_from_set (bytes : List Byte) (k : Kernel) (save_value : Word)
    (hcaller : q = 0 ∨ get_pcb f.esp ≠ proc_block q)
    (hbytes : bytes.length ≤ 0x3B8000) (hne : p ≠ q) :
    ∃ k' save_value', perform_all sys q f ([.set_entry, .load_entry, .store_entry] ++ finish_ops bytes)
      (k, save_value) = some (k', save_value') ∧ Loaded p q bytes k k' := by
  obtain ⟨k', hfinish, hloaded⟩ := finish_ops_loaded sys
    { k with paging := k.paging.setEntry (page_entry (pid q)) } (page_entry (pid q)) hcaller
    (paging_t.setEntry_same _ _) hbytes hne
  rw [perform_all_append, perform_entry_ops, Option.bind_some]
  exact ⟨k', _, hfinish, hloaded.entry, hloaded.image, hloaded.caller⟩

/-- Between the load and the store of `save_value`, nothing is lost. -/
theorem loaded_from_store (k : Kernel) (hcaller : q = 0 ∨ get_pcb f.esp ≠ proc_block q)
    (hbytes : bytes.length ≤ 0x3B8000) (hne : p ≠ q) :
    ∃ k' save_value', perform_all sys q f (.store_entry :: finish_ops bytes) (k, page_entry (pid q)) =
      some (k', save_value') ∧ Loaded p q bytes k k' := by
  obtain ⟨k', hfinish, hloaded⟩ := finish_ops_loaded sys
    { k with paging := k.paging.setEntry (page_entry (pid q)) } (page_entry (pid q)) hcaller
    (paging_t.setEntry_same _ _) hbytes hne
  exact ⟨k', _, hfinish, hloaded.entry, hloaded.image, hloaded.caller⟩

/-- The later assignments keep the page of another process installed. -/
theorem not_loaded_late (sys : System) (f : Frame) (bytes : List Byte) {ops : List Op} (k before : Kernel)
    (save_value : Word) (hne : p ≠ q)
    (hentry : k.paging.page_dir PAGE_VALUE = page_entry (pid p)) (hlate : ∀ op ∈ ops, op.Late) :
    ∃ k' save_value', perform_all sys q f ops (k, save_value) = some (k', save_value') ∧
      ¬ Loaded p q bytes before k' := by
  obtain ⟨k', hperform, -, hpaging⟩ := perform_all_late sys f q k save_value hentry hlate
  refine ⟨k', save_value, hperform, fun hloaded => hne ?_⟩
  have hinstalled := hloaded.entry
  rw [hpaging, hentry] at hinstalled
  exact page_entry_injective p q hinstalled

/-- `save_value` then takes the entry of the other process, too. -/
theorem not_loaded_from_load (k before : Kernel) (save_value : Word) (hne : p ≠ q)
    (hentry : k.paging.page_dir PAGE_VALUE = page_entry (pid p)) (hbytes : bytes.length ≤ 0x3B8000) :
    ∃ k' save_value', perform_all sys q f ([.load_entry, .store_entry] ++ finish_ops bytes) (k, save_value) =
      some (k', save_value') ∧ ¬ Loaded p q bytes before k' := by
  have hsame : perform_all sys q f [.load_entry, .store_entry] (k, save_value) =
      some ({ k with paging := k.paging.setEntry (page_entry (pid p)) }, page_entry (pid p)) := by
    simp [perform_all, perform, hentry]
  rw [perform_all_append, hsame, Option.bind_some]
  exact not_loaded_late sys f bytes _ before _ hne (paging_t.setEntry_same _ _) (finish_ops_late hbytes)

/-- The state in which the call is interrupted. -/
structure Before (q : Fin 6) (m n : Nat) (k k' : Kernel) (save_value : Word) : Prop where
  kept : Kept q k k'
  memory : n ≤ m ∨ n = m + 2 → k'.memory = k.memory
  saved : n = m + 2 → save_value = page_entry (pid q)

theorem before_of_perform {n : Nat} (hother : block f.esp ≠ slot_block q) (hq : q ≠ 0)
    (htext : ∀ t, text = some t → t.length < NUMBER_ROOM) (hbytes : bytes.length ≤ 0x3B8000)
    (hbefore : perform_all sys q f ((execute_ops text bytes).take n) (k, 0#32) = some (k', save_value)) :
    Before q (parse_ops text).length n k k' save_value := by
  rw [execute_ops, List.append_assoc] at hbefore
  have hearly := parse_ops_early htext
  rcases Nat.lt_or_ge (parse_ops text).length n with hlater | hparsing
  · obtain ⟨j, rfl⟩ := Nat.exists_eq_add_of_lt hlater
    rw [Nat.add_assoc, List.take_length_add_append, perform_all_append] at hbefore
    obtain ⟨parsed, hparsed, hkept, hpaging, hmemory⟩ := perform_all_early sys k 0#32 hother hq hearly
    rw [hparsed, Option.bind_some] at hbefore
    have hset := hkept.trans (kept_setEntry parsed q (page_entry (pid q)))
    rcases j with _ | _ | i
    · cases hbefore
      exact ⟨hset, fun h => by omega, fun h => by omega⟩
    · cases hbefore
      exact ⟨hset, fun _ => hmemory, fun _ => paging_t.setEntry_same _ _⟩
    · have htake : ([Op.set_entry, .load_entry, .store_entry] ++ finish_ops bytes).take (i + 2 + 1) =
          [.set_entry, .load_entry, .store_entry] ++ (finish_ops bytes).take i := rfl
      obtain ⟨later, hlater, hkeptLater, -⟩ := perform_all_late sys f q
        { parsed with paging := parsed.paging.setEntry (page_entry (pid q)) } (page_entry (pid q))
        (paging_t.setEntry_same _ _) fun op hop => finish_ops_late hbytes op (List.mem_of_mem_take hop)
      rw [htake, perform_all_append, perform_entry_ops, Option.bind_some, hlater] at hbefore
      cases hbefore
      exact ⟨hset.trans hkeptLater, fun h => by omega, fun h => by omega⟩
  · rw [List.take_append_of_le_length hparsing] at hbefore
    obtain ⟨parsed, hparsed, hkept, hpaging, hmemory⟩ := perform_all_early sys k 0#32 hother hq
      fun op hop => hearly op (List.mem_of_mem_take hop)
    rw [hparsed] at hbefore
    cases hbefore
    exact ⟨hkept, fun _ => hmemory, fun h => by omega⟩

theorem Loaded.of_same {before : Kernel} (hloaded : Loaded p q bytes k k')
    (hsame : ∀ physical, InPage p physical → k.memory physical = before.memory physical) :
    Loaded p q bytes before k' :=
  ⟨hloaded.entry, hloaded.image, fun physical hpage => (hloaded.caller physical hpage).trans (hsame physical hpage)⟩

/-- A call for a valid executable that nothing interrupts. -/
theorem sys_execute_loaded {command : CString} {d : dentry_t} (hblock : block f.esp = slot_block p) (hne : p ≠ q)
    (hq : q ≠ 0) (hshort : Short NUMBER_ROOM (some command))
    (hexecutable : Executable sys.img (command_word command) d)
    (hfirst : first_free k.processes = some q) :
    ∃ k', sys_execute sys f (some command) k = some (k', some q) ∧
      Loaded p q (sys.img.fileBytes d.inode_num) k k' := by
  obtain ⟨hword, htext⟩ := hshort command rfl
  have hslot : block f.esp ≠ slot_block q := by
    rw [hblock]
    exact fun h => hne (slot_block_injective h)
  have hcaller : q = 0 ∨ get_pcb f.esp ≠ proc_block q := by
    rw [get_pcb_eq hblock]
    exact Or.inr fun h => hne (proc_block_injective h)
  obtain ⟨parsed, hparsed, -, -, hmemory⟩ := perform_all_early sys (k.enter f) 0#32 hslot hq (parse_ops_early htext)
  obtain ⟨k', save_value', hperform, hloaded⟩ := loaded_from_set (sys.img.fileBytes d.inode_num) parsed 0#32
    hcaller (by simpa using hexecutable.fits) hne
  rw [sys_execute_eq_ops hexecutable hword hfirst, execute_ops, List.append_assoc, perform_all_append, hparsed,
    Option.bind_some, hperform]
  have hsame : Loaded p q (sys.img.fileBytes d.inode_num) k k' :=
    hloaded.of_same fun physical _ => congrFun hmemory physical
  exact ⟨_, rfl, hsame.entry, hsame.image, hsame.caller⟩

theorem Inv.enter_linked (hinv : Inv sys ⟨a :: rest, k⟩) (hfits : f.Fits k.base) : Linked (k.enter f) (a :: rest) := by
  refine hinv.linked.frame (fun _ _ => rfl) (fun _ _ => SameNumbers.refl _) fun b hb address haddress => ?_
  apply hfits.enter_stack k
  rw [haddress, hinv.place a rest rfl]
  exact fun h => hinv.linked.ne_head hb (slot_block_injective h)

/-- The live processes are linked in the middle of the call. -/
theorem Kept.linked (hkept : Kept q k k') {stack : List Activation} (hlinked : Linked k stack)
    (hother : ∀ b ∈ stack, b.process_id ≠ q) : Linked k' stack := by
  refine hlinked.frame (fun b hb => hkept.processes _ (hother b hb)) (fun b hb => hkept.numbers _ (hother b hb)) ?_
  intro b hb address haddress
  apply hkept.words address
  rw [haddress]
  exact fun h => hother b (List.mem_of_mem_tail hb) (slot_block_injective h)

theorem Kept.filled (hkept : Kept q k k') (hfilled : Filled sys.layout k.paging) : Filled sys.layout k'.paging where
  page_dir := fun i hi => (hkept.page_dir i hi).trans (hfilled.page_dir i hi)
  page_table := hkept.page_table.trans hfilled.page_table

/-- When the shell has run between the first `n` assignments of a call and the
    others, the call ends as without it exactly when the shell ran before the
    first assignment of `page_dir[32]`, or between the load and the store of
    `save_value`. -/
theorem interrupted_loaded_iff {n : Nat} {k2 : Kernel} (hlinked : Linked (k.enter f) (a :: rest))
    (hfilled : Filled sys.layout k.paging) (hblock : block f.esp = slot_block a.process_id)
    (hother : ∀ b ∈ a :: rest, b.process_id ≠ q) (htext : ∀ t, text = some t → t.length < NUMBER_ROOM)
    (hbytes : bytes.length ≤ 0x3B8000)
    (hbefore : perform_all sys q f ((execute_ops text bytes).take n) (k.enter f, 0#32) = some (k', save_value))
    (hnested : Nested sys f (a :: rest) k' k2) :
    ∃ k3 save_value', perform_all sys q f ((execute_ops text bytes).drop n) (k2, save_value) = some (k3, save_value') ∧
      (Loaded a.process_id q bytes k k3 ↔
        n ≤ (parse_ops text).length ∨ n = (parse_ops text).length + 2) := by
  have hne : a.process_id ≠ q := hother a List.mem_cons_self
  obtain ⟨zero, hzeroMem, hzero⟩ := hlinked.zero_mem (List.cons_ne_nil a rest)
  have hq : q ≠ 0 := hzero ▸ (hother zero hzeroMem).symm
  have hslot : block f.esp ≠ slot_block q := by
    rw [hblock]
    exact fun h => hne (slot_block_injective h)
  have hcaller : q = 0 ∨ get_pcb f.esp ≠ proc_block q := by
    rw [get_pcb_eq hblock]
    exact Or.inr fun h => hne (proc_block_injective h)
  have hstate := before_of_perform hslot hq htext hbytes hbefore
  have hinterrupted := hnested.interrupted (hstate.kept.linked hlinked hother)
    (hstate.kept.filled (show Filled sys.layout (k.enter f).paging from hfilled)) hblock
  have hpage (hn : n ≤ (parse_ops text).length ∨ n = (parse_ops text).length + 2) (physical : Word)
      (hin : InPage a.process_id physical) : k2.memory physical = k.memory physical :=
    (hinterrupted.page physical hin).trans (congrFun (hstate.memory hn) physical)
  rw [execute_ops, List.append_assoc]
  rcases Nat.lt_or_ge (parse_ops text).length n with hlater | hparsing
  · obtain ⟨j, rfl⟩ := Nat.exists_eq_add_of_lt hlater
    rw [Nat.add_assoc, List.drop_length_add_append]
    rcases j with _ | _ | i
    · obtain ⟨k3, save_value', hperform, hnot⟩ := not_loaded_from_load k2 k save_value hne hinterrupted.entry hbytes
      exact ⟨k3, save_value', hperform, iff_of_false hnot (by omega)⟩
    · rw [hstate.saved (by omega)]
      obtain ⟨k3, save_value', hperform, hloaded⟩ := loaded_from_store k2 hcaller hbytes hne
      exact ⟨k3, save_value', hperform, iff_of_true (hloaded.of_same (hpage (by omega))) (by omega)⟩
    · have hlate : ∀ op ∈ (finish_ops bytes).drop i, op.Late :=
        fun op hop => finish_ops_late hbytes op (List.mem_of_mem_drop hop)
      obtain ⟨k3, save_value', hperform, hnot⟩ :=
        not_loaded_late sys f bytes k2 k save_value hne hinterrupted.entry hlate
      exact ⟨k3, save_value', hperform, iff_of_false hnot (by omega)⟩
  · rw [List.drop_append_of_le_length hparsing, perform_all_append]
    obtain ⟨parsed, hparsed, -, -, hmemory⟩ := perform_all_early sys k2 save_value hslot hq
      fun op hop => parse_ops_early htext op (List.mem_of_mem_drop hop)
    obtain ⟨k3, save_value', hperform, hloaded⟩ := loaded_from_set bytes parsed save_value hcaller hbytes hne
    rw [hparsed, Option.bind_some]
    refine ⟨k3, save_value', hperform, iff_of_true (hloaded.of_same fun physical hin => ?_) (Or.inl hparsing)⟩
    rw [hmemory]
    exact hpage (Or.inl hparsing) physical hin

end Resumed

/-- In every run from boot: process `a` calls `sys_execute` for a valid
    executable, the call takes the free slot `q`, and a nested shell runs between
    its first `n` assignments and the others (before the slot is taken, it need
    not be free earlier). The call ends as without the shell exactly when the
    shell did not run between the first assignment of `page_dir[32]` and the
    program's start, but for the moment between the load and the store of
    `save_value`. -/
theorem nested_execute_loaded_iff {command : CString} {d : dentry_t} {n : Nat} {k1 k2 : Kernel}
    (hbooted : Booted sys start)
    (run : Run (step sys) (fun c e => e.Bounded NUMBER_ROOM c.kernel) start log ⟨a :: rest, k⟩) (hfits : f.Fits k.base)
    (hshort : Short NUMBER_ROOM (some command)) (hexecutable : Executable sys.img (command_word command) d)
    (hfree : k.processes q = 0#32 ∨ n = 0 ∧ k2.processes q = 0#32)
    (hbefore : perform_all sys q f ((execute_ops (command_text command) (sys.img.fileBytes d.inode_num)).take n)
      (k.enter f, 0#32) = some (k1, save_value))
    (hnested : Nested sys f (a :: rest) k1 k2) :
    ∃ k3 save_value', perform_all sys q f ((execute_ops (command_text command) (sys.img.fileBytes d.inode_num)).drop n)
        (k2, save_value) = some (k3, save_value') ∧
      (Loaded a.process_id q (sys.img.fileBytes d.inode_num) k k3 ↔
        n ≤ (parse_ops (command_text command)).length ∨ n = (parse_ops (command_text command)).length + 2) := by
  have hinv := run_inv hbooted run
  have hlinked := hinv.enter_linked hfits
  have hblock : block f.esp = slot_block a.process_id := hfits.block_eq.trans (hinv.place a rest rfl)
  have hother : ∀ b ∈ a :: rest, b.process_id ≠ q := by
    rcases hfree with hfree | ⟨rfl, hfree⟩
    · exact fun b hb => hinv.linked.ne_free hb hfree
    · cases hbefore
      exact (hnested.interrupted hlinked hinv.filled hblock).others q hfree
  exact interrupted_loaded_iff hlinked hinv.filled hblock hother (hshort command rfl).2
    (by simpa using hexecutable.fits) hbefore hnested

/-- A shell can run in the middle of a call when a slot is free, and halt at
    once. -/
theorem nested_exists {d : dentry_t} {garbage : Byte} {temp : Nat} {handler halter : Frame}
    (hshell : Executable sys.img shell_name d) (hlinked : Linked k (a :: rest)) (hfilled : Filled sys.layout k.paging)
    (hblock : block f.esp = slot_block a.process_id) (hhandler : handler.Fits f.esp)
    (hhalter : halter.Fits (kernel_esp (pid q))) (hflagged : (keyboard_interrupt k.term garbage temp).2 = true)
    (hfirst : first_free k.processes = some q) : ∃ k', Nested sys f (a :: rest) k k' := by
  have hrest : Resting sys ⟨a :: rest, { k with cpu := ⟨false, 0#32, f.esp, f.ebp, 0#32⟩ }⟩ := by
    refine ⟨hlinked.frame (fun _ _ => rfl) (fun _ _ => SameNumbers.refl _) (fun _ _ _ _ => rfl), hfilled, ?_⟩
    rintro b below ⟨rfl, rfl⟩
    exact hblock
  obtain ⟨begun, hstep, hstarted⟩ := hrest.shell_starts hhandler hshell hflagged hfirst
  obtain ⟨-, -, hinv⟩ := hrest.key_starts hstep
  have hhalter' : halter.Fits begun.base := hstarted.base_eq ▸ hhalter
  obtain ⟨ended, hhalt, -⟩ := hinv.halt_child hhalter' 0#8
  have hstep' := (step_halt hhalter').trans hhalt
  have hallowed : (Event.halt halter 0#8).Bounded NUMBER_ROOM begun ∧
      (a :: rest).length < (⟨q, handler, some shell_name, k.pcb q⟩ :: a :: rest : List Activation).length :=
    ⟨trivial, Nat.lt_succ_self _⟩
  exact ⟨_, ⟨_, handler, garbage, temp, _, begun, ended, _, rfl, rfl, Nat.le_refl _, hstep,
    Run.start.step hallowed hstep', rfl⟩⟩

/-- The small system after its boot and a press of Alt. -/
theorem small_alt : ∃ start log k, Booted small_system start ∧
    Run (step small_system) (fun c e => e.Bounded NUMBER_ROOM c.kernel) start log ⟨[small_shell], k⟩ ∧
    log.map (·.2) = [.key (small_frame 0) 0#8 SCAN_ALT] ∧ k.base = kernel_esp (pid 0) ∧
    k.processes = Function.update (fun _ => 0#32) 0 1#32 ∧ (keyboard_interrupt k.term 0#8 SCAN_FTWO).2 = true := by
  obtain ⟨k, hbooted, hstarted⟩ := small_boot
  have hstep := small_alt_step hstarted
  have hallowed : (Event.key (small_frame 0) 0#8 SCAN_ALT).Bounded NUMBER_ROOM k := trivial
  refine ⟨_, _, _, hbooted, Run.start.step hallowed hstep, rfl, hstarted.base_eq, hstarted.processes, ?_⟩
  change (keyboard_interrupt (keyboard_interrupt k.term 0#8 SCAN_ALT).1 0#8 SCAN_FTWO).2 = true
  rw [hstarted.term]
  rfl

/-- The bytes of its shell. -/
def small_bytes : List Byte := small_image.fileBytes (copy_dentry (small_image.direntries 1)).inode_num

/-- When the first shell of the small system executes the shell, Alt+F2 can run
    another one anywhere in the call behind the claim. -/
theorem small_nested {k1 : Kernel} {n : Nat} (hinv : Inv small_system ⟨[small_shell], k⟩)
    (hbase : k.base = kernel_esp (pid 0)) (hflagged : (keyboard_interrupt k.term 0#8 SCAN_FTWO).2 = true)
    (hbefore : perform_all small_system 1 (small_frame 0)
      ((execute_ops (command_text shell_name) small_bytes).take n) (k.enter (small_frame 0), 0#32) =
        some (k1, save_value))
    (hfirst : first_free k1.processes = some 2) : ∃ k2, Nested small_system (small_frame 0) [small_shell] k1 k2 := by
  have hfits : (small_frame 0).Fits k.base := hbase ▸ small_frame_fits 0
  have hkept := (before_of_perform (by decide) (by decide) (shell_name_short NUMBER_ROOM shell_name rfl).2
    (by decide) hbefore).kept
  have hother : ∀ b ∈ [small_shell], b.process_id ≠ 1 := by
    intro b hb
    rw [List.mem_singleton.mp hb]
    decide
  let handler : Frame := ⟨(small_frame 0).esp - 0x400#32, (small_frame 0).esp - 0x100#32, 0#32, 0#32, fun _ => 0#8⟩
  have hhandler : handler.Fits (small_frame 0).esp := by decide
  have hshell : (keyboard_interrupt k1.term 0#8 SCAN_FTWO).2 = true := by
    rw [hkept.term]
    exact hflagged
  exact nested_exists small_shell_executable (hkept.linked (hinv.enter_linked hfits) hother) (hkept.filled hinv.filled)
    (by decide) hhandler (small_frame_fits 2) hshell hfirst

/-- A shell that runs right behind the claim does no harm. -/
theorem nested_execute_loaded_iff_claim : ∃ start log k k1 k2 k3 save_value save_value',
    Booted small_system start ∧
    Run (step small_system) (fun c e => e.Bounded NUMBER_ROOM c.kernel) start log ⟨[small_shell], k⟩ ∧
    perform_all small_system 1 (small_frame 0) ((execute_ops (command_text shell_name) small_bytes).take 1)
      (k.enter (small_frame 0), 0#32) = some (k1, save_value) ∧
    Nested small_system (small_frame 0) [small_shell] k1 k2 ∧
    perform_all small_system 1 (small_frame 0) ((execute_ops (command_text shell_name) small_bytes).drop 1)
      (k2, save_value) = some (k3, save_value') ∧ Loaded 0 1 small_bytes k k3 := by
  obtain ⟨start, log, k, hbooted, run, -, hbase, hprocesses, hflagged⟩ := small_alt
  have hbefore : perform_all small_system 1 (small_frame 0)
      ((execute_ops (command_text shell_name) small_bytes).take 1) (k.enter (small_frame 0), 0#32) = some
        ({ k.enter (small_frame 0) with processes := Function.update k.processes 1 1#32 }, 0#32) := rfl
  have hfirst : first_free (Function.update k.processes 1 1#32) = some 2 := by
    rw [hprocesses]
    decide
  obtain ⟨k2, hnested⟩ := small_nested (run_inv hbooted run) hbase hflagged hbefore hfirst
  have hfree : k.processes 1 = 0#32 := by
    rw [hprocesses]
    decide
  obtain ⟨k3, save_value', hafter, hiff⟩ := nested_execute_loaded_iff hbooted run (hbase ▸ small_frame_fits 0)
    (shell_name_short NUMBER_ROOM) (command_word_shell.symm ▸ small_shell_executable) (Or.inl hfree) hbefore hnested
  exact ⟨start, log, k, _, k2, k3, _, save_value', hbooted, run, hbefore, hnested, hafter, hiff.mpr (by decide)⟩

/-- In general the call does not end as without the shell: one that runs right
    behind the first TLB flush leaves the page of process 0 installed. -/
theorem nested_execute_not_loaded : ∃ start log k k1 k2 k3 save_value save_value',
    Booted small_system start ∧
    Run (step small_system) (fun c e => e.Bounded NUMBER_ROOM c.kernel) start log ⟨[small_shell], k⟩ ∧
    perform_all small_system 1 (small_frame 0) ((execute_ops (command_text shell_name) small_bytes).take 5)
      (k.enter (small_frame 0), 0#32) = some (k1, save_value) ∧
    Nested small_system (small_frame 0) [small_shell] k1 k2 ∧
    perform_all small_system 1 (small_frame 0) ((execute_ops (command_text shell_name) small_bytes).drop 5)
      (k2, save_value) = some (k3, save_value') ∧ ¬ Loaded 0 1 small_bytes k k3 := by
  obtain ⟨start, log, k, hbooted, run, -, hbase, hprocesses, hflagged⟩ := small_alt
  have hops : (execute_ops (command_text shell_name) small_bytes).take 5 =
      [.claim, .set_entry, .load_entry, .store_entry, .flush_tlb] := rfl
  have hbefore : perform_all small_system 1 (small_frame 0)
      ((execute_ops (command_text shell_name) small_bytes).take 5) (k.enter (small_frame 0), 0#32) = some
        ({ k.enter (small_frame 0) with
            processes := Function.update k.processes 1 1#32
            paging := k.paging.setEntry (page_entry (pid 1)) }, page_entry (pid 1)) := by
    rw [hops]
    simp [perform_all, perform, Kernel.enter, Kernel.setWord]
  have hfirst : first_free (Function.update k.processes 1 1#32) = some 2 := by
    rw [hprocesses]
    decide
  have hinv := run_inv hbooted run
  obtain ⟨k2, hnested⟩ := small_nested hinv hbase hflagged hbefore hfirst
  have hother : ∀ b ∈ [small_shell], b.process_id ≠ 1 := by
    intro b hb
    rw [List.mem_singleton.mp hb]
    decide
  obtain ⟨k3, save_value', hafter, hiff⟩ := interrupted_loaded_iff (hinv.enter_linked (hbase ▸ small_frame_fits 0))
    hinv.filled (by decide) hother (shell_name_short NUMBER_ROOM shell_name rfl).2 (by decide) hbefore hnested
  have hparse : (parse_ops (command_text shell_name)).length = 1 := by decide
  refine ⟨start, log, k, _, k2, k3, _, save_value', hbooted, run, hbefore, hnested, hafter, fun hloaded => ?_⟩
  have hpoint := hiff.mp hloaded
  omega

end houseam.process
