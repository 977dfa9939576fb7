import HouseAM.Process.Invariant

open houseam.filesystem houseam.paging houseam.system_call houseam.terminal support.paging support.runs

namespace houseam.process

variable {sys : System} {k k' : Kernel} {f : Frame} {p q : Fin 6} {a : Activation} {rest : List Activation}
  {start c : Config} {log : List (Config × Event)}

/-- The physical addresses of a process's 4 MB page. -/
def InPage (p : Fin 6) (physical : Word) : Prop :=
  0x800000 + 0x400000 * p.val ≤ physical.toNat ∧ physical.toNat < 0xC00000 + 0x400000 * p.val

/-- The physical addresses of the kernel's 4 MB page. -/
def InKernelPage (physical : Word) : Prop := 0x400000 ≤ physical.toNat ∧ physical.toNat < 0x800000

theorem InPage.disjoint {physical : Word} (hne : p ≠ q) (hp : InPage p physical) : ¬ InPage q physical := by
  have hval : p.val ≠ q.val := fun h => hne (Fin.ext h)
  simp only [InPage] at hp ⊢
  omega

theorem InPage.not_kernel {physical : Word} (hp : InPage p physical) : ¬ InKernelPage physical := by
  simp only [InPage, InKernelPage] at hp ⊢
  omega

/-- What a running process reaches is its own page, the kernel's page or video
    memory, and so no page of another process. -/
theorem mapped_not_in_page {mapping : Mapping} {va : Word}
    (hspace : AddressSpace sys.layout sys.others k.paging (pid q)) (hne : p ≠ q)
    (htranslate : k.translate sys va = some mapping) : ¬ InPage p mapping.physical := by
  cases huser : mapping.user with
  | true =>
    have hprogram := (hspace.user va).mp ⟨mapping, htranslate, huser⟩
    obtain ⟨found, hfound, hphysical⟩ := hspace.program va hprogram
    rw [Kernel.translate, hfound] at htranslate
    cases htranslate
    apply InPage.disjoint (p := q) hne.symm
    simp only [InProgram] at hprogram
    simp only [InPage, hphysical, pid_toNat]
    omega
  | false =>
    have hkernel := (hspace.kernel_only va).mp ⟨mapping, htranslate, huser⟩
    rw [hspace.identity va mapping htranslate huser]
    simp only [InKernel] at hkernel
    simp only [InPage]
    omega

/-- The memory of the live processes while the first of them runs: its address
    space is its own page, and no page is shared. -/
structure Separated (sys : System) (c : Config) : Prop where
  space : ∀ a rest, c.stack = a :: rest →
    AddressSpace sys.layout sys.others c.kernel.paging (pid a.process_id)
  pages : (c.stack.map (·.process_id)).Pairwise fun p q => ∀ physical, InPage p physical → ¬ InPage q physical
  kernel : ∀ a ∈ c.stack, ∀ physical, InPage a.process_id physical → ¬ InKernelPage physical

theorem Inv.separated (hinv : Inv sys c) : Separated sys c where
  space := fun a rest hstack => addressSpace hinv.filled (pid_lt a.process_id) (hinv.entry a rest hstack)
  pages := hinv.linked.nodup.imp fun hne _ hp => hp.disjoint hne
  kernel := fun _ _ _ hp => hp.not_kernel

/-- In every run from boot in which no argument text reaches the process number
    in the slot above the one it is for, the running process sees its own page
    and nothing else, and the live processes share no page. -/
theorem address_spaces (hbooted : Booted sys start)
    (run : Run (step sys) (fun c e => e.Bounded NUMBER_ROOM c.kernel) start log c) : Separated sys c :=
  (run_inv hbooted run).separated

/-- The shell executes the shell, which halts again. -/
theorem address_spaces_shell : ∃ start log c, Booted small_system start ∧
    Run (step small_system) (fun c e => e.Bounded NUMBER_ROOM c.kernel) start log c ∧
    log.map (·.2) = [.execute (small_frame 0) (some shell_name), .halt (small_frame 1) 3#8] ∧
    Separated small_system c := by
  obtain ⟨start, log, c, hbooted, run, hlog⟩ := small_run (fun c e => e.Bounded NUMBER_ROOM c.kernel)
    (fun _ => Or.inr (shell_name_short NUMBER_ROOM)) fun _ => trivial
  exact ⟨start, log, c, hbooted, run, hlog, address_spaces hbooted run⟩

/-- A text that reaches the caller's process number gives the new process a
    parent that is not the caller. -/
theorem sys_execute_overwrites (sys : System) {c : CString} {d : dentry_t} {text : List Byte} {b0 b1 b2 b3 : Byte}
    (hexecutable : Executable sys.img (command_word c) d) (hword : (command_word c).bytes.length < ARG_BUFFER_SIZE)
    (htext : command_text c = some (text ++ [b0, b1, b2, b3])) (hlength : text.length = NUMBER_ROOM)
    (hfirst : first_free k.processes = some q) (hq : q.val = p.val + 1) (hblock : block f.esp = slot_block p) :
    ∃ k', sys_execute sys f (some c) k = some (k', some q) ∧ k'.base = kernel_esp (pid q) ∧
      (k'.pcb q).proc_num = pid q ∧ (k'.pcb q).parent_proc_num = wordOfBytes b0 b1 b2 b3 := by
  have hne : p ≠ q := by
    rintro rfl
    omega
  have hq0 : q ≠ 0 := by
    rintro rfl
    simp at hq
  have hother : block f.esp ≠ slot_block q := by
    rw [hblock]
    exact fun h => hne (slot_block_injective h)
  have hcaller : get_pcb f.esp ≠ proc_block q := by
    rw [get_pcb_eq hblock]
    exact fun h => hne (proc_block_injective h)
  obtain ⟨parsed, hperform, hnum⟩ := copy_text_overwrites sys 0#32
    { k.enter f with processes := Function.update k.processes q 1#32 } hother hq hlength b0 b1 b2 b3
  obtain ⟨memory, hcopies, -, -⟩ := copy_ops_spec sys f
    { parsed with paging := parsed.paging.setEntry (page_entry (pid q)) } (page_entry (pid q))
    (paging_t.setEntry_same _ _)
    (sys.img.fileBytes d.inode_num) 0 (by simpa using hexecutable.fits)
  have hstart := start_ops_spec parsed 0#32 (Or.inr hcaller) hcopies
  have hfirst' : first_free (k.enter f).processes = some q := hfirst
  have hparsed : perform_all sys q f (.claim :: argument_ops (command_text c)) (k.enter f, 0#32) =
      some (parsed, 0#32) := by
    rw [htext]
    exact hperform
  refine ⟨(parsed.started q f memory).context_switch (entry_pt sys.img d.inode_num f.leftover), ?_, rfl, ?_⟩
  · simp only [sys_execute, hfirst', if_neg (Nat.not_le.mpr hword), hparsed, hexecutable.found, hexecutable.is_elf,
      if_true, load_spec hexecutable.file]
    simp only [Nat.cast_zero] at hstart
    simp only [hstart]
  · rw [Kernel.started_own, get_pcb_eq hblock]
    refine ⟨rfl, ?_⟩
    rw [started_pcb, if_neg hq0]
    exact hnum

/-- A text that fills the slot it is for and the descriptors and argument of the
    slot above, and then the process number there. -/
def long_text : List Byte := List.replicate NUMBER_ROOM 0x41#8 ++ [0x41#8, 0x41#8, 0x41#8, 0x41#8]

theorem long_text_nul_free : 0#8 ∉ long_text := by
  rw [long_text, List.mem_append, not_or]
  refine ⟨fun h => ?_, by decide⟩
  exact absurd (List.eq_of_mem_replicate h) (by decide)

/-- In general the address space is not kept: a text of 8324 characters goes over
    the shell's process number, and the halt of the process started with it
    installs the page of a process that does not exist. -/
theorem address_spaces_overwritten : ∃ start log c, Booted small_system start ∧
    Run (step small_system) (fun _ _ => True) start log c ∧
    log.map (·.2) = [.execute (small_frame 0) (some (shell_command long_text long_text_nul_free)),
      .halt (small_frame 1) 3#8] ∧
    ¬ Separated small_system c := by
  obtain ⟨k, hbooted, hstarted⟩ := small_boot
  have hfirst : first_free k.processes = some 1 := by
    rw [hstarted.processes]
    decide
  have hfits : (small_frame 0).Fits k.base := hstarted.base_eq ▸ small_frame_fits 0
  have hword := command_word_shell_command long_text long_text_nul_free
  obtain ⟨k', hcall, hbase, hnum, hparent⟩ := sys_execute_overwrites small_system
    (hword.symm ▸ small_shell_executable) (hword.symm ▸ (show shell_name.bytes.length < ARG_BUFFER_SIZE by decide))
    (command_text_shell_command long_text long_text_nul_free) List.length_replicate hfirst
    (show (1 : Fin 6).val = (0 : Fin 6).val + 1 from rfl) (show block (small_frame 0).esp = slot_block 0 by decide)
  have hfits' : (small_frame 1).Fits k'.base := hbase ▸ small_frame_fits 1
  have hexecute : step small_system ⟨[small_shell], k⟩
      (.execute (small_frame 0) (some (shell_command long_text long_text_nul_free))) =
        some
          ⟨⟨1, small_frame 0, some (shell_command long_text long_text_nul_free), k.pcb 1⟩ :: [small_shell], k'⟩ := by
    rw [step_execute hfits, execute, hcall]
  have hhalt (a : Activation) : step small_system ⟨a :: [small_shell], k'⟩ (.halt (small_frame 1) 3#8) =
      some ⟨[small_shell], (k'.halted (small_frame 1) 1).resume (k'.pcb 1).clear_fds 3#8⟩ := by
    rw [step_halt hfits', halt, sys_halt_eq (show block (small_frame 1).esp = slot_block 1 by decide) hnum,
      if_neg (by decide)]
    rfl
  refine ⟨_, _, _, hbooted, (Run.start.step trivial hexecute).step trivial (hhalt _), rfl, ?_⟩
  intro hseparated
  have hlow : InProgram ONETWOEIGHTMB := ⟨by decide, by decide⟩
  have hentry : ((k'.halted (small_frame 1) 1).resume (k'.pcb 1).clear_fds 3#8).paging.page_dir (slot ONETWOEIGHTMB) =
      page_entry 0x41414141#32 := by
    rw [show slot ONETWOEIGHTMB = PAGE_VALUE by decide, Kernel.resume_paging, paging_t.setEntry_same]
    exact congrArg page_entry hparent
  obtain ⟨mapping, htranslate, hphysical⟩ := (hseparated.space _ _ rfl).program ONETWOEIGHTMB hlow
  rw [paging_t.translate, translate_large (by rw [hentry]; decide) (by rw [hentry]; decide), hentry] at htranslate
  cases htranslate
  revert hphysical
  decide

end houseam.process
