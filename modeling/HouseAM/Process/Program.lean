import HouseAM.Process.Startable

open houseam.filesystem houseam.paging houseam.system_call houseam.terminal support.paging

namespace houseam.process

variable {sys : System} {k k' parsed : Kernel} {f : Frame} {q : Fin 6} {c : CString} {d : dentry_t} {img : Image}
  {inode : Word} {i : Nat}

/-- The entry point of a file that has it. -/
theorem Executable.entry_pt_eq (hexecutable : Executable img c d) (hlength : 28 ≤ img.fileLength d.inode_num)
    (leftover : Nat → Byte) :
    entry_pt img d.inode_num leftover = wordOfBytes (img.fileByte d.inode_num 24) (img.fileByte d.inode_num 25)
      (img.fileByte d.inode_num 26) (img.fileByte d.inode_num 27) := by
  have hread := hexecutable.file.whole.read_data (show OFFSET.toNat ≤ img.fileLength d.inode_num from by
    rw [show OFFSET.toNat = 24 from rfl]
    omega) 4
  have hbyte (i : Nat) (hi : i < 4) : (read_data img d.inode_num OFFSET 4).2.getD i (leftover (HEADER_BUF_SIZE + i)) =
      img.fileByte d.inode_num (24 + i) := by
    rw [hread, List.getD_eq_getElem?_getD, List.getElem?_take, if_pos hi, List.getElem?_drop,
      List.getElem?_eq_getElem (by rw [Image.fileBytes_length, show OFFSET.toNat = 24 from rfl]; omega)]
    simp [Image.fileBytes, OFFSET]
  simp only [entry_pt, hbyte 0 (by decide), hbyte 1 (by decide), hbyte 2 (by decide), hbyte 3 (by decide)]

/-- The load loop has ended, with the file's length and its bytes in order. -/
def LoopDone (img : Image) (inode : Word) : Prop :=
  ∃ n s, n ≤ 2 ^ 32 ∧ LoopEnds img inode n s ∧ s.l = img.fileLength inode ∧ s.stores = chunk 0 (img.fileBytes inode)

/-- What a call has done that starts a program: its memory holds the file from
    0x08048000 on, no other byte of memory has changed, and it begins at the
    word in bytes 24 to 27. -/
structure ProgramLoaded (sys : System) (inode : Word) (k k' : Kernel) : Prop where
  loop : LoopDone sys.img inode
  bytes : ∀ i : Nat, i < sys.img.fileLength inode →
    ∃ mapping, k'.translate sys (VIRTUAL_ADDR + BitVec.ofInt 32 (i : Int)) = some mapping ∧
      k'.memory mapping.physical = sys.img.fileByte inode i
  others : ∀ physical, (∀ (i : Nat) mapping, i < sys.img.fileLength inode →
    k'.translate sys (VIRTUAL_ADDR + BitVec.ofInt 32 (i : Int)) = some mapping → mapping.physical ≠ physical) →
      k'.memory physical = k.memory physical
  entry : k'.cpu.eip = wordOfBytes (sys.img.fileByte inode 24) (sys.img.fileByte inode 25)
    (sys.img.fileByte inode 26) (sys.img.fileByte inode 27)

/-- The copies of a file that fits, and the assignments behind them. -/
theorem start_ops_program (sys : System) (f : Frame) (k : Kernel) (save_value : Word) (bytes : List Byte)
    (hfits : bytes.length ≤ 0x3B8000) :
    ∃ k' save', perform_all sys q f (start_ops (chunk 0 bytes)) (k, save_value) = some (k', save') ∧
      k'.paging.page_dir PAGE_VALUE = page_entry (pid q) ∧
      (∀ physical : Word, physical.toNat < programAddress q 0 ∨ programAddress q bytes.length ≤ physical.toNat →
        k'.memory physical = k.memory physical) ∧
      ∀ i (hi : i < bytes.length), k'.memory (BitVec.ofNat 32 (programAddress q i)) = bytes[i] := by
  obtain ⟨memory, hcopies, hframe, hbytes⟩ := copy_ops_spec sys f
    { k with paging := k.paging.setEntry (page_entry (pid q)) } (page_entry (pid q)) (paging_t.setEntry_same _ _)
    bytes 0 (by simpa using hfits)
  obtain ⟨k', hfinish, hmemory, hpaging⟩ := finish_ops_some sys q f
    { k with paging := k.paging.setEntry (page_entry (pid q)), memory := memory } (page_entry (pid q)) finish_isFinish
  simp only [Nat.zero_add, Nat.cast_zero] at hcopies hframe hbytes
  refine ⟨k', page_entry (pid q), ?_, ?_, ?_, ?_⟩
  · rw [start_ops_eq, perform_all_append, perform_all_append, perform_entry, Option.bind_some, hcopies,
      Option.bind_some, hfinish]
  · rw [hpaging]
    exact paging_t.setEntry_same _ _
  · rw [hmemory]
    exact hframe
  · rw [hmemory]
    exact hbytes

/-- A call that gets to the load of a valid executable starts it, and has loaded
    all of it and nothing else. -/
theorem program_loaded (hparse : GetsBehindParse sys f c q k parsed)
    (hexecutable : Executable sys.img (command_word c) d)
    (hlength : 28 ≤ sys.img.fileLength d.inode_num) :
    ∃ k', sys_execute sys f (some c) k = some (k', some q) ∧ ProgramLoaded sys d.inode_num k k' := by
  have hwhole := hexecutable.file.whole
  have hfits := hexecutable.fits
  have hcall := sys_execute_continues hparse
  obtain ⟨started, save', hstart, hentry, hframe, hbytes⟩ := start_ops_program (q := q) sys f parsed 0#32
    (sys.img.fileBytes d.inode_num) (by simpa using hfits)
  refine ⟨_, hcall.started d _ (started, save') hexecutable.found (is_elf_iff.mp (hexecutable.is_elf f.leftover))
    (load_whole hwhole) hstart, whole_loads hwhole, fun i hi => ?_, fun physical hothers => ?_, ?_⟩
  · obtain ⟨mapping, htranslate, hphysical⟩ := translate_program sys hentry (Nat.lt_of_lt_of_le hi hfits)
    refine ⟨mapping, htranslate, ?_⟩
    rw [hphysical]
    exact (hbytes i (by simpa using hi)).trans (by simp [Image.fileBytes])
  · have houtside : physical.toNat < programAddress q 0 ∨
        programAddress q (sys.img.fileBytes d.inode_num).length ≤ physical.toNat := by
      by_contra hinside
      simp only [Image.fileBytes_length, not_or, Nat.not_lt, Nat.not_le, programAddress] at hinside
      obtain ⟨mapping, htranslate, hphysical⟩ := translate_program sys hentry
        (show physical.toNat - programAddress q 0 < 0x3B8000 by simp only [programAddress]; omega)
      refine hothers _ mapping (by simp only [programAddress]; omega) htranslate ?_
      rw [hphysical]
      apply BitVec.eq_of_toNat_eq
      simp only [programAddress, BitVec.toNat_ofNat]
      omega
    exact (hframe physical houtside).trans (congrFun hcall.memory physical)
  · exact hexecutable.entry_pt_eq hlength f.leftover

/-- The shell of the small image. -/
theorem program_loaded_shell :
    ∃ k', sys_execute small_system (small_frame 0) (some shell_name) boot_kernel = some (k', some 0) ∧
    ProgramLoaded small_system 1#32 boot_kernel k' := by
  have hfirst : first_free boot_kernel.processes = some 0 := by decide
  obtain ⟨parsed, hparse⟩ := gets_behind_parse small_system (small_frame 0) hfirst (shell_name_short BUFFER_SIZE)
  exact program_loaded hparse small_shell_executable (by decide)

end houseam.process
