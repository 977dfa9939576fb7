import HouseAM.Syscalls.Reading

open houseam.filesystem houseam.system_call support.clients

namespace houseam.syscalls

variable {img : Image} {rest : List Byte} {fd : Int} {history : Transcript} {t : Task} {pcb pcb' pcb'' : pcb_t}

/-- Only one descriptor has changed. -/
def OnlyAt (fd : Int) (pcb pcb' : pcb_t) : Prop := ∀ i, i ≠ fd_index fd → pcb'.fd_arr i = pcb.fd_arr i

theorem OnlyAt.refl (fd : Int) (pcb : pcb_t) : OnlyAt fd pcb pcb := fun _ _ => rfl

theorem OnlyAt.trans (honly : OnlyAt fd pcb pcb') (hthen : OnlyAt fd pcb' pcb'') : OnlyAt fd pcb pcb'' :=
  fun i hi => (hthen i hi).trans (honly i hi)

theorem OnlyAt.setFd (fd : Int) (pcb : pcb_t) (entry : fd_array_t) :
    OnlyAt fd pcb (pcb.setFd (fd_index fd) entry) :=
  fun _ hi => pcb_t.setFd_other _ _ hi

theorem OnlyAt.readsAs {nbytes : Int} {r : Returned} (hread : ReadsAs img fd nbytes pcb r pcb') :
    OnlyAt fd pcb pcb' := by
  obtain ⟨s', hcall, rfl⟩ := hread 1 ⟨pcb, terminal.zeroed⟩ Nat.one_ne_zero rfl
  rcases sys_read_pcb hcall with hsame | ⟨-, -, -, position, hmoved⟩
  · rw [hsame]
    exact OnlyAt.refl fd pcb
  · rw [hmoved]
    exact OnlyAt.setFd fd pcb _

theorem OnlyAt.standard (honly : OnlyAt fd pcb pcb') (hlo : 2 ≤ fd) (hhi : fd ≤ 7) (hstd : Standard pcb) :
    Standard pcb' := by
  have hne : 1 ≠ fd_index fd := by
    intro heq
    have hone := fd_index_injective (show (0 : Int) ≤ 1 by decide) (by decide) (by omega) hhi heq
    omega
  rw [Standard, honly 1 hne]
  exact hstd

/-- A descriptor of a file, or of the clock: so much is left to be read of it. -/
inductive Opened (img : Image) (fd : Int) : List Byte → pcb_t → Prop where
  | file {inode : Word} {position : Nat} {pcb : pcb_t} (hok : img.FileOk inode)
      (hopen : FileOpen img inode fd position ⟨pcb, terminal.zeroed⟩) :
      Opened img fd ((img.fileBytes inode).drop position) pcb
  | clock {pcb : pcb_t} (hflags : (pcb.fd_arr (fd_index fd)).flags = 1#32)
      (hops : (pcb.fd_arr (fd_index fd)).file_operations = .table .rtc_operations) : Opened img fd [] pcb

theorem Opened.flags (hopened : Opened img fd rest pcb) : (pcb.fd_arr (fd_index fd)).flags = 1#32 := by
  cases hopened with
  | file hok hopen => exact hopen.flags
  | clock hflags hops => exact hflags

/-- Other descriptors do not matter. -/
theorem Opened.of_entry (hopened : Opened img fd rest pcb)
    (hsame : pcb'.fd_arr (fd_index fd) = pcb.fd_arr (fd_index fd)) : Opened img fd rest pcb' := by
  cases hopened with
  | file hok hopen =>
    refine .file hok ⟨?_, ?_, ?_, ?_, hopen.position_le⟩
    · exact hsame ▸ hopen.flags
    · exact hsame ▸ hopen.inode_eq
    · exact hsame ▸ hopen.position_eq
    · exact hsame ▸ hopen.operations
  | clock hflags hops => exact .clock (hsame ▸ hflags) (hsame ▸ hops)

/-- A read gets what there is room for. -/
theorem Opened.reads (hopened : Opened img fd rest pcb) (hlo : 2 ≤ fd) (hhi : fd ≤ 7) (n : Nat) :
    ∃ pcb', ReadsAs img fd n pcb ⟨(rest.take n).length, rest.take n⟩ pcb' ∧ Opened img fd (rest.drop n) pcb' := by
  cases hopened with
  | @file inode position _ hok hopen =>
    obtain ⟨s', hcall, hnext⟩ := hopen.sys_read hok hlo hhi Nat.one_ne_zero (Int.natCast_nonneg n)
    have hreads := readsAs_of hopen.operations (by simp) Nat.one_ne_zero hcall
    have hlength : (((img.fileBytes inode).drop position).take n).length = available img inode position n := by
      rw [List.length_take, List.length_drop, Image.fileBytes_length, available, Int.toNat_natCast]
    refine ⟨s'.pcb, ?_, ?_⟩
    · rw [hlength]
      exact hreads
    · have hrest : ((img.fileBytes inode).drop position).drop n =
          (img.fileBytes inode).drop (position + available img inode position n) := by
        rw [List.drop_drop, available, Int.toNat_natCast]
        by_cases hroom : n ≤ img.fileLength inode - position
        · rw [min_eq_left hroom]
        · rw [List.drop_eq_nil_of_le, List.drop_eq_nil_of_le] <;> rw [Image.fileBytes_length] <;> omega
      rw [hrest]
      exact .file hok ⟨hnext.flags, hnext.inode_eq, hnext.position_eq, hnext.operations, hnext.position_le⟩
  | clock hflags hops =>
    refine ⟨pcb, ?_, ?_⟩
    · rw [List.take_nil]
      exact readsAs_rtc (s := ⟨pcb, terminal.zeroed⟩) hops hlo hhi
    · rw [List.drop_nil]
      exact .clock hflags hops

theorem ensures_close {post : Int → Transcript → Task → Prop}
    (hpost : ∀ history' t', written history' = written history → t'.pcb = (sys_close fd t.pcb).2 →
      post (sys_close fd t.pcb).1 history' t') :
    (ece391_close fd).Ensures (kernel img) post history t := by
  intro t₁ ht₁
  refine ⟨_, _, rfl, fun t₂ ht₂ => ?_⟩
  have hpcb : t₁.pcb = t.pcb := ht₁
  simp only [hpcb] at ht₂ ⊢
  refine hpost _ t₂ ?_ ht₂
  rw [written_append]
  exact List.append_nil _

/-- What a file that is opened reads. -/
theorem opened_of_found (himg : img.WellFormed) (htypes : Image.FileTypes img) {filename : CString} {d : dentry_t}
    (hfound : found img pcb filename = some d) (htype : d.filetype ≠ 1#32) :
    ∃ (fd : Int) (pcb' : pcb_t), sys_open img (some filename) pcb = (fd, pcb') ∧ 2 ≤ fd ∧ fd ≤ 7 ∧
      (pcb.fd_arr (fd_index fd)).flags = 0#32 ∧ OnlyAt fd pcb pcb' ∧ Opened img fd (contents img d) pcb' := by
  obtain ⟨⟨j, hfirst⟩, hnamed⟩ := found_some hfound
  have hopen := sys_open_found hfirst hnamed
  have hlarge := first_closed_ge_two hfirst
  have hindex : fd_index j.val = j := Fin.ofNat_val_eq_self j
  refine ⟨j.val, _, hopen, by omega, by omega, ?_, ?_, ?_⟩
  · rw [hindex]
    exact first_closed_flags hfirst
  · have honly := OnlyAt.setFd j.val pcb (opened_entry d (pcb.fd_arr j))
    rwa [hindex] at honly
  · obtain ⟨k, hk, hentry⟩ := read_dentry_by_name_some hnamed
    have htype' := htypes k hk
    rw [← copy_dentry_filetype, ← hentry] at htype'
    rcases htype' with hclock | hdir | hfile
    · have hcontents : contents img d = [] := by simp [contents, hclock]
      rw [hcontents]
      refine .clock ?_ ?_ <;> rw [hindex, pcb_t.setFd_same] <;> simp [opened_entry, opened_operations, hclock]
    · exact absurd hdir htype
    · obtain ⟨-, -, hopened⟩ := sys_open_fileOpen terminal.zeroed hopen (Int.natCast_nonneg _) hnamed hfile
      have hcontents : contents img d = (img.fileBytes d.inode_num).drop 0 := by
        rw [contents, if_pos hfile, List.drop_zero]
      rw [hcontents]
      exact .file (himg.fileOk_of_found hnamed hfile) hopened

end houseam.syscalls
