import HouseAM.Descriptor.Unopened
import HouseAM.Support.Memory

open houseam.lib houseam.filesystem houseam.terminal support.memory support.runs

namespace houseam.system_call

variable {img : Image} {s s' : Task} {fd : Int} {buf : Nat} {nbytes : Int} {r : Returned}

/-- Storing the bytes from the buffer's start on leaves all memory outside
    `buf[0..nbytes)` as it was. -/
def Confined (buf : Nat) (nbytes : Int) (stored : List Byte) : Prop :=
  ∀ (memory : Nat → Byte) (address : Nat), address < buf ∨ buf + nbytes.toNat ≤ address →
    storeAt memory buf stored address = memory address

/-- The argument text in a PCB: the bytes before the first NUL, if there is one. -/
def argument_text (pcb : pcb_t) : List Byte := (List.ofFn pcb.argument).takeWhile (· ≠ 0#8)

/-- The argument text ends in its array, and it and its NUL fit in a buffer. In a
    full array the text is cut, and fits nowhere. -/
def ArgumentFits (pcb : pcb_t) (nbytes : Int) : Prop :=
  (argument_text pcb).length < 128 ∧ (argument_text pcb).length < nbytes

/-- A descriptor with this jump table passes the checks of `sys_read`. -/
structure Readable (s : Task) (fd : Int) (buf : Nat) (nbytes : Int) (ops : file_ops_t) : Prop where
  fd_nonneg : 0 ≤ fd
  fd_le : fd ≤ 7
  fd_ne : fd ≠ 1
  buf_ne : buf ≠ 0
  nbytes_nonneg : 0 ≤ nbytes
  operations : (s.pcb.fd_arr (fd_index fd)).file_operations = .table ops
  flags : ops = .file_operations ∨ ops = .dir_operations → (s.pcb.fd_arr (fd_index fd)).flags ≠ 0#32

theorem confined_iff (buf : Nat) (nbytes : Int) (stored : List Byte) :
    Confined buf nbytes stored ↔ stored.length ≤ nbytes.toNat := by
  have : Nontrivial Byte := ⟨0#8, 1#8, by decide⟩
  exact storeAt_confined_iff buf nbytes.toNat stored

theorem Readable.sys_read_eq {ops : file_ops_t} (hreadable : Readable s fd buf nbytes ops) :
    sys_read img fd buf nbytes s = call_read img ops (fd_index fd) nbytes s := by
  have hfd := hreadable.fd_nonneg
  have hfd' := hreadable.fd_le
  have hone := hreadable.fd_ne
  have hbuf := hreadable.buf_ne
  have hnbytes := hreadable.nbytes_nonneg
  rw [sys_read, if_neg (by simp only [PCB_LENGTH]; omega)]
  simp only [hreadable.operations]
  rw [if_neg]
  rintro ⟨hops, hzero⟩
  exact hreadable.flags hops hzero

theorem read_line_loop_length_le (keyboard_buffer : Int → Byte) (n i : Nat) :
    (read_line_loop keyboard_buffer n i).length ≤ n := by
  induction n generalizing i with
  | zero => simp [read_line_loop]
  | succ n ih =>
    rw [read_line_loop]
    split
    · simp
    · simpa using ih (i + 1)

/-- The terminal's copy stops after the requested number of bytes. -/
theorem terminal_read_le {t t' : terminal_t} {count : Int} {line : List Byte} (hnbytes : 0 ≤ nbytes)
    (hread : terminal_read t nbytes = some (count, line, t')) : line.length ≤ nbytes.toNat ∧ count ≤ nbytes := by
  unfold terminal_read at hread
  split at hread
  · cases hread
  · cases hread
    have hle := read_line_loop_length_le t.keyboard_buffer nbytes.toNat 0
    exact ⟨hle, by omega⟩

theorem file_read_le (img : Image) (fd : Fin 8) (hnbytes : 0 ≤ nbytes) (pcb : pcb_t) :
    (file_read img fd nbytes pcb).1.stored.length ≤ nbytes.toNat ∧ (file_read img fd nbytes pcb).1.value ≤ nbytes := by
  unfold file_read
  dsimp only
  split
  · exact ⟨Nat.zero_le _, show -1 ≤ nbytes by omega⟩
  · have hstored := read_data_stored_le img (pcb.fd_arr fd).inode (pcb.fd_arr fd).file_position nbytes.toNat
    have hreturned := read_data_returned_le img (pcb.fd_arr fd).inode (pcb.fd_arr fd).file_position nbytes.toNat
    refine ⟨hstored, ?_⟩
    dsimp only
    split <;> omega

theorem name_length_loop_le (d : dentry_t) (n len : Nat) : name_length_loop d n len ≤ len + n := by
  induction n generalizing len with
  | zero => exact Nat.le_refl _
  | succ n ih =>
    rw [name_length_loop]
    split
    · have hrest := ih (len + 1)
      omega
    · omega

theorem name_length_le (d : dentry_t) : name_length d ≤ 32 := by
  have hle := name_length_loop_le d FILENAME_LEN 0
  simpa [name_length, FILENAME_LEN] using hle

/-- A directory read fits the buffer unless it finds an entry and the buffer is
    shorter than a name field. -/
theorem dir_read_fits_iff (img : Image) (fd : Fin 8) (hnbytes : 0 ≤ nbytes) (pcb : pcb_t) :
    ((dir_read img fd pcb).1.stored.length ≤ nbytes.toNat ∧ (dir_read img fd pcb).1.value ≤ nbytes) ↔
      ¬ (nbytes < 32 ∧ (pcb.fd_arr fd).file_position.toNat < img.dir_count.toNat) := by
  unfold dir_read read_dentry_by_index
  by_cases hentry : img.dir_count.toNat ≤ (pcb.fd_arr fd).file_position.toNat
  · simp only [if_pos hentry, List.length_nil]
    omega
  · have hname := name_length_le (copy_dentry (img.direntries (pcb.fd_arr fd).file_position.toNat))
    simp only [if_neg hentry, strncpy_length]
    omega

/-- An argument request that succeeds copies 128 bytes, whatever their number in
    the text. -/
theorem sys_getargs_fits_iff (pcb : pcb_t) (buf : Nat) (nbytes : Int) :
    (Confined buf nbytes (sys_getargs buf nbytes pcb).stored ∧
      (¬ ArgumentFits pcb nbytes → (sys_getargs buf nbytes pcb).value = -1)) ↔
    (buf = 0 ∨ nbytes < 0 ∨ pcb.argument 0 = 0#8 ∨ 128 ≤ nbytes ∧ (argument_text pcb).length < 128) := by
  rw [confined_iff, sys_getargs]
  by_cases hchecks : buf = 0 ∨ nbytes < 0
  · rw [if_pos hchecks]
    exact iff_of_true ⟨Nat.zero_le _, fun _ => rfl⟩ (by tauto)
  · rw [if_neg hchecks]
    by_cases harg : pcb.argument 0 = 0#8
    · rw [if_pos harg]
      exact iff_of_true ⟨Nat.zero_le _, fun _ => rfl⟩ (by tauto)
    · simp only [if_neg harg, List.length_ofFn]
      push Not at hchecks
      constructor
      · rintro ⟨hcopy, hfails⟩
        refine Or.inr (Or.inr (Or.inr ⟨by omega, ?_⟩))
        by_contra hfull
        exact absurd (hfails fun hfits => hfull hfits.1) (by decide)
      · rintro (h | h | h | ⟨hroom, hends⟩)
        · exact absurd h hchecks.1
        · omega
        · exact absurd h harg
        · exact ⟨by omega, fun hunfit => absurd ⟨hends, by omega⟩ hunfit⟩

/-- Which reads and argument requests stay inside the caller's buffer. A read
    does unless it finds a directory entry and the buffer is shorter than 32
    bytes; an argument request that succeeds does from 128 bytes on, and gives
    the whole text exactly if its NUL is in the array. -/
theorem footprint_iff (img : Image) {ops : file_ops_t} (hreadable : Readable s fd buf nbytes ops)
    (hkind : ops ≠ .rtc_operations) :
    ((∀ r s', sys_read img fd buf nbytes s = .done (r, s') → Confined buf nbytes r.stored ∧ r.value ≤ nbytes) ↔
      ¬ (ops = .dir_operations ∧ nbytes < 32 ∧
        (s.pcb.fd_arr (fd_index fd)).file_position.toNat < img.dir_count.toNat)) ∧
    ∀ (argbuf : Nat) (argbytes : Int),
      (Confined argbuf argbytes (sys_getargs argbuf argbytes s.pcb).stored ∧
        (¬ ArgumentFits s.pcb argbytes → (sys_getargs argbuf argbytes s.pcb).value = -1)) ↔
      (argbuf = 0 ∨ argbytes < 0 ∨ s.pcb.argument 0 = 0#8 ∨
        128 ≤ argbytes ∧ (argument_text s.pcb).length < 128) := by
  have hnbytes := hreadable.nbytes_nonneg
  refine ⟨?_, sys_getargs_fits_iff s.pcb⟩
  rw [hreadable.sys_read_eq]
  simp only [confined_iff]
  cases ops with
  | std_operations =>
    refine iff_of_true ?_ (by simp)
    intro r s' hread
    simp only [call_read] at hread
    split at hread
    · cases hread
    · rename_i count line term hterminal
      cases hread
      exact terminal_read_le hnbytes hterminal
  | dir_operations =>
    have hfits := dir_read_fits_iff img (fd_index fd) hnbytes s.pcb
    simp only [true_and, ← hfits]
    constructor
    · intro hall
      exact hall _ _ rfl
    · intro hread r s' hdone
      cases hdone
      exact hread
  | file_operations =>
    refine iff_of_true ?_ (by simp)
    intro r s' hread
    cases hread
    exact file_read_le img (fd_index fd) hnbytes s.pcb
  | rtc_operations => exact absurd rfl hkind

/-- The state of a process that has opened the directory as descriptor 2. -/
def directory_open : Task :=
  ⟨(sys_open small_image (some directory_name) zeroed_pcb.set_std).2, zeroed⟩

theorem directory_open_readable (nbytes : Int) (hnbytes : 0 ≤ nbytes) :
    Readable directory_open 2 4096 nbytes .dir_operations where
  fd_nonneg := by decide
  fd_le := by decide
  fd_ne := by decide
  buf_ne := by decide
  nbytes_nonneg := hnbytes
  operations := rfl
  flags := fun _ => by decide

/-- Reading the directory with room for a whole name stays in the buffer. -/
theorem footprint_iff_directory :
    (∀ r s', sys_read small_image 2 4096 32 directory_open = .done (r, s') →
      Confined 4096 32 r.stored ∧ r.value ≤ 32) ∧
    Confined 4096 128 (sys_getargs 4096 128 directory_open.pcb).stored := by
  obtain ⟨hread, hargs⟩ := footprint_iff small_image (directory_open_readable 32 (by decide)) (by decide)
  exact ⟨hread.mpr (by decide), ((hargs 4096 128).mpr (by decide)).1⟩

/-- Not every read of an open descriptor stays in the caller's buffer: the first
    read of the directory stores 32 bytes into a buffer of 4. -/
theorem footprint_exceeded : ¬ ∀ (img : Image) (start : Task) (log : List (Task × Call)) (s : Task) (fd : Int)
    (buf : Nat) (nbytes : Int) (ops : file_ops_t), Started start.pcb → Run (step img) (fun _ _ => True) start log s →
      Readable s fd buf nbytes ops → ops ≠ .rtc_operations →
        ∀ r s', sys_read img fd buf nbytes s = .done (r, s') → Confined buf nbytes r.stored ∧ r.value ≤ nbytes := by
  intro hall
  have hboot : Run (step small_image) (fun _ _ => True) ⟨zeroed_pcb.set_std, zeroed⟩ [] _ := .start
  have hopen := hboot.step trivial
    (show step small_image _ (.sys_open (some directory_name)) = some directory_open from rfl)
  have hstays := hall small_image _ _ _ 2 4096 4 .dir_operations ⟨zeroed_pcb, Or.inl rfl, rfl⟩ hopen
    (directory_open_readable 4 (by decide)) (by decide) _ _ rfl
  rw [confined_iff] at hstays
  exact absurd hstays.1 (by decide)

end houseam.system_call
