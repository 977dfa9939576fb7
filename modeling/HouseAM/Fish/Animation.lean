import HouseAM.Fish.Rows
import HouseAM.Syscalls.Cat
import Mathlib.Data.List.GetD

open houseam.filesystem houseam.syscalls houseam.system_call support.clients support.lines support.runs

namespace houseam.fish

variable {s s' : fish_t} {structs structs' : List mp1_blink_struct} {arg blink_struct : mp1_blink_struct}
  {vmem : Nat → Byte} {n row col place : Nat} {lines0 lines1 : List (List Byte)} {i : Fin 2000}

/-- So often the clock has ticked since these structures were added, to an empty
    list over a screen. -/
structure Animated (vmem : Nat → Byte) (structs : List mp1_blink_struct) (n : Nat) (s : fish_t) : Prop where
  holds : ∃ cells blinkers, Holds s cells blinkers ∧ cells.length = structs.length
  separate : Separate s
  blinks : ∀ arg ∈ structs, Blinks s (tick^[n] (started arg.toblink_t))
  places : ∀ i, (s.blink i).location ≠ 0#16 → ∃ arg ∈ structs, arg.location = (s.blink i).location
  elsewhere : ∀ place, (∀ arg ∈ structs, place ≠ 2 * arg.location.toNat) → s.vmem place = vmem place

theorem fish_start_animated (vmem : Nat → Byte) : Animated vmem [] 0 (fish_start vmem) where
  holds := ⟨[], [], fish_start_holds vmem, rfl⟩
  separate := fun _ _ hused => absurd rfl hused
  blinks := fun _ hmem => absurd hmem List.not_mem_nil
  places := fun _ hused => absurd rfl hused
  elsewhere := fun _ _ => rfl

/-- A character is added at a place that has none. -/
theorem Animated.add (hanimated : Animated vmem structs 0 s) (hplaced : arg.location ≠ 0#16)
    (hscreen : arg.location.toNat < SCREEN_CELLS) (hnew : ∀ other ∈ structs, other.location ≠ arg.location)
    (hroom : structs.length < 2000) : Animated vmem (structs ++ [arg]) 0 (mp1_ioctl_add s arg).2 := by
  obtain ⟨⟨cells, blinkers, hholds, hlength⟩, hseparate, hblinks, hplaces, helsewhere⟩ := hanimated
  have hfresh : (Request.add arg).Fresh s := by
    refine ⟨hplaced, fun i hat => ?_⟩
    obtain ⟨other, hmem, hother⟩ := hplaces i (hat ▸ hplaced)
    exact hnew other hmem (hother.trans hat)
  obtain ⟨i, hmalloc⟩ := hholds.malloc_some (hlength ▸ hroom)
  obtain ⟨hadded, -, -, hblink, hvmem⟩ := add_eq hscreen hmalloc
  have hchange : Change s (.add arg) (mp1_ioctl_add s arg).2 := .added (malloc_unused hmalloc) hblink hvmem
  refine ⟨⟨_, _, hholds.add hscreen hmalloc hplaced, ?_⟩, hseparate.step hfresh hchange, ?_, ?_, ?_⟩
  · rw [List.length_cons, hlength, List.length_append, List.length_singleton]
  · intro other hmem
    rcases List.mem_append.mp hmem with hmem | hmem
    · exact (hblinks other hmem).step hseparate hfresh not_false hchange
    · rw [List.mem_singleton.mp hmem]
      exact blinks_added hfresh hadded
  · intro k hused
    rw [hblink] at hused ⊢
    by_cases hk : k = i
    · rw [hk, Function.update_self]
      exact ⟨arg, List.mem_append_right _ (List.mem_singleton_self arg), rfl⟩
    · rw [Function.update_of_ne hk] at hused ⊢
      obtain ⟨other, hmem, hother⟩ := hplaces k hused
      exact ⟨other, List.mem_append_left _ hmem, hother⟩
  · intro place hplace
    have hne := hplace arg (List.mem_append_right _ (List.mem_singleton_self arg))
    rw [hvmem, Function.update_of_ne hne]
    exact helsewhere place fun other hmem => hplace other (List.mem_append_left _ hmem)

/-- Characters are added at different places. -/
theorem Animated.adds (hanimated : Animated vmem structs 0 s)
    (hscreen : ∀ arg ∈ structs', arg.location ≠ 0#16 ∧ arg.location.toNat < SCREEN_CELLS)
    (hapart : (structs ++ structs').Pairwise fun a b => a.location ≠ b.location)
    (hroom : (structs ++ structs').length ≤ 2000) : Animated vmem (structs ++ structs') 0 (added s structs') := by
  induction structs' generalizing structs s with
  | nil =>
    rw [List.append_nil]
    exact hanimated
  | cons arg structs' ih =>
    obtain ⟨hplaced, hplace⟩ := hscreen arg List.mem_cons_self
    have hnew : ∀ other ∈ structs, other.location ≠ arg.location :=
      fun other hmem => (List.pairwise_append.mp hapart).2.2 other hmem arg List.mem_cons_self
    rw [List.length_append, List.length_cons] at hroom
    have hafter := hanimated.add hplaced hplace hnew (by omega)
    rw [List.append_cons] at hapart ⊢
    refine ih hafter (fun other hmem => hscreen other (List.mem_cons_of_mem _ hmem)) hapart ?_
    rw [List.length_append, List.length_append, List.length_singleton]
    omega

/-- The clock changes the screen only where there are characters. -/
theorem tasklet_elsewhere (cells : List (Fin 2000)) (s : fish_t)
    (hplace : ∀ i ∈ cells, place ≠ 2 * (s.blink i).location.toNat) :
    (cells.foldl tasklet_pass s).vmem place = s.vmem place := by
  induction cells generalizing s with
  | nil => rfl
  | cons a cells ih =>
    have hhere : (tasklet_pass s a).vmem place = s.vmem place := by
      rw [tasklet_pass_vmem]
      split
      · rfl
      · exact Function.update_of_ne (hplace a List.mem_cons_self) _ _
    rw [List.foldl_cons, ih, hhere]
    intro i hi
    rw [tasklet_pass_location]
    exact hplace i (List.mem_cons_of_mem _ hi)

theorem Animated.tick (hanimated : Animated vmem structs n s) :
    ∃ s', mp1_rtc_tasklet s = some s' ∧ Animated vmem structs (n + 1) s' := by
  obtain ⟨⟨cells, blinkers, hholds, hlength⟩, hseparate, hblinks, hplaces, helsewhere⟩ := hanimated
  have hchange : Change s .tasklet (cells.foldl tasklet_pass s) := .ticked hholds.mem_iff hholds.chain.nodup
  have hfresh : Request.tasklet.Fresh s := trivial
  refine ⟨_, hholds.tasklet_eq, ⟨cells, _, hholds.ticked, hlength⟩, hseparate.step hfresh hchange, ?_, ?_, ?_⟩
  · intro arg hmem
    rw [Function.iterate_succ_apply']
    exact (hblinks arg hmem).step hseparate hfresh not_false hchange
  · intro i hused
    rw [tasklet_location] at hused ⊢
    exact hplaces i hused
  · intro place hplace
    rw [tasklet_elsewhere]
    · exact helsewhere place hplace
    · intro i hi
      obtain ⟨arg, hmem, hat⟩ := hplaces i (hholds.used i hi)
      rw [← hat]
      exact hplace arg hmem

/-! The structures of two frames. -/

/-- The character of a text at a place; behind the end of a line it is a newline. -/
def frame_char (lines : List (List Byte)) (row col : Nat) : Byte := (lines.getD row []).getD col NEWLINE

theorem frame_char_beyond {lines : List (List Byte)} (hbeyond : (lines.getD row []).length ≤ col) :
    frame_char lines row col = NEWLINE :=
  List.getD_eq_default _ _ hbeyond

theorem visible_within (hvisible : Visible (frame_char lines0 row col) (frame_char lines1 row col)) :
    row < max lines0.length lines1.length ∧
      col < max (lines0.getD row []).length (lines1.getD row []).length := by
  have hcol : col < max (lines0.getD row []).length (lines1.getD row []).length := by
    by_contra hbeyond
    rw [frame_char_beyond (by omega), frame_char_beyond (by omega)] at hvisible
    exact not_visible_end hvisible
  refine ⟨?_, hcol⟩
  by_contra hbeyond
  rw [List.getD_eq_default _ _ (show lines0.length ≤ row by omega),
    List.getD_eq_default _ _ (show lines1.length ≤ row by omega)] at hcol
  exact absurd hcol (Nat.not_lt_zero col)

/-- There is a structure for every place at which a frame has a visible character. -/
theorem mem_frame_structs : arg ∈ frame_structs blink_struct 0 lines0 lines1 ↔
    ∃ row col, Visible (frame_char lines0 row col) (frame_char lines1 row col) ∧
      arg = frame_struct blink_struct row col (frame_char lines0 row col) (frame_char lines1 row col) := by
  simp only [frame_structs, row_structs, mem_beside, Nat.zero_add]
  constructor
  · rintro ⟨row, -, col, -, hmem⟩
    rw [cell] at hmem
    split at hmem
    · rename_i hvisible
      exact ⟨row, col, hvisible, List.mem_singleton.mp hmem⟩
    · exact absurd hmem List.not_mem_nil
  · rintro ⟨row, col, hvisible, rfl⟩
    obtain ⟨hrow, hcol⟩ := visible_within hvisible
    have hmem : frame_struct blink_struct row col (frame_char lines0 row col) (frame_char lines1 row col) ∈
        cell blink_struct row col (frame_char lines0 row col) (frame_char lines1 row col) := by
      rw [cell, if_pos hvisible]
      exact List.mem_singleton_self _
    exact ⟨row, hrow, col, hcol, hmem⟩

/-- A frame fits into the right half of the screen. -/
structure Framed (lines : List (List Byte)) : Prop where
  rows : lines.length ≤ 25
  columns : ∀ line ∈ lines, line.length ≤ 40

theorem Framed.line_le {lines : List (List Byte)} (hframed : Framed lines) (row : Nat) :
    (lines.getD row []).length ≤ 40 := by
  rw [List.getD_eq_getElem?_getD]
  cases hline : lines[row]? with
  | none => exact Nat.zero_le _
  | some line => exact hframed.columns line (List.mem_of_getElem? hline)

theorem Framed.within (hframed0 : Framed lines0) (hframed1 : Framed lines1)
    (hvisible : Visible (frame_char lines0 row col) (frame_char lines1 row col)) : row < 25 ∧ col < 40 := by
  obtain ⟨hrow, hcol⟩ := visible_within hvisible
  have hrows0 := hframed0.rows
  have hrows1 := hframed1.rows
  have hcols0 := hframed0.line_le row
  have hcols1 := hframed1.line_le row
  omega

theorem frame_location (blink_struct : mp1_blink_struct) (c0 c1 : Byte) (hrow : row < 25) (hcol : col < 40) :
    (frame_struct blink_struct row col c0 c1).location.toNat = row * 80 + col + 40 := by
  have hlocation : (frame_struct blink_struct row col c0 c1).location = BitVec.ofNat 16 (row * 80 + col + 40) := rfl
  rw [hlocation, BitVec.toNat_ofNat, Nat.mod_eq_of_lt (by omega)]

/-- Different places of the frames are different places on the screen. -/
theorem frame_structs_apart (hframed0 : Framed lines0) (hframed1 : Framed lines1) :
    (frame_structs blink_struct 0 lines0 lines1).Pairwise fun a b => a.location ≠ b.location := by
  have hcell (row col : Nat) :
      (cell blink_struct row col (frame_char lines0 row col) (frame_char lines1 row col)).Pairwise
        fun a b => a.location ≠ b.location := by
    rw [cell]
    split
    · exact List.pairwise_singleton _ _
    · exact .nil
  have hapart (row row' col col' : Nat) (hne : row < row' ∨ row = row' ∧ col < col') :
      ∀ a ∈ cell blink_struct row col (frame_char lines0 row col) (frame_char lines1 row col),
      ∀ b ∈ cell blink_struct row' col' (frame_char lines0 row' col') (frame_char lines1 row' col'),
        a.location ≠ b.location := by
    intro a ha b hb hsame
    rw [cell] at ha hb
    split at ha
    · split at hb
      · rename_i hvisible hvisible'
        obtain ⟨hrow, hcol⟩ := hframed0.within hframed1 hvisible
        obtain ⟨hrow', hcol'⟩ := hframed0.within hframed1 hvisible'
        rw [List.mem_singleton.mp ha, List.mem_singleton.mp hb] at hsame
        have hplaces := congrArg BitVec.toNat hsame
        rw [frame_location _ _ _ hrow hcol, frame_location _ _ _ hrow' hcol'] at hplaces
        omega
      · exact absurd hb List.not_mem_nil
    · exact absurd ha List.not_mem_nil
  simp only [frame_structs, row_structs, beside, Nat.zero_add]
  refine List.pairwise_flatMap.mpr ⟨fun row _ => List.pairwise_flatMap.mpr ⟨fun col _ => hcell row col, ?_⟩, ?_⟩
  · exact List.pairwise_lt_range.imp fun hlt => hapart row row _ _ (.inr ⟨rfl, hlt⟩)
  · refine List.pairwise_lt_range.imp fun hlt a ha b hb => ?_
    obtain ⟨col, -, ha⟩ := List.mem_flatMap.mp ha
    obtain ⟨col', -, hb⟩ := List.mem_flatMap.mp hb
    exact hapart _ _ col col' (.inl hlt) a ha b hb

/-- The clock ticks so often. -/
def ticks : Nat → fish_t → Option fish_t
  | 0, s => some s
  | n + 1, s => (ticks n s).bind mp1_rtc_tasklet

theorem Animated.ticks (hanimated : Animated vmem structs 0 s) (n : Nat) :
    ∃ s', fish.ticks n s = some s' ∧ Animated vmem structs n s' := by
  induction n with
  | zero => exact ⟨s, rfl, hanimated⟩
  | succ n ih =>
    obtain ⟨u, hticks, hafter⟩ := ih
    obtain ⟨s', htick, hnext⟩ := hafter.tick
    exact ⟨s', by rw [fish.ticks, hticks, Option.bind_some, htick], hnext⟩

/-- The structures of two frames fit into the array. -/
theorem frame_structs_animated (vmem : Nat → Byte) (blink_struct : mp1_blink_struct) (hframed0 : Framed lines0)
    (hframed1 : Framed lines1) : Animated vmem (frame_structs blink_struct 0 lines0 lines1) 0
      (added (fish_start vmem) (frame_structs blink_struct 0 lines0 lines1)) := by
  have hscreen : ∀ arg ∈ frame_structs blink_struct 0 lines0 lines1,
      arg.location ≠ 0#16 ∧ arg.location.toNat < SCREEN_CELLS := by
    intro arg hmem
    obtain ⟨row, col, hvisible, rfl⟩ := mem_frame_structs.mp hmem
    obtain ⟨hrow, hcol⟩ := hframed0.within hframed1 hvisible
    have hlocation := frame_location blink_struct (frame_char lines0 row col) (frame_char lines1 row col) hrow hcol
    refine ⟨fun hzero => ?_, ?_⟩
    · rw [hzero, BitVec.toNat_zero] at hlocation
      omega
    · rw [hlocation, SCREEN_CELLS]
      omega
  have hapart : (frame_structs blink_struct 0 lines0 lines1).Pairwise fun a b => a.location ≠ b.location :=
    frame_structs_apart hframed0 hframed1
  refine (fish_start_animated vmem).adds hscreen hapart ?_
  have hnodup : ((frame_structs blink_struct 0 lines0 lines1).map fun arg => arg.location.toNat).Nodup := by
    rw [List.Nodup, List.pairwise_map]
    exact hapart.imp fun hne hsame => hne (BitVec.eq_of_toNat_eq hsame)
  have hsubset :
      ((frame_structs blink_struct 0 lines0 lines1).map fun arg => arg.location.toNat) ⊆ List.range 2000 := by
    intro place hplace
    obtain ⟨arg, hmem, rfl⟩ := List.mem_map.mp hplace
    exact List.mem_range.mpr (hscreen arg hmem).2
  have hlength := (List.subperm_of_subset hnodup hsubset).length_le
  rwa [List.length_map, List.length_range] at hlength

/-- What the screen shows where the frames have these characters. -/
def frame_shown (n : Nat) (before c0 c1 : Byte) : Byte :=
  if Visible c0 c1 then if n % 30 < 15 then blank c0 else blank c1 else before

/-- The right half of the screen shows the two frames in turn, each for 15 ticks,
    and everything else is left as it was. -/
def Alternates (vmem : Nat → Byte) (lines0 lines1 : List (List Byte)) (n : Nat) (s : fish_t) : Prop :=
  (∀ row < 25, ∀ col < 40, s.vmem (2 * (row * 80 + col + 40)) =
    frame_shown n (vmem (2 * (row * 80 + col + 40))) (frame_char lines0 row col) (frame_char lines1 row col)) ∧
  ∀ place, (∀ row < 25, ∀ col < 40, place ≠ 2 * (row * 80 + col + 40)) → s.vmem place = vmem place

theorem Animated.alternates (hframed0 : Framed lines0) (hframed1 : Framed lines1)
    (hanimated : Animated vmem (frame_structs blink_struct 0 lines0 lines1) n s) :
    Alternates vmem lines0 lines1 n s := by
  have helsewhere (place : Nat) (hplace : ∀ row < 25, ∀ col < 40,
      Visible (frame_char lines0 row col) (frame_char lines1 row col) → place ≠ 2 * (row * 80 + col + 40)) :
      s.vmem place = vmem place := by
    refine hanimated.elsewhere place fun arg hmem => ?_
    obtain ⟨row, col, hvisible, rfl⟩ := mem_frame_structs.mp hmem
    obtain ⟨hrow, hcol⟩ := hframed0.within hframed1 hvisible
    rw [frame_location _ _ _ hrow hcol]
    exact hplace row hrow col hcol hvisible
  refine ⟨fun row hrow col hcol => ?_,
    fun place hplace => helsewhere place fun row hrow col hcol _ => hplace row hrow col hcol⟩
  rw [frame_shown]
  by_cases hvisible : Visible (frame_char lines0 row col) (frame_char lines1 row col)
  · obtain ⟨i, hi, -, hdisplayed⟩ := hanimated.blinks _ (mem_frame_structs.mpr ⟨row, col, hvisible, rfl⟩)
    have hlength : duration 15#16 = 15 := by decide
    rw [DisplayedAt, hi, iterate_location, shown_iterate, period] at hdisplayed
    have hplace : (started (frame_struct blink_struct row col (frame_char lines0 row col)
        (frame_char lines1 row col)).toblink_t).location.toNat = row * 80 + col + 40 :=
      frame_location blink_struct (frame_char lines0 row col) (frame_char lines1 row col) hrow hcol
    rw [hplace] at hdisplayed
    rw [if_pos hvisible, hdisplayed]
    simp only [frame_struct, hlength]
  · rw [if_neg hvisible]
    refine helsewhere _ fun row' hrow' col' hcol' hvisible' hsame => ?_
    obtain rfl : row = row' := by omega
    obtain rfl : col = col' := by omega
    exact hvisible hvisible'

/-- In every run of `add_frames` on a mapped screen and with two free descriptors,
    whatever happens to the terminal meanwhile, its calls are all answered, and from
    then on the clock shows the two files in turn. -/
theorem frames_alternate {img : Image} {t : Task} {f0 f1 : CString} {d0 d1 : dentry_t} {fuel : Nat}
    (himg : img.WellFormed) (htypes : Image.FileTypes img)
    (hfree : ∃ i j : Fin 8, 2 ≤ i.val ∧ 2 ≤ j.val ∧ i ≠ j ∧
      (t.pcb.fd_arr i).flags = 0#32 ∧ (t.pcb.fd_arr j).flags = 0#32)
    (hfound0 : read_dentry_by_name img (some f0) = some d0) (htype0 : d0.filetype ≠ 1#32)
    (hfound1 : read_dentry_by_name img (some f1) = some d1) (htype1 : d1.filetype ≠ 1#32)
    (hframed0 : Framed (lines img d0)) (hframed1 : Framed (lines img d1)) (hfuel : 40 < fuel)
    {log : List (Session Task syscalls.Request Returned (Option fish_t) × Turn Task)}
    {session : Session Task syscalls.Request Returned (Option fish_t)}
    (run : Run (turn (kernel img)) (Allowed (kernel img)) (add_frames fuel blink_struct f0 f1 (fish_start vmem), t) log
      session) :
    Fulfils (kernel img) (fun result _ _ => ∃ s, result = some s ∧
      ∀ n, ∃ s', fish.ticks n s = some s' ∧ Alternates vmem (lines img d0) (lines img d1) n s')
      (historyOf (kernel img) log) session := by
  obtain ⟨i, j, hi, hj, hne, hclosed, hclosed'⟩ := hfree
  have hshort : ∀ line ∈ lines img d0 ++ lines img d1, line.length < fuel := by
    intro line hline
    rcases List.mem_append.mp hline with hline | hline
    · exact Nat.lt_of_le_of_lt (hframed0.columns line hline) hfuel
    · exact Nat.lt_of_le_of_lt (hframed1.columns line hline) hfuel
  have hrows0 := hframed0.rows
  have hrows1 := hframed1.rows
  have hensures : (add_frames fuel blink_struct f0 f1 (fish_start vmem)).Ensures (kernel img) (fun result _ _ =>
      result = some (added (fish_start vmem) (frame_structs blink_struct 0 (lines img d0) (lines img d1)))) [] t :=
    add_frames_ensures himg htypes hi hj hne hclosed hclosed' hfound0 htype0 hfound1 htype1 hshort (by omega)
      (by omega)
  refine (hensures.mono ?_).run run
  rintro result history t' rfl
  refine ⟨_, rfl, fun n => ?_⟩
  obtain ⟨s', hticks, hanimated⟩ := (frame_structs_animated vmem blink_struct hframed0 hframed1).ticks n
  exact ⟨s', hticks, hanimated.alternates hframed0 hframed1⟩

/-- A text and an executable of one line each as the two frames. -/
theorem frames_alternate_small : ∃ log result t,
    Run (turn (kernel small_image)) (Allowed (kernel small_image))
      (add_frames 41 (letter 0#16) frame0_name shell_name (fish_start fun _ => 0#8),
        ⟨zeroed_pcb.set_std, terminal.zeroed⟩) log (.done result, t) ∧
    ∃ s, result = some s ∧ ∀ n, ∃ s', fish.ticks n s = some s' ∧
      Alternates (fun _ => 0#8) (lines small_image (copy_dentry (small_image.direntries 2)))
        (lines small_image (copy_dentry (small_image.direntries 1))) n s' := by
  have hframed (d : dentry_t) (hline : NEWLINE ∉ contents small_image d)
      (hlength : (contents small_image d).length ≤ 40) : Framed (lines small_image d) := by
    have hlines : lines small_image d = [contents small_image d] := List.splitOn_eq_singleton hline
    constructor
    · rw [hlines]
      exact Nat.le_of_ble_eq_true rfl
    · rw [hlines]
      intro line hmem
      rwa [List.mem_singleton.mp hmem]
  exact exists_done fun log session run =>
    frames_alternate small_image_wellFormed small_image_types ⟨2, 3, by decide, by decide, by decide, rfl, rfl⟩
      rfl (by decide) rfl (by decide) (hframed _ (by decide) (by decide)) (hframed _ (by decide) (by decide))
      (by decide) run

end houseam.fish
