import HouseAM.Paging.Tables

open support.paging

namespace houseam.paging

/-- The return value of `sys_vidmap`, the word it stored to `*screen_start`, and
    the paging structures it left. -/
structure Vidmapped where
  value : Int
  screen : Option Word
  after : paging_t

/-- The address behind the program's page, where the code means video memory to
    appear. -/
def VIDEO_START : Word := ONETWOEIGHTMB + 0x400000#32

/-- The video table after the loop and the assignment of its first entry. The
    loop's entries are not present. -/
def filled_video_table : BitVec 10 → Word := fun i =>
  if i = 0#10 then VIDEO_PAGE ||| OR_SEVEN else BitVec.ofNat 32 (i.toNat * 4096) ||| OR_SIX

/-- The upper end of the pointer check is inclusive. The entry that is replaced
    is the one of the program's own page, and the TLB is not flushed. -/
def sys_vidmap (layout : Layout) (p : paging_t) (screen_start : Word) : Vidmapped :=
  if screen_start = 0#32 then ⟨-1, none, p⟩
  else if screen_start.toNat < ONETWOEIGHTMB.toNat ∨ VIDEO_START.toNat < screen_start.toNat then ⟨-1, none, p⟩
  else
    let p := { p with video_table := filled_video_table }
    ⟨VIDEO_START.toNat, some VIDEO_START, p.setEntry (frameAddress layout.video_table ||| OR_SEVEN)⟩

variable {layout : Layout} {others : BitVec 20 → BitVec 10 → Word} {p : paging_t} {process_id screen_start : Word}

/-- What the caller of `sys_vidmap` relies on: a failed call changes nothing; a
    successful one checked the whole pointer, returned and stored an address
    that leads to video memory, and left the program's page where it was. -/
structure VidmapSound (layout : Layout) (others : BitVec 20 → BitVec 10 → Word) (p : paging_t)
    (screen_start : Word) (result : Vidmapped) : Prop where
  failed : result.value = -1 →
    result.after.page_dir = p.page_dir ∧ result.after.video_table = p.video_table
  pointer : result.value ≠ -1 → 0x8000000 ≤ screen_start.toNat ∧ screen_start.toNat + 4 ≤ 0x8400000
  screen : result.value ≠ -1 → ∃ address mapping, result.screen = some address ∧ result.value = address.toNat ∧
    result.after.translate layout others address = some mapping ∧ mapping.physical = VIDEO_PAGE ∧
    mapping.user = true
  program : result.value ≠ -1 → ∀ va : Word, 0x8000000 ≤ va.toNat → va.toNat < 0x8400000 →
    result.after.translate layout others va = p.translate layout others va

/-- The pointers `sys_vidmap` rejects. -/
def Rejected (screen_start : Word) : Prop :=
  screen_start = 0#32 ∨ screen_start.toNat < 0x8000000 ∨ 0x8400000 < screen_start.toNat

theorem sys_vidmap_rejected (hrejected : Rejected screen_start) :
    sys_vidmap layout p screen_start = ⟨-1, none, p⟩ := by
  unfold sys_vidmap
  rcases hrejected with h | h
  · rw [if_pos h]
  · split
    · rfl
    · exact if_pos h

theorem sys_vidmap_accepted (haccepted : ¬ Rejected screen_start) :
    sys_vidmap layout p screen_start = ⟨0x8400000, some VIDEO_START,
      ({ p with video_table := filled_video_table } : paging_t).setEntry
        (frameAddress layout.video_table ||| OR_SEVEN)⟩ := by
  have hnull : screen_start ≠ 0#32 := fun h => haccepted (Or.inl h)
  have hrange : ¬ (screen_start.toNat < 0x8000000 ∨ 0x8400000 < screen_start.toNat) := fun h => haccepted (Or.inr h)
  rw [sys_vidmap, if_neg hnull]
  exact if_neg hrange

/-- The new directory entry is present, open to the user, not a 4 MB page, and
    points to the video table. -/
theorem video_entry_bits (frame : BitVec 20) :
    (frameAddress frame ||| OR_SEVEN).getLsbD 0 = true ∧ (frameAddress frame ||| OR_SEVEN).getLsbD 2 = true ∧
      (frameAddress frame ||| OR_SEVEN).getLsbD 7 = false ∧
      (frameAddress frame ||| OR_SEVEN).extractLsb' 12 20 = frame := by
  obtain ⟨hlow, hframe⟩ := table_entry_bits frame (show OR_SEVEN.toNat < 4096 by decide)
  exact ⟨hlow 0 (by decide), hlow 2 (by decide), hlow 7 (by decide), hframe⟩

/-- After an accepted call the first address of the program leads to video
    memory. -/
theorem sys_vidmap_shadows (layout : Layout) (others : BitVec 20 → BitVec 10 → Word) (p : paging_t)
    (haccepted : ¬ Rejected screen_start) :
    ∃ mapping, (sys_vidmap layout p screen_start).after.translate layout others ONETWOEIGHTMB = some mapping ∧
      mapping.physical = VIDEO_PAGE := by
  obtain ⟨hpresent, -, hsmall, hframe⟩ := video_entry_bits layout.video_table
  rw [sys_vidmap_accepted haccepted]
  have hslot : slot ONETWOEIGHTMB = PAGE_VALUE := by decide
  have hentry : (({ p with video_table := filled_video_table } : paging_t).setEntry
      (frameAddress layout.video_table ||| OR_SEVEN)).page_dir (slot ONETWOEIGHTMB) =
      frameAddress layout.video_table ||| OR_SEVEN := by
    rw [hslot, paging_t.setEntry_same]
  rw [paging_t.translate, translate_small (by rw [hentry, hpresent]) (by rw [hentry, hsmall])]
  rw [hentry, hframe]
  have hne : ¬ layout.video_table = layout.page_table := fun h => layout.distinct h.symm
  have hindex : index ONETWOEIGHTMB = 0#10 := by decide
  simp only [paging_t.tables, if_neg hne, if_true, paging_t.setEntry_video_table, hindex]
  exact ⟨_, rfl, by dsimp only; decide⟩

/-- While a process runs in its page, `sys_vidmap` does what its caller relies on
    exactly for the pointers it rejects. For every other pointer it replaces
    the directory entry of the program itself. -/
theorem sys_vidmap_sound_iff (hprocess : process_id.toNat < 6)
    (hentry : p.page_dir PAGE_VALUE = page_entry process_id) :
    VidmapSound layout others p screen_start (sys_vidmap layout p screen_start) ↔ Rejected screen_start := by
  constructor
  · intro hsound
    by_contra haccepted
    have hvalue : (sys_vidmap layout p screen_start).value ≠ -1 := by
      rw [sys_vidmap_accepted haccepted]
      dsimp only
      decide
    have hsame := hsound.program hvalue ONETWOEIGHTMB (by decide) (by decide)
    obtain ⟨video, hvideo, hvideophysical⟩ := sys_vidmap_shadows layout others p haccepted
    obtain ⟨user, huser, huserphysical, -, -⟩ :=
      translate_user layout others hprocess hentry (show 0x8000000 ≤ ONETWOEIGHTMB.toNat by decide) (by decide)
    rw [hvideo, huser, Option.some.injEq] at hsame
    rw [← hsame, hvideophysical] at huserphysical
    simp only [VIDEO_PAGE, ONETWOEIGHTMB, BitVec.toNat_ofNat] at huserphysical
    omega
  · intro hrejected
    rw [sys_vidmap_rejected hrejected]
    exact ⟨fun _ => ⟨rfl, rfl⟩, fun h => absurd rfl h, fun h => absurd rfl h, fun h => absurd rfl h⟩

/-- The paging structures in which the first shell runs. -/
def shell_paging (layout : Layout) : paging_t :=
  (page_fill layout ⟨fun _ => 0#32, fun _ => 0#32, fun _ => 0#32⟩).setEntry (page_entry 0#32)

/-- A NULL pointer is rejected without harm. -/
theorem sys_vidmap_sound_iff_null : VidmapSound small_layout (fun _ _ => 0#32) (shell_paging small_layout) 0#32
    (sys_vidmap small_layout (shell_paging small_layout) 0#32) :=
  (sys_vidmap_sound_iff (show (0#32).toNat < 6 by decide) rfl).mpr (Or.inl rfl)

/-- A good pointer is accepted and takes the program's page away. -/
theorem sys_vidmap_unsound : ¬ ∀ (layout : Layout) (others : BitVec 20 → BitVec 10 → Word) (p : paging_t)
    (process_id screen_start : Word), process_id.toNat < 6 → p.page_dir PAGE_VALUE = page_entry process_id →
      VidmapSound layout others p screen_start (sys_vidmap layout p screen_start) := by
  intro hall
  have hsound := hall small_layout (fun _ _ => 0#32) (shell_paging small_layout) 0#32 0x8048000#32 (by decide) rfl
  have hsame := hsound.program (by decide) ONETWOEIGHTMB (by decide) (by decide)
  exact absurd hsame (by decide)

end houseam.paging
