import HouseAM.Paging.Tables

open support.paging

namespace houseam.paging

variable {layout : Layout} {others : BitVec 20 → BitVec 10 → Word} {p : paging_t} {process_id va : Word}

/-- The tables `page_fill` set up, whatever the program's entry is. -/
structure Filled (layout : Layout) (p : paging_t) : Prop where
  page_dir : ∀ i, i ≠ PAGE_VALUE → p.page_dir i = filled_page_dir layout i
  page_table : p.page_table = filled_page_table

def InProgram (va : Word) : Prop := 0x8000000 ≤ va.toNat ∧ va.toNat < 0x8400000

/-- The addresses of the kernel's page and of the four video pages. -/
def InKernel (va : Word) : Prop :=
  0x400000 ≤ va.toNat ∧ va.toNat < 0x800000 ∨ 0xB8000 ≤ va.toNat ∧ va.toNat < 0xBC000

theorem page_fill_filled (layout : Layout) (p : paging_t) : Filled layout (page_fill layout p) :=
  ⟨fun _ _ => rfl, rfl⟩

theorem Filled.setEntry (hfilled : Filled layout p) (entry : Word) : Filled layout (p.setEntry entry) where
  page_dir := fun i hi => by rw [paging_t.setEntry_other p entry hi, hfilled.page_dir i hi]
  page_table := hfilled.page_table

/-- Video memory is mapped where it is, for the kernel alone, and the rest of
    the first 4 MB is not mapped. -/
theorem translate_low (hfilled : Filled layout p) (hlow : va.toNat < 0x400000) :
    p.translate layout others va =
      if 0xB8000 ≤ va.toNat ∧ va.toNat < 0xBC000 then some ⟨va, false, true⟩ else none := by
  obtain ⟨hflags, hframe⟩ := table_entry_bits layout.page_table (show enable_entry.toNat < 4096 by decide)
  have hslot : slot va = 0#10 := slot_eq_iff.mpr ⟨Nat.zero_le _, hlow⟩
  have hentry : p.page_dir (slot va) = frameAddress layout.page_table ||| enable_entry := by
    rw [hslot, hfilled.page_dir 0#10 (by decide)]
    rfl
  have hindex := index_toNat va
  rw [paging_t.translate, translate_small (by rw [hentry, hflags 0 (by decide)]; decide)
    (by rw [hentry, hflags 7 (by decide)]; decide)]
  simp only [hentry, hframe, hflags 2 (by decide), hflags 1 (by decide), paging_t.tables, if_true, hfilled.page_table]
  by_cases hvideo : 0xB8000 ≤ va.toNat ∧ va.toNat < 0xBC000
  · rw [if_pos hvideo]
    have hphysical (pte : Word) (hpte : pte.toNat / 4096 = (index va).toNat) :
        pte.extractLsb' 12 20 ++ va.extractLsb' 0 12 = va := by
      apply BitVec.eq_of_toNat_eq
      rw [small_physical_toNat, hpte]
      omega
    have hvalue : (index va).toNat = 184 ∨ (index va).toNat = 185 ∨ (index va).toNat = 186 ∨
        (index va).toNat = 187 := by omega
    rcases hvalue with h | h | h | h <;>
      · have hpage : index va = BitVec.ofNat 10 (index va).toNat := by simp
        rw [h] at hpage
        have hsame := hphysical (filled_page_table (index va)) (by rw [hpage]; decide)
        rw [hpage] at hsame ⊢
        rw [if_neg (by decide), hsame]
        rfl
  · rw [if_neg hvideo]
    have hzero : filled_page_table (index va) = 0#32 := by
      have hne (n : BitVec 10) (hn : n = 184#10 ∨ n = 185#10 ∨ n = 186#10 ∨ n = 187#10) : index va ≠ n := by
        intro h
        rw [h] at hindex
        rcases hn with rfl | rfl | rfl | rfl <;> simp only [BitVec.toNat_ofNat] at hindex <;> omega
      simp only [filled_page_table, if_neg (hne 184#10 (by simp)), if_neg (hne 185#10 (by simp)),
        if_neg (hne 186#10 (by simp)), if_neg (hne 187#10 (by simp))]
    rw [hzero, if_pos (by decide)]

/-- The kernel's page is mapped where it is, for the kernel alone. -/
theorem translate_kernel (hfilled : Filled layout p) (hlo : 0x400000 ≤ va.toNat) (hhi : va.toNat < 0x800000) :
    p.translate layout others va = some ⟨va, false, true⟩ := by
  have hslot : slot va = 1#10 := slot_eq_iff.mpr ⟨hlo, hhi⟩
  have hentry : p.page_dir (slot va) = kernel ||| enable_4megabyte_page ||| enable_entry := by
    rw [hslot, hfilled.page_dir 1#10 (by decide)]
    rfl
  have hphysical :
      (kernel ||| enable_4megabyte_page ||| enable_entry).extractLsb' 22 10 ++ va.extractLsb' 0 22 = va := by
    apply BitVec.eq_of_toNat_eq
    rw [large_physical_toNat]
    have hbase : (kernel ||| enable_4megabyte_page ||| enable_entry).toNat / 4194304 = 1 := by decide
    omega
  rw [paging_t.translate, translate_large (by rw [hentry]; decide) (by rw [hentry]; decide), hentry, hphysical]
  rfl

/-- Every other address outside the program's slot is unmapped. -/
theorem translate_elsewhere (hfilled : Filled layout p) (hprogram : ¬ InProgram va) (hhigh : 0x800000 ≤ va.toNat) :
    p.translate layout others va = none := by
  have hslot := slot_toNat va
  have hzero : slot va ≠ 0#10 := by
    intro h
    rw [h] at hslot
    simp only [BitVec.toNat_ofNat] at hslot
    omega
  have hone : slot va ≠ 1#10 := by
    intro h
    rw [h] at hslot
    simp only [BitVec.toNat_ofNat] at hslot
    omega
  have hpage : slot va ≠ PAGE_VALUE := fun h => hprogram (slot_eq_page_value.mp h)
  apply translate_absent
  rw [hfilled.page_dir _ hpage, filled_page_dir, if_neg hzero, if_neg hone]
  rfl

/-- The address space of a running process: its own page for the user from
    128 MB on, the kernel and video pages where they are for the kernel alone,
    and nothing else. -/
structure AddressSpace (layout : Layout) (others : BitVec 20 → BitVec 10 → Word) (p : paging_t) (process_id : Word) :
    Prop where
  user : ∀ va, (∃ mapping, p.translate layout others va = some mapping ∧ mapping.user = true) ↔ InProgram va
  program : ∀ va, InProgram va → ∃ mapping, p.translate layout others va = some mapping ∧
    mapping.physical.toNat = 0x800000 + 0x400000 * process_id.toNat + (va.toNat - 0x8000000)
  kernel_only : ∀ va, (∃ mapping, p.translate layout others va = some mapping ∧ mapping.user = false) ↔ InKernel va
  identity : ∀ va mapping, p.translate layout others va = some mapping → mapping.user = false → mapping.physical = va
  unmapped : ∀ va, ¬ InProgram va → ¬ InKernel va → p.translate layout others va = none

theorem addressSpace (hfilled : Filled layout p) (hprocess : process_id.toNat < 6)
    (hentry : p.page_dir PAGE_VALUE = page_entry process_id) : AddressSpace layout others p process_id := by
  have hprogram (va : Word) (hin : InProgram va) := translate_user layout others hprocess hentry hin.1 hin.2
  have hkernel (va : Word) (hin : InKernel va) : p.translate layout others va = some ⟨va, false, true⟩ := by
    rcases hin with hpage | hvideo
    · exact translate_kernel hfilled hpage.1 hpage.2
    · rw [translate_low hfilled (by omega), if_pos hvideo]
  have hnone (va : Word) (hp : ¬ InProgram va) (hk : ¬ InKernel va) : p.translate layout others va = none := by
    by_cases hhigh : 0x800000 ≤ va.toNat
    · exact translate_elsewhere hfilled hp hhigh
    · have hlow : va.toNat < 0x400000 := by
        by_contra hmiddle
        exact hk (Or.inl ⟨by omega, by omega⟩)
      rw [translate_low hfilled hlow, if_neg fun hvideo => hk (Or.inr hvideo)]
  have hdisjoint (va : Word) : InProgram va → ¬ InKernel va := by
    simp only [InProgram, InKernel]
    omega
  have hcases (va : Word) : InProgram va ∨ InKernel va ∨ (¬ InProgram va ∧ ¬ InKernel va) := by tauto
  refine ⟨fun va => ⟨?_, ?_⟩, ?_, fun va => ⟨?_, ?_⟩, ?_, hnone⟩
  · rintro ⟨mapping, htranslate, huser⟩
    rcases hcases va with h | h | h
    · exact h
    · rw [hkernel va h] at htranslate
      cases htranslate
      cases huser
    · rw [hnone va h.1 h.2] at htranslate
      cases htranslate
  · intro h
    obtain ⟨mapping, htranslate, -, huser, -⟩ := hprogram va h
    exact ⟨mapping, htranslate, huser⟩
  · intro va h
    obtain ⟨mapping, htranslate, hphysical, -, -⟩ := hprogram va h
    exact ⟨mapping, htranslate, hphysical⟩
  · rintro ⟨mapping, htranslate, huser⟩
    rcases hcases va with h | h | h
    · obtain ⟨found, hfound, -, hfoundUser, -⟩ := hprogram va h
      rw [hfound] at htranslate
      cases htranslate
      rw [hfoundUser] at huser
      cases huser
    · exact h
    · rw [hnone va h.1 h.2] at htranslate
      cases htranslate
  · intro h
    exact ⟨_, hkernel va h, rfl⟩
  · intro va mapping htranslate huser
    rcases hcases va with h | h | h
    · obtain ⟨found, hfound, -, hfoundUser, -⟩ := hprogram va h
      rw [hfound] at htranslate
      cases htranslate
      rw [hfoundUser] at huser
      cases huser
    · rw [hkernel va h] at htranslate
      cases htranslate
      rfl
    · rw [hnone va h.1 h.2] at htranslate
      cases htranslate

end houseam.paging
