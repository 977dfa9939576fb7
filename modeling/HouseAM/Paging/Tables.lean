import HouseAM.Types
import HouseAM.Support.Paging
import Mathlib.Logic.Function.Basic
import Mathlib.Tactic.IntervalCases

open support.paging

namespace houseam.paging

def EIGHTMB : Word := 0x800000#32
def EIGHTKB : Word := 0x2000#32
def ONETWOEIGHTMB : Word := 0x8000000#32
def SET_ENTRY : Word := 0x87#32
def PAGE_VALUE : BitVec 10 := 32#10
def VIDEO_PAGE : Word := 0xB8000#32
def OR_SIX : Word := 6#32
def OR_SEVEN : Word := 7#32
def enable_entry : Word := 3#32
def enable_4megabyte_page : Word := 0x80#32
def kernel : Word := 0x400000#32

/-- The frames the linker gives the two page tables, which are aligned to 4 KB
    and do not overlap. -/
structure Layout where
  page_table : BitVec 20
  video_table : BitVec 20
  distinct : page_table ≠ video_table

/-- The frames of some kernel image. -/
def small_layout : Layout := ⟨0x500#20, 0x501#20, by decide⟩

/-- The paging structures of the kernel. -/
structure paging_t where
  page_dir : BitVec 10 → Word
  page_table : BitVec 10 → Word
  video_table : BitVec 10 → Word

/-- The address of a 4 KB-aligned object in a frame. -/
def frameAddress (frame : BitVec 20) : Word := frame ++ 0#12

/-- The page tables by the frames they are in; `others` is the rest of memory. -/
def paging_t.tables (layout : Layout) (others : BitVec 20 → BitVec 10 → Word) (p : paging_t) :
    BitVec 20 → BitVec 10 → Word := fun frame =>
  if frame = layout.page_table then p.page_table
  else if frame = layout.video_table then p.video_table
  else others frame

/-- What an address is mapped to once the TLB is flushed. -/
def paging_t.translate (layout : Layout) (others : BitVec 20 → BitVec 10 → Word) (p : paging_t) (va : Word) :
    Option Mapping := support.paging.translate p.page_dir (p.tables layout others) va

/-- The page table after `page_fill`: the four pages of video memory. -/
def filled_page_table : BitVec 10 → Word := fun i =>
  if i = 184#10 then 0xB8000#32 ||| enable_entry
  else if i = 185#10 then 0xB9000#32 ||| enable_entry
  else if i = 186#10 then 0xBA000#32 ||| enable_entry
  else if i = 187#10 then 0xBB000#32 ||| enable_entry
  else 0#32

/-- The page directory after `page_fill`: the page table and the kernel's page. -/
def filled_page_dir (layout : Layout) : BitVec 10 → Word := fun i =>
  if i = 0#10 then frameAddress layout.page_table ||| enable_entry
  else if i = 1#10 then kernel ||| enable_4megabyte_page ||| enable_entry
  else 0#32

def page_fill (layout : Layout) (p : paging_t) : paging_t :=
  { p with page_dir := filled_page_dir layout, page_table := filled_page_table }

/-- The directory entry that `sys_execute` and `sys_halt` compute for a process. -/
def page_entry (process_id : Word) : Word := process_id * 0x400000#32 + EIGHTMB ||| SET_ENTRY

/-- Assigning `page_dir[32]`. -/
def paging_t.setEntry (p : paging_t) (entry : Word) : paging_t :=
  { p with page_dir := Function.update p.page_dir PAGE_VALUE entry }

@[simp] theorem paging_t.setEntry_same (p : paging_t) (entry : Word) :
    (p.setEntry entry).page_dir PAGE_VALUE = entry := by
  simp [paging_t.setEntry]

@[simp] theorem paging_t.setEntry_other (p : paging_t) (entry : Word) {i : BitVec 10} (hi : i ≠ PAGE_VALUE) :
    (p.setEntry entry).page_dir i = p.page_dir i := by
  simp [paging_t.setEntry, hi]

@[simp] theorem paging_t.setEntry_page_table (p : paging_t) (entry : Word) :
    (p.setEntry entry).page_table = p.page_table := rfl

@[simp] theorem paging_t.setEntry_video_table (p : paging_t) (entry : Word) :
    (p.setEntry entry).video_table = p.video_table := rfl

@[simp] theorem paging_t.setEntry_setEntry (p : paging_t) (entry entry' : Word) :
    (p.setEntry entry).setEntry entry' = p.setEntry entry' := by
  simp [paging_t.setEntry]

/-- An entry made of a table's address and flag bits. -/
theorem table_entry_bits (frame : BitVec 20) {flags : Word} (hflags : flags.toNat < 4096) :
    (∀ i, i < 12 → (frameAddress frame ||| flags).getLsbD i = flags.getLsbD i) ∧
      (frameAddress frame ||| flags).extractLsb' 12 20 = frame := by
  constructor
  · intro i hi
    simp only [frameAddress, BitVec.getLsbD_or, BitVec.getLsbD_append, if_pos hi, BitVec.getLsbD_zero, Bool.false_or]
  · apply BitVec.eq_of_getLsbD_eq
    intro i hi
    have hclear : flags.getLsbD (12 + i) = false := by
      rw [BitVec.getLsbD, Nat.testBit_lt_two_pow]
      exact Nat.lt_of_lt_of_le hflags (Nat.pow_le_pow_right (n := 2) (by decide) (show 12 ≤ 12 + i by omega))
    simp only [frameAddress, BitVec.getLsbD_extractLsb', hi, decide_true, Bool.true_and, BitVec.getLsbD_or,
      BitVec.getLsbD_append, hclear, Bool.or_false]
    rw [if_neg (by omega), Nat.add_sub_cancel_left]

/-- The entry of one of the six processes is a present, writable user page of
    4 MB at 8 MB + 4 MB times the process number. -/
theorem page_entry_bits {process_id : Word} (hprocess : process_id.toNat < 6) :
    (page_entry process_id).getLsbD 0 = true ∧ (page_entry process_id).getLsbD 1 = true ∧
      (page_entry process_id).getLsbD 2 = true ∧ (page_entry process_id).getLsbD 7 = true ∧
      (page_entry process_id).toNat / 4194304 = process_id.toNat + 2 := by
  have hfin : ∀ n : Fin 6, (page_entry (BitVec.ofNat 32 n.val)).getLsbD 0 = true ∧
      (page_entry (BitVec.ofNat 32 n.val)).getLsbD 1 = true ∧
      (page_entry (BitVec.ofNat 32 n.val)).getLsbD 2 = true ∧
      (page_entry (BitVec.ofNat 32 n.val)).getLsbD 7 = true ∧
      (page_entry (BitVec.ofNat 32 n.val)).toNat / 4194304 = n.val + 2 := by decide
  simpa using hfin ⟨process_id.toNat, hprocess⟩

/-- The addresses of the program's slot are those from 128 MB to 132 MB. -/
theorem slot_eq_page_value {va : Word} : slot va = PAGE_VALUE ↔ 0x8000000 ≤ va.toNat ∧ va.toNat < 0x8400000 := by
  rw [slot_eq_iff, PAGE_VALUE]
  simp

/-- With the entry of a process installed, the 4 MB from 128 MB on are its page. -/
theorem translate_user (layout : Layout) (others : BitVec 20 → BitVec 10 → Word) {p : paging_t} {process_id va : Word}
    (hprocess : process_id.toNat < 6) (hentry : p.page_dir PAGE_VALUE = page_entry process_id)
    (hlo : 0x8000000 ≤ va.toNat) (hhi : va.toNat < 0x8400000) :
    ∃ mapping, p.translate layout others va = some mapping ∧
      mapping.physical.toNat = 0x800000 + 0x400000 * process_id.toNat + (va.toNat - 0x8000000) ∧
      mapping.user = true ∧ mapping.writable = true := by
  obtain ⟨hpresent, hwrite, huser, hlarge, hbase⟩ := page_entry_bits hprocess
  have hslot : p.page_dir (slot va) = page_entry process_id := by
    rw [slot_eq_page_value.mpr ⟨hlo, hhi⟩, hentry]
  refine ⟨_, translate_large (by rw [hslot, hpresent]) (by rw [hslot, hlarge]), ?_, ?_, ?_⟩
  · rw [hslot]
    dsimp only
    rw [large_physical_toNat, hbase]
    omega
  · rw [hslot]
    exact huser
  · rw [hslot]
    exact hwrite

end houseam.paging
