import Mathlib.Data.BitVec

namespace support.paging

/-- Where a virtual address leads and which accesses it allows. -/
structure Mapping where
  physical : BitVec 32
  user : Bool
  writable : Bool
  deriving DecidableEq

/-- The index of an address into the page directory. -/
def slot (va : BitVec 32) : BitVec 10 := va.extractLsb' 22 10

/-- The index of an address into a page table. -/
def index (va : BitVec 32) : BitVec 10 := va.extractLsb' 12 10

/-- 32-bit translation with 4 MB pages enabled: bit 0 of an entry is the present
    bit, bit 1 allows writes, bit 2 user access, and bit 7 makes a directory
    entry a 4 MB page. `tables` reads the page table in a physical frame. -/
def translate (dir : BitVec 10 → BitVec 32) (tables : BitVec 20 → BitVec 10 → BitVec 32) (va : BitVec 32) :
    Option Mapping :=
  let pde := dir (slot va)
  if pde.getLsbD 0 = false then none
  else if pde.getLsbD 7 then
    some ⟨pde.extractLsb' 22 10 ++ va.extractLsb' 0 22, pde.getLsbD 2, pde.getLsbD 1⟩
  else
    let pte := tables (pde.extractLsb' 12 20) (index va)
    if pte.getLsbD 0 = false then none
    else some ⟨pte.extractLsb' 12 20 ++ va.extractLsb' 0 12, pde.getLsbD 2 && pte.getLsbD 2,
      pde.getLsbD 1 && pte.getLsbD 1⟩

variable {dir dir' : BitVec 10 → BitVec 32} {tables tables' : BitVec 20 → BitVec 10 → BitVec 32} {va : BitVec 32}

theorem slot_toNat (va : BitVec 32) : (slot va).toNat = va.toNat / 4194304 := by
  have hlt := va.isLt
  simp only [slot, BitVec.extractLsb'_toNat, Nat.shiftRight_eq_div_pow]
  omega

theorem index_toNat (va : BitVec 32) : (index va).toNat = va.toNat / 4096 % 1024 := by
  simp only [index, BitVec.extractLsb'_toNat, Nat.shiftRight_eq_div_pow]

/-- The addresses of one directory slot are 4 MB in a row. -/
theorem slot_eq_iff {k : BitVec 10} : slot va = k ↔ k.toNat * 4194304 ≤ va.toNat ∧ va.toNat <
    (k.toNat + 1) * 4194304 := by
  rw [← BitVec.toNat_inj, slot_toNat]
  omega

/-- An address whose directory entry is not present is unmapped. -/
theorem translate_absent (habsent : (dir (slot va)).getLsbD 0 = false) : translate dir tables va = none := by
  simp only [translate, habsent, if_true]

/-- An address in a 4 MB page keeps its offset in the page. -/
theorem translate_large (hpresent : (dir (slot va)).getLsbD 0 = true) (hlarge : (dir (slot va)).getLsbD 7 = true) :
    translate dir tables va = some ⟨(dir (slot va)).extractLsb' 22 10 ++ va.extractLsb' 0 22,
      (dir (slot va)).getLsbD 2, (dir (slot va)).getLsbD 1⟩ := by
  simp only [translate, hpresent, hlarge, Bool.true_eq_false, if_false, if_true]

/-- An address whose directory entry points to a table is mapped by the table's
    entry. -/
theorem translate_small (hpresent : (dir (slot va)).getLsbD 0 = true) (hsmall : (dir (slot va)).getLsbD 7 = false) :
    translate dir tables va =
      let pte := tables ((dir (slot va)).extractLsb' 12 20) (index va)
      if pte.getLsbD 0 = false then none
      else some ⟨pte.extractLsb' 12 20 ++ va.extractLsb' 0 12, (dir (slot va)).getLsbD 2 && pte.getLsbD 2,
        (dir (slot va)).getLsbD 1 && pte.getLsbD 1⟩ := by
  simp only [translate, hpresent, hsmall, Bool.true_eq_false, Bool.false_eq_true, if_false]

/-- Whether an address is mapped is the same all over its page. -/
theorem translate_isSome_page {va' : BitVec 32} (hpage : va.toNat / 4096 = va'.toNat / 4096) :
    (translate dir tables va).isSome = (translate dir tables va').isSome := by
  have hslot : slot va = slot va' := BitVec.eq_of_toNat_eq (by rw [slot_toNat, slot_toNat]; omega)
  have hindex : index va = index va' := BitVec.eq_of_toNat_eq (by rw [index_toNat, index_toNat, hpage])
  unfold translate
  dsimp only
  rw [hslot, hindex]
  split
  · rfl
  · split
    · rfl
    · split <;> rfl

theorem large_physical_toNat (entry va : BitVec 32) :
    (entry.extractLsb' 22 10 ++ va.extractLsb' 0 22).toNat = entry.toNat / 4194304 * 4194304 + va.toNat % 4194304 := by
  have hlt := entry.isLt
  rw [BitVec.toNat_append, BitVec.extractLsb'_toNat, BitVec.extractLsb'_toNat, Nat.shiftRight_eq_div_pow,
    Nat.shiftRight_zero, ← Nat.shiftLeft_add_eq_or_of_lt (Nat.mod_lt _ (by decide)), Nat.shiftLeft_eq]
  omega

theorem small_physical_toNat (entry va : BitVec 32) :
    (entry.extractLsb' 12 20 ++ va.extractLsb' 0 12).toNat = entry.toNat / 4096 * 4096 + va.toNat % 4096 := by
  have hlt := entry.isLt
  rw [BitVec.toNat_append, BitVec.extractLsb'_toNat, BitVec.extractLsb'_toNat, Nat.shiftRight_eq_div_pow,
    Nat.shiftRight_zero, ← Nat.shiftLeft_add_eq_or_of_lt (Nat.mod_lt _ (by decide)), Nat.shiftLeft_eq]
  omega

end support.paging
