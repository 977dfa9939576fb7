import HouseAM.Paging.AddressSpace
import HouseAM.Process.Argument
import HouseAM.Process.Loader

open houseam.filesystem houseam.paging houseam.system_call houseam.terminal support.paging

namespace houseam.process

variable {sys : System} {k k' : Kernel} {f : Frame} {q : Fin 6} {save_value save_value' : Word}

/-- A valid file is loaded to the addresses from `VIRTUAL_ADDR` on, each byte once. -/
theorem load_spec {img : Image} {inode : Word} (hfile : img.FileOk inode) :
    load img inode = some (chunk 0 (img.fileBytes inode)) := load_whole hfile.whole

/-- The copies of a list of stores. -/
def copy_ops (stores : List (Word × Byte)) : List Op := stores.map fun store => .copy store.1 store.2

/-- Copies that succeed write physical memory that is mapped, and nothing else. -/
theorem copy_ops_inv {stores : List (Word × Byte)}
    (hperform : perform_all sys q f (copy_ops stores) (k, save_value) = some (k', save_value')) :
    save_value' = save_value ∧ ∃ memory, k' = { k with memory := memory } ∧
      ∀ physical, memory physical ≠ k.memory physical →
        ∃ va mapping, k.translate sys va = some mapping ∧ mapping.physical = physical := by
  induction stores generalizing k with
  | nil =>
    cases hperform
    exact ⟨rfl, _, rfl, fun _ h => absurd rfl h⟩
  | cons store stores ih =>
    rw [copy_ops, List.map_cons, perform_all_cons, perform] at hperform
    cases htranslate : k.translate sys store.1 with
    | none => rw [htranslate] at hperform; cases hperform
    | some mapping =>
      rw [htranslate, Option.map_some, Option.bind_some] at hperform
      obtain ⟨hsave, memory, rfl, hmapped⟩ := ih hperform
      refine ⟨hsave, memory, rfl, fun physical hchanged => ?_⟩
      by_cases hhere : physical = mapping.physical
      · exact ⟨store.1, mapping, htranslate, hhere.symm⟩
      · apply hmapped physical
        simpa [hhere] using hchanged

/-- Where a process's page puts the byte of its program at an index. -/
def programAddress (q : Fin 6) (index : Nat) : Nat := 0x848000 + 0x400000 * q.val + index

/-- The address a byte of a file is loaded at. -/
theorem virtual_addr_toNat {i : Nat} (hi : i < 0x3B8000) :
    (VIRTUAL_ADDR + BitVec.ofInt 32 (i : Int)).toNat = 0x8048000 + i := by
  rw [BitVec.toNat_add, BitVec.toNat_ofInt]
  simp only [VIRTUAL_ADDR, BitVec.toNat_ofNat]
  omega

/-- Where the page of a process puts it. -/
theorem translate_program (sys : System) {paging : paging_t} {q : Fin 6} {i : Nat}
    (hentry : paging.page_dir PAGE_VALUE = page_entry (pid q))
    (hi : i < 0x3B8000) :
    ∃ mapping, paging.translate sys.layout sys.others (VIRTUAL_ADDR + BitVec.ofInt 32 (i : Int)) = some mapping ∧
      mapping.physical = BitVec.ofNat 32 (programAddress q i) := by
  have hq := q.isLt
  have hva := virtual_addr_toNat hi
  obtain ⟨mapping, htranslate, hphysical, -, -⟩ := translate_user sys.layout sys.others (pid_lt q) hentry
    (show 0x8000000 ≤ (VIRTUAL_ADDR + BitVec.ofInt 32 (i : Int)).toNat by omega) (by omega)
  refine ⟨mapping, htranslate, ?_⟩
  apply BitVec.eq_of_toNat_eq
  rw [hphysical, BitVec.toNat_ofNat, pid_toNat, hva, programAddress]
  omega

/-- Copies into the page of the process whose entry is installed: they succeed,
    and leave the bytes one after the other. -/
theorem copy_ops_spec (sys : System) (f : Frame) (k : Kernel) (save_value : Word)
    (hentry : k.paging.page_dir PAGE_VALUE = page_entry (pid q)) (bytes : List Byte) (l : Nat)
    (hfits : l + bytes.length ≤ 0x3B8000) :
    ∃ memory, perform_all sys q f (copy_ops (chunk l bytes)) (k, save_value) =
        some ({ k with memory := memory }, save_value) ∧
      (∀ physical : Word, physical.toNat < programAddress q l ∨ programAddress q (l + bytes.length) ≤ physical.toNat →
        memory physical = k.memory physical) ∧
      ∀ i (hi : i < bytes.length), memory (BitVec.ofNat 32 (programAddress q (l + i))) = bytes[i] := by
  have hq := q.isLt
  induction bytes generalizing k l with
  | nil => exact ⟨k.memory, rfl, fun _ _ => rfl, fun i hi => absurd hi (Nat.not_lt_zero i)⟩
  | cons b bytes ih =>
    simp only [List.length_cons] at hfits
    obtain ⟨mapping, htranslate, haddress⟩ := translate_program sys hentry (show l < 0x3B8000 by omega)
    obtain ⟨memory, hperform, hframe, hbytes⟩ :=
      ih { k with memory := Function.update k.memory mapping.physical b } hentry (l + 1) (by omega)
    refine ⟨memory, ?_, ?_, ?_⟩
    · rw [copy_ops, chunk, List.map_cons, perform_all_cons, perform]
      rw [show k.translate sys (VIRTUAL_ADDR + BitVec.ofInt 32 (l : Int)) = some mapping from htranslate]
      rw [Option.map_some, Option.bind_some]
      exact_mod_cast hperform
    · intro physical houtside
      simp only [programAddress, List.length_cons] at houtside
      rw [hframe physical (by simp only [programAddress]; omega)]
      have hne : physical ≠ mapping.physical := by
        rintro rfl
        rw [haddress, BitVec.toNat_ofNat, programAddress] at houtside
        omega
      simp [hne]
    · intro i hi
      cases i with
      | zero =>
        have hbelow : (BitVec.ofNat 32 (programAddress q l)).toNat < programAddress q (l + 1) := by
          simp only [programAddress, BitVec.toNat_ofNat]
          omega
        rw [Nat.add_zero, hframe _ (Or.inl hbelow), ← haddress]
        simp
      | succ i =>
        have hbyte := hbytes i (by simpa using hi)
        rw [show l + (i + 1) = l + 1 + i by omega]
        simpa using hbyte

end houseam.process
