import HouseAM.Process.Execute

open houseam.filesystem houseam.paging houseam.system_call houseam.terminal

namespace houseam.process

variable {sys : System} {k k' : Kernel} {f : Frame} {q : Fin 6} {save_value : Word}

/-- The numbers and saved stack pointers that `sys_halt` goes by are the same in
    two PCBs. -/
structure SameNumbers (before after : pcb_t) : Prop where
  proc_num : after.proc_num = before.proc_num
  parent_proc_num : after.parent_proc_num = before.parent_proc_num
  ebp : after.ebp = before.ebp
  esp : after.esp = before.esp

theorem SameNumbers.refl (pcb : pcb_t) : SameNumbers pcb pcb := ⟨rfl, rfl, rfl, rfl⟩

theorem SameNumbers.trans {a b c : pcb_t} (hab : SameNumbers a b) (hbc : SameNumbers b c) : SameNumbers a c where
  proc_num := hbc.proc_num.trans hab.proc_num
  parent_proc_num := hbc.parent_proc_num.trans hab.parent_proc_num
  ebp := hbc.ebp.trans hab.ebp
  esp := hbc.esp.trans hab.esp

/-- The descriptors and the argument come before the numbers in a PCB. -/
theorem pcb_write_byte_numbers (pcb : pcb_t) {offset : Nat} (hoffset : offset < 256) (b : Byte) :
    SameNumbers pcb (pcb_write_byte pcb offset b) := by
  unfold pcb_write_byte
  by_cases hfds : offset < 128
  · rw [if_pos hfds]
    exact ⟨rfl, rfl, rfl, rfl⟩
  · rw [if_neg hfds, if_pos hoffset]
    exact ⟨rfl, rfl, rfl, rfl⟩

/-- The descriptors come before the argument. -/
theorem pcb_write_byte_argument (pcb : pcb_t) {offset : Nat} (hoffset : offset < 128) (b : Byte) :
    (pcb_write_byte pcb offset b).argument = pcb.argument := by
  rw [pcb_write_byte, if_pos hoffset]
  rfl

/-- The indices of the argument array, from its start, that are inside the slot. -/
def SLOT_ROOM : Nat := 8064

/-- The indices, from the array's start, below the argument in the slot above. -/
def ARGUMENT_ROOM : Nat := 8192

/-- The indices, from the array's start, below the process number in the PCB of
    the slot above. -/
def NUMBER_ROOM : Nat := 8320

/-- What storing text below an index of a claimed slot's argument array may
    change: the slot itself and, if the indices leave the slot, parts of other
    PCBs that `sys_halt` does not go by. -/
structure TextStored (limit : Nat) (q : Fin 6) (k k' : Kernel) : Prop where
  rest : k' = { k with pcbs := k'.pcbs, stack := k'.stack }
  others : limit ≤ SLOT_ROOM → ∀ p, p ≠ q → k'.pcb p = k.pcb p
  arguments : limit ≤ ARGUMENT_ROOM → ∀ p, p ≠ q → (k'.pcb p).argument = (k.pcb p).argument
  numbers : ∀ p, p ≠ q → SameNumbers (k.pcb p) (k'.pcb p)
  words : ∀ address, block address ≠ slot_block q → k'.stack address = k.stack address

theorem TextStored.refl (limit : Nat) (q : Fin 6) (k : Kernel) : TextStored limit q k k where
  rest := rfl
  others := fun _ _ _ => rfl
  arguments := fun _ _ _ => rfl
  numbers := fun p _ => SameNumbers.refl (k.pcb p)
  words := fun _ _ => rfl

theorem TextStored.trans {limit : Nat} {k'' : Kernel} (hfirst : TextStored limit q k k')
    (hrest : TextStored limit q k' k'') : TextStored limit q k k'' where
  rest := by rw [hrest.rest, hfirst.rest]
  others := fun hlimit p hp => (hrest.others hlimit p hp).trans (hfirst.others hlimit p hp)
  arguments := fun hlimit p hp => (hrest.arguments hlimit p hp).trans (hfirst.arguments hlimit p hp)
  numbers := fun p hp => (hfirst.numbers p hp).trans (hrest.numbers p hp)
  words := fun address haddress => (hrest.words address haddress).trans (hfirst.words address haddress)

/-- A store inside the claimed slot's own PCB. -/
theorem store_byte_own (k : Kernel) (f : Frame) (q : Fin 6) {j : Nat} (hj : j < 148) (b : Byte) :
    k.store_byte f ((proc_block q).toNat + 128 + j) b =
      some (k.setPcb (proc_block q) (pcb_write_byte (k.pcb q) (128 + j) b)) := by
  have hslot := proc_block_toNat q
  have hq : slot_block q ≤ 1023 := Nat.sub_le _ _
  have hdiv : ((proc_block q).toNat + 128 + j) / 8192 * 8192 = (proc_block q).toNat := by omega
  have hmod : ((proc_block q).toNat + 128 + j) % 8192 = 128 + j := by omega
  have haddress : ¬ EIGHTMB.toNat ≤ (proc_block q).toNat + 128 + j := by
    simp only [EIGHTMB, BitVec.toNat_ofNat]
    omega
  simp only [Kernel.store_byte, if_neg haddress, hdiv, hmod, BitVec.ofNat_toNat, BitVec.setWidth_eq]
  rw [if_pos (by simp only [PCB_SIZE]; omega)]
  rfl

/-- A store into the free stack of the claimed slot. -/
theorem store_byte_stack (k : Kernel) {f : Frame} {q : Fin 6} (hother : block f.esp ≠ slot_block q) {j : Nat}
    (hlo : 148 ≤ j) (hhi : j < 8064) (b : Byte) :
    ∃ address value, block address = slot_block q ∧
      k.store_byte f ((proc_block q).toNat + 128 + j) b = some (k.setWord address value) := by
  have hslot := proc_block_toNat q
  have hq : slot_block q ≤ 1023 := Nat.sub_le _ _
  have hdiv : ((proc_block q).toNat + 128 + j) / 8192 = slot_block q := by omega
  have haddress : ¬ EIGHTMB.toNat ≤ (proc_block q).toNat + 128 + j := by
    simp only [EIGHTMB, BitVec.toNat_ofNat]
    omega
  have hblock : block (BitVec.ofNat 32 (((proc_block q).toNat + 128 + j) / 4 * 4)) = slot_block q := by
    simp only [block, BitVec.toNat_ofNat]
    omega
  rw [Kernel.store_byte, if_neg haddress, if_neg (by simp only [PCB_SIZE]; omega), hdiv,
    if_neg (fun h => hother h.1.symm)]
  exact ⟨_, _, hblock, rfl⟩

/-- A store that leaves the slot goes to the PCB of the slot above. -/
theorem store_byte_above (k : Kernel) (f : Frame) {p q : Fin 6} (hq : q.val = p.val + 1) {j : Nat} (hlo : 8064 ≤ j)
    (hhi : j < 8340) (b : Byte) :
    k.store_byte f ((proc_block q).toNat + 128 + j) b =
      some (k.setPcb (proc_block p) (pcb_write_byte (k.pcb p) (j - 8064) b)) := by
  have hslot := proc_block_toNat q
  have habove := proc_block_toNat p
  simp only [slot_block] at hslot habove
  have hdiv : ((proc_block q).toNat + 128 + j) / 8192 * 8192 = (proc_block p).toNat := by omega
  have hmod : ((proc_block q).toNat + 128 + j) % 8192 = j - 8064 := by omega
  have haddress : ¬ EIGHTMB.toNat ≤ (proc_block q).toNat + 128 + j := by
    simp only [EIGHTMB, BitVec.toNat_ofNat]
    omega
  simp only [Kernel.store_byte, if_neg haddress, hdiv, hmod, BitVec.ofNat_toNat, BitVec.setWidth_eq]
  rw [if_pos (by simp only [PCB_SIZE]; omega)]
  rfl

theorem setPcb_textStored {limit : Nat} (k : Kernel) {p : Fin 6} {pcb : pcb_t} (hothers : limit ≤ SLOT_ROOM → p = q)
    (hargument : limit ≤ ARGUMENT_ROOM → p ≠ q → pcb.argument = (k.pcb p).argument)
    (hpcb : p ≠ q → SameNumbers (k.pcb p) pcb) : TextStored limit q k (k.setPcb (proc_block p) pcb) where
  rest := rfl
  others := by
    intro hlimit r hr
    rw [hothers hlimit]
    exact Kernel.setPcb_pcb_other k pcb hr
  arguments := by
    intro hlimit r hr
    by_cases hrp : r = p
    · subst hrp
      rw [Kernel.setPcb_pcb_same]
      exact hargument hlimit hr
    · rw [Kernel.setPcb_pcb_other k pcb hrp]
  numbers := by
    intro r hr
    by_cases hrp : r = p
    · subst hrp
      rw [Kernel.setPcb_pcb_same]
      exact hpcb hr
    · rw [Kernel.setPcb_pcb_other k pcb hrp]
      exact SameNumbers.refl _
  words := fun _ _ => rfl

/-- What one store of the text loop can do while it has not reached the process
    number in the slot above. -/
inductive ArgumentEffect (q : Fin 6) (j : Nat) (b : Byte) (k : Kernel) : Kernel → Prop where
  | own (pcb : pcb_t) : ArgumentEffect q j b k (k.setPcb (proc_block q) pcb)
  | stack {address : Word} (value : Word) (hblock : block address = slot_block q) :
      ArgumentEffect q j b k (k.setWord address value)
  | above {p : Fin 6} (hlo : SLOT_ROOM ≤ j) (hhi : j < NUMBER_ROOM) (hp : p ≠ q) :
      ArgumentEffect q j b k (k.setPcb (proc_block p) (pcb_write_byte (k.pcb p) (j - SLOT_ROOM) b))

theorem argument_effect (sys : System) (save_value : Word) (k : Kernel) {f : Frame}
    (hother : block f.esp ≠ slot_block q) (hq : q ≠ 0) {j : Nat} (hj : j < NUMBER_ROOM) (b : Byte) :
    ∃ k', perform sys q f (.argument j b) (k, save_value) = some (k', save_value) ∧ ArgumentEffect q j b k k' := by
  have hlimit : j < 8320 := hj
  by_cases hown : j < 148
  · refine ⟨_, ?_, .own (pcb_write_byte (k.pcb q) (128 + j) b)⟩
    rw [perform, store_byte_own k f q hown b]
    rfl
  · by_cases hstack : j < 8064
    · obtain ⟨address, value, hblock, hstore⟩ := store_byte_stack k hother (by omega) hstack b
      refine ⟨_, ?_, .stack value hblock⟩
      rw [perform, hstore]
      rfl
    · obtain ⟨p, hp⟩ : ∃ p : Fin 6, q.val = p.val + 1 := by
        have hpos : 0 < q.val := Nat.pos_of_ne_zero fun h => hq (Fin.ext h)
        refine ⟨⟨q.val - 1, by omega⟩, ?_⟩
        dsimp only
        omega
      have hne : p ≠ q := by
        rintro rfl
        omega
      refine ⟨_, ?_, .above (Nat.le_of_not_lt hstack) hj hne⟩
      rw [perform, store_byte_above k f hp (show 8064 ≤ j by omega) (show j < 8340 by omega) b]
      rfl

/-- One store of the text loop. -/
theorem argument_stored (sys : System) (save_value : Word) {limit : Nat} (k : Kernel) {f : Frame}
    (hother : block f.esp ≠ slot_block q) (hq : q ≠ 0)
    {j : Nat} (hj : j < limit) (hlimit : limit ≤ NUMBER_ROOM) (b : Byte) :
    ∃ k', perform sys q f (.argument j b) (k, save_value) = some (k', save_value) ∧ TextStored limit q k k' := by
  obtain ⟨k', hperform, heffect⟩ := argument_effect sys save_value k hother hq (Nat.lt_of_lt_of_le hj hlimit) b
  refine ⟨k', hperform, ?_⟩
  cases heffect with
  | own pcb => exact setPcb_textStored k (fun _ => rfl) (fun _ h => absurd rfl h) fun h => absurd rfl h
  | @stack address value hblock =>
    refine ⟨rfl, fun _ _ _ => rfl, fun _ _ _ => rfl, fun p _ => SameNumbers.refl _, ?_⟩
    intro other hne
    have hdiffers : other ≠ address := by
      rintro rfl
      exact hne hblock
    simp [Kernel.setWord, hdiffers]
  | above hlo hhi hp =>
    simp only [SLOT_ROOM, NUMBER_ROOM] at hlo hhi
    refine setPcb_textStored k (fun h => ?_) (fun h _ => ?_) fun _ => ?_
    · simp only [SLOT_ROOM] at h
      omega
    · simp only [ARGUMENT_ROOM] at h
      exact pcb_write_byte_argument _ (show j - 8064 < 128 by omega) b
    · exact pcb_write_byte_numbers _ (show j - 8064 < 256 by omega) b

theorem perform_all_cons (op : Op) (ops : List Op) (s : Kernel × Word) :
    perform_all sys q f (op :: ops) s = (perform sys q f op s).bind (perform_all sys q f ops) := rfl

theorem perform_all_append (ops rest : List Op) (s : Kernel × Word) :
    perform_all sys q f (ops ++ rest) s = (perform_all sys q f ops s).bind (perform_all sys q f rest) := by
  rw [perform_all, List.foldlM_append]
  rfl

/-- The loop over the first part of a text, before it reaches that number. -/
theorem copy_text_prefix (sys : System) (save_value : Word) {limit : Nat} (k : Kernel) {f : Frame}
    (hother : block f.esp ≠ slot_block q) (hq : q ≠ 0)
    (text more : List Byte) (j : Nat) (hfits : j + text.length ≤ limit) (hlimit : limit ≤ NUMBER_ROOM) :
    ∃ k', perform_all sys q f (copy_text j (text ++ more)) (k, save_value) =
        perform_all sys q f (copy_text (j + text.length) more) (k', save_value) ∧ TextStored limit q k k' := by
  induction text generalizing j k with
  | nil => exact ⟨k, rfl, TextStored.refl limit q k⟩
  | cons b text ih =>
    simp only [List.length_cons] at hfits
    obtain ⟨k', hperform, hstored⟩ := argument_stored sys save_value k hother hq (show j < limit by omega) hlimit b
    obtain ⟨k'', hrest, hrestStored⟩ := ih k' (j + 1) (by omega)
    refine ⟨k'', ?_, hstored.trans hrestStored⟩
    rw [List.cons_append, copy_text, perform_all_cons, hperform, Option.bind_some, hrest, List.length_cons,
      show j + 1 + text.length = j + (text.length + 1) by omega]

theorem copy_text_stored (sys : System) (save_value : Word) {limit : Nat} (k : Kernel) {f : Frame}
    (hother : block f.esp ≠ slot_block q) (hq : q ≠ 0)
    (text : List Byte) (hfits : text.length < limit) (hlimit : limit ≤ NUMBER_ROOM) :
    ∃ k', perform_all sys q f (copy_text 0 text) (k, save_value) = some (k', save_value) ∧
      TextStored limit q k k' := by
  obtain ⟨k', hperform, hstored⟩ := copy_text_prefix sys save_value k hother hq text [] 0
    (show 0 + text.length ≤ limit by omega) hlimit
  obtain ⟨k'', hlast, hlastStored⟩ := argument_stored sys save_value k' hother hq
    (show 0 + text.length < limit by omega) hlimit 0#8
  refine ⟨k'', ?_, hstored.trans hlastStored⟩
  rw [List.append_nil] at hperform
  rw [hperform, copy_text, perform_all_cons, hlast]
  rfl

theorem setByte_getLsbD (w : Word) (index : Nat) (b : Byte) {i : Nat} (hi : i < 32) :
    (setByte w index b).getLsbD i = if i / 8 = index then b.getLsbD (i % 8) else w.getLsbD i := by
  simp only [setByte, BitVec.getLsbD_or, BitVec.getLsbD_and, BitVec.getLsbD_not, BitVec.getLsbD_shiftLeft,
    BitVec.getLsbD_setWidth, hi, decide_true, Bool.true_and]
  by_cases hbelow : i < 8 * index
  · rw [if_neg (by omega)]
    simp [hbelow]
  · by_cases hhere : i / 8 = index
    · have hlt : i - 8 * index < 8 := by omega
      have hmod : i - 8 * index = i % 8 := by omega
      have hones : (0xFF#32).getLsbD (i % 8) = true := by
        have hall : ∀ n : Fin 8, (0xFF#32).getLsbD n.val = true := by decide
        exact hall ⟨i % 8, Nat.mod_lt _ (by decide)⟩
      have hword : i % 8 < 32 := by omega
      simp [hbelow, hhere, hmod, hones, hword]
    · rw [if_neg hhere]
      have hzero : (0xFF#32).getLsbD (i - 8 * index) = false := by
        rw [BitVec.getLsbD, Nat.testBit_lt_two_pow]
        exact Nat.lt_of_lt_of_le (show (0xFF#32).toNat < 2 ^ 8 by decide) (Nat.pow_le_pow_right (by decide) (by omega))
      have hout : b.getLsbD (i - 8 * index) = false := BitVec.getLsbD_of_ge b _ (by omega)
      simp [hbelow, hzero, hout]

/-- Stores to the four bytes of a word replace it. -/
theorem setByte_word (w : Word) (b0 b1 b2 b3 : Byte) :
    setByte (setByte (setByte (setByte w 0 b0) 1 b1) 2 b2) 3 b3 = wordOfBytes b0 b1 b2 b3 := by
  apply BitVec.eq_of_getLsbD_eq
  intro i hi
  simp only [setByte_getLsbD _ _ _ hi, wordOfBytes, BitVec.getLsbD_append]
  have hbyte : i / 8 = 3 ∨ i / 8 = 2 ∨ i / 8 = 1 ∨ i / 8 = 0 := by omega
  rcases hbyte with h | h | h | h
  · simp [h, show ¬ i < 8 by omega, show ¬ i - 8 < 8 by omega, show ¬ i - 8 - 8 < 8 by omega,
      show i - 8 - 8 - 8 = i % 8 by omega]
  · simp [h, show ¬ i < 8 by omega, show ¬ i - 8 < 8 by omega, show i - 8 - 8 = i % 8 by omega,
      show i % 8 < 8 by omega]
  · simp [h, show ¬ i < 8 by omega, show i - 8 = i % 8 by omega, show i % 8 < 8 by omega]
  · simp [h, show i < 8 by omega, show i % 8 = i by omega]

/-- The store at `argument[NUMBER_ROOM+index]` changes a byte of the process number
    in the slot above. -/
theorem argument_number (sys : System) (save_value : Word) (k : Kernel) (f : Frame) {p q : Fin 6}
    (hq : q.val = p.val + 1) {index : Nat}
    (hindex : index < 4) (b : Byte) :
    ∃ k', perform sys q f (.argument (NUMBER_ROOM + index) b) (k, save_value) = some (k', save_value) ∧
      (k'.pcb p).proc_num = setByte (k.pcb p).proc_num index b := by
  have hstore := store_byte_above k f hq (show 8064 ≤ NUMBER_ROOM + index by simp only [NUMBER_ROOM]; omega)
    (show NUMBER_ROOM + index < 8340 by simp only [NUMBER_ROOM]; omega) b
  refine ⟨_, by rw [perform, hstore]; rfl, ?_⟩
  rw [Kernel.setPcb_pcb_same, NUMBER_ROOM, show 8320 + index - 8064 = 256 + index by omega, pcb_write_byte,
    if_neg (by omega), if_neg (by omega), if_pos (by omega), Nat.add_sub_cancel_left]

/-- The NUL behind it goes to the parent's number. -/
theorem argument_behind_number (sys : System) (save_value : Word) (k : Kernel) (f : Frame) {p q : Fin 6}
    (hq : q.val = p.val + 1) (b : Byte) :
    ∃ k', perform sys q f (.argument (NUMBER_ROOM + 4) b) (k, save_value) = some (k', save_value) ∧
      (k'.pcb p).proc_num = (k.pcb p).proc_num := by
  have hstore := store_byte_above k f hq (show 8064 ≤ NUMBER_ROOM + 4 by decide)
    (show NUMBER_ROOM + 4 < 8340 by decide) b
  refine ⟨_, by rw [perform, hstore]; rfl, ?_⟩
  rw [Kernel.setPcb_pcb_same]
  rfl

/-- A text that goes on behind the free stack and the descriptors and argument
    of the slot above replaces the process number there. -/
theorem copy_text_overwrites (sys : System) (save_value : Word) (k : Kernel) {f : Frame} {p q : Fin 6}
    (hother : block f.esp ≠ slot_block q)
    (hq : q.val = p.val + 1) {text : List Byte} (htext : text.length = NUMBER_ROOM) (b0 b1 b2 b3 : Byte) :
    ∃ k', perform_all sys q f (copy_text 0 (text ++ [b0, b1, b2, b3])) (k, save_value) = some (k', save_value) ∧
      (k'.pcb p).proc_num = wordOfBytes b0 b1 b2 b3 := by
  have hne : q ≠ 0 := by
    rintro rfl
    exact absurd hq (by simp)
  obtain ⟨k', hroom, -⟩ := copy_text_prefix sys save_value k hother hne text
    [b0, b1, b2, b3] 0 (show 0 + text.length ≤ NUMBER_ROOM by omega) (Nat.le_refl _)
  obtain ⟨k0, hk0, hnum0⟩ := argument_number sys save_value k' f hq (show 0 < 4 by decide) b0
  obtain ⟨k1, hk1, hnum1⟩ := argument_number sys save_value k0 f hq (show 1 < 4 by decide) b1
  obtain ⟨k2, hk2, hnum2⟩ := argument_number sys save_value k1 f hq (show 2 < 4 by decide) b2
  obtain ⟨k3, hk3, hnum3⟩ := argument_number sys save_value k2 f hq (show 3 < 4 by decide) b3
  obtain ⟨k4, hk4, hnum4⟩ := argument_behind_number sys save_value k3 f hq 0#8
  refine ⟨k4, ?_, ?_⟩
  · rw [hroom, Nat.zero_add, htext, copy_text, perform_all_cons, show NUMBER_ROOM = NUMBER_ROOM + 0 from rfl, hk0,
      Option.bind_some, copy_text, perform_all_cons, hk1, Option.bind_some, copy_text, perform_all_cons, hk2,
      Option.bind_some, copy_text, perform_all_cons, hk3, Option.bind_some, copy_text, perform_all_cons, hk4]
    rfl
  · rw [hnum4, hnum3, hnum2, hnum1, hnum0, setByte_word]

/-- The argument array after the loop has stored the text from `argument[j]` on
    and a NUL behind it. -/
def text_over (old : Fin 128 → Byte) : Nat → List Byte → Fin 128 → Byte
  | j, [] => Function.update old (Fin.ofNat 128 j) 0#8
  | j, b :: text => text_over (Function.update old (Fin.ofNat 128 j) b) (j + 1) text

/-- The argument array of a slot after the parse of a command whose text fits. -/
def argument_after (old : Fin 128 → Byte) : Option (List Byte) → Fin 128 → Byte
  | none => old
  | some text => text_over old 0 text

theorem argument_short (sys : System) (save_value : Word) (k : Kernel) (f : Frame) (q : Fin 6) {j : Nat}
    (hj : j < 128) (b : Byte) :
    perform sys q f (.argument j b) (k, save_value) = some (k.setPcb (proc_block q)
      { k.pcb q with argument := Function.update (k.pcb q).argument (Fin.ofNat 128 j) b }, save_value) := by
  have hwrite : pcb_write_byte (k.pcb q) (128 + j) b =
      { k.pcb q with argument := Function.update (k.pcb q).argument (Fin.ofNat 128 j) b } := by
    rw [pcb_write_byte, if_neg (by omega), if_pos (by omega), Nat.add_sub_cancel_left]
  rw [perform, store_byte_own k f q (by omega) b, hwrite]
  rfl

/-- A text that fits changes the argument array of the claimed slot and nothing
    else. -/
theorem copy_text_short (sys : System) (save_value : Word) (k : Kernel) (f : Frame) (q : Fin 6) (text : List Byte)
    (j : Nat)
    (hfits : j + text.length < 128) :
    perform_all sys q f (copy_text j text) (k, save_value) = some (k.setPcb (proc_block q)
      { k.pcb q with argument := text_over (k.pcb q).argument j text }, save_value) := by
  induction text generalizing j k with
  | nil =>
    rw [copy_text, perform_all_cons, argument_short sys save_value k f q (show j < 128 from hfits)]
    rfl
  | cons b text ih =>
    simp only [List.length_cons] at hfits
    rw [copy_text, perform_all_cons, argument_short sys save_value k f q (by omega), Option.bind_some,
      ih _ (j + 1) (by omega)]
    simp only [Kernel.setPcb_pcb_same, text_over]
    simp only [Kernel.setPcb, Function.update_idem]

end houseam.process
