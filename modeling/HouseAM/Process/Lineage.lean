import HouseAM.Process.Step

open houseam.filesystem houseam.paging houseam.system_call houseam.terminal support.paging support.runs

namespace houseam.process

variable {sys : System} {k k' : Kernel} {f : Frame} {p q : Fin 6} {status : Byte} {a b : Activation}
  {stack rest : List Activation} {c c' : Config} {command : Option CString} {base : Word}

/-- The process's slot is claimed and its PCB holds its number. -/
structure Live (k : Kernel) (a : Activation) : Prop where
  claimed : k.processes a.process_id = 1#32
  proc_num : (k.pcb a.process_id).proc_num = pid a.process_id

/-- One process was started by another: its PCB leads back to the frame of the
    call, which is intact on the other's stack. -/
structure Child (k : Kernel) (a b : Activation) : Prop where
  parent : (k.pcb a.process_id).parent_proc_num = pid b.process_id
  ebp : (k.pcb a.process_id).ebp = a.frame.ebp
  saved_ebp : k.stack a.frame.ebp = a.frame.saved_ebp
  ret : k.stack (a.frame.ebp + 4#32) = a.frame.ret
  block_ebp : block a.frame.ebp = slot_block b.process_id
  block_ret : block (a.frame.ebp + 4#32) = slot_block b.process_id
  block_after : block (a.frame.ebp + 8#32) = slot_block b.process_id

/-- The live processes have different numbers, each was started by the one below
    it, and process 0 is at the bottom. -/
def Linked (k : Kernel) : List Activation → Prop
  | [] => True
  | [a] => Live k a ∧ a.process_id = 0
  | a :: b :: rest =>
    Live k a ∧ (∀ other ∈ b :: rest, other.process_id ≠ a.process_id) ∧ Child k a b ∧ Linked k (b :: rest)

theorem Linked.head (hlinked : Linked k (a :: rest)) : Live k a := by
  cases rest with
  | nil => exact hlinked.1
  | cons b rest => exact hlinked.1

theorem Linked.tail (hlinked : Linked k (a :: rest)) : Linked k rest := by
  cases rest with
  | nil => trivial
  | cons b rest => exact hlinked.2.2.2

theorem Linked.ne_head (hlinked : Linked k (a :: rest)) (hmem : b ∈ rest) : b.process_id ≠ a.process_id := by
  cases rest with
  | nil => cases hmem
  | cons c rest => exact hlinked.2.1 b hmem

theorem Linked.live (hlinked : Linked k stack) (hmem : a ∈ stack) : Live k a := by
  induction stack with
  | nil => cases hmem
  | cons b rest ih =>
    rcases List.mem_cons.mp hmem with rfl | h
    · exact hlinked.head
    · exact ih hlinked.tail h

/-- While any process is live, process 0 is. -/
theorem Linked.zero_mem (hlinked : Linked k stack) (hne : stack ≠ []) : ∃ a ∈ stack, a.process_id = 0 := by
  induction stack with
  | nil => exact absurd rfl hne
  | cons a rest ih =>
    cases rest with
    | nil => exact ⟨a, List.mem_singleton_self a, hlinked.2⟩
    | cons b rest =>
      obtain ⟨zero, hmem, hzero⟩ := ih hlinked.tail (List.cons_ne_nil b rest)
      exact ⟨zero, List.mem_cons_of_mem a hmem, hzero⟩

/-- Different members have different numbers. -/
theorem Linked.nodup (hlinked : Linked k stack) : (stack.map (·.process_id)).Nodup := by
  induction stack with
  | nil => exact List.nodup_nil
  | cons a rest ih =>
    rw [List.map_cons, List.nodup_cons]
    refine ⟨?_, ih hlinked.tail⟩
    intro hmem
    obtain ⟨b, hb, heq⟩ := List.mem_map.mp hmem
    exact hlinked.ne_head hb heq

/-- The processes stay linked when their table entries and the numbers in their
    PCBs stay, and the stacks of all but the first of them. -/
theorem Linked.frame (hlinked : Linked k stack)
    (hclaimed : ∀ a ∈ stack, k'.processes a.process_id = k.processes a.process_id)
    (hnumbers : ∀ a ∈ stack, SameNumbers (k.pcb a.process_id) (k'.pcb a.process_id))
    (hwords : ∀ a ∈ stack.tail, ∀ address, block address = slot_block a.process_id →
      k'.stack address = k.stack address) : Linked k' stack := by
  have hlive (a : Activation) (ha : a ∈ stack) : Live k' a := by
    have hold := hlinked.live ha
    exact ⟨(hclaimed a ha).trans hold.claimed, (hnumbers a ha).proc_num.trans hold.proc_num⟩
  induction stack with
  | nil => trivial
  | cons a rest ih =>
    cases rest with
    | nil => exact ⟨hlive a (List.mem_singleton_self a), hlinked.2⟩
    | cons b rest =>
      have hchild := hlinked.2.2.1
      have hsame := hnumbers a List.mem_cons_self
      have hb := hwords b List.mem_cons_self
      refine ⟨hlive a List.mem_cons_self, hlinked.2.1, ?_, ?_⟩
      · refine ⟨hsame.parent_proc_num.trans hchild.parent, hsame.ebp.trans hchild.ebp, ?_, ?_, hchild.block_ebp,
          hchild.block_ret, hchild.block_after⟩
        · rw [hb _ hchild.block_ebp, hchild.saved_ebp]
        · rw [hb _ hchild.block_ret, hchild.ret]
      · refine ih hlinked.tail (fun c hc => hclaimed c (List.mem_cons_of_mem a hc))
          (fun c hc => hnumbers c (List.mem_cons_of_mem a hc))
          (fun c hc => hwords c (List.mem_of_mem_tail hc)) (fun c hc => hlive c (List.mem_cons_of_mem a hc))

/-- The live processes are linked, the tables other than the program's entry are
    those of `page_fill`, and the kernel runs on the first process's stack. -/
structure Resting (sys : System) (c : Config) : Prop where
  linked : Linked c.kernel c.stack
  filled : Filled sys.layout c.kernel.paging
  place : ∀ a rest, c.stack = a :: rest → block c.kernel.base = slot_block a.process_id

/-- Also, the first process's page is installed, and its stack in the TSS. -/
structure Inv (sys : System) (c : Config) : Prop extends Resting sys c where
  entry : ∀ a rest, c.stack = a :: rest → c.kernel.paging.page_dir PAGE_VALUE = page_entry (pid a.process_id)
  esp0 : ∀ a rest, c.stack = a :: rest → c.kernel.esp0 = kernel_esp (pid a.process_id)

theorem Frame.Fits.block_after (hfits : f.Fits base) : block (f.ebp + 8#32) = block base := by
  have hblock := hfits.block_eq
  have hlo := hfits.esp_le
  have hhi := hfits.ebp_lt
  have hbase := base.isLt
  simp only [block, BitVec.toNat_add, BitVec.toNat_ofNat] at hblock ⊢
  omega

/-- A call writes its frame on the stack it runs on. -/
theorem Frame.Fits.enter_stack (hfits : f.Fits base) (k : Kernel) {address : Word}
    (hother : block address ≠ block base) :
    (k.enter f).stack address = k.stack address := by
  refine k.enter_stack_other f ?_ ?_
  · rintro rfl
    exact hother hfits.block_ebp
  · rintro rfl
    exact hother hfits.block_ret

theorem Linked.busy (hlinked : Linked k stack) (hmem : a ∈ stack) : k.processes a.process_id ≠ 0#32 := by
  rw [(hlinked.live hmem).claimed]
  decide

/-- A free slot belongs to none of the live processes. -/
theorem Linked.ne_free (hlinked : Linked k stack) (hmem : a ∈ stack) (hfree : k.processes q = 0#32) :
    a.process_id ≠ q := by
  rintro rfl
  exact hlinked.busy hmem hfree

/-- A call on a live process's stack claims another slot. -/
theorem Resting.placed (hrest : Resting sys ⟨a :: rest, k⟩) (hfits : f.Fits k.base) (command : Option CString) :
    Placed f k command := by
  intro q hfirst
  have hfree := first_free_zero hfirst
  obtain ⟨zero, hzeroMem, hzero⟩ := hrest.linked.zero_mem (List.cons_ne_nil a rest)
  refine Or.inl ⟨?_, a.process_id, hrest.linked.ne_free List.mem_cons_self hfree, ?_⟩
  · rw [← hzero]
    exact (hrest.linked.ne_free hzeroMem hfree).symm
  · rw [hfits.block_eq]
    exact hrest.place a rest rfl

/-- A started process is linked to the one whose stack the call ran on. -/
theorem Resting.started {c : CString} (hrest : Resting sys ⟨a :: rest, k⟩) (hfits : f.Fits k.base)
    (hstarted : Started sys f c q k k') (slot : pcb_t) :
    Inv sys ⟨⟨q, f, some c, slot⟩ :: a :: rest, k'⟩ := by
  have hfree := first_free_zero hstarted.first
  have hplace := hrest.place a rest rfl
  have hother (b : Activation) (hb : b ∈ a :: rest) : b.process_id ≠ q := hrest.linked.ne_free hb hfree
  have ha := hother a List.mem_cons_self
  have hblock : block f.esp = slot_block a.process_id := hfits.block_eq.trans hplace
  obtain ⟨zero, hzeroMem, hzero⟩ := hrest.linked.zero_mem (List.cons_ne_nil a rest)
  have hq : q ≠ 0 := by
    rw [← hzero]
    exact (hother zero hzeroMem).symm
  have hslot {address : Word} {b : Activation} (hb : b ∈ a :: rest)
      (haddress : block address = slot_block b.process_id) :
      block address ≠ slot_block q := by
    rw [haddress]
    exact fun h => hother b hb (slot_block_injective h)
  have hlinked : Linked k' (a :: rest) := by
    refine hrest.linked.frame (fun b hb => ?_) (fun b hb => hstarted.numbers _ (hother b hb))
      (fun b hb address haddress => ?_)
    · rw [hstarted.processes, Function.update_of_ne (hother b hb)]
    · have hmem : b ∈ rest := hb
      rw [hstarted.words address (hslot (List.mem_cons_of_mem a hmem) haddress)]
      apply hfits.enter_stack k
      rw [haddress, hplace]
      exact fun h => hrest.linked.ne_head hmem (slot_block_injective h)
  have hebp := hfits.block_ebp.trans hplace
  have hret := hfits.block_ret.trans hplace
  refine ⟨⟨⟨⟨?_, hstarted.proc_num⟩, hother, ?_, hlinked⟩, ?_, ?_⟩, ?_, ?_⟩
  · rw [hstarted.processes]
    exact Function.update_self q 1#32 k.processes
  · refine ⟨?_, hstarted.saved.2, ?_, ?_, hebp, hret, hfits.block_after.trans hplace⟩
    · rw [hstarted.parent _ ha hblock hq]
      exact hrest.linked.head.proc_num
    · rw [hstarted.words _ (hslot List.mem_cons_self hebp)]
      exact k.enter_stack_ebp f
    · rw [hstarted.words _ (hslot List.mem_cons_self hret)]
      exact k.enter_stack_ret f
  · change Filled sys.layout k'.paging
    rw [hstarted.paging]
    exact hrest.filled.setEntry _
  · rintro b below ⟨rfl, rfl⟩
    change block k'.base = slot_block q
    rw [Kernel.base, if_pos hstarted.user, hstarted.esp0]
    exact kernel_esp_block q
  · rintro b below ⟨rfl, rfl⟩
    change k'.paging.page_dir PAGE_VALUE = page_entry (pid q)
    rw [hstarted.paging, paging_t.setEntry_same]
  · rintro b below ⟨rfl, rfl⟩
    exact hstarted.esp0

/-- A call that returned -1 leaves the live processes as they were. -/
theorem Resting.returned (hrest : Resting sys ⟨a :: rest, k⟩) (hfits : f.Fits k.base)
    (hreturned : Returned sys f command k k') : Resting sys ⟨a :: rest, k'⟩ := by
  have hplace := hrest.place a rest rfl
  refine ⟨hrest.linked.frame (fun b hb => ?_) (fun b hb => ?_) (fun b hb address haddress => ?_), ?_, ?_⟩
  · rcases hreturned.processes with ⟨h, -⟩ | ⟨q, c, -, -, hfirst, h⟩
    · rw [h]
    · rw [h, Function.update_of_ne (hrest.linked.ne_free hb (first_free_zero hfirst))]
  · exact hreturned.numbers _ (hrest.linked.busy hb)
  · have hmem : b ∈ rest := hb
    rw [hreturned.words address fun q hfree => ?_]
    · apply hfits.enter_stack k
      rw [haddress, hplace]
      exact fun h => hrest.linked.ne_head hmem (slot_block_injective h)
    · rw [haddress]
      exact fun h => hrest.linked.ne_free (List.mem_cons_of_mem a hmem) hfree (slot_block_injective h)
  · change Filled sys.layout k'.paging
    rw [hreturned.paging]
    exact hrest.filled
  · rintro b below ⟨rfl, rfl⟩
    change block k'.base = slot_block a.process_id
    rw [Kernel.base, hreturned.cpu, ← hplace]
    exact hfits.block_after

theorem Inv.returned (hinv : Inv sys ⟨a :: rest, k⟩) (hfits : f.Fits k.base)
    (hreturned : Returned sys f command k k') :
    Inv sys ⟨a :: rest, k'⟩ where
  toResting := hinv.toResting.returned hfits hreturned
  entry := by
    intro b below hstack
    change k'.paging.page_dir PAGE_VALUE = _
    rw [hreturned.paging]
    exact hinv.entry b below hstack
  esp0 := by
    intro b below hstack
    change k'.esp0 = _
    rw [hreturned.esp0]
    exact hinv.esp0 b below hstack

end houseam.process
