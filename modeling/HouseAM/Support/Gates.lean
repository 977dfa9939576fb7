import HouseAM.Support.Stacks

namespace support.machine

variable {p : Platform} {mem : Memory} {base back : Word} {room i : Nat} {ws : List Word} {m m' : Machine}
  {listing rest : List Instruction} {place : Nat → Word} {gate : Gate}

/-- The processor runs at the same level, with the same flags. -/
structure SameMode (m m' : Machine) : Prop where
  eflags : m'.eflags = m.eflags
  cs : m'.cs = m.cs
  ss : m'.ss = m.ss

/-- The data segments are the same, too. -/
structure SameSegments (m m' : Machine) : Prop extends SameMode m m' where
  data : m'.data = m.data

theorem SameSegments.trans {m'' : Machine} (hsame : SameSegments m m') (hthen : SameSegments m' m'') :
    SameSegments m m'' :=
  ⟨⟨hthen.eflags.trans hsame.eflags, hthen.cs.trans hsame.cs, hthen.ss.trans hsame.ss⟩, hthen.data.trans hsame.data⟩

/-- The registers with these words in them. -/
def assigned (reg : Register → Word) (words : List (Register × Word)) : Register → Word :=
  words.foldl (fun reg word => Function.update reg word.1 word.2) reg

theorem assigned_self (reg : Register → Word) (rs : List Register) : assigned reg (rs.zip (rs.map reg)) = reg := by
  induction rs with
  | nil => rfl
  | cons r rs ih =>
    rw [List.map_cons, List.zip_cons_cons, assigned, List.foldl_cons, Function.update_eq_self]
    exact ih

theorem drop_cons {instruction : Instruction} (hdrop : listing.drop i = instruction :: rest) :
    listing[i]? = some instruction ∧ listing.drop (i + 1) = rest := by
  constructor
  · rw [← Nat.add_zero i, ← List.getElem?_drop, hdrop]
    rfl
  · rw [← List.tail_drop, hdrop]
    rfl

/-- A block of a listing pushes some registers. -/
theorem Loaded.pushes (hloaded : Loaded p place listing) (rs : List Register) (hroom : 4 * room < 2 ^ 32)
    (hlisting : listing.drop i = rs.map (fun r => .pushl (.register r)) ++ rest) (heip : m.eip = place i)
    (hpushed : Pushed base room mem ws m) (hfits : ws.length + rs.length ≤ room) :
    ∃ m', Reaches p m m' ∧ m'.eip = place (i + rs.length) ∧ m'.reg = m.reg ∧ SameSegments m m' ∧
      Pushed base room mem ((rs.map m.reg).reverse ++ ws) m' := by
  induction rs generalizing i ws m with
  | nil => exact ⟨m, .refl p m, heip, rfl, ⟨⟨rfl, rfl, rfl⟩, rfl⟩, hpushed⟩
  | cons r rs ih =>
    obtain ⟨hfirst, hrest⟩ := drop_cons hlisting
    rw [List.length_cons] at hfits
    have hnext : Pushed base room mem (m.reg r :: ws) ((m.push (m.reg r)).goto (place (i + 1))) :=
      (hpushed.push (by omega) hroom _).of_same rfl rfl
    have hstart : SameSegments m ((m.push (m.reg r)).goto (place (i + 1))) := ⟨⟨rfl, rfl, rfl⟩, rfl⟩
    obtain ⟨m', hreaches, heip', hreg, hmode, hpushed'⟩ := ih hrest rfl hnext (by rw [List.length_cons]; omega)
    refine ⟨m', ((Reaches.refl p m).next hloaded i hfirst heip rfl).trans hreaches, ?_, hreg,
      hstart.trans hmode, ?_⟩
    · rw [heip', List.length_cons, Nat.add_assoc, Nat.add_comm 1]
    · rw [List.map_cons, List.reverse_cons, List.append_assoc]
      exact hpushed'

/-- A block of a listing takes some registers from the stack. -/
theorem Loaded.pops (hloaded : Loaded p place listing) (rs : List Register) (vs : List Word)
    (hlisting : listing.drop i = rs.map .popl ++ rest) (heip : m.eip = place i)
    (hpushed : Pushed base room mem (vs ++ ws) m) (hlength : vs.length = rs.length) :
    ∃ m', Reaches p m m' ∧ m'.eip = place (i + rs.length) ∧ m'.reg = assigned m.reg (rs.zip vs) ∧ m'.mem = m.mem ∧
      SameSegments m m' ∧ Pushed base room mem ws m' := by
  induction rs generalizing i vs m with
  | nil =>
    rw [List.length_nil, List.length_eq_zero_iff] at hlength
    subst hlength
    exact ⟨m, .refl p m, heip, rfl, rfl, ⟨⟨rfl, rfl, rfl⟩, rfl⟩, hpushed⟩
  | cons r rs ih =>
    obtain ⟨hfirst, hrest⟩ := drop_cons hlisting
    obtain ⟨v, vs, rfl, hlength'⟩ := List.length_eq_succ_iff.mp hlength
    rw [List.cons_append] at hpushed
    have hnext : Pushed base room mem (vs ++ ws) ((m.pop_to r).goto (place (i + 1))) := hpushed.pop.of_same rfl rfl
    have hstart : SameSegments m ((m.pop_to r).goto (place (i + 1))) := ⟨⟨rfl, rfl, rfl⟩, rfl⟩
    obtain ⟨m', hreaches, heip', hreg, hmem, hmode, hpushed'⟩ := ih vs hrest rfl hnext hlength'
    refine ⟨m', ((Reaches.refl p m).next hloaded i hfirst heip rfl).trans hreaches, ?_, ?_, hmem,
      hstart.trans hmode, hpushed'⟩
    · rw [heip', List.length_cons, Nat.add_assoc, Nat.add_comm 1]
    · rw [hreg, List.zip_cons_cons, ← hpushed.top]
      rfl

theorem enter_reg (p : Platform) (gate : Gate) (back : Word) (m : Machine) : (enter p gate back m).reg = m.reg := by
  unfold enter
  split <;> rfl

theorem enter_data (p : Platform) (gate : Gate) (back : Word) (m : Machine) :
    (enter p gate back m).data = m.data := by
  unfold enter
  split <;> rfl

/-- The stack segment that an interrupted processor goes on with. -/
def stack_segment (p : Platform) (m : Machine) : Word := if m.cpl = 0 then m.ss else p.ss0

theorem enter_ss (p : Platform) (gate : Gate) (back : Word) (m : Machine) :
    (enter p gate back m).ss = stack_segment p m := by
  unfold enter stack_segment
  split <;> rfl

/-- From a program the processor enters the kernel on an empty stack. -/
theorem enter_outer (hlevel : m.cpl ≠ 0) (hfits : 5 ≤ room) (hroom : 4 * room < 2 ^ 32) :
    Pushed p.esp0 room m.mem [back, m.cs, m.eflags, m.esp, m.ss] (enter p gate back m) := by
  have hempty : Pushed p.esp0 room m.mem [] ((m.stack p.esp0).segments m.cs p.ss0) :=
    (Pushed.empty room (m.stack p.esp0)).of_same rfl rfl
  have hframe := ((((hempty.push (by simp only [List.length_nil]; omega) hroom m.ss).push
    (by simp only [List.length_cons, List.length_nil]; omega) hroom m.esp).push
    (by simp only [List.length_cons, List.length_nil]; omega) hroom m.eflags).push
    (by simp only [List.length_cons, List.length_nil]; omega) hroom m.cs).push
    (by simp only [List.length_cons, List.length_nil]; omega) hroom back
  unfold enter
  rw [if_neg hlevel]
  exact hframe.of_same rfl rfl

/-- The kernel's own code is interrupted on the stack that it is on. -/
theorem enter_inner (hlevel : m.cpl = 0) (hfits : 3 ≤ room) (hroom : 4 * room < 2 ^ 32) :
    Pushed m.esp room m.mem [back, m.cs, m.eflags] (enter p gate back m) := by
  have hframe := (((Pushed.empty room m).push (by simp only [List.length_nil]; omega) hroom m.eflags).push
    (by simp only [List.length_cons, List.length_nil]; omega) hroom m.cs).push
    (by simp only [List.length_cons, List.length_nil]; omega) hroom back
  unfold enter
  rw [if_pos hlevel]
  exact hframe.of_same rfl rfl

theorem leave_outer (p : Platform) {eip cs eflags esp ss : Word}
    (hpushed : Pushed base room mem (eip :: cs :: eflags :: esp :: ss :: ws) m)
    (hlevel : (cs &&& 3#32).toNat ≠ m.cpl) :
    leave_gate p m = ((((m.stack esp).segments cs ss).data_segments
      (p.lowered (cs &&& 3#32).toNat m.data)).flagged eflags).goto eip := by
  have heip := hpushed.top
  have hcs := hpushed.pop.top
  have heflags := hpushed.pop.pop.top
  have hesp := hpushed.pop.pop.pop.top
  have hss := hpushed.pop.pop.pop.pop.top
  unfold leave_gate
  rw [heip, hcs, heflags]
  refine (if_neg hlevel).trans ?_
  change (((((m.pop.pop.pop.goto eip).segments cs m.ss).flagged eflags).segments cs m.pop.pop.pop.pop.top).stack
    m.pop.pop.pop.top).data_segments (p.lowered (cs &&& 3#32).toNat m.data) = _
  rw [hesp, hss]
  rfl

theorem leave_inner (p : Platform) {eip cs eflags : Word} (hpushed : Pushed base room mem (eip :: cs :: eflags :: ws) m)
    (hlevel : (cs &&& 3#32).toNat = m.cpl) :
    leave_gate p m = ((m.pop.pop.pop.segments cs m.ss).flagged eflags).goto eip := by
  unfold leave_gate
  rw [hpushed.top, hpushed.pop.top, hpushed.pop.pop.top]
  exact if_pos hlevel

theorem set_esp (m : Machine) (r : Register) (w : Word) : (m.set r w).esp = m.esp := rfl

theorem set_mem (m : Machine) (r : Register) (w : Word) : (m.set r w).mem = m.mem := rfl

theorem set_top (m : Machine) (r : Register) (w : Word) : (m.set r w).top = m.top := rfl

theorem set_pop (m : Machine) (r : Register) (w : Word) : (m.set r w).pop = m.pop.set r w := rfl

theorem Pushed.pusha (hpushed : Pushed base room mem ws m) (hfits : ws.length + 8 ≤ room)
    (hroom : 4 * room < 2 ^ 32) :
    Pushed base room mem (m.reg .edi :: m.reg .esi :: m.reg .ebp :: m.esp :: m.reg .ebx :: m.reg .edx :: m.reg .ecx ::
      m.reg .eax :: ws) (machine.pusha m) := by
  have hlater {us : List Word} {m' : Machine} (hpushed : Pushed base room mem us m') (hle : us.length ≤ ws.length + 7)
      (w : Word) : Pushed base room mem (w :: us) (m'.push w) := hpushed.push (by omega) hroom w
  have hfour := hlater (hlater (hlater (hlater hpushed (by omega) (m.reg .eax)) (by simp) (m.reg .ecx)) (by simp)
    (m.reg .edx)) (by simp) (m.reg .ebx)
  exact hlater (hlater (hlater (hlater hfour (by simp) m.esp) (by simp) (m.reg .ebp)) (by simp) (m.reg .esi)) (by simp)
    (m.reg .edi)

theorem Pushed.popa {edi esi ebp esp ebx edx ecx eax : Word}
    (hpushed : Pushed base room mem (edi :: esi :: ebp :: esp :: ebx :: edx :: ecx :: eax :: ws) m) :
    (machine.popa m).reg = assigned m.reg
        [(.edi, edi), (.esi, esi), (.ebp, ebp), (.ebx, ebx), (.edx, edx), (.ecx, ecx), (.eax, eax)] ∧
      Pushed base room mem ws (machine.popa m) := by
  have hfour := hpushed.pop.pop.pop.pop
  simp only [machine.popa, Machine.pop_to, set_pop, set_top, hpushed.top, hpushed.pop.top, hpushed.pop.pop.top,
    hfour.top, hfour.pop.top, hfour.pop.pop.top, hfour.pop.pop.pop.top]
  exact ⟨rfl, hfour.pop.pop.pop.pop.of_same (by simp only [set_esp]) (by simp only [set_mem])⟩

theorem pusha_mode (m : Machine) : SameSegments m (machine.pusha m) := by
  cases m
  exact ⟨⟨rfl, rfl, rfl⟩, rfl⟩

theorem popa_mode (m : Machine) : SameSegments m (machine.popa m) := by
  cases m
  exact ⟨⟨rfl, rfl, rfl⟩, rfl⟩

theorem popa_mem (m : Machine) : (machine.popa m).mem = m.mem := by
  cases m
  rfl

/-- Where the stack starts that an interrupted processor goes on with. -/
def stack_base (p : Platform) (m : Machine) : Word := if m.cpl = 0 then m.esp else p.esp0

/-- What is pushed for the way back, from the kernel's code and from a program. -/
def frame (m : Machine) (back : Word) : List Word :=
  if m.cpl = 0 then [back, m.cs, m.eflags] else [back, m.cs, m.eflags, m.esp, m.ss]

theorem enter_pushed (p : Platform) (m : Machine) (gate : Gate) (back : Word) (hfits : 5 ≤ room)
    (hroom : 4 * room < 2 ^ 32) : Pushed (stack_base p m) room m.mem (frame m back) (enter p gate back m) := by
  by_cases hlevel : m.cpl = 0
  · rw [stack_base, frame, if_pos hlevel, if_pos hlevel]
    exact enter_inner hlevel (by omega) hroom
  · rw [stack_base, frame, if_neg hlevel, if_neg hlevel]
    exact enter_outer hlevel hfits hroom

/-- The way back gives an interrupted processor its registers for the stack and the
    code, its flags and its level, and leaves it its data segments. -/
theorem leave_restores {s : Machine} (hpushed : Pushed (stack_base p m) room mem (frame m back) s)
    (hkernel : s.cpl = 0) (hss : s.ss = stack_segment p m) (hdata : s.data = m.data) (hlegal : m.Legal p) :
    leave_gate p s = { m with eip := back, reg := s.reg, mem := s.mem } := by
  by_cases hlevel : m.cpl = 0
  · rw [stack_base, frame, if_pos hlevel, if_pos hlevel] at hpushed
    have hempty := hpushed.pop.pop.pop.esp
    rw [leave_inner p hpushed (hlevel.trans hkernel.symm)]
    rw [stack_segment, if_pos hlevel] at hss
    refine Machine.ext rfl ?_ rfl rfl hss hdata rfl rfl
    exact hempty.trans (BitVec.sub_zero m.esp)
  · rw [stack_base, frame, if_neg hlevel, if_neg hlevel] at hpushed
    rw [leave_outer p hpushed (hkernel ▸ hlevel), hdata]
    exact Machine.ext rfl rfl rfl rfl rfl (lowered_of_legal hlegal) rfl rfl

end support.machine
