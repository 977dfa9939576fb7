import HouseAM.Interrupts.Handlers

open support.machine

namespace houseam.interrupts

variable {link : Link} {p : Platform} {user : Nat → Word} {mem : Memory} {base : Word} {room number : Nat}
  {ws : List Word} {m m' called returned : Machine}

/-- The processor is at the first instruction of a system call's function, in the
    kernel, with the arguments of the program and with interrupts enabled. -/
structure Called (link : Link) (p : Platform) (number : Nat) (m called : Machine) : Prop where
  eip : called.eip = function link number
  esp : called.esp = p.esp0 - 44#32
  cs : called.cs = 0x10#32
  ss : called.ss = KERNEL_DS
  data : called.data = m.data
  enabled : called.eflags.getLsbD 9 = true
  arguments : ∀ k < 3, called.argument k = m.argument k
  memory : ∀ place, 44 ≤ depth p.esp0 place → 4 ≤ depth m.esp place → called.mem place = m.mem place

/-- A system call has come back to the program as a call of a C function does, with
    the result of the kernel's function. -/
structure Answered (m returned m' : Machine) : Prop where
  eip : m'.eip = m.top
  esp : m'.esp = m.esp + 4#32
  result : m'.reg .eax = returned.reg .eax
  registers : ∀ r ∈ [Register.ebx, .esi, .edi, .ebp], m'.reg r = m.reg r
  segments : SameSegments m m'
  memory : m'.mem = returned.mem

/-- The handler calls the function for a number, which it reads from its table with
    the data segment of the program. -/
theorem handler_calls (hinstalled : Installed link p) (hroom : 4 * room < 2 ^ 32)
    (heip : m.eip = link .system_call_handler 0) (hds : ¬ Null (m.data .ds)) (hpushed : Pushed base room mem ws m)
    (hfits : ws.length + 6 ≤ room)
    (hlo : 1 ≤ (m.reg .eax).toInt) (hhi : (m.reg .eax).toInt ≤ 10) :
    ∃ called, Reaches p m called ∧ called.eip = function link (m.reg .eax).toNat ∧ called.reg = m.reg ∧
      called.cs = m.cs ∧ called.ss = m.ss ∧ called.data = m.data ∧ called.eflags.getLsbD 9 = true ∧
      Pushed base room mem (link .system_call_handler 11 :: m.reg .ebx :: m.reg .ecx :: m.reg .edx :: m.reg .esi ::
        m.reg .edi :: ws) called := by
  have hloaded := hinstalled.system_call_handler
  obtain ⟨saved, hsaves, heip_saved, hreg, hmode, hsaved⟩ := handler_saves hinstalled hroom heip hpushed (by omega)
  obtain ⟨eflags, hchecks⟩ := handler_checks hinstalled heip_saved
  rw [hreg, if_pos ⟨hlo, hhi⟩] at hchecks
  have hallowed := (hsaves.trans hchecks).next hloaded 9 rfl rfl rfl
  have hcall : exec p (link .system_call_handler 11) ((saved.flagged (eflags ||| INTERRUPT_FLAG)).goto
      (link .system_call_handler 10)) (.call_table (function link) .eax) =
        some ((((saved.flagged (eflags ||| INTERRUPT_FLAG)).goto (link .system_call_handler 10)).push
          (link .system_call_handler 11)).goto (function link (saved.reg .eax).toNat)) := by
    rw [← hmode.data] at hds
    exact if_neg hds
  refine ⟨_, hallowed.next hloaded 10 rfl rfl hcall, ?_, hreg, hmode.cs, hmode.ss, hmode.data, ?_, ?_⟩
  · change function link (saved.reg .eax).toNat = _
    rw [hreg]
  · change (eflags ||| INTERRUPT_FLAG).getLsbD 9 = true
    rw [BitVec.getLsbD_or]
    exact Bool.or_true _
  · have hready : Pushed base room mem _ ((saved.flagged (eflags ||| INTERRUPT_FLAG)).goto
        (link .system_call_handler 10)) := hsaved.of_same rfl rfl
    refine (hready.push ?_ hroom (link .system_call_handler 11)).of_same rfl rfl
    simp only [List.length_cons]
    omega

/-- Behind the call the handler goes back to the program. The words where the
    arguments were do not matter. -/
theorem handler_leaves {x y z esi edi eip cs eflags esp ss : Word} (hinstalled : Installed link p)
    (heip : m.eip = link .system_call_handler 11)
    (hpushed : Pushed base room mem (x :: y :: z :: esi :: edi :: eip :: cs :: eflags :: esp :: ss :: ws) m)
    (hlevel : (cs &&& 3#32).toNat ≠ m.cpl) :
    ∃ m', Reaches p m m' ∧ m'.eip = eip ∧ m'.cs = cs ∧ m'.eflags = eflags ∧ m'.esp = esp ∧ m'.ss = ss ∧
      m'.data = p.lowered (cs &&& 3#32).toNat m.data ∧
      m'.reg = assigned m.reg [(.ebx, x), (.ecx, y), (.edx, z), (.esi, esi), (.edi, edi)] ∧ m'.mem = m.mem := by
  have hloaded := hinstalled.system_call_handler
  obtain ⟨popped, hpops, heip_popped, hreg, hmem, hmode, hpopped⟩ := hloaded.pops
    saved_registers.reverse [x, y, z, esi, edi] (i := 11) rfl heip hpushed rfl
  have hcpl : popped.cpl = m.cpl := by rw [Machine.cpl, hmode.cs, Machine.cpl]
  refine ⟨_, hpops.next hloaded 16 rfl heip_popped rfl, ?_⟩
  rw [leave_outer p hpopped (hcpl ▸ hlevel), hmode.data]
  exact ⟨rfl, rfl, rfl, rfl, rfl, rfl, hreg, hmem⟩

/-- Up to the `int` of a system call: its number and the arguments are in the
    registers, and the stack ends with `ebx` and the return address. -/
theorem asks (hwrapper : Loaded p user (DO_CALL (BitVec.ofNat 32 number))) (heip : m.eip = user 0) :
    ∃ asking, Reaches p m asking ∧ asking.eip = user 5 ∧ asking.esp = m.esp - 4#32 ∧ SameSegments m asking ∧
      asking.reg .eax = BitVec.ofNat 32 number ∧ asking.reg .ebx = m.argument 0 ∧ asking.reg .ecx = m.argument 1 ∧
      asking.reg .edx = m.argument 2 ∧ (∀ r ∈ [Register.esi, .edi, .ebp], asking.reg r = m.reg r) ∧
      Pushed m.esp 1 m.mem [m.reg .ebx] asking := by
  have hpushed : Pushed m.esp 1 m.mem [m.reg .ebx] (m.push (m.reg .ebx)) :=
    (Pushed.empty 1 m).push Nat.one_pos (by decide) _
  have hmoved (k : Nat) (hk : k < 3) (s : Machine) (r : Register) (next : Word) (hesp : s.esp = m.esp - 4#32)
      (hmem : s.mem = (m.push (m.reg .ebx)).mem) :
      exec p next s (.movl (.at_esp (BitVec.ofNat 32 (4 * (k + 2)))) r) =
        some ((s.set r (m.argument k)).goto next) := by
    have hplace : s.esp + BitVec.ofNat 32 (4 * (k + 2)) = m.esp + BitVec.ofNat 32 (4 * (k + 1)) := by
      rw [hesp]
      bv_omega
    have hvalue : load s.mem (s.esp + BitVec.ofNat 32 (4 * (k + 2))) = m.argument k := by
      rw [hplace, hmem]
      refine hpushed.load_eq fun i hi => ?_
      rw [depth]
      bv_omega
    exact congrArg (fun w => some ((s.set r w).goto next)) hvalue
  have hnumbered := ((Reaches.refl p m).next hwrapper 0 rfl heip rfl).next hwrapper 1 rfl rfl rfl
  have hfirst := hnumbered.next hwrapper 2 rfl rfl (hmoved 0 (by decide) _ .ebx _ rfl rfl)
  have hsecond := hfirst.next hwrapper 3 rfl rfl (hmoved 1 (by decide) _ .ecx _ rfl rfl)
  have hthird := hsecond.next hwrapper 4 rfl rfl (hmoved 2 (by decide) _ .edx _ rfl rfl)
  refine ⟨_, hthird, rfl, rfl, ⟨⟨rfl, rfl, rfl⟩, rfl⟩, rfl, rfl, rfl, rfl, ?_, hpushed.of_same rfl rfl⟩
  intro r hr
  simp only [List.mem_cons, List.not_mem_nil, or_false] at hr
  rcases hr with rfl | rfl | rfl <;> rfl

/-- What is kept on the stacks of the kernel and of the program for the way back
    from a system call. -/
structure Suspended (link : Link) (p : Platform) (user : Nat → Word) (m called : Machine) : Prop where
  ebp : called.reg .ebp = m.reg .ebp
  kernel : ∃ mem args, args.length = 3 ∧ Pushed p.esp0 11 mem
    (link .system_call_handler 11 :: (args ++ [m.reg .esi, m.reg .edi, user 6, m.cs, m.eflags, m.esp - 4#32, m.ss]))
    called
  program : Lies called.mem (m.esp - 4#32) [m.reg .ebx, m.top]

/-- The two words of the program's stack that the call needs are apart from the
    words that are pushed in the kernel. -/
def Apart (p : Platform) (m : Machine) : Prop :=
  ∀ i < 8, 44 ≤ depth p.esp0 (m.esp - 4#32 + BitVec.ofNat 32 i)

theorem system_call_suspended (hinstalled : Installed link p)
    (hwrapper : Loaded p user (DO_CALL (BitVec.ofNat 32 number))) (hlo : 1 ≤ number) (hhi : number ≤ 10)
    (heip : m.eip = user 0) (huser : m.cpl = 3) (hds : ¬ Null (m.data .ds)) (hapart : Apart p m) :
    ∃ called, Reaches p m called ∧ Called link p number m called ∧ Suspended link p user m called := by
  obtain ⟨asking, hasks, heip_asking, hesp, hmode, heax, hebx, hecx, hedx, hkept, hpushed⟩ := asks hwrapper heip
  have hlevel : asking.cpl = 3 := by rw [Machine.cpl, hmode.cs]; exact huser
  have hne : asking.cpl ≠ 0 := by omega
  -- through the gate, on an empty kernel stack
  have hint : exec p (user 6) asking (.int 0x80) =
      some (enter p ⟨link .system_call_handler 0, 0x10#32, 3, true⟩ (user 6) asking) := by
    have hgate := hinstalled.system_call_gate
    rw [SYSTEMCALLVECTOR] at hgate
    simp only [exec, hgate, Option.bind_some, hlevel, Nat.le_refl, if_true]
  have hentered := hasks.next hwrapper 5 rfl heip_asking hint
  have hframe : Pushed p.esp0 11 asking.mem _
      (enter p ⟨link .system_call_handler 0, 0x10#32, 3, true⟩ (user 6) asking) :=
    enter_outer hne (by decide) (by decide)
  have hreg := enter_reg p ⟨link .system_call_handler 0, 0x10#32, 3, true⟩ (user 6) asking
  have hdata := (enter_data p ⟨link .system_call_handler 0, 0x10#32, 3, true⟩ (user 6) asking).trans hmode.data
  have hsigned : (BitVec.ofNat 32 number).toInt = number := by
    rw [BitVec.toInt_ofNat', Int.bmod_def]
    omega
  have hunsigned : (BitVec.ofNat 32 number).toNat = number := by
    rw [BitVec.toNat_ofNat]
    omega
  obtain ⟨called, hcalls, heip_called, hreg_called, hcs, hss, hdata_called, henabled, hcalled⟩ :=
    handler_calls hinstalled (by decide) rfl (hdata ▸ hds) hframe (Nat.le_refl 11) (by rw [hreg, heax, hsigned]; omega)
      (by rw [hreg, heax, hsigned]; omega)
  rw [hreg, heax, hunsigned] at heip_called
  rw [hreg, hebx, hecx, hedx, hkept .esi (by decide), hkept .edi (by decide), hmode.cs, hmode.eflags, hmode.ss,
    hesp] at hcalled
  have hmemory (place : Word) (hkernel : 44 ≤ depth p.esp0 place) : called.mem place = asking.mem place :=
    hcalled.kept place hkernel
  refine ⟨called, hentered.trans hcalls,
    ⟨heip_called, hcalled.esp, hcs, ?_, hdata_called.trans hdata, henabled, ?_, ?_⟩, ?_, ?_, ?_⟩
  · rw [hss, enter_ss, stack_segment, if_neg hne, hinstalled.ss0]
  · intro k hk
    have hcases : k = 0 ∨ k = 1 ∨ k = 2 := by omega
    rcases hcases with rfl | rfl | rfl
    · exact hcalled.words.get rfl
    · exact hcalled.words.get rfl
    · exact hcalled.words.get rfl
  · intro place hkernel hprogram
    exact (hmemory place hkernel).trans (hpushed.kept place hprogram)
  · rw [hreg_called, hreg, hkept .ebp (by decide)]
  · exact ⟨asking.mem, [m.argument 0, m.argument 1, m.argument 2], rfl, hcalled⟩
  · have hwords : Lies asking.mem (m.esp - 4#32) [m.reg .ebx, m.top] := by
      have hebx_pushed := hpushed.words
      rw [hesp] at hebx_pushed
      refine ⟨hebx_pushed.1, ?_, trivial⟩
      rw [BitVec.sub_add_cancel]
      refine hpushed.load_eq fun i hi => ?_
      rw [depth]
      bv_omega
    exact hwords.congr fun i hi => hmemory _ (hapart i hi)

/-- The way back, from any state that the kernel's function returns in. -/
theorem Suspended.answered (hsuspended : Suspended link p user m called) (hcalled : Called link p number m called)
    (hinstalled : Installed link p) (hwrapper : Loaded p user (DO_CALL (BitVec.ofNat 32 number))) (huser : m.cpl = 3)
    (hlegal : m.Legal p) (hreturned : Returned 3 7 called returned)
    (hkept : ∀ i < 8, returned.mem (m.esp - 4#32 + BitVec.ofNat 32 i) =
      called.mem (m.esp - 4#32 + BitVec.ofNat 32 i)) :
    ∃ m', Reaches p returned m' ∧ Answered m returned m' := by
  obtain ⟨mem, args, hlength, hpushed⟩ := hsuspended.kernel
  rw [← hlength] at hreturned
  obtain ⟨us, hus, hstack⟩ := hreturned.pushed hpushed (Nat.le_refl 7)
  rw [hlength] at hus
  obtain ⟨x, y, z, rfl⟩ := List.length_eq_three.mp hus
  have hkernel : returned.cpl = 0 := by
    rw [Machine.cpl, hreturned.cs, hcalled.cs]
    rfl
  have hlevel : (m.cs &&& 3#32).toNat ≠ returned.cpl := by
    rw [hkernel]
    intro hzero
    exact absurd (huser.symm.trans hzero) (by decide)
  obtain ⟨back, hleaves, heip, hcs, heflags, hesp, hss, hlowered, hreg, hmem⟩ :=
    handler_leaves hinstalled (hreturned.eip.trans hpushed.top) hstack hlevel
  have hwords : Lies back.mem back.esp [m.reg .ebx, m.top] := by
    rw [hmem, hesp]
    exact hsuspended.program.congr hkept
  have hpopped := (hleaves.next hwrapper 6 rfl heip rfl).next hwrapper 7 rfl rfl rfl
  have hdata : back.data = m.data := by
    rw [hlowered, hreturned.data, hcalled.data]
    exact lowered_of_legal hlegal
  refine ⟨_, hpopped, hwords.2.1, ?_, ?_, ?_, ⟨⟨heflags, hcs, hss⟩, hdata⟩, hmem⟩
  · change back.esp + 4#32 + 4#32 = _
    rw [hesp, BitVec.sub_add_cancel]
  · change Function.update back.reg .ebx back.top .eax = _
    rw [hreg]
    rfl
  · intro r hr
    change Function.update back.reg .ebx back.top r = m.reg r
    rw [hreg]
    simp only [List.mem_cons, List.not_mem_nil, or_false] at hr
    rcases hr with rfl | rfl | rfl | rfl
    · exact hwords.1
    · rfl
    · rfl
    · exact hreturned.ebp.trans hsuspended.ebp

/-- A system call is a call of a C function: a program that calls the library gets
    into the kernel's function for the number with its arguments, and whatever that
    does, when it returns the program goes on behind its call with the result. Of
    the kernel's function no more is asked than that it returns, with `ebp`, its
    caller's stack, the segments and the two words on the program's stack kept. The
    program's `ds` names a segment, as the handler reads its table through it. -/
theorem system_call_is_call (hinstalled : Installed link p)
    (hwrapper : Loaded p user (DO_CALL (BitVec.ofNat 32 number))) (hlo : 1 ≤ number) (hhi : number ≤ 10)
    (heip : m.eip = user 0) (huser : m.cpl = 3) (hlegal : m.Legal p) (hds : ¬ Null (m.data .ds))
    (hapart : Apart p m) :
    ∃ called, Reaches p m called ∧ Called link p number m called ∧
      ∀ returned, Returned 3 7 called returned →
        (∀ i < 8, returned.mem (m.esp - 4#32 + BitVec.ofNat 32 i) =
          called.mem (m.esp - 4#32 + BitVec.ofNat 32 i)) →
        ∃ m', Reaches p returned m' ∧ Answered m returned m' := by
  obtain ⟨called, hreaches, hcalled, hsuspended⟩ :=
    system_call_suspended hinstalled hwrapper hlo hhi heip huser hds hapart
  refine ⟨called, hreaches, hcalled, fun returned hreturned hkept => ?_⟩
  exact hsuspended.answered hcalled hinstalled hwrapper huser hlegal hreturned hkept

/-- A program calls `ece391_write`. -/
theorem system_call_is_call_write :
    let p := small_platform (DO_CALL 4#32)
    let m := small_machine 0x8048000#32 0x83FFF00#32
    ∃ called, Reaches p m called ∧ Called small_link p 4 m called ∧
      ∀ returned, Returned 3 7 called returned →
        (∀ i < 8, returned.mem (m.esp - 4#32 + BitVec.ofNat 32 i) =
          called.mem (m.esp - 4#32 + BitVec.ofNat 32 i)) →
        ∃ m', Reaches p returned m' ∧ Answered m returned m' := by
  have hwrapper : Loaded (small_platform (DO_CALL 4#32)) (small_place program_slot) (DO_CALL (BitVec.ofNat 32 4)) :=
    small_loaded (Nat.le_refl _) rfl (by decide)
  have hapart : ∀ i < 8, 44 ≤ depth 0x7FFFFC#32 (0x83FFF00#32 - 4#32 + BitVec.ofNat 32 i) := by decide
  have hds : ¬ Null USER_DS := by decide
  exact system_call_is_call (small_installed _) hwrapper (by decide) (by decide) (by decide) (by decide)
    (small_legal _ _ _) hds hapart

end houseam.interrupts
