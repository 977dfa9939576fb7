import HouseAM.Interrupts.Calls
import HouseAM.Process.Execute

open support.machine

namespace houseam.interrupts

variable {link : Link} {p p' : Platform} {user child halt : Nat → Word} {main : Word} {m c called halting : Machine}

/-- The end of `sys_halt` for a process that was started in a call of
    `sys_execute`: `ebp` is what that call has saved, the place of its caller's
    `ebp`, with the return address and the caller's stack behind it as they were.
    The data segments are those that the process was started with: the kernel
    loads none. -/
structure Halting (link : Link) (called halting : Machine) : Prop where
  eip : halting.eip = link .return_pt 0
  ebp : halting.reg .ebp = called.esp - 4#32
  cs : halting.cs = called.cs
  ss : halting.ss = called.ss
  data : halting.data = called.data
  saved_ebp : load halting.mem (called.esp - 4#32) = called.reg .ebp
  back : load halting.mem called.esp = called.top
  kept : ∀ i < 28, halting.mem (called.esp + 16#32 + BitVec.ofNat 32 i) =
    called.mem (called.esp + 16#32 + BitVec.ofNat 32 i)

/-- `return_pt` returns from the call of `sys_execute`. -/
theorem Halting.returns (hhalting : Halting link called halting) (hinstalled : Installed link p) :
    ∃ returned, Reaches p halting returned ∧ Returned 3 7 called returned ∧
      returned.reg .eax = halting.reg .eax ∧ returned.mem = halting.mem := by
  have hleft : Reaches p halting (((halting.stack (called.esp - 4#32)).pop_to .ebp).goto (link .return_pt 1)) := by
    rw [← hhalting.ebp]
    exact (Reaches.refl p halting).next hinstalled.return_pt 0 rfl hhalting.eip rfl
  have hesp : called.esp - 4#32 + 4#32 = called.esp := BitVec.sub_add_cancel _ _
  refine ⟨_, hleft.next hinstalled.return_pt 1 rfl rfl rfl, ⟨?_, ?_, ?_, hhalting.cs, hhalting.ss,
    hhalting.data, ?_⟩, rfl, rfl⟩
  · change load halting.mem (called.esp - 4#32 + 4#32) = called.top
    rw [hesp]
    exact hhalting.back
  · change called.esp - 4#32 + 4#32 + 4#32 = _
    rw [hesp]
  · exact hhalting.saved_ebp
  · exact hhalting.kept

/-- Up to the pushes for the `iret`: the arguments are in `ebx` and `ecx`. -/
theorem context_switch_loads (hinstalled : Installed link p) (heip : m.eip = link .context_switch 0) :
    ∃ s, Reaches p m s ∧ s.eip = link .context_switch 6 ∧ s.reg .ebx = m.argument 0 ∧ s.reg .ecx = m.argument 1 ∧
      SameSegments m s ∧ Pushed m.esp 8 m.mem [m.reg .esi, m.reg .edi, m.reg .ebp] s := by
  have hloaded := hinstalled.context_switch
  have hbelow : Pushed m.esp 8 m.mem [m.reg .ebp]
      ((((m.push (m.reg .ebp)).goto (link .context_switch 1)).set .ebp (m.esp - 4#32)).goto
        (link .context_switch 2)) :=
    ((Pushed.empty 8 m).push (Nat.succ_pos 7) (by decide) _).of_same rfl rfl
  have hframe := ((Reaches.refl p m).next hloaded 0 rfl heip rfl).next hloaded 1 rfl rfl rfl
  obtain ⟨s, hsaves, heip_s, hreg, hmode, hpushed⟩ :=
    hloaded.pushes [.edi, .esi] (i := 2) (by decide) rfl rfl hbelow (Nat.le_of_ble_eq_true rfl)
  have hebp : s.reg .ebp = m.esp - 4#32 := by
    rw [hreg]
    rfl
  have hvalue (k : Nat) (hk : k < 2) : load s.mem (m.esp - 4#32 + BitVec.ofNat 32 (4 * (k + 2))) = m.argument k := by
    have hplace : m.esp - 4#32 + BitVec.ofNat 32 (4 * (k + 2)) = m.esp + BitVec.ofNat 32 (4 * (k + 1)) := by bv_omega
    rw [hplace]
    refine hpushed.load_eq fun i hi => ?_
    rw [depth]
    bv_omega
  have hfirst : exec p (link .context_switch 5) s (.movl (.at_ebp 8#32) .ebx) =
      some ((s.set .ebx (m.argument 0)).goto (link .context_switch 5)) := by
    rw [← hvalue 0 (by decide), ← hebp]
    rfl
  have hsecond : exec p (link .context_switch 6) ((s.set .ebx (m.argument 0)).goto (link .context_switch 5))
      (.movl (.at_ebp 12#32) .ecx) = some ((((s.set .ebx (m.argument 0)).goto (link .context_switch 5)).set .ecx
        (m.argument 1)).goto (link .context_switch 6)) := by
    rw [← hvalue 1 (by decide), ← hebp]
    rfl
  have hloads := ((hframe.trans hsaves).next hloaded 4 rfl heip_s hfirst).next hloaded 5 rfl rfl hsecond
  exact ⟨_, hloads, rfl, rfl, rfl, ⟨⟨hmode.eflags, hmode.cs, hmode.ss⟩, hmode.data⟩, hpushed.of_same rfl rfl⟩

/-- Up to the flags that the program starts with. -/
theorem context_switch_flags (hinstalled : Installed link p) (heip : m.eip = link .context_switch 0) :
    ∃ s, Reaches p m s ∧ s.eip = link .context_switch 10 ∧ s.reg .eax = m.eflags ∧ s.reg .ecx = m.argument 1 ∧
      SameSegments m s ∧
      Pushed m.esp 8 m.mem [m.argument 0, USER_DS, m.reg .esi, m.reg .edi, m.reg .ebp] s := by
  have hloaded := hinstalled.context_switch
  obtain ⟨s, hloads, heip_s, hebx, hecx, hmode, hpushed⟩ := context_switch_loads hinstalled heip
  rw [← hebx]
  have hstack := (hpushed.push_goto (Nat.le_of_ble_eq_true rfl) (by decide) USER_DS (link .context_switch 7)).push_goto
    (Nat.le_of_ble_eq_true rfl) (by decide) (s.reg .ebx) (link .context_switch 8)
  have hflags := hstack.push_goto (Nat.le_of_ble_eq_true rfl) (by decide) s.eflags (link .context_switch 9)
  have hframe := ((hloads.next hloaded 6 rfl heip_s rfl).next hloaded 7 rfl rfl rfl).next hloaded 8 rfl rfl rfl
  refine ⟨_, hframe.next hloaded 9 rfl rfl rfl, rfl, hflags.top.trans hmode.eflags, hecx, ?_, ?_⟩
  · exact ⟨⟨hmode.eflags, hmode.cs, hmode.ss⟩, hmode.data⟩
  · exact hflags.pop.of_same rfl rfl

/-- A program's first instruction is next: at the entry point and on the stack that
    `context_switch` was given, in user mode with interrupts enabled, in the user's
    segments for code and stack. No segment for data has been loaded, and the
    kernel's ones are cleared. -/
structure Switched (p : Platform) (m m' : Machine) : Prop where
  cpl : m'.cpl = 3
  eip : m'.eip = m.argument 1
  esp : m'.esp = m.argument 0
  cs : m'.cs = USER_CS
  ss : m'.ss = USER_DS
  data : m'.data = p.lowered 3 m.data
  legal : m'.Legal p
  cleared : ∀ s, m.data s = KERNEL_DS → m'.data s = 0#32
  eflags : m'.eflags = m.eflags ||| INTERRUPT_FLAG
  memory : ∀ place, 32 ≤ depth m.esp place → m'.mem place = m.mem place

/-- `context_switch` is what the kernel's model of it says: from any flags, it gets
    to the program's entry point in user mode, with interrupts enabled, on the
    stack that it is given, and writes to 32 bytes below the kernel's stack pointer
    only, so that the frames of the calls of `sys_execute` stay. -/
theorem context_switch_starts (hinstalled : Installed link p) (heip : m.eip = link .context_switch 0)
    (hkernel : m.cpl = 0) :
    ∃ m', Reaches p m m' ∧ Switched p m m' ∧
      (m.argument 0 = process.PAGE_START → ∀ k : process.Kernel, (k.context_switch (m.argument 1)).cpu.user = true ∧
        (k.context_switch (m.argument 1)).cpu.eip = m'.eip ∧
        (k.context_switch (m.argument 1)).cpu.esp = m'.esp) := by
  have hloaded := hinstalled.context_switch
  obtain ⟨s, hreaches, heip_s, heax, hecx, hmode, hpushed⟩ := context_switch_flags hinstalled heip
  have hmasked : Pushed m.esp 8 m.mem _ (((s.set .eax (s.reg .eax ||| 0x200#32)).flagged
      (compared s.eflags (s.reg .eax ||| 0x200#32) 0#32)).goto (link .context_switch 11)) := hpushed.of_same rfl rfl
  have hframe := ((hmasked.push_goto (Nat.le_of_ble_eq_true rfl) (by decide) (s.reg .eax ||| 0x200#32)
    (link .context_switch 12)).push_goto (Nat.le_of_ble_eq_true rfl) (by decide) USER_CS
    (link .context_switch 13)).push_goto (Nat.le_of_ble_eq_true rfl) (by decide) (s.reg .ecx) (link .context_switch 14)
  have hsteps := (((hreaches.next hloaded 10 rfl heip_s rfl).next hloaded 11 rfl rfl rfl).next hloaded 12 rfl rfl
    rfl).next hloaded 13 rfl rfl rfl
  have hlevel : (USER_CS &&& 3#32).toNat ≠ s.cpl := by
    have hsame : s.cpl = m.cpl := congrArg (fun cs => (cs &&& 3#32).toNat) hmode.cs
    rw [hsame, hkernel]
    decide
  have hleft := leave_outer p hframe hlevel
  have hlevel_user : (USER_CS &&& 3#32).toNat = 3 := by decide
  refine ⟨_, hsteps.next hloaded 14 rfl rfl (congrArg some hleft),
    ⟨hlevel_user, hecx, rfl, rfl, rfl, congrArg (p.lowered 3) hmode.data, allows_lowered p _ s.data, ?_, ?_,
      hframe.kept⟩, fun hpage k => ⟨rfl, hecx.symm, hpage.symm⟩⟩
  · intro segment hsegment
    have hrefused : ¬ p.Allows 3 KERNEL_DS := by
      rw [Platform.Allows, hinstalled.dpl]
      decide
    change p.lowered 3 s.data segment = 0#32
    rw [Platform.lowered, hmode.data, hsegment]
    exact if_neg hrefused
  · change s.reg .eax ||| 0x200#32 = _
    rw [heax]
    rfl

/-- The first program is started, in a kernel that has the segments of `boot.S`. -/
theorem context_switch_starts_first :
    let p := small_platform []
    let m := ((({ small_machine (small_link .context_switch 0) 0x7FDF00#32 with
      cs := 0x10#32, ss := KERNEL_DS, data := fun _ => KERNEL_DS }.push 0x8048094#32).push process.PAGE_START).push
      0#32)
    ∃ m', Reaches p m m' ∧ Switched p m m' ∧ m'.eip = 0x8048094#32 ∧ m'.data .ds = 0#32 ∧
      ∀ k : process.Kernel, (k.context_switch (m.argument 1)).cpu.esp = m'.esp := by
  have hempty := Pushed.empty 3 { small_machine (small_link .context_switch 0) 0x7FDF00#32 with
    cs := 0x10#32, ss := KERNEL_DS, data := fun _ => KERNEL_DS }
  have hpushed := ((hempty.push (by decide) (by decide) 0x8048094#32).push (by decide) (by decide)
    process.PAGE_START).push (by decide) (by decide) 0#32
  obtain ⟨m', hreaches, hswitched, hmodel⟩ := context_switch_starts (small_installed [])
    (m := ((({ small_machine (small_link .context_switch 0) 0x7FDF00#32 with
      cs := 0x10#32, ss := KERNEL_DS, data := fun _ => KERNEL_DS }.push 0x8048094#32).push process.PAGE_START).push
      0#32)) rfl (by decide)
  exact ⟨m', hreaches, hswitched, hswitched.eip.trans (hpushed.words.get (i := 2) rfl), hswitched.cleared .ds rfl,
    fun k => (hmodel (hpushed.words.get (i := 1) rfl) k).2.2⟩

/-- `return_pt` is what the kernel's model says of the end of `sys_halt`. -/
theorem return_pt_leave_ret (hinstalled : Installed link p) (heip : m.eip = link .return_pt 0) (hkernel : m.cpl = 0)
    {k : process.Kernel} (hebp : k.stack (m.reg .ebp) = load m.mem (m.reg .ebp))
    (hback : k.stack (m.reg .ebp + 4#32) = load m.mem (m.reg .ebp + 4#32)) :
    ∃ m', Reaches p m m' ∧ m'.cpl = 0 ∧ m'.mem = m.mem ∧
      (k.leave_ret (m.reg .ebp) (m.reg .eax)).cpu = ⟨false, m'.eip, m'.esp, m'.reg .ebp, m'.reg .eax⟩ := by
  have hsteps := ((Reaches.refl p m).next hinstalled.return_pt 0 rfl heip rfl).next hinstalled.return_pt 1 rfl rfl rfl
  refine ⟨_, hsteps, hkernel, rfl, ?_⟩
  have hesp : m.reg .ebp + 8#32 = m.reg .ebp + 4#32 + 4#32 := by
    rw [BitVec.add_assoc]
    rfl
  rw [process.Kernel.leave_ret, hebp, hback, hesp]
  rfl

end houseam.interrupts
