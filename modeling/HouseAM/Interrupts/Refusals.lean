import HouseAM.Interrupts.Handlers

open support.machine

namespace houseam.interrupts

variable {link : Link} {p : Platform} {mem : Memory} {base : Word} {room : Nat} {ws : List Word} {m m' : Machine}

/-- For a number that is not in the table the handler restores what it has saved. -/
theorem handler_refuses {eip cs eflags esp ss : Word} (hinstalled : Installed link p) (hroom : 4 * room < 2 ^ 32)
    (heip : m.eip = link .system_call_handler 0)
    (hpushed : Pushed base room mem (eip :: cs :: eflags :: esp :: ss :: ws) m) (hfits : ws.length + 10 ≤ room)
    (hlevel : (cs &&& 3#32).toNat ≠ m.cpl) (hnumber : ¬(1 ≤ (m.reg .eax).toInt ∧ (m.reg .eax).toInt ≤ 10)) :
    ∃ m', Reaches p m m' ∧ m'.eip = eip ∧ m'.cs = cs ∧ m'.eflags = eflags ∧ m'.esp = esp ∧ m'.ss = ss ∧
      m'.data = p.lowered (cs &&& 3#32).toNat m.data ∧ m'.reg = Function.update m.reg .eax NEG_ONE ∧
      ∀ place, 4 * room ≤ depth base place → m'.mem place = mem place := by
  have hloaded := hinstalled.system_call_handler
  obtain ⟨saved, hsaves, heip_saved, hreg_saved, hmode, hsaved⟩ := handler_saves hinstalled hroom heip hpushed (by
    simp only [List.length_cons]
    omega)
  obtain ⟨flags, hchecks⟩ := handler_checks hinstalled heip_saved
  rw [hreg_saved, if_neg hnumber] at hchecks
  have herror : Pushed base room mem _ ((saved.flagged flags).goto (link .system_call_handler 17)) :=
    hsaved.of_same rfl rfl
  obtain ⟨popped, hpops, heip_popped, hreg, hmem, hmode', hpopped⟩ := hloaded.pops
    saved_registers.reverse (saved_registers.reverse.map m.reg) (i := 17) rfl rfl herror rfl
  have hmoved : Reaches p m ((popped.set .eax NEG_ONE).goto (link .system_call_handler 23)) :=
    ((hsaves.trans hchecks).trans hpops).next hloaded 22 rfl heip_popped rfl
  have hback : Pushed base room mem (eip :: cs :: eflags :: esp :: ss :: ws)
      ((popped.set .eax NEG_ONE).goto (link .system_call_handler 23)) := hpopped.of_same rfl rfl
  have hcpl : ((popped.set .eax NEG_ONE).goto (link .system_call_handler 23)).cpl = m.cpl := by
    change (popped.cs &&& 3#32).toNat = _
    rw [hmode'.cs]
    exact congrArg (fun cs => (cs &&& 3#32).toNat) hmode.cs
  refine ⟨_, hmoved.next hloaded 23 rfl rfl rfl, ?_⟩
  have hdata : ((popped.set .eax NEG_ONE).goto (link .system_call_handler 23)).data = m.data :=
    hmode'.data.trans hmode.data
  rw [leave_outer p hback (hcpl ▸ hlevel), hdata]
  refine ⟨rfl, rfl, rfl, rfl, rfl, rfl, ?_, hback.kept⟩
  change Function.update popped.reg .eax NEG_ONE = _
  have hsame : saved.reg = m.reg := hreg_saved
  rw [hreg, ← hsame]
  exact congrArg (Function.update · .eax NEG_ONE) (assigned_self saved.reg saved_registers.reverse)

/-- A program gets no more of the kernel than the ten system calls. No vector but
    the one for them lets it in. For a number that is not one of theirs, negative
    ones among them, it goes on with -1 and with nothing else changed, but for the
    kernel's empty stack. -/
theorem unknown_number_refused (hinstalled : Installed link p) {v : Nat} {next : Word}
    (hint : p.code m.eip = some (.int v, next)) (hv : v < NUM_VEC) (huser : m.cpl = 3) :
    (v ≠ SYSTEMCALLVECTOR → step p m = none) ∧
      (v = SYSTEMCALLVECTOR → ¬(1 ≤ (m.reg .eax).toInt ∧ (m.reg .eax).toInt ≤ 10) →
        ∃ m', Reaches p m m' ∧ m'.eip = next ∧ m'.esp = m.esp ∧ SameMode m m' ∧
          m'.data = p.lowered 3 m.data ∧ m'.reg = Function.update m.reg .eax NEG_ONE ∧
          ∀ place, 40 ≤ depth p.esp0 place → m'.mem place = m.mem place) := by
  constructor
  · intro hne
    simp only [step, hint, Option.bind_some]
    exact hinstalled.int_refused hv hne huser next
  · rintro rfl hnumber
    have hlevel : m.cpl ≠ 0 := by omega
    have hexec : step p m = some (enter p ⟨link .system_call_handler 0, 0x10#32, 3, true⟩ next m) := by
      simp only [step, hint, Option.bind_some, exec, hinstalled.system_call_gate, huser, Nat.le_refl, if_true]
    have hframe : Pushed p.esp0 10 m.mem _ (enter p ⟨link .system_call_handler 0, 0x10#32, 3, true⟩ next m) :=
      enter_outer hlevel (by decide) (by decide)
    have hreg := enter_reg p ⟨link .system_call_handler 0, 0x10#32, 3, true⟩ next m
    have hkernel : (enter p ⟨link .system_call_handler 0, 0x10#32, 3, true⟩ next m).cpl = 0 :=
      (by decide : (0x10#32 &&& 3#32).toNat = 0)
    have hdata := enter_data p ⟨link .system_call_handler 0, 0x10#32, 3, true⟩ next m
    obtain ⟨m', hreaches, heip, hcs, heflags, hesp, hss, hlowered, hregs, hkept⟩ :=
      handler_refuses hinstalled (by decide) rfl hframe (Nat.le_refl 10) (hkernel ▸ hlevel) (hreg ▸ hnumber)
    have hlevel_user : (m.cs &&& 3#32).toNat = 3 := huser
    rw [hlevel_user, hdata] at hlowered
    refine ⟨m', .head hexec hreaches, heip, hesp, ⟨heflags, hcs, hss⟩, hlowered, ?_, hkept⟩
    rw [hregs, hreg]

/-- A program asks for number 0. -/
theorem unknown_number_refused_zero :
    let p := small_platform [.int 0x80]
    let m := small_machine 0x8048000#32 0x83FFF00#32
    ∃ m', Reaches p m m' ∧ m'.eip = 0x8048001#32 ∧ m'.esp = m.esp ∧ SameMode m m' ∧
      m'.data = p.lowered 3 m.data ∧ m'.reg = Function.update m.reg .eax NEG_ONE ∧
      ∀ place, 40 ≤ depth p.esp0 place → m'.mem place = m.mem place := by
  have hloaded : Loaded (small_platform [.int 0x80]) (small_place program_slot) [.int 0x80] :=
    small_loaded (Nat.le_refl _) rfl (by decide)
  have hint := hloaded 0 (.int 0x80) rfl
  have hzero : ¬(1 ≤ (0#32).toInt ∧ (0#32).toInt ≤ 10) := by decide
  exact (unknown_number_refused (small_installed _) (m := small_machine 0x8048000#32 0x83FFF00#32) hint (by decide)
    (by decide)).2 rfl hzero

end houseam.interrupts
