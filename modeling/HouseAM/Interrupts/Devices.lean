import HouseAM.Interrupts.Handlers

open support.machine

namespace houseam.interrupts

variable {link : Link} {p : Platform} {place : Nat → Word} {v : Nat} {device : Symbol}
  {m entered called returned : Machine}

/-- An interrupt of a device, with the function that its handler calls. -/
inductive Device : Nat → Symbol → Prop where
  | rtc : Device RTC_ENTRY .rtc_interrupt
  | keyboard : Device KEYBOARD_ENTRY .keyboard_interrupt

/-- The function of a device's handler has been called: in the kernel, with what the
    processor and the handler have pushed on the kernel's stack that the processor
    was on or changes to, and with nothing overwritten but the free part of it. -/
structure Handling (link : Link) (p : Platform) (device : Symbol) (m called : Machine) : Prop where
  eip : called.eip = link device 0
  esp : called.esp = stack_base p m - BitVec.ofNat 32 (4 * (9 + (frame m m.eip).length))
  cs : called.cs = 0x10#32
  ss : called.ss = stack_segment p m
  data : called.data = m.data
  memory : ∀ place, 56 ≤ depth (stack_base p m) place → called.mem place = m.mem place

/-- The gate of a device leads to its handler. -/
theorem Installed.device_gate (hinstalled : Installed link p) (hdevice : Device v device) :
    ∃ place, Loaded p place (device_handler link device) ∧ p.gate v = some ⟨place 0, 0x10#32, 0, true⟩ := by
  cases hdevice with
  | rtc => exact ⟨link .rtc_handler, hinstalled.rtc_handler, hinstalled.rtc_gate⟩
  | keyboard => exact ⟨link .keyboard_handler, hinstalled.keyboard_handler, hinstalled.keyboard_gate⟩

/-- The words that `pusha` saves of a processor. -/
def saved_words (m : Machine) (esp : Word) : List Word :=
  [m.reg .edi, m.reg .esi, m.reg .ebp, esp, m.reg .ebx, m.reg .edx, m.reg .ecx, m.reg .eax]

theorem frame_length (m : Machine) (back : Word) : (frame m back).length ≤ 5 := by
  rw [frame]
  split
  · exact Nat.le_of_ble_eq_true rfl
  · exact Nat.le_refl 5

theorem handling (hloaded : Loaded p place (device_handler link device)) :
    ∃ called esp, Reaches p (enter p ⟨place 0, 0x10#32, 0, true⟩ m.eip m) called ∧ Handling link p device m called ∧
      Pushed (stack_base p m) 14 m.mem (place 2 :: (saved_words m esp ++ frame m m.eip)) called := by
  have hlength := frame_length m m.eip
  have hentered : Pushed (stack_base p m) 14 m.mem (frame m m.eip) (enter p ⟨place 0, 0x10#32, 0, true⟩ m.eip m) :=
    enter_pushed p m _ _ (by decide) (by decide)
  have hreg := enter_reg p ⟨place 0, 0x10#32, 0, true⟩ m.eip m
  have hss := enter_ss p ⟨place 0, 0x10#32, 0, true⟩ m.eip m
  have hdata := enter_data p ⟨place 0, 0x10#32, 0, true⟩ m.eip m
  have heip : (enter p ⟨place 0, 0x10#32, 0, true⟩ m.eip m).eip = place 0 := rfl
  have hcs : (enter p ⟨place 0, 0x10#32, 0, true⟩ m.eip m).cs = 0x10#32 := rfl
  generalize enter p ⟨place 0, 0x10#32, 0, true⟩ m.eip m = entered at hentered hreg hss hdata heip hcs ⊢
  have hfirst : Reaches p entered ((pusha entered).goto (place 1)) :=
    (Reaches.refl p entered).next hloaded 0 rfl heip rfl
  have hsaved := hentered.pusha (by omega) (by decide)
  have hmode := pusha_mode entered
  rw [hreg] at hsaved
  generalize pusha entered = saved at hfirst hsaved hmode
  have hcalled := hsaved.push (by simp only [List.length_cons]; omega) (by decide) (place 2)
  have hreaches : Reaches p entered ((saved.push (place 2)).goto (link device 0)) :=
    hfirst.next hloaded 1 rfl rfl rfl
  have hesp : (saved.push (place 2)).esp =
      stack_base p m - BitVec.ofNat 32 (4 * (9 + (frame m m.eip).length)) := by
    rw [Nat.add_comm 9]
    exact hcalled.esp
  exact ⟨_, entered.esp, hreaches, ⟨rfl, hesp, hmode.cs.trans hcs, hmode.ss.trans hss, hmode.data.trans hdata,
    hcalled.kept⟩, hcalled.of_same rfl rfl⟩

/-- The way back from any state that the device's function returns in. -/
theorem handled {esp : Word} (hloaded : Loaded p place (device_handler link device))
    (hpushed : Pushed (stack_base p m) 14 m.mem (place 2 :: (saved_words m esp ++ frame m m.eip)) called)
    (hhandling : Handling link p device m called) (hlegal : m.Legal p) (hreturned : Returned 0 13 called returned) :
    Reaches p returned { m with mem := returned.mem } := by
  have hlength := frame_length m m.eip
  have hwords : (saved_words m esp ++ frame m m.eip).length ≤ 13 := by
    rw [List.length_append]
    exact Nat.add_le_add_left hlength 8
  have hcalled : Pushed (stack_base p m) 14 m.mem (place 2 :: ([] ++ (saved_words m esp ++ frame m m.eip))) called :=
    hpushed
  obtain ⟨us, hnone, hstack⟩ := Returned.pushed hcalled hreturned hwords
  obtain rfl := List.length_eq_zero_iff.mp hnone
  have hback : Reaches p returned ((popa returned).goto (place 3)) :=
    (Reaches.refl p returned).next hloaded 2 rfl (hreturned.eip.trans hpushed.top) rfl
  obtain ⟨hreg, hpopped⟩ := Pushed.popa hstack
  have hmode := popa_mode returned
  have hmem := popa_mem returned
  generalize popa returned = popped at hback hreg hpopped hmode hmem
  have hrestored : popped.reg = m.reg := by
    rw [hreg]
    funext r
    cases r <;> rfl
  have hkernel : (popped.goto (place 3)).cpl = 0 := by
    change (popped.cs &&& 3#32).toNat = 0
    rw [hmode.cs, hreturned.cs, hhandling.cs]
    rfl
  have hframe : Pushed (stack_base p m) 14 returned.mem (frame m m.eip) (popped.goto (place 3)) :=
    hpopped.of_same rfl rfl
  have hss : (popped.goto (place 3)).ss = stack_segment p m := (hmode.ss.trans hreturned.ss).trans hhandling.ss
  have hdata : (popped.goto (place 3)).data = m.data := (hmode.data.trans hreturned.data).trans hhandling.data
  have hleft := leave_restores hframe hkernel hss hdata hlegal
  have hsame : leave_gate p (popped.goto (place 3)) = { m with mem := returned.mem } :=
    hleft.trans (Machine.ext rfl rfl rfl rfl rfl rfl hrestored hmem)
  rw [← hsame]
  exact hback.next hloaded 3 rfl rfl rfl

/-- Wherever an interrupt of a device comes, in a program or in the kernel, it calls
    the device's function, and when that returns the processor goes on exactly as
    it was: no register, flag, segment or level has changed, only the memory that
    the function has written to and the free part of a stack. -/
theorem interrupt_unseen (hinstalled : Installed link p) (hdevice : Device v device) (hlegal : m.Legal p)
    (hinterrupt : interrupt p v m = some entered) :
    ∃ called, Reaches p entered called ∧ Handling link p device m called ∧
      ∀ returned, Returned 0 13 called returned → Reaches p returned { m with mem := returned.mem } := by
  obtain ⟨place, hloaded, hgate⟩ := hinstalled.device_gate hdevice
  rw [interrupt, hgate] at hinterrupt
  split at hinterrupt
  · cases hinterrupt
    obtain ⟨called, esp, hreaches, hhandling, hpushed⟩ := handling (m := m) hloaded
    exact ⟨called, hreaches, hhandling, fun returned => handled hloaded hpushed hhandling hlegal⟩
  · cases hinterrupt

/-- The clock interrupts a program. -/
theorem interrupt_unseen_rtc :
    let p := small_platform []
    let m := small_machine 0x8048000#32 0x83FFF00#32
    ∃ entered called, interrupt p RTC_ENTRY m = some entered ∧ Reaches p entered called ∧
      Handling small_link p .rtc_interrupt m called ∧
      ∀ returned, Returned 0 13 called returned → Reaches p returned { m with mem := returned.mem } := by
  have henabled : (0x202#32).getLsbD 9 = true := by decide
  have hgate := (small_installed []).rtc_gate
  have hinterrupt : interrupt (small_platform []) RTC_ENTRY (small_machine 0x8048000#32 0x83FFF00#32) =
      some (enter (small_platform []) ⟨small_link .rtc_handler 0, 0x10#32, 0, true⟩ 0x8048000#32
        (small_machine 0x8048000#32 0x83FFF00#32)) := by
    rw [interrupt, hgate]
    exact if_pos henabled
  exact ⟨_, _, hinterrupt, (interrupt_unseen (small_installed []) .rtc (small_legal _ _ _) hinterrupt).choose_spec⟩

end houseam.interrupts
