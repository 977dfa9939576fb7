import HouseAM.Descriptor.Calls
import HouseAM.Process.Invariant

open houseam.filesystem houseam.paging houseam.system_call houseam.terminal support.paging support.runs

namespace houseam.process

variable {sys : System} {k k' : Kernel} {f : Frame} {e : Event} {a : Activation} {rest : List Activation}
  {start c c' : Config} {log : List (Config × Event)} {old : Fin 128 → Byte} {text : List Byte}

/-- The loop leaves the array alone below the index it starts from. -/
theorem text_over_below (text : List Byte) (old : Fin 128 → Byte) {i j : Nat} (hbelow : i < j)
    (hfits : j + text.length < 128) : text_over old j text (Fin.ofNat 128 i) = old (Fin.ofNat 128 i) := by
  have hne : Fin.ofNat 128 i ≠ Fin.ofNat 128 j := by
    intro h
    have hval := congrArg Fin.val h
    simp only [Fin.ofNat] at hval
    omega
  induction text generalizing old j with
  | nil => exact Function.update_of_ne hne _ _
  | cons b text ih =>
    simp only [List.length_cons] at hfits
    have hnext : Fin.ofNat 128 i ≠ Fin.ofNat 128 (j + 1) := by
      intro h
      have hval := congrArg Fin.val h
      simp only [Fin.ofNat] at hval
      omega
    rw [text_over, ih _ (by omega) (by omega) hnext, Function.update_of_ne hne]

theorem text_over_get (text : List Byte) (old : Fin 128 → Byte) {i j : Nat} (hfits : j + text.length < 128)
    (hi : i < (text ++ [0#8]).length) : text_over old j text (Fin.ofNat 128 (j + i)) = (text ++ [0#8])[i] := by
  induction text generalizing old i j with
  | nil =>
    have hzero : i = 0 := by simpa using hi
    subst hzero
    exact Function.update_self _ _ _
  | cons b text ih =>
    simp only [List.length_cons] at hfits
    cases i with
    | zero =>
      change text_over (Function.update old (Fin.ofNat 128 j) b) (j + 1) text (Fin.ofNat 128 j) = b
      rw [text_over_below text _ (Nat.lt_add_one j) (by omega), Function.update_self]
    | succ i =>
      have hrest := ih (Function.update old (Fin.ofNat 128 j) b) (i := i) (j := j + 1) (by omega) (by simpa using hi)
      rw [text_over, show j + (i + 1) = j + 1 + i by omega, hrest]
      rfl

/-- Behind the parse the array starts with the text and a NUL. -/
theorem text_over_prefix (old : Fin 128 → Byte) (hfits : text.length < 128) :
    text ++ [0#8] <+: List.ofFn (text_over old 0 text) := by
  rw [List.prefix_iff_eq_take]
  apply List.ext_getElem
  · simp only [List.length_append, List.length_take, List.length_ofFn, List.length_singleton]
    omega
  · intro i hi _
    have hget := text_over_get text old (j := 0) (by omega) hi
    rw [← hget, List.getElem_take, List.getElem_ofFn]
    congr 1
    apply Fin.ext
    simp only [Fin.ofNat, List.length_append, List.length_singleton] at hi ⊢
    omega

theorem parse_loop_text_subset (bytes : List Byte) (htext : (parse_loop bytes).2 = some text) : text ⊆ bytes := by
  induction bytes with
  | nil => cases htext
  | cons c bytes ih =>
    rw [parse_loop] at htext
    split at htext
    · exact List.subset_cons_of_subset c (ih htext)
    · cases htext
      exact List.subset_cons_self c _

/-- What a program relies on when it asks for its arguments: it gets the text
    behind the first space of its command, or -1 if there is none. -/
structure ArgumentsPassed (command : CString) (result : system_call.Returned) : Prop where
  text : ∀ r, command_text command = some r → r ≠ [] → result.value = 0 ∧ r ++ [0#8] <+: result.stored
  none : (∀ r, command_text command = some r → r = []) → result.value = -1

/-- A request with a buffer for the whole array. -/
theorem sys_getargs_eq {pcb : pcb_t} {buf : Nat} {nbytes : Int} (hbuf : buf ≠ 0) (hnbytes : 128 ≤ nbytes) :
    sys_getargs buf nbytes pcb = if pcb.argument 0 = 0#8 then ⟨-1, []⟩ else ⟨0, List.ofFn pcb.argument⟩ := by
  rw [sys_getargs, if_neg (by omega)]

/-- A program whose command fits gets its arguments exactly when its command has
    a space or its slot's array was empty before. -/
theorem argumentsPassed_iff {command : CString} {pcb : pcb_t} {buf : Nat} {nbytes : Int} (hbuf : buf ≠ 0)
    (hnbytes : 128 ≤ nbytes) (hfits : ∀ r, command_text command = some r → r.length < BUFFER_SIZE)
    (hargument : pcb.argument = argument_after old (command_text command)) :
    ArgumentsPassed command (sys_getargs buf nbytes pcb) ↔ command_text command ≠ none ∨ old 0 = 0#8 := by
  rw [sys_getargs_eq hbuf hnbytes]
  cases htext : command_text command with
  | none =>
    rw [htext, argument_after] at hargument
    rw [← hargument]
    simp only [ne_eq, not_true_eq_false, false_or]
    constructor
    · intro hpassed
      by_contra hleft
      have hvalue := hpassed.none (by simp [htext])
      rw [if_neg hleft] at hvalue
      exact absurd hvalue (by simp)
    · intro hempty
      rw [if_pos hempty]
      refine ⟨fun r hr => ?_, fun _ => rfl⟩
      rw [htext] at hr
      cases hr
  | some text =>
    rw [htext, argument_after] at hargument
    simp only [ne_eq, reduceCtorEq, not_false_eq_true, true_or, iff_true]
    have hshort : text.length < 128 := hfits text htext
    have hstart : pcb.argument 0 = (text ++ [0#8])[0] :=
      hargument ▸ text_over_get text old (i := 0) (j := 0) (by omega) (by simp)
    cases text with
    | nil =>
      rw [if_pos (show pcb.argument 0 = 0#8 from hstart)]
      refine ⟨fun r hr hne => ?_, fun _ => rfl⟩
      rw [htext] at hr
      cases hr
      exact absurd rfl hne
    | cons b text =>
      have hb : b ≠ 0#8 := by
        rintro rfl
        exact command.nul_free (parse_loop_text_subset command.bytes htext List.mem_cons_self)
      rw [if_neg (hstart ▸ hb)]
      refine ⟨fun r hr _ => ?_, fun hnone => absurd (hnone _ htext) (List.cons_ne_nil b text)⟩
      rw [htext] at hr
      cases hr
      exact ⟨rfl, hargument ▸ text_over_prefix old hshort⟩

/-- The arguments of the live processes are those their calls left. -/
def ArgumentsKept (c : Config) : Prop :=
  ∀ a ∈ c.stack, ∀ command, a.command = some command →
    (∀ r, command_text command = some r → r.length < BUFFER_SIZE) →
    (c.kernel.pcb a.process_id).argument = argument_after a.slot.argument (command_text command)

/-- A step that starts no process keeps the arguments. -/
theorem ArgumentsKept.keep (hkept : ArgumentsKept c) (hstack : c'.stack ⊆ c.stack)
    (harguments : ∀ a ∈ c'.stack, (c'.kernel.pcb a.process_id).argument = (c.kernel.pcb a.process_id).argument) :
    ArgumentsKept c' := by
  intro a ha command hcommand hfits
  rw [harguments a ha]
  exact hkept a (hstack ha) command hcommand hfits

/-- A started process has the arguments its call left in the slot. -/
theorem Started.arguments_kept {command : CString} {q : Fin 6} (hstarted : Started sys f command q k k')
    (hbounded : process.Bounded ARGUMENT_ROOM k (some command)) {slot : pcb_t}
    (hslot : slot.argument = (k.pcb q).argument) (stack : List Activation) (hkept : ArgumentsKept ⟨stack, k⟩)
    (hother : ∀ b ∈ stack, b.process_id ≠ q) : ArgumentsKept ⟨⟨q, f, some command, slot⟩ :: stack, k'⟩ := by
  have hshort := hbounded.short hstarted.first
  intro a ha c hc hfits
  rcases List.mem_cons.mp ha with rfl | hmem
  · cases hc
    rw [hslot]
    refine hstarted.argument fun c hc => ?_
    cases hc
    exact ⟨(hshort command rfl).1, hfits⟩
  · exact (hstarted.arguments hshort _ (hother a hmem)).trans (hkept a hmem c hc hfits)

theorem ArgumentsKept.step (hkept : ArgumentsKept c) (hinv : Inv sys c) (hbounded : e.Bounded ARGUMENT_ROOM c.kernel)
    (hstep : process.step sys c e = some c') : ArgumentsKept c' := by
  obtain ⟨stack, k⟩ := c
  cases stack with
  | nil => cases hstep
  | cons a rest =>
    cases step_effect hinv (hbounded.mono (by decide)) hstep with
    | own _ _ hothers hown =>
      refine hkept.keep (List.Subset.refl _) fun b hb => ?_
      rcases List.mem_cons.mp hb with rfl | hmem
      · exact hown.argument
      · exact congrArg pcb_t.argument (hothers _ (hinv.linked.ne_head hmem))
    | returned term hcalls _ hreturned =>
      have hroom : process.Bounded ARGUMENT_ROOM k _ := hcalls.bounded hbounded
      exact hkept.keep (List.Subset.refl _) fun b hb => hreturned.arguments hroom _ (hinv.linked.busy hb)
    | started term hcalls _ hstarted =>
      have hroom : process.Bounded ARGUMENT_ROOM k _ := hcalls.bounded hbounded
      refine hstarted.arguments_kept hroom rfl (a :: rest) hkept fun b hb => ?_
      exact hinv.linked.ne_free hb (first_free_zero hstarted.first)
    | resumed hrest _ _ hresumed =>
      refine hkept.keep (List.subset_cons_self a rest) fun b hb => ?_
      exact congrArg pcb_t.argument (hresumed.pcbs _ (hinv.linked.ne_head hb))
    | restarted _ _ _ hstarted =>
      refine hstarted.arguments_kept (Or.inr (shell_name_short ARGUMENT_ROOM)) ?_ [] ?_ ?_
      · rw [Kernel.pcb_update_same (k.halted_pcbs _ 0)]
        rfl
      · exact fun b hb => nomatch hb
      · exact fun b hb => nomatch hb
    | emptied => exact fun b hb => nomatch hb

theorem run_arguments (hbooted : Booted sys start)
    (run : Run (process.step sys) (fun c e => e.Bounded ARGUMENT_ROOM c.kernel) start log c) : ArgumentsKept c := by
  refine run.invariant (motive := fun _ c => ArgumentsKept c) ?_ ?_
  · obtain ⟨k, f, k', -, hstarted, rfl⟩ := booted_cases hbooted
    refine hstarted.arguments_kept (Or.inr (shell_name_short ARGUMENT_ROOM)) rfl [] ?_ ?_
    · exact fun b hb => nomatch hb
    · exact fun b hb => nomatch hb
  · intro log s e s' run' hkept hbounded hstep
    exact hkept.step (run_inv hbooted (run'.mono fun _ _ h => h.mono (by decide))) hbounded hstep

/-- In every run from boot in which no text reaches the argument in the slot
    above the one it is for: the running process, started with a text of at most
    127 characters or none, gets its arguments exactly when its command has a
    space or the array in its slot was empty before the call. -/
theorem arguments_passed_iff {command : CString} {buf : Nat} {nbytes : Int} (hbooted : Booted sys start)
    (run : Run (step sys) (fun c e => e.Bounded ARGUMENT_ROOM c.kernel) start log c) (hstack : c.stack = a :: rest)
    (hcommand : a.command = some command) (hfits : ∀ r, command_text command = some r → r.length ≤ 127)
    (hbuf : buf ≠ 0) (hnbytes : 128 ≤ nbytes) :
    ArgumentsPassed command (sys_getargs buf nbytes (c.kernel.pcbs (get_pcb c.kernel.base))) ↔
      command_text command ≠ none ∨ a.slot.argument 0 = 0#8 := by
  have hinv := run_inv hbooted (run.mono fun _ _ h => h.mono (by decide))
  have hshort : ∀ r, command_text command = some r → r.length < BUFFER_SIZE :=
    fun r hr => Nat.lt_succ_of_le (hfits r hr)
  have hargument := run_arguments hbooted run a (hstack ▸ List.mem_cons_self) command hcommand hshort
  rw [get_pcb_eq (hinv.place a rest hstack)]
  exact argumentsPassed_iff hbuf hnbytes hshort hargument

def arg_text : List Byte := [0x61#8, 0x72#8, 0x67#8]

def shell_arg : CString := shell_command arg_text (by decide)

/-- The shell executes the shell with an argument text. -/
theorem small_shell_arg : ∃ k k', Booted small_system ⟨[small_shell], k⟩ ∧
    step small_system ⟨[small_shell], k⟩ (.execute (small_frame 0) (some shell_arg)) =
      some ⟨⟨1, small_frame 0, some shell_arg, k.pcb 1⟩ :: [small_shell], k'⟩ ∧
    Started small_system (small_frame 0) shell_name 0 boot_kernel k ∧
    Started small_system (small_frame 0) shell_arg 1 k k' := by
  obtain ⟨k, hbooted, hstarted⟩ := small_boot
  have hfirst : first_free k.processes = some 1 := by
    rw [hstarted.processes]
    decide
  have hshort : Short NUMBER_ROOM (some shell_arg) := shell_command_short _ (by decide)
  have hword : command_word shell_arg = shell_name := command_word_shell_command _ _
  obtain ⟨k', hstep, hstarted'⟩ := hbooted.inv.execute_starts (hstarted.base_eq ▸ small_frame_fits 0) hshort
    (hword.symm ▸ small_shell_executable) hfirst
  exact ⟨k, k', hbooted, hstep, hstarted, hstarted'⟩

/-- The shell started with a text gets the text. -/
theorem arguments_passed_iff_arg : ∃ start log c, Booted small_system start ∧
    Run (step small_system) (fun c e => e.Bounded ARGUMENT_ROOM c.kernel) start log c ∧
    log.map (·.2) = [.execute (small_frame 0) (some shell_arg)] ∧
    ArgumentsPassed shell_arg (sys_getargs 4096 128 (c.kernel.pcbs (get_pcb c.kernel.base))) := by
  obtain ⟨k, k', hbooted, hstep, -, -⟩ := small_shell_arg
  have hbounded : (Event.execute (small_frame 0) (some shell_arg)).Bounded ARGUMENT_ROOM k :=
    Or.inr (shell_command_short _ (by decide))
  have hrun : Run (step small_system) (fun c e => e.Bounded ARGUMENT_ROOM c.kernel) ⟨[small_shell], k⟩ _ _ :=
    Run.start.step hbounded hstep
  refine ⟨_, _, _, hbooted, hrun, rfl, ?_⟩
  have htext : ∀ r, command_text shell_arg = some r → r.length ≤ 127 := by
    intro r hr
    cases hr
    decide
  exact (arguments_passed_iff hbooted hrun rfl rfl htext (by decide) (by decide)).mpr (Or.inl (by decide))

/-- When that shell halts, the first one executes the shell again, in the same
    slot. -/
theorem small_slot_reused {k : Kernel} (child : Activation) (hid : child.process_id = 1)
    (hframe : child.frame = small_frame 0) (hinv : Inv small_system ⟨[child, small_shell], k⟩)
    (hfits : (small_frame 1).Fits k.base) (hprocesses : first_free (Function.update k.processes 1 0#32) = some 1) :
    ∃ k2 k3, step small_system ⟨[child, small_shell], k⟩ (.halt (small_frame 1) 0#8) = some ⟨[small_shell], k2⟩ ∧
      step small_system ⟨[small_shell], k2⟩ (.execute (small_frame 0) (some shell_name)) =
        some ⟨[⟨1, small_frame 0, some shell_name, k2.pcb 1⟩, small_shell], k3⟩ ∧
      (k2.pcb 1).argument = (k.pcb 1).argument ∧ Started small_system (small_frame 0) shell_name 1 k2 k3 := by
  obtain ⟨k2, hhalt, hresumed⟩ := hinv.halt_child hfits 0#8
  have hinv2 := hinv.resumed hfits hresumed
  have hbase : k2.base = (small_frame 0).ebp + 8#32 := by
    rw [Kernel.base, hresumed.cpu, hframe]
    rfl
  have hfits2 : (small_frame 0).Fits k2.base := by
    rw [hbase]
    decide
  have hfirst : first_free k2.processes = some 1 := by
    rw [hresumed.processes, hid]
    exact hprocesses
  obtain ⟨k3, hstep, hstarted⟩ := hinv2.execute_starts hfits2 (shell_name_short NUMBER_ROOM)
    (command_word_shell.symm ▸ small_shell_executable) hfirst
  refine ⟨k2, k3, (step_halt hfits).trans hhalt, hstep, ?_, hstarted⟩
  have hcleared := hresumed.cleared
  rw [hid] at hcleared
  rw [hcleared]
  rfl

/-- In general the arguments are not those of the command: a shell started
    without a text, in the slot of one that was started with one, gets that. -/
theorem arguments_not_passed : ∃ start log c a rest, Booted small_system start ∧
    Run (step small_system) (fun _ _ => True) start log c ∧
    log.map (·.2) = [.execute (small_frame 0) (some shell_arg), .halt (small_frame 1) 0#8,
      .execute (small_frame 0) (some shell_name)] ∧
    c.stack = a :: rest ∧ a.command = some shell_name ∧
    ¬ ArgumentsPassed shell_name (sys_getargs 4096 128 (c.kernel.pcbs (get_pcb c.kernel.base))) := by
  obtain ⟨k, k1, hbooted, hstep, hstarted, hstarted1⟩ := small_shell_arg
  have hbounded : (Event.execute (small_frame 0) (some shell_arg)).Bounded NUMBER_ROOM k :=
    Or.inr (shell_command_short _ (by decide))
  have hprocesses : first_free (Function.update k1.processes 1 0#32) = some 1 := by
    rw [hstarted1.processes, hstarted.processes]
    decide
  obtain ⟨k2, k3, hhalt, hagain, hleft, hstarted3⟩ := small_slot_reused _ rfl rfl (hbooted.inv.step hbounded hstep)
    (hstarted1.base_eq ▸ small_frame_fits 1) hprocesses
  refine ⟨_, _, _, _, _, hbooted, ((Run.start.step trivial hstep).step trivial hhalt).step trivial hagain, rfl, rfl,
    rfl, ?_⟩
  have hpcb : get_pcb k3.base = proc_block 1 := by
    rw [hstarted3.base_eq]
    decide
  have hargument : (k3.pcb 1).argument = argument_after (text_over (k.pcb 1).argument 0 arg_text)
      (command_text shell_name) := by
    have hfirst := hstarted1.argument (shell_command_short _ (by decide))
    rw [hstarted3.argument (shell_name_short BUFFER_SIZE), hleft, hfirst]
    rfl
  change ¬ ArgumentsPassed shell_name (sys_getargs 4096 128 (k3.pcbs (get_pcb k3.base)))
  rw [hpcb]
  intro hpassed
  have htext : command_text shell_name = none := by decide
  rcases (argumentsPassed_iff (by decide) (by decide) (by simp [htext]) hargument).mp hpassed with h | h
  · exact h htext
  · rw [arg_text, show (0 : Fin 128) = Fin.ofNat 128 (0 + 0) from rfl,
      text_over_get _ _ (by decide) (by decide)] at h
    exact absurd h (by decide)

end houseam.process
