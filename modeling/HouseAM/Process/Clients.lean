import HouseAM.Process.Getargs
import HouseAM.Process.Resumption
import HouseAM.Syscalls.Cat

open houseam.filesystem houseam.syscalls houseam.system_call houseam.terminal support.clients support.runs

namespace houseam.process

variable {sys : System} {k k' : Kernel} {e : Event} {a b : Activation} {rest : List Activation}
  {start v c c' : Config} {earlier log : List (Config × Event)} {program q : Process Int}
  {history : Transcript} {post : Int → Transcript → Task → Prop}

/-- What the calls of a process work on. -/
def Config.task (c : Config) (a : Activation) : Task := ⟨c.kernel.pcb a.process_id, c.kernel.term⟩

/-- A step that is no call of `sys_execute` or `sys_halt` by the running process,
    and none of its calls on descriptors. -/
def Event.Aside : Event → Prop
  | .execute _ _ => False
  | .halt _ _ => False
  | .call _ => False
  | _ => True

theorem Event.Aside.kept (haside : e.Aside) (hinv : Inv sys ⟨a :: rest, k⟩) (hbounded : e.Bounded BUFFER_SIZE k)
    (hstep : process.step sys ⟨a :: rest, k⟩ e = some c') :
    c'.kernel.pcb a.process_id = k.pcb a.process_id := by
  have hbusy : k.processes a.process_id ≠ 0#32 := hinv.linked.busy List.mem_cons_self
  simp only [step, reduceCtorEq, if_false] at hstep
  cases e with
  | execute f command => exact haside.elim
  | halt f status => exact haside.elim
  | call call => exact haside.elim
  | key f garbage temp =>
    obtain ⟨hfits, hkey⟩ := Option.ite_none_right_eq_some.mp hstep
    split at hkey
    · have hplaced : Placed f { k with term := (keyboard_interrupt k.term garbage temp).1 } (some shell_name) :=
        hinv.placed hfits (some shell_name)
      rcases execute_cases hfits (Or.inr (shell_name_short NUMBER_ROOM)) hplaced hkey with
        ⟨k', rfl, hreturned⟩ | ⟨c, q, k', hc, hstarted, rfl⟩
      · exact hreturned.others (Or.inr (shell_name_short SLOT_ROOM)) _ hbusy
      · have hfree := first_free_zero hstarted.first
        have hne : a.process_id ≠ q := fun h => hbusy (h ▸ hfree)
        exact hstarted.others (hc ▸ shell_name_short SLOT_ROOM) _ hne
    · cases hkey
      rfl
  | compute cpu words =>
    obtain ⟨k', hcompute, rfl⟩ := Option.map_eq_some_iff.mp hstep
    obtain ⟨-, rfl⟩ := compute_cases hcompute
    rfl
  | store va b =>
    obtain ⟨k', hstore, rfl⟩ := Option.map_eq_some_iff.mp hstep
    obtain ⟨-, -, -, -, rfl⟩ := store_cases hstore
    rfl

variable {f : Frame} {command : CString} {p : Fin 6} {text : List Byte}

/-- The argument of a process that was started with a text is the text. -/
theorem Started.argument_text (hstarted : Started sys f command p k k')
    (hshort : Short BUFFER_SIZE (some command)) (htext : command_text command = some text) :
    0#8 ∈ List.ofFn (k'.pcb p).argument ∧ text_of (List.ofFn (k'.pcb p).argument) = text_of text ∧
      ((k'.pcb p).argument 0 = 0#8 ↔ text = []) := by
  have hfits : text.length < 128 := (hshort command rfl).2 text htext
  have hnul : 0#8 ∉ text := fun hmem => command.nul_free (parse_loop_text_subset command.bytes htext hmem)
  have hargument := hstarted.argument hshort
  rw [htext, argument_after] at hargument
  obtain ⟨behind, hbehind⟩ := text_over_prefix (k.pcb p).argument hfits
  rw [hargument]
  refine ⟨?_, ?_, ?_⟩
  · rw [← hbehind]
    simp
  · have hself := text_of_self ⟨text, hnul⟩
    have heq := text_of_eq ⟨text, hnul⟩ behind
    rw [← hbehind, List.append_assoc, List.singleton_append, hself]
    exact heq
  · have hget := text_over_get text (k.pcb p).argument (i := 0) (j := 0) (by omega) (by simp)
    have hfirst : text_over (k.pcb p).argument 0 text 0 = (text ++ [0#8])[0] := hget
    rw [hfirst]
    cases text with
    | nil => simp
    | cons b text =>
      have hb : b ≠ 0#8 := fun hzero => hnul (hzero ▸ List.mem_cons_self)
      exact iff_of_false hb (List.cons_ne_nil b text)

end houseam.process
