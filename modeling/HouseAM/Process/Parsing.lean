import HouseAM.Process.Invariant

open houseam.filesystem houseam.paging houseam.system_call houseam.terminal support.paging

namespace houseam.process

variable {k : Kernel} {q : Fin 6} {c : CString} {bytes : List Byte} {index : Nat} {b : Byte}

/-- A store of the parsing loops of `sys_execute`: to `arg_buffer`, or to the
    argument of the new PCB. -/
inductive ParseStore where
  | arg_buffer (i : Nat) (b : Byte)
  | argument (j : Nat) (b : Byte)

/-- A store inside the array it is for. -/
def ParseStore.Inside : ParseStore → Prop
  | .arg_buffer i _ => i < ARG_BUFFER_SIZE
  | .argument j _ => j < BUFFER_SIZE

/-- The second loop, and the NUL behind it. -/
def text_stores : Nat → List Byte → List ParseStore
  | j, [] => [.argument j 0#8]
  | j, b :: text => .argument j b :: text_stores (j + 1) text

/-- The first loop, and what follows it: a NUL in `arg_buffer`, and if a space
    ended the loop, the text behind the space. -/
def word_stores : Nat → List Byte → List ParseStore
  | i, [] => [.arg_buffer i 0#8]
  | i, c :: rest =>
    if c ≠ SPACE then .arg_buffer i c :: word_stores (i + 1) rest else .arg_buffer i 0#8 :: text_stores 0 rest

/-- The stores of a call's parse. Without a free slot it has returned before. -/
def parse_stores (processes : Fin 6 → Word) (command : CString) : List ParseStore :=
  match first_free processes with
  | none => []
  | some _ => word_stores 0 command.bytes

/-- A byte that ends up at an index from `first` on, with the NUL behind the
    bytes. -/
def StoredAt (first : Nat) (bytes : List Byte) (index : Nat) (b : Byte) : Prop :=
  ∃ i, i ≤ bytes.length ∧ index = first + i ∧ b = bytes.getD i 0#8

theorem storedAt_nil {first : Nat} : StoredAt first [] index b ↔ index = first ∧ b = 0#8 := by
  constructor
  · rintro ⟨i, hi, rfl, rfl⟩
    obtain rfl : i = 0 := Nat.le_zero.mp hi
    exact ⟨rfl, rfl⟩
  · rintro ⟨rfl, rfl⟩
    exact ⟨0, Nat.le_refl 0, rfl, rfl⟩

theorem storedAt_cons {first : Nat} {b' : Byte} :
    StoredAt first (b' :: bytes) index b ↔ index = first ∧ b = b' ∨ StoredAt (first + 1) bytes index b := by
  constructor
  · rintro ⟨i, hi, rfl, rfl⟩
    cases i with
    | zero => exact Or.inl ⟨rfl, rfl⟩
    | succ i => exact Or.inr ⟨i, Nat.le_of_succ_le_succ hi, by omega, rfl⟩
  · rintro (⟨rfl, rfl⟩ | ⟨i, hi, rfl, rfl⟩)
    · exact ⟨0, Nat.zero_le _, rfl, rfl⟩
    · exact ⟨i + 1, Nat.succ_le_succ hi, by omega, rfl⟩

theorem mem_text_stores {j : Nat} {store : ParseStore} :
    store ∈ text_stores j bytes ↔ ∃ index b, store = .argument index b ∧ StoredAt j bytes index b := by
  induction bytes generalizing j with
  | nil =>
    rw [text_stores, List.mem_singleton]
    simp only [storedAt_nil]
    grind
  | cons b bytes ih =>
    rw [text_stores, List.mem_cons, ih]
    simp only [storedAt_cons]
    grind

/-- The stores to `arg_buffer` are those of the command word. -/
theorem arg_buffer_mem {i : Nat} :
    .arg_buffer index b ∈ word_stores i bytes ↔ StoredAt i (parse_loop bytes).1 index b := by
  induction bytes generalizing i with
  | nil =>
    rw [word_stores, List.mem_singleton, parse_loop, storedAt_nil, ParseStore.arg_buffer.injEq]
  | cons c rest ih =>
    rw [word_stores, parse_loop]
    by_cases hspace : c ≠ SPACE
    · rw [if_pos hspace, if_pos hspace, List.mem_cons, ih, storedAt_cons, ParseStore.arg_buffer.injEq]
    · rw [if_neg hspace, if_neg hspace, List.mem_cons, storedAt_nil, ParseStore.arg_buffer.injEq, mem_text_stores]
      apply or_iff_left
      rintro ⟨_, _, h, -⟩
      cases h

/-- The stores to the argument are those of the text behind the first space. -/
theorem argument_mem {i : Nat} :
    .argument index b ∈ word_stores i bytes ↔ ∃ text, (parse_loop bytes).2 = some text ∧ StoredAt 0 text index b := by
  induction bytes generalizing i with
  | nil => simp [word_stores, parse_loop]
  | cons c rest ih =>
    rw [word_stores, parse_loop]
    by_cases hspace : c ≠ SPACE
    · rw [if_pos hspace, if_pos hspace, List.mem_cons, ih]
      simp
    · rw [if_neg hspace, if_neg hspace, List.mem_cons, mem_text_stores]
      simp

/-- Each store to the argument is an assignment of the call, and the other way
    round. -/
theorem argument_mem_ops :
    .argument index b ∈ word_stores 0 c.bytes ↔ Op.argument index b ∈ argument_ops (command_text c) := by
  have hcopy (j : Nat) (text : List Byte) : Op.argument index b ∈ copy_text j text ↔ StoredAt j text index b := by
    induction text generalizing j with
    | nil => rw [copy_text, List.mem_singleton, storedAt_nil, Op.argument.injEq]
    | cons b' text ih => rw [copy_text, List.mem_cons, ih, storedAt_cons, Op.argument.injEq]
  rw [argument_mem, command_text]
  cases (parse_loop c.bytes).2 with
  | none => simp [argument_ops]
  | some text => simp [argument_ops, hcopy]

/-- The parse stores inside its arrays exactly if the command fits them. -/
theorem word_stores_inside_iff : (∀ store ∈ word_stores 0 c.bytes, store.Inside) ↔ Short BUFFER_SIZE (some c) := by
  constructor
  · intro hinside c' hc
    cases hc
    refine ⟨?_, fun text htext => ?_⟩
    · have hnul := hinside _ (arg_buffer_mem.mpr ⟨(command_word c).bytes.length, Nat.le_refl _, rfl, rfl⟩)
      rwa [ParseStore.Inside, Nat.zero_add] at hnul
    · have hnul := hinside _ (argument_mem.mpr ⟨text, htext, text.length, Nat.le_refl _, rfl, rfl⟩)
      rwa [ParseStore.Inside, Nat.zero_add] at hnul
  · intro hshort store hstore
    obtain ⟨hword, htexts⟩ := hshort c rfl
    cases store with
    | arg_buffer i b =>
      obtain ⟨i, hi, rfl, -⟩ := arg_buffer_mem.mp hstore
      rw [ParseStore.Inside, Nat.zero_add]
      exact Nat.lt_of_le_of_lt hi hword
    | argument j b =>
      obtain ⟨text, htext, j, hj, rfl, -⟩ := argument_mem.mp hstore
      rw [ParseStore.Inside, Nat.zero_add]
      exact Nat.lt_of_le_of_lt hj (htexts text htext)

/-- A parse stores inside its arrays, and a command that does not fit them is
    refused. -/
structure ParsesInside (sys : System) (f : Frame) (c : CString) (k : Kernel) : Prop where
  inside : ∀ store ∈ parse_stores k.processes c, store.Inside
  refuses : ¬ Short BUFFER_SIZE (some c) → ∃ k', sys_execute sys f (some c) k = some (k', none)

/-- The parse of a call stays inside its arrays exactly if no slot is free, the
    call returning -1 before it, or if the command fits: nothing is refused for
    its length. -/
theorem parses_inside_iff (sys : System) (f : Frame) (c : CString) (k : Kernel) :
    ParsesInside sys f c k ↔ Bounded BUFFER_SIZE k (some c) := by
  rw [Bounded]
  cases hfirst : first_free k.processes with
  | none =>
    refine iff_of_true ⟨?_, fun _ => ?_⟩ (Or.inl rfl)
    · rw [parse_stores, hfirst]
      exact fun _ h => absurd h List.not_mem_nil
    · have hfirst' : first_free (k.enter f).processes = none := hfirst
      exact ⟨(k.enter f).leave_ret f.ebp NEG_ONE, by simp [sys_execute, hfirst']⟩
  | some q =>
    have hstores : parse_stores k.processes c = word_stores 0 c.bytes := by rw [parse_stores, hfirst]
    constructor
    · intro hparses
      refine Or.inr (word_stores_inside_iff.mp ?_)
      rw [← hstores]
      exact hparses.inside
    · rintro (hnone | hshort)
      · cases hnone
      · refine ⟨?_, fun hlong => absurd hshort hlong⟩
        rw [hstores]
        exact word_stores_inside_iff.mpr hshort

/-- The name of the shell and 128 bytes of text. -/
def long_command : CString :=
  ⟨shell_name.bytes ++ SPACE :: List.replicate 128 0x41#8, by simp [shell_name, SPACE]⟩

/-- The NUL behind them goes to `argument[128]`. -/
theorem not_parses_inside : ¬ ∀ (sys : System) (f : Frame) (c : CString) (k : Kernel), ParsesInside sys f c k := by
  intro hall
  have hparses := hall small_system (small_frame 0) long_command boot_kernel
  refine absurd (hparses.inside (.argument 128 0#8) ?_) (Nat.lt_irrefl 128)
  rw [parse_stores, show first_free boot_kernel.processes = some 0 by decide]
  exact argument_mem.mpr ⟨List.replicate 128 0x41#8, rfl, 128, Nat.le_refl 128, rfl, rfl⟩

end houseam.process
