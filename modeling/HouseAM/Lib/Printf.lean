import HouseAM.Lib.Conversions
import HouseAM.Support.Loops

open support.loops support.numerals

namespace houseam.lib

def PERCENT : Byte := 37#8
def SHARP : Byte := 35#8

/-- Where `printf` is: at the test of its loop, or at `format_char_switch`. It is
    stuck in a conversion that does not end. -/
inductive printf_place where
  | text
  | conversion (alternate : Bool)
  | returned
  | stuck
  deriving DecidableEq

/-- `printf` between two passes: how far the format and the arguments were used,
    what was given to `putc`, and the indices of the format that were read. -/
structure printf_t where
  buf : Nat
  esp : Nat
  put : List Byte
  reads : List Nat
  place : printf_place

/-- What `printf` is called with besides the format: the arguments on the stack,
    the strings they point to, and what the stack holds before a buffer on it
    is written. -/
structure arguments_t where
  word : Nat → Word
  string : Word → CString
  garbage : Nat → Int → Byte

/-- The bytes that a pointer to the format reads, its own and those behind it. -/
def format_byte (format : CString) (behind : Nat → Byte) (index : Nat) : Byte :=
  if index ≤ format.bytes.length then format.get index else behind index

/-- What a conversion specifier puts, and how many arguments it uses. -/
def convert (arguments : arguments_t) (buf esp : Nat) (alternate : Bool) (specifier : Byte) :
    Option (List Byte × Nat) :=
  let value := arguments.word esp
  let garbage := arguments.garbage buf
  if specifier = PERCENT then some ([PERCENT], 0)
  else if specifier = 120#8 then (convert_x garbage value alternate).map fun converted => (converted.1, 1)
  else if specifier = 117#8 then (convert_u garbage value).map fun converted => (converted.1, 1)
  else if specifier = 100#8 then (convert_d garbage value).map fun converted => (converted.1, 1)
  else if specifier = 99#8 then some ([value.setWidth 8], 1)
  else if specifier = 115#8 then some ((puts (arguments.string value)).2, 1)
  else some ([], 0)

/-- One pass reads one byte of the format. After a conversion the loop goes on
    behind the byte that ended it, whichever that was. -/
def printf_step (format : Nat → Byte) (arguments : arguments_t) (s : printf_t) : printf_t :=
  let c := format s.buf
  let reads := s.reads ++ [s.buf]
  match s.place with
  | .text =>
    if c = 0#8 then { s with reads := reads, place := .returned }
    else if c = PERCENT then { s with buf := s.buf + 1, reads := reads, place := .conversion false }
    else { s with buf := s.buf + 1, put := s.put ++ [c], reads := reads }
  | .conversion alternate =>
    if c = SHARP then { s with buf := s.buf + 1, reads := reads, place := .conversion true }
    else
      match convert arguments s.buf s.esp alternate c with
      | some (put, used) =>
        { buf := s.buf + 1, esp := s.esp + used, put := s.put ++ put, reads := reads, place := .text }
      | none => { s with reads := reads, place := .stuck }
  | .returned => s
  | .stuck => s

def printf_entry : printf_t := ⟨0, 0, [], [], .text⟩

def Printing (s : printf_t) : Prop := s.place ≠ .returned

/-- From one place of the format to another one a conversion of so many bytes has
    put these characters, and used an argument. -/
structure Prints (size : Nat) (put : List Byte) (s after : printf_t) : Prop where
  place : after.place = .text
  buf : after.buf = s.buf + size
  esp : after.esp = s.esp + 1
  put : after.put = s.put ++ put

/-- What `printf` puts for the conversions of a number that come next in its
    format, and where the conversion of the argument stores. -/
structure NumbersPrinted (format : Nat → Byte) (arguments : arguments_t) (s : printf_t) : Prop where
  unsigned : format s.buf = PERCENT → format (s.buf + 1) = 117#8 →
    ∃ put conv_buf, Prints 2 put s ((printf_step format arguments)^[2] s) ∧
      Canonical digit digit_value 10 (arguments.word s.esp).toNat put ∧
      convert_u (arguments.garbage (s.buf + 1)) (arguments.word s.esp) = some (put, conv_buf) ∧
      StoresInside 36 conv_buf
  hexadecimal : format s.buf = PERCENT → format (s.buf + 1) = 120#8 →
    ∃ put conv_buf, Prints 2 put s ((printf_step format arguments)^[2] s) ∧
      Canonical digit digit_value 16 (arguments.word s.esp).toNat put ∧
      convert_x (arguments.garbage (s.buf + 1)) (arguments.word s.esp) false = some (put, conv_buf) ∧
      StoresInside 64 conv_buf
  aligned : format s.buf = PERCENT → format (s.buf + 1) = SHARP → format (s.buf + 2) = 120#8 →
    ∃ put conv_buf, Prints 3 put s ((printf_step format arguments)^[3] s) ∧ put.length = 8 ∧
      (∀ c ∈ put, ∃ d < 16, c = digit d) ∧ number digit_value 16 put = (arguments.word s.esp).toNat ∧
      convert_x (arguments.garbage (s.buf + 2)) (arguments.word s.esp) true = some (put, conv_buf) ∧
      StoresInside 64 conv_buf
  signed : format s.buf = PERCENT → format (s.buf + 1) = 100#8 →
    ∃ digits put conv_buf, Prints 2 put s ((printf_step format arguments)^[2] s) ∧
      Canonical digit digit_value 10 (arguments.word s.esp).toInt.natAbs digits ∧
      put = (if (arguments.word s.esp).toInt < 0 then MINUS :: digits else digits) ∧
      signed_number put = (arguments.word s.esp).toInt ∧
      convert_d (arguments.garbage (s.buf + 1)) (arguments.word s.esp) = some (put, conv_buf) ∧
      StoresInside 36 conv_buf

/-- The call returns the format's length, and read nothing behind its NUL. -/
structure ReturnsLength (format : CString) (after : printf_t) : Prop where
  reads : ∀ index ∈ after.reads, index ≤ format.bytes.length
  value : after.buf = format.bytes.length

/-- A format of characters and whole conversions. -/
inductive Complete : List Byte → Prop where
  | nil : Complete []
  | character {c : Byte} {rest : List Byte} (hc : c ≠ PERCENT) (hrest : Complete rest) : Complete (c :: rest)
  | conversion {c : Byte} {rest : List Byte} (n : Nat) (hc : c ≠ SHARP) (hrest : Complete rest) :
      Complete (PERCENT :: List.replicate n SHARP ++ c :: rest)

variable {format : CString} {behind : Nat → Byte} {arguments : arguments_t} {s : printf_t} {bytes : List Byte}
  {c : Byte}

/-! A conversion of a number. -/

theorem printf_step_percent (format : Nat → Byte) (arguments : arguments_t) (hplace : s.place = .text)
    (hpercent : format s.buf = PERCENT) :
    printf_step format arguments s =
      { s with buf := s.buf + 1, reads := s.reads ++ [s.buf], place := .conversion false } := by
  rw [printf_step, hplace, hpercent]
  rfl

theorem printf_step_sharp (format : Nat → Byte) (arguments : arguments_t) {alternate : Bool}
    (hplace : s.place = .conversion alternate) (hsharp : format s.buf = SHARP) :
    printf_step format arguments s =
      { s with buf := s.buf + 1, reads := s.reads ++ [s.buf], place := .conversion true } := by
  rw [printf_step, hplace, hsharp]
  rfl

/-- The pass over the specifier. -/
theorem printf_step_specifier (format : Nat → Byte) (arguments : arguments_t) {alternate : Bool} {put : List Byte}
    {used : Nat} (hplace : s.place = .conversion alternate) (hsharp : format s.buf ≠ SHARP)
    (hconverted : convert arguments s.buf s.esp alternate (format s.buf) = some (put, used)) :
    printf_step format arguments s =
      { buf := s.buf + 1, esp := s.esp + used, put := s.put ++ put, reads := s.reads ++ [s.buf], place := .text } := by
  rw [printf_step, hplace]
  dsimp only
  rw [if_neg hsharp, hconverted]

/-- A percent sign and a specifier. -/
theorem prints_plain (arguments : arguments_t) {format : Nat → Byte} {put : List Byte} (hplace : s.place = .text)
    (hpercent : format s.buf = PERCENT) (hsharp : format (s.buf + 1) ≠ SHARP)
    (hconverted : convert arguments (s.buf + 1) s.esp false (format (s.buf + 1)) = some (put, 1)) :
    Prints 2 put s ((printf_step format arguments)^[2] s) := by
  rw [Function.iterate_succ_apply, printf_step_percent format arguments hplace hpercent, Function.iterate_one,
    printf_step_specifier format arguments rfl hsharp hconverted]
  exact ⟨rfl, rfl, rfl, rfl⟩

/-- A percent sign, the sign for the alternate form and a specifier. -/
theorem prints_alternate (arguments : arguments_t) {format : Nat → Byte} {put : List Byte} (hplace : s.place = .text)
    (hpercent : format s.buf = PERCENT) (hsharp : format (s.buf + 1) = SHARP) (hother : format (s.buf + 2) ≠ SHARP)
    (hconverted : convert arguments (s.buf + 2) s.esp true (format (s.buf + 2)) = some (put, 1)) :
    Prints 3 put s ((printf_step format arguments)^[3] s) := by
  rw [Function.iterate_succ_apply, printf_step_percent format arguments hplace hpercent, Function.iterate_succ_apply,
    printf_step_sharp format arguments rfl hsharp, Function.iterate_one,
    printf_step_specifier format arguments rfl hother hconverted]
  exact ⟨rfl, rfl, rfl, rfl⟩

/-- Wherever `printf` comes to a conversion of a number, it puts the numeral of its
    argument, whatever that is, and goes on behind the conversion; and `itoa`, which
    this rests on, writes the canonical numeral for every radix. -/
theorem numbers_printed (format : Nat → Byte) (arguments : arguments_t) (hplace : s.place = .text) :
    NumbersPrinted format arguments s ∧
      ∀ value radix : Word, 2 ≤ radix.toNat → radix.toNat ≤ 36 → ∀ (b : buffer_t) (buf : Int),
        ∃ digits b', itoa value b buf radix = some b' ∧ Wrote b buf (digits ++ [0#8]) b' ∧
          Canonical digit digit_value radix.toNat value.toNat digits := by
  refine ⟨⟨?_, ?_, ?_, ?_⟩, fun value _ hradix hmax b buf => itoa_canonical value hradix hmax b buf⟩
  · intro hpercent hu
    obtain ⟨put, conv_buf, hconverted, hcanonical, hinside⟩ :=
      (numbers_converted (arguments.garbage (s.buf + 1)) (arguments.word s.esp)).unsigned
    have hdispatch : convert arguments (s.buf + 1) s.esp false (format (s.buf + 1)) = some (put, 1) := by
      rw [hu]
      exact congrArg (Option.map _) hconverted
    exact ⟨put, conv_buf, prints_plain arguments hplace hpercent (hu ▸ by decide) hdispatch, hcanonical, hconverted,
      hinside⟩
  · intro hpercent hx
    obtain ⟨put, conv_buf, hconverted, hcanonical, hinside⟩ :=
      (numbers_converted (arguments.garbage (s.buf + 1)) (arguments.word s.esp)).hexadecimal
    have hdispatch : convert arguments (s.buf + 1) s.esp false (format (s.buf + 1)) = some (put, 1) := by
      rw [hx]
      exact congrArg (Option.map _) hconverted
    exact ⟨put, conv_buf, prints_plain arguments hplace hpercent (hx ▸ by decide) hdispatch, hcanonical, hconverted,
      hinside⟩
  · intro hpercent hsharp hx
    obtain ⟨put, conv_buf, hconverted, hlength, hdigits, hnumber, hinside⟩ :=
      (numbers_converted (arguments.garbage (s.buf + 2)) (arguments.word s.esp)).aligned
    have hdispatch : convert arguments (s.buf + 2) s.esp true (format (s.buf + 2)) = some (put, 1) := by
      rw [hx]
      exact congrArg (Option.map _) hconverted
    exact ⟨put, conv_buf, prints_alternate arguments hplace hpercent hsharp (hx ▸ by decide) hdispatch, hlength,
      hdigits, hnumber, hconverted, hinside⟩
  · intro hpercent hd
    obtain ⟨digits, conv_buf, hcanonical, hconverted, hsigned, hinside⟩ :=
      (numbers_converted (arguments.garbage (s.buf + 1)) (arguments.word s.esp)).signed
    have hdispatch : convert arguments (s.buf + 1) s.esp false (format (s.buf + 1)) =
        some (if (arguments.word s.esp).toInt < 0 then MINUS :: digits else digits, 1) := by
      rw [hd]
      exact congrArg (Option.map _) hconverted
    exact ⟨digits, _, conv_buf, prints_plain arguments hplace hpercent (hd ▸ by decide) hdispatch, hcanonical, rfl,
      hsigned, hconverted, hinside⟩

/-- The most negative number is printed. -/
theorem numbers_printed_minimum :
    let format := format_byte ⟨[PERCENT, 100#8], by decide⟩ fun _ => 0#8
    let arguments : arguments_t := ⟨fun _ => 0x80000000#32, fun _ => ⟨[], by decide⟩, fun _ _ => 0xAA#8⟩
    ∃ put, Prints 2 put printf_entry ((printf_step format arguments)^[2] printf_entry) ∧
      signed_number put = -2 ^ 31 := by
  intro format arguments
  obtain ⟨-, put, -, hprints, -, -, hsigned, -⟩ :=
    (numbers_printed format arguments (s := printf_entry) rfl).1.signed (by decide) (by decide)
  exact ⟨put, hprints, hsigned⟩

/-! Whether the scan is inside a conversion. -/

/-- Inside a conversion or not, behind one more byte. -/
def inside_conversion (inside : Bool) (c : Byte) : Bool :=
  if inside then c = SHARP else c = PERCENT

theorem inside_replicate (n : Nat) : (List.replicate n SHARP).foldl inside_conversion true = true := by
  induction n with
  | zero => rfl
  | succ n ih => exact ih

/-- A scan that ends outside a conversion has passed the byte that ends it. -/
theorem conversion_of_outside (houtside : bytes.foldl inside_conversion true = false) :
    ∃ n c rest, bytes = List.replicate n SHARP ++ c :: rest ∧ c ≠ SHARP ∧
      rest.foldl inside_conversion false = false := by
  induction bytes with
  | nil => cases houtside
  | cons c bytes ih =>
    rw [List.foldl_cons, inside_conversion, if_pos rfl] at houtside
    by_cases hsharp : c = SHARP
    · rw [decide_eq_true hsharp] at houtside
      obtain ⟨n, d, rest, rfl, hd, hrest⟩ := ih houtside
      exact ⟨n + 1, d, rest, by rw [hsharp]; rfl, hd, hrest⟩
    · rw [decide_eq_false hsharp] at houtside
      exact ⟨0, c, bytes, rfl, hsharp, houtside⟩

theorem complete_iff : Complete bytes ↔ bytes.foldl inside_conversion false = false := by
  constructor
  · intro hcomplete
    induction hcomplete with
    | nil => rfl
    | character hc _ ih =>
      rw [List.foldl_cons, inside_conversion, if_neg Bool.false_ne_true, decide_eq_false hc]
      exact ih
    | conversion n hc _ ih =>
      rw [List.cons_append, List.foldl_cons, inside_conversion, if_neg Bool.false_ne_true, decide_eq_true rfl,
        List.foldl_append, inside_replicate, List.foldl_cons, inside_conversion, if_pos rfl, decide_eq_false hc]
      exact ih
  · intro houtside
    induction hlength : bytes.length using Nat.strongRecOn generalizing bytes with
    | ind length ih =>
      cases bytes with
      | nil => exact .nil
      | cons c bytes =>
        rw [List.foldl_cons, inside_conversion, if_neg Bool.false_ne_true] at houtside
        rw [List.length_cons] at hlength
        by_cases hpercent : c = PERCENT
        · rw [decide_eq_true hpercent] at houtside
          obtain ⟨n, d, rest, rfl, hd, hrest⟩ := conversion_of_outside houtside
          rw [List.length_append, List.length_cons] at hlength
          rw [hpercent]
          exact .conversion n hd (ih rest.length (by omega) hrest rfl)
        · rw [decide_eq_false hpercent] at houtside
          exact .character hpercent (ih bytes.length (by omega) houtside rfl)

/-! The passes. -/

/-- Every conversion of a number ends. -/
theorem convert_ends (arguments : arguments_t) (buf esp : Nat) (alternate : Bool) (specifier : Byte) :
    ∃ put used, convert arguments buf esp alternate specifier = some (put, used) := by
  unfold convert
  dsimp only
  split
  · exact ⟨_, _, rfl⟩
  · split
    · cases alternate with
      | false =>
        obtain ⟨conv_buf, hconverted, -⟩ := convert_numeral (by decide : 2 ≤ 16) (by decide) (arguments.garbage buf)
          (arguments.word esp)
        rw [convert_x, if_pos rfl, hconverted]
        exact ⟨_, _, rfl⟩
      | true =>
        obtain ⟨conv_buf, hconverted, -⟩ := convert_x_aligned (arguments.garbage buf) (arguments.word esp)
        rw [hconverted]
        exact ⟨_, _, rfl⟩
    · split
      · obtain ⟨conv_buf, hconverted, -⟩ := convert_numeral (by decide : 2 ≤ 10) (by decide) (arguments.garbage buf)
          (arguments.word esp)
        rw [convert_u, hconverted]
        exact ⟨_, _, rfl⟩
      · split
        · obtain ⟨conv_buf, hconverted, -⟩ := convert_d_signed (arguments.garbage buf) (arguments.word esp)
          rw [hconverted]
          exact ⟨_, _, rfl⟩
        · split
          · exact ⟨_, _, rfl⟩
          · split <;> exact ⟨_, _, rfl⟩

/-- The first bytes of the format were scanned, each of them once. -/
structure Scanned (format : CString) (k : Nat) (s : printf_t) : Prop where
  buf : s.buf = k
  reads : s.reads = List.range k
  outside : (format.bytes.take k).foldl inside_conversion false = false → s.place = .text
  inside : (format.bytes.take k).foldl inside_conversion false = true → ∃ alternate, s.place = .conversion alternate

theorem scanned_entry : Scanned format 0 printf_entry := ⟨rfl, rfl, fun _ => rfl, nofun⟩

theorem Scanned.printing {k : Nat} (hscanned : Scanned format k s) : Printing s := by
  cases hinside : (format.bytes.take k).foldl inside_conversion false with
  | false =>
    rw [Printing, hscanned.outside hinside]
    nofun
  | true =>
    obtain ⟨alternate, hplace⟩ := hscanned.inside hinside
    rw [Printing, hplace]
    nofun

/-- A pass over a byte of the format. -/
theorem Scanned.step {k : Nat} (hscanned : Scanned format k s) (hk : k < format.bytes.length) :
    Scanned format (k + 1) (printf_step (format_byte format behind) arguments s) := by
  have hbyte : format_byte format behind s.buf = format.bytes[k] := by
    rw [hscanned.buf, format_byte, if_pos (Nat.le_of_lt hk), format.get_eq_getElem hk]
  have hnonzero : format.bytes[k] ≠ 0#8 := by
    rw [← format.get_eq_getElem hk]
    exact format.get_ne_zero hk
  have hreads : s.reads ++ [s.buf] = List.range (k + 1) := by
    rw [hscanned.reads, hscanned.buf, List.range_succ]
  have hscan : (format.bytes.take (k + 1)).foldl inside_conversion false =
      inside_conversion ((format.bytes.take k).foldl inside_conversion false) format.bytes[k] := by
    rw [List.take_succ_eq_append_getElem hk, List.foldl_append]
    rfl
  have hbuf : s.buf + 1 = k + 1 := by rw [hscanned.buf]
  unfold printf_step
  rw [hbyte]
  dsimp only
  cases hinside : (format.bytes.take k).foldl inside_conversion false with
  | false =>
    rw [hinside, inside_conversion, if_neg Bool.false_ne_true] at hscan
    rw [hscanned.outside hinside]
    dsimp only
    rw [if_neg hnonzero]
    by_cases hpercent : format.bytes[k] = PERCENT
    · rw [if_pos hpercent]
      rw [decide_eq_true hpercent] at hscan
      exact ⟨hbuf, hreads, fun h => absurd (hscan.symm.trans h) (by decide), fun _ => ⟨false, rfl⟩⟩
    · rw [if_neg hpercent]
      rw [decide_eq_false hpercent] at hscan
      exact ⟨hbuf, hreads, fun _ => rfl, fun h => absurd (hscan.symm.trans h) (by decide)⟩
  | true =>
    obtain ⟨alternate, hplace⟩ := hscanned.inside hinside
    rw [hinside, inside_conversion, if_pos rfl] at hscan
    rw [hplace]
    dsimp only
    by_cases hsharp : format.bytes[k] = SHARP
    · rw [if_pos hsharp]
      rw [decide_eq_true hsharp] at hscan
      exact ⟨hbuf, hreads, fun h => absurd (hscan.symm.trans h) (by decide), fun _ => ⟨true, rfl⟩⟩
    · rw [if_neg hsharp]
      rw [decide_eq_false hsharp] at hscan
      obtain ⟨put, used, hconverted⟩ := convert_ends arguments s.buf s.esp alternate format.bytes[k]
      rw [hconverted]
      exact ⟨hbuf, hreads, fun _ => rfl, fun h => absurd (hscan.symm.trans h) (by decide)⟩

theorem format_byte_end : format_byte format behind format.bytes.length = 0#8 := by
  rw [format_byte, if_pos (Nat.le_refl _), CString.get, List.getD_eq_default _ _ (Nat.le_refl _)]

/-- The scan of a format that ends outside a conversion stops at its NUL. -/
theorem Scanned.ends {k : Nat} (hscanned : Scanned format k s) (hk : k ≤ format.bytes.length)
    (houtside : format.bytes.foldl inside_conversion false = false) :
    ∃ passes after, Ends Printing (printf_step (format_byte format behind) arguments) s passes after ∧
      ReturnsLength format after := by
  induction hleft : format.bytes.length - k generalizing k s with
  | zero =>
    have hend : k = format.bytes.length := by omega
    subst hend
    have hplace : s.place = .text := hscanned.outside (by rwa [List.take_length])
    have hstep : printf_step (format_byte format behind) arguments s =
        { s with reads := List.range (format.bytes.length + 1), place := .returned } := by
      rw [printf_step, hplace, hscanned.buf, format_byte_end, hscanned.reads, ← List.range_succ]
      rfl
    refine ⟨1, _, .pass hscanned.printing (.stop fun h => h ?_), ?_⟩
    · rw [hstep]
    · rw [hstep]
      exact ⟨fun index hindex => Nat.lt_succ_iff.mp (List.mem_range.mp hindex), hscanned.buf⟩
  | succ left ih =>
    obtain ⟨passes, after, ends, hreturns⟩ := ih (hscanned.step (by omega)) (by omega) (by omega)
    exact ⟨passes + 1, after, .pass hscanned.printing ends, hreturns⟩

theorem printf_step_reads (format : Nat → Byte) (arguments : arguments_t) (s : printf_t) {index : Nat}
    (hindex : index ∈ s.reads) : index ∈ (printf_step format arguments s).reads := by
  have hmore : index ∈ s.reads ++ [s.buf] := List.mem_append_left _ hindex
  unfold printf_step
  dsimp only
  split
  · split
    · exact hmore
    · split <;> exact hmore
  · split
    · exact hmore
    · split <;> exact hmore
  · exact hindex
  · exact hindex

theorem printf_step_text (format : Nat → Byte) (arguments : arguments_t) (hplace : s.place = .text) :
    s.buf ∈ (printf_step format arguments s).reads := by
  have hmore : s.buf ∈ s.reads ++ [s.buf] := List.mem_append_right _ (List.mem_singleton_self _)
  unfold printf_step
  rw [hplace]
  dsimp only
  split
  · exact hmore
  · split <;> exact hmore

/-- The scan of a format that ends inside a conversion takes the NUL for the
    specifier, and reads on behind it. -/
theorem reads_behind (hinside : format.bytes.foldl inside_conversion false = true) {passes : Nat} {after : printf_t}
    (ends : Ends Printing (printf_step (format_byte format behind) arguments) printf_entry passes after) :
    format.bytes.length + 1 ∈ after.reads := by
  have hend := ends.invariant (motive := fun s => (∃ k ≤ format.bytes.length, Scanned format k s) ∨
    (s.buf = format.bytes.length + 1 ∧ s.place = .text) ∨ format.bytes.length + 1 ∈ s.reads) ?_
    (Or.inl ⟨0, Nat.zero_le _, scanned_entry⟩)
  · rcases hend with ⟨k, -, hscanned⟩ | ⟨-, hplace⟩ | hread
    · exact absurd hscanned.printing ends.not_running
    · refine absurd ?_ ends.not_running
      rw [Printing, hplace]
      nofun
    · exact hread
  · intro s hs _
    rcases hs with ⟨k, hk, hscanned⟩ | ⟨hbuf, hplace⟩ | hread
    · rcases Nat.lt_or_eq_of_le hk with hless | rfl
      · exact Or.inl ⟨k + 1, hless, hscanned.step hless⟩
      · obtain ⟨alternate, hplace⟩ := hscanned.inside (by rwa [List.take_length])
        have hnul : convert arguments s.buf s.esp alternate 0#8 = some ([], 0) := rfl
        refine Or.inr (Or.inl ?_)
        rw [printf_step, hplace, hscanned.buf, format_byte_end]
        rw [hscanned.buf] at hnul
        dsimp only
        rw [if_neg (by decide), hnul]
        exact ⟨rfl, rfl⟩
    · exact Or.inr (Or.inr (hbuf ▸ printf_step_text _ _ hplace))
    · exact Or.inr (Or.inr (printf_step_reads _ _ _ hread))

/-- `printf` returns the length of its format, and reads it no further than its
    NUL, exactly if the format does not end inside a conversion. -/
theorem printf_returns_iff (format : CString) (behind : Nat → Byte) (arguments : arguments_t) :
    (∃ passes after, Ends Printing (printf_step (format_byte format behind) arguments) printf_entry passes after ∧
        ReturnsLength format after) ↔ Complete format.bytes := by
  rw [complete_iff]
  constructor
  · rintro ⟨passes, after, ends, hreturns⟩
    by_contra hinside
    have hread := reads_behind (Bool.eq_true_of_not_eq_false hinside) ends
    have hle := hreturns.reads _ hread
    omega
  · exact scanned_entry.ends (Nat.zero_le _)

/-- A format that is a percent sign: the byte behind its NUL is read. -/
theorem printf_reads_behind : ¬ ∀ (format : CString) (behind : Nat → Byte) (arguments : arguments_t),
    ∃ passes after, Ends Printing (printf_step (format_byte format behind) arguments) printf_entry passes after ∧
      ReturnsLength format after := by
  intro hall
  obtain ⟨passes, after, ends, hreturns⟩ :=
    hall ⟨[PERCENT], by decide⟩ (fun _ => 0#8) ⟨fun _ => 0#32, fun _ => ⟨[], by decide⟩, fun _ _ => 0#8⟩
  have hread := reads_behind rfl ends
  exact absurd (hreturns.reads _ hread) (by decide)

end houseam.lib
