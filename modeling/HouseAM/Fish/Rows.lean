import HouseAM.Fish.Frames

open houseam.filesystem houseam.syscalls houseam.system_call support.clients support.lines

namespace houseam.fish

variable {img : Image} {fd fd' fd0 fd1 : Int} {line line0 line1 : List Byte} {later later0 later1 : List (List Byte)}
  {c c0 c1 : Byte} {eof : Bool} {pcb pcb' : pcb_t} {history : Transcript} {t : Task} {row col fuel : Nat}
  {blink_struct : mp1_blink_struct}

/-- So much of a line is still to be read of a descriptor, and the lines behind it.
    At the end of the line the character is a newline. -/
inductive Cursor (img : Image) (fd : Int) : List Byte → List (List Byte) → Byte → Bool → pcb_t → Prop where
  | going {line : List Byte} {later : List (List Byte)} {c : Byte} {rest : List Byte} {pcb : pcb_t}
      (hc : c ≠ NEWLINE) (hopened : Opened img fd rest pcb) (hsplit : rest.splitOn NEWLINE = line :: later) :
      Cursor img fd line later c false pcb
  | passed {rest : List Byte} {pcb : pcb_t} (hopened : Opened img fd rest pcb) :
      Cursor img fd [] (rest.splitOn NEWLINE) NEWLINE false pcb
  | ended {pcb : pcb_t} : Cursor img fd [] [] NEWLINE true pcb

theorem Cursor.of_entry (hcursor : Cursor img fd line later c eof pcb)
    (hsame : pcb'.fd_arr (fd_index fd) = pcb.fd_arr (fd_index fd)) : Cursor img fd line later c eof pcb' := by
  cases hcursor with
  | going hc hopened hsplit => exact .going hc (hopened.of_entry hsame) hsplit
  | passed hopened => exact .passed (hopened.of_entry hsame)
  | ended => exact .ended

theorem Cursor.other (hcursor : Cursor img fd line later c eof pcb) (hne : fd_index fd ≠ fd_index fd')
    (honly : OnlyAt fd' pcb pcb') : Cursor img fd line later c eof pcb' :=
  hcursor.of_entry (honly _ hne)

/-- A newline is read exactly at the end of a line. -/
theorem Cursor.next {post : Byte × Bool → Transcript → Task → Prop} (hcursor : Cursor img fd line later c eof t.pcb)
    (hlo : 2 ≤ fd) (hhi : fd ≤ 7)
    (hpost : ∀ eof' history' t', Cursor img fd line.tail later (line.headD NEWLINE) eof' t'.pcb →
      (line.headD NEWLINE = NEWLINE ↔ line = []) → OnlyAt fd t.pcb t'.pcb →
      post (line.headD NEWLINE, eof') history' t') :
    (next_char fd c eof).Ensures (kernel img) post history t := by
  have hstay (hline : line = []) (hover : Cursor img fd [] later NEWLINE eof t.pcb) :
      (Program.done (NEWLINE, eof) : Process (Byte × Bool)).Ensures (kernel img) post history t := by
    subst hline
    intro t' ht'
    have hpcb : t'.pcb = t.pcb := ht'
    exact hpost eof history t' (hpcb ▸ hover) (iff_of_true rfl rfl) (hpcb ▸ OnlyAt.refl fd t.pcb)
  cases hcursor with
  | passed hopened => exact hstay rfl (.passed hopened)
  | ended => exact hstay rfl .ended
  | @going _ _ _ rest _ hc hopened hsplit =>
    obtain ⟨pcb', hreads, hopened'⟩ := hopened.reads hlo hhi 1
    rw [next_char, if_pos hc]
    cases rest with
    | nil =>
      rw [List.splitOn_eq_singleton List.not_mem_nil] at hsplit
      obtain ⟨rfl, rfl⟩ := List.cons.inj hsplit
      have hstore : (char_at c).store 0 [] = some (char_at c) := rfl
      refine Program.Ensures.bind (ensures_read hreads hstore fun history' t' _ ht' => ?_)
      intro t'' ht''
      have hpcb : t''.pcb = pcb' := Eq.trans ht'' ht'
      exact hpost true history' t'' .ended (iff_of_true rfl rfl) (hpcb ▸ OnlyAt.readsAs hreads)
    | cons b rest =>
      have hstore : (char_at c).store 0 [b] = some (char_at b) := rfl
      refine Program.Ensures.bind (ensures_read hreads hstore fun history' t' _ ht' => ?_)
      intro t'' ht''
      have hpcb : t''.pcb = pcb' := Eq.trans ht'' ht'
      have honly : OnlyAt fd t.pcb t''.pcb := hpcb ▸ OnlyAt.readsAs hreads
      have hopened'' : Opened img fd rest t''.pcb := hpcb ▸ hopened'
      by_cases hb : b = NEWLINE
      · subst hb
        rw [splitOn_mark] at hsplit
        obtain ⟨rfl, rfl⟩ := List.cons.inj hsplit
        exact hpost false history' t'' (.passed hopened'') (iff_of_true rfl rfl) honly
      · obtain ⟨line', later', hsplit', hcons⟩ := splitOn_cons hb rest
        rw [hcons] at hsplit
        obtain ⟨rfl, rfl⟩ := List.cons.inj hsplit
        exact hpost false history' t'' (.going hb hopened'' hsplit') (iff_of_false hb (List.cons_ne_nil _ _)) honly

/-- What a place of the two frames adds to the list. -/
def cell (blink_struct : mp1_blink_struct) (row col : Nat) (c0 c1 : Byte) : List mp1_blink_struct :=
  if Visible c0 c1 then [frame_struct blink_struct row col c0 c1] else []

/-- What a row adds to the list. A short line is filled up with newlines. -/
def row_structs (blink_struct : mp1_blink_struct) (row col : Nat) (line0 line1 : List Byte) : List mp1_blink_struct :=
  beside (cell blink_struct row) NEWLINE col line0 line1

def added (s : fish_t) (structs : List mp1_blink_struct) : fish_t :=
  structs.foldl (fun s arg => (mp1_ioctl_add s arg).2) s

theorem added_append (s : fish_t) (structs structs' : List mp1_blink_struct) :
    added s (structs ++ structs') = added (added s structs) structs' :=
  List.foldl_append

theorem added_cell (s : fish_t) (c0 c1 : Byte) : added s (cell blink_struct row col c0 c1) =
    if Visible c0 c1 then (mp1_ioctl_add s (frame_struct blink_struct row col c0 c1)).2 else s := by
  rw [cell]
  split <;> rfl

theorem not_visible_end : ¬ Visible NEWLINE NEWLINE := by
  rintro (h | h) <;> exact h.2 rfl

/-- What the loop over a row keeps: so much of the longer line is left. -/
structure Drawing (img : Image) (blink_struct : mp1_blink_struct) (fd0 fd1 : Int) (row : Nat)
    (later0 later1 : List (List Byte)) (total : fish_t) (m : Nat) (l : frames_t) (t : Task) : Prop where
  row_eq : l.row = row
  rest : ∃ line0 line1, max line0.length line1.length = m ∧ Cursor img fd0 line0 later0 l.c0 l.eof0 t.pcb ∧
    Cursor img fd1 line1 later1 l.c1 l.eof1 t.pcb ∧
    added l.memory (row_structs blink_struct row l.col line0 line1) = total

/-- What it ends with. -/
structure Drawn (img : Image) (fd0 fd1 : Int) (row : Nat) (later0 later1 : List (List Byte)) (total : fish_t)
    (l : frames_t) (t : Task) : Prop where
  row_eq : l.row = row
  memory_eq : l.memory = total
  first : Cursor img fd0 [] later0 NEWLINE l.eof0 t.pcb
  second : Cursor img fd1 [] later1 NEWLINE l.eof1 t.pcb

theorem column_ensures {total : fish_t} {m : Nat} {l : frames_t} (hlo0 : 2 ≤ fd0) (hhi0 : fd0 ≤ 7) (hlo1 : 2 ≤ fd1)
    (hhi1 : fd1 ≤ 7) (hne : fd_index fd0 ≠ fd_index fd1)
    (hdrawing : Drawing img blink_struct fd0 fd1 row later0 later1 total m l t) :
    (column_pass blink_struct fd0 fd1 l).Ensures (kernel img) (Program.Passes (kernel img)
      (fun m l _ t => Drawing img blink_struct fd0 fd1 row later0 later1 total m l t)
      (fun l _ t => Drawn img fd0 fd1 row later0 later1 total l t) m) history t := by
  obtain ⟨hrow, line0, line1, hm, hcursor0, hcursor1, htotal⟩ := hdrawing
  refine Program.Ensures.bind (hcursor0.next hlo0 hhi0 fun eof0 history₁ t₁ hcursor0' hend0 honly₁ => ?_)
  refine Program.Ensures.bind ((hcursor1.other hne.symm honly₁).next hlo1 hhi1
    fun eof1 history₂ t₂ hcursor1' hend1 honly₂ => ?_)
  have hcursor0'' := hcursor0'.other hne honly₂
  dsimp only
  by_cases hend : line0 = [] ∧ line1 = []
  · obtain ⟨rfl, rfl⟩ := hend
    rw [if_pos ⟨rfl, rfl⟩]
    intro t₃ ht₃ t₄ ht₄
    have hpcb : t₄.pcb = t₂.pcb := Eq.trans ht₄ ht₃
    exact ⟨hrow, htotal, hpcb ▸ hcursor0'', hpcb ▸ hcursor1'⟩
  · rw [if_neg fun h => hend ⟨hend0.mp h.1, hend1.mp h.2⟩]
    have hlonger : line0 ≠ [] ∨ line1 ≠ [] := not_and_or.mp hend
    have hless : max line0.tail.length line1.tail.length < m := by
      rw [List.length_tail, List.length_tail]
      rcases hlonger with hlonger | hlonger <;> have hpos := List.length_pos_of_ne_nil hlonger <;> omega
    rw [row_structs, beside_step hlonger, added_append, added_cell] at htotal
    have hnext (l' : frames_t) (t' : Task) (hrow' : l'.row = row) (hcol' : l'.col = l.col + 1)
        (hcursor0' : Cursor img fd0 line0.tail later0 l'.c0 l'.eof0 t'.pcb)
        (hcursor1' : Cursor img fd1 line1.tail later1 l'.c1 l'.eof1 t'.pcb)
        (hmemory : l'.memory = if Visible (line0.headD NEWLINE) (line1.headD NEWLINE) then
          (mp1_ioctl_add l.memory (frame_struct blink_struct row l.col (line0.headD NEWLINE) (line1.headD NEWLINE))).2
          else l.memory) :
        ∃ m' < m, Drawing img blink_struct fd0 fd1 row later0 later1 total m' l' t' := by
      refine ⟨_, hless, hrow', line0.tail, line1.tail, rfl, hcursor0', hcursor1', ?_⟩
      rw [row_structs, hcol', hmemory]
      exact htotal
    by_cases hvisible : Visible (line0.headD NEWLINE) (line1.headD NEWLINE)
    · rw [if_pos hvisible]
      intro t₃ ht₃
      have hpcb : t₃.pcb = t₂.pcb := ht₃
      refine hnext _ t₃ hrow rfl (hpcb ▸ hcursor0'') (hpcb ▸ hcursor1') ?_
      rw [if_pos hvisible, ← hrow]
    · rw [if_neg hvisible]
      intro t₃ ht₃
      have hpcb : t₃.pcb = t₂.pcb := ht₃
      exact hnext _ t₃ hrow rfl (hpcb ▸ hcursor0'') (hpcb ▸ hcursor1') (if_neg hvisible).symm

/-- A row is read and added to the list. -/
theorem columns_ensure {l : frames_t} (hlo0 : 2 ≤ fd0) (hhi0 : fd0 ≤ 7) (hlo1 : 2 ≤ fd1) (hhi1 : fd1 ≤ 7)
    (hne : fd_index fd0 ≠ fd_index fd1) (hcursor0 : Cursor img fd0 line0 later0 l.c0 l.eof0 t.pcb)
    (hcursor1 : Cursor img fd1 line1 later1 l.c1 l.eof1 t.pcb) (hfuel0 : line0.length < fuel)
    (hfuel1 : line1.length < fuel) :
    (Program.iterate (column_pass blink_struct fd0 fd1) fuel l).Ensures (kernel img)
      (fun l' _ t' => Drawn img fd0 fd1 l.row later0 later1
        (added l.memory (row_structs blink_struct l.row l.col line0 line1)) l' t') history t := by
  have hstart : Drawing img blink_struct fd0 fd1 l.row later0 later1
      (added l.memory (row_structs blink_struct l.row l.col line0 line1)) (max line0.length line1.length) l t :=
    ⟨rfl, line0, line1, rfl, hcursor0, hcursor1, rfl⟩
  have hpass : ∀ m l' history' t', Drawing img blink_struct fd0 fd1 l.row later0 later1
        (added l.memory (row_structs blink_struct l.row l.col line0 line1)) m l' t' →
      (column_pass blink_struct fd0 fd1 l').Ensures (kernel img) (Program.Passes (kernel img)
        (fun m l' _ t' => Drawing img blink_struct fd0 fd1 l.row later0 later1
          (added l.memory (row_structs blink_struct l.row l.col line0 line1)) m l' t')
        (fun l' _ t' => Drawn img fd0 fd1 l.row later0 later1
          (added l.memory (row_structs blink_struct l.row l.col line0 line1)) l' t') m) history' t' :=
    fun m l' history' t' hdrawing => column_ensures hlo0 hhi0 hlo1 hhi1 hne hdrawing
  exact Program.iterate_ensures hpass hstart (by omega)

/-- A file between two rows: so many lines are still to be read of it. -/
inductive Awaiting (img : Image) (fd : Int) : List (List Byte) → Byte → Bool → pcb_t → Prop where
  | more {rest : List Byte} {pcb : pcb_t} (hopened : Opened img fd rest pcb) :
      Awaiting img fd (rest.splitOn NEWLINE) 48#8 false pcb
  | ended {pcb : pcb_t} : Awaiting img fd [] NEWLINE true pcb

theorem Awaiting.of_entry {lines : List (List Byte)} (hawaiting : Awaiting img fd lines c eof pcb)
    (hsame : pcb'.fd_arr (fd_index fd) = pcb.fd_arr (fd_index fd)) : Awaiting img fd lines c eof pcb' := by
  cases hawaiting with
  | more hopened => exact .more (hopened.of_entry hsame)
  | ended => exact .ended

/-- Before a row its line is still to be read, or there is none. -/
theorem Awaiting.cursor {lines : List (List Byte)} (hawaiting : Awaiting img fd lines c eof pcb) :
    Cursor img fd (lines.headD []) lines.tail c eof pcb := by
  cases hawaiting with
  | @more rest _ hopened =>
    obtain ⟨line, later, hsplit⟩ := List.exists_cons_of_ne_nil (List.splitOn_ne_nil NEWLINE rest)
    rw [hsplit]
    exact .going (by decide) hopened hsplit
  | ended => exact .ended

/-- A file has lines left until its end was read. -/
theorem Awaiting.eof_iff {lines : List (List Byte)} (hawaiting : Awaiting img fd lines c eof pcb) :
    eof = false ↔ lines ≠ [] := by
  cases hawaiting with
  | more hopened => exact iff_of_true rfl (List.splitOn_ne_nil _ _)
  | ended => exact iff_of_false Bool.true_eq_false_eq_False (fun h => h rfl)

theorem OnlyAt.close (hlo : 2 ≤ fd) (hhi : fd ≤ 7) (pcb : pcb_t) : OnlyAt fd pcb (sys_close fd pcb).2 := by
  have hrange : ¬ (fd < 2 ∨ fd > PCB_LENGTH - 1) := by
    simp only [PCB_LENGTH]
    omega
  rw [sys_close_eq pcb hrange]
  exact OnlyAt.setFd fd pcb _

/-- Behind a row a file that is at its end is closed. -/
theorem Cursor.end_row {post : Byte → Transcript → Task → Prop} (hcursor : Cursor img fd [] later NEWLINE eof t.pcb)
    (hlo : 2 ≤ fd) (hhi : fd ≤ 7)
    (hpost : ∀ c' history' t', Awaiting img fd later c' eof t'.pcb → OnlyAt fd t.pcb t'.pcb → post c' history' t') :
    (fish.end_row fd eof).Ensures (kernel img) post history t := by
  cases hcursor with
  | going hc => exact absurd rfl hc
  | passed hopened =>
    intro t' ht'
    have hpcb : t'.pcb = t.pcb := ht'
    exact hpost _ history t' (.more (hpcb ▸ hopened)) (hpcb ▸ OnlyAt.refl fd t.pcb)
  | ended =>
    refine Program.Ensures.bind (ensures_close fun history' t' _ ht' => ?_)
    intro t'' ht''
    have hpcb : t''.pcb = (sys_close fd t.pcb).2 := Eq.trans ht'' ht'
    exact hpost _ history' t'' .ended (hpcb ▸ OnlyAt.close hlo hhi t.pcb)

/-- What the rows of two texts add to the list. -/
def frame_structs (blink_struct : mp1_blink_struct) (row : Nat) (lines0 lines1 : List (List Byte)) :
    List mp1_blink_struct :=
  beside (fun row => row_structs blink_struct row 0) [] row lines0 lines1

/-- What the loop over the rows keeps. -/
structure Adding (img : Image) (blink_struct : mp1_blink_struct) (fd0 fd1 : Int) (fuel : Nat) (total : fish_t) (m : Nat)
    (l : frames_t) (t : Task) : Prop where
  rest : ∃ lines0 lines1, max lines0.length lines1.length = m ∧ Awaiting img fd0 lines0 l.c0 l.eof0 t.pcb ∧
    Awaiting img fd1 lines1 l.c1 l.eof1 t.pcb ∧ (∀ line ∈ lines0 ++ lines1, line.length < fuel) ∧
    added l.memory (frame_structs blink_struct l.row lines0 lines1) = total

theorem headD_length_lt {lines : List (List Byte)} (hfuel : ∀ line ∈ lines, line.length < fuel) (hpos : 0 < fuel) :
    (lines.headD []).length < fuel := by
  cases lines with
  | nil => exact hpos
  | cons line lines => exact hfuel line List.mem_cons_self

theorem row_ensures {total : fish_t} {m : Nat} {l : frames_t} (hlo0 : 2 ≤ fd0) (hhi0 : fd0 ≤ 7) (hlo1 : 2 ≤ fd1)
    (hhi1 : fd1 ≤ 7) (hne : fd_index fd0 ≠ fd_index fd1) (hpos : 0 < fuel)
    (hadding : Adding img blink_struct fd0 fd1 fuel total m l t) :
    (row_pass fuel blink_struct fd0 fd1 l).Ensures (kernel img) (Program.Passes (kernel img)
      (fun m l _ t => Adding img blink_struct fd0 fd1 fuel total m l t) (fun s _ _ => s = total) m) history t := by
  obtain ⟨lines0, lines1, hm, hawaiting0, hawaiting1, hshort, htotal⟩ := hadding
  by_cases hend : lines0 = [] ∧ lines1 = []
  · obtain ⟨rfl, rfl⟩ := hend
    have hdone : ¬ (l.eof0 = false ∨ l.eof1 = false) := by
      rw [hawaiting0.eof_iff, hawaiting1.eof_iff]
      simp
    rw [row_pass, if_neg hdone]
    intro t₁ ht₁ t₂ ht₂
    exact htotal
  · have hmore : lines0 ≠ [] ∨ lines1 ≠ [] := not_and_or.mp hend
    have hless : max lines0.tail.length lines1.tail.length < m := by
      rw [List.length_tail, List.length_tail]
      rcases hmore with hmore | hmore <;> have hpos := List.length_pos_of_ne_nil hmore <;> omega
    have hgoes : l.eof0 = false ∨ l.eof1 = false := by rwa [hawaiting0.eof_iff, hawaiting1.eof_iff]
    rw [frame_structs, beside_step hmore, added_append] at htotal
    rw [row_pass, if_pos hgoes]
    have hrow : (Program.iterate (column_pass blink_struct fd0 fd1) fuel { l with col := 0 }).Ensures (kernel img)
        (fun l' _ t' => Drawn img fd0 fd1 l.row lines0.tail lines1.tail
          (added l.memory (row_structs blink_struct l.row 0 (lines0.headD []) (lines1.headD []))) l' t') history t :=
      columns_ensure (l := { l with col := 0 }) hlo0 hhi0 hlo1 hhi1 hne hawaiting0.cursor hawaiting1.cursor
        (headD_length_lt (fun line h => hshort line (List.mem_append_left _ h)) hpos)
        (headD_length_lt (fun line h => hshort line (List.mem_append_right _ h)) hpos)
    refine Program.Ensures.bind (hrow.mono ?_)
    rintro l' history' t' ⟨hrow', hmemory, hcursor0, hcursor1⟩
    refine Program.Ensures.bind (hcursor0.end_row hlo0 hhi0 fun c0 history₁ t₁ hawaiting0' honly₁ => ?_)
    refine Program.Ensures.bind ((hcursor1.other hne.symm honly₁).end_row hlo1 hhi1
      fun c1 history₂ t₂ hawaiting1' honly₂ => ?_)
    intro t₃ ht₃
    have hpcb : t₃.pcb = t₂.pcb := ht₃
    refine ⟨_, hless, lines0.tail, lines1.tail, rfl, ?_, ?_, ?_, ?_⟩
    · exact hawaiting0'.of_entry (by rw [hpcb, honly₂ _ hne])
    · exact hpcb ▸ hawaiting1'
    · intro line hline
      refine hshort line ?_
      rcases List.mem_append.mp hline with hline | hline
      · exact List.mem_append_left _ (List.mem_of_mem_tail hline)
      · exact List.mem_append_right _ (List.mem_of_mem_tail hline)
    · rw [frame_structs]
      dsimp only
      rw [hrow', hmemory]
      exact htotal

/-- The rows are read and added to the list. -/
theorem rows_ensure {l : frames_t} {lines0 lines1 : List (List Byte)} (hlo0 : 2 ≤ fd0) (hhi0 : fd0 ≤ 7) (hlo1 : 2 ≤ fd1)
    (hhi1 : fd1 ≤ 7) (hne : fd_index fd0 ≠ fd_index fd1) (hawaiting0 : Awaiting img fd0 lines0 l.c0 l.eof0 t.pcb)
    (hawaiting1 : Awaiting img fd1 lines1 l.c1 l.eof1 t.pcb) (hshort : ∀ line ∈ lines0 ++ lines1, line.length < fuel)
    (hfuel0 : lines0.length < fuel) (hfuel1 : lines1.length < fuel) :
    (Program.iterate (row_pass fuel blink_struct fd0 fd1) fuel l).Ensures (kernel img)
      (fun s _ _ => s = added l.memory (frame_structs blink_struct l.row lines0 lines1)) history t := by
  have hstart : Adding img blink_struct fd0 fd1 fuel (added l.memory (frame_structs blink_struct l.row lines0 lines1))
      (max lines0.length lines1.length) l t := ⟨lines0, lines1, rfl, hawaiting0, hawaiting1, hshort, rfl⟩
  have hpass : ∀ m l' history' t', Adding img blink_struct fd0 fd1 fuel
        (added l.memory (frame_structs blink_struct l.row lines0 lines1)) m l' t' →
      (row_pass fuel blink_struct fd0 fd1 l').Ensures (kernel img) (Program.Passes (kernel img)
        (fun m l' _ t' => Adding img blink_struct fd0 fd1 fuel
          (added l.memory (frame_structs blink_struct l.row lines0 lines1)) m l' t')
        (fun s _ _ => s = added l.memory (frame_structs blink_struct l.row lines0 lines1)) m) history' t' :=
    fun m l' history' t' hadding => row_ensures hlo0 hhi0 hlo1 hhi1 hne (Nat.zero_lt_of_lt hfuel0) hadding
  exact Program.iterate_ensures hpass hstart (by omega)

/-- The lines of a file. -/
def lines (img : Image) (d : dentry_t) : List (List Byte) := (contents img d).splitOn NEWLINE

/-- The two frames are read and added to the list. -/
theorem add_frames_ensures {s : fish_t} {f0 f1 : CString} {d0 d1 : dentry_t} {i j : Fin 8} (himg : img.WellFormed)
    (htypes : Image.FileTypes img) (hi : 2 ≤ i.val) (hj : 2 ≤ j.val) (hne : i ≠ j)
    (hclosed : (t.pcb.fd_arr i).flags = 0#32) (hclosed' : (t.pcb.fd_arr j).flags = 0#32)
    (hfound0 : read_dentry_by_name img (some f0) = some d0) (htype0 : d0.filetype ≠ 1#32)
    (hfound1 : read_dentry_by_name img (some f1) = some d1) (htype1 : d1.filetype ≠ 1#32)
    (hshort : ∀ line ∈ lines img d0 ++ lines img d1, line.length < fuel) (hfuel0 : (lines img d0).length < fuel)
    (hfuel1 : (lines img d1).length < fuel) :
    (add_frames fuel blink_struct f0 f1 s).Ensures (kernel img) (fun result _ _ =>
      result = some (added s (frame_structs blink_struct 0 (lines img d0) (lines img d1)))) history t := by
  have hfree : found img t.pcb f0 = some d0 := by
    rw [found, if_neg fun hnone => first_closed_eq_none hnone hi hclosed, hfound0]
  obtain ⟨fd0, pcb0, hopen0, hlo0, hhi0, hwas0, honly0, hopened0⟩ := opened_of_found himg htypes hfree htype0
  refine Program.Ensures.bind (ensures_open fun history₁ t₁ _ ht₁ => ?_)
  rw [hopen0] at ht₁ ⊢
  dsimp only at ht₁ ⊢
  rw [if_neg (by omega)]
  obtain ⟨k, hk, hstill⟩ : ∃ k : Fin 8, 2 ≤ k.val ∧ (t₁.pcb.fd_arr k).flags = 0#32 := by
    by_cases hfirst : i = fd_index fd0
    · refine ⟨j, hj, ?_⟩
      rw [ht₁, honly0 j (hfirst ▸ hne.symm)]
      exact hclosed'
    · refine ⟨i, hi, ?_⟩
      rw [ht₁, honly0 i hfirst]
      exact hclosed
  have hfree' : found img t₁.pcb f1 = some d1 := by
    rw [found, if_neg fun hnone => first_closed_eq_none hnone hk hstill, hfound1]
  obtain ⟨fd1, pcb1, hopen1, hlo1, hhi1, hwas1, honly1, hopened1⟩ := opened_of_found himg htypes hfree' htype1
  have hdistinct : fd_index fd0 ≠ fd_index fd1 := by
    intro heq
    have hflags := hopened0.flags
    rw [← ht₁, heq, hwas1] at hflags
    exact absurd hflags (by decide)
  refine Program.Ensures.bind (ensures_open fun history₂ t₂ _ ht₂ => ?_)
  rw [hopen1] at ht₂ ⊢
  dsimp only at ht₂ ⊢
  rw [if_neg (by omega)]
  have hopened0' : Opened img fd0 (contents img d0) t₂.pcb := by
    rw [← ht₁] at hopened0
    exact hopened0.of_entry (by rw [ht₂, honly1 _ hdistinct])
  have hawaiting0 : Awaiting img fd0 (lines img d0) 48#8 false t₂.pcb := .more hopened0'
  have hawaiting1 : Awaiting img fd1 (lines img d1) 48#8 false t₂.pcb := .more (ht₂ ▸ hopened1)
  have hrows : (Program.iterate (row_pass fuel blink_struct fd0 fd1) fuel
      ⟨0, 0, 48#8, 48#8, false, false, s⟩).Ensures (kernel img)
        (fun s' _ _ => s' = added s (frame_structs blink_struct 0 (lines img d0) (lines img d1))) history₂ t₂ :=
    rows_ensure (l := ⟨0, 0, 48#8, 48#8, false, false, s⟩) hlo0 hhi0 hlo1 hhi1 hdistinct hawaiting0 hawaiting1 hshort
      hfuel0 hfuel1
  refine Program.Ensures.bind (hrows.mono fun s' history' t' hs' => ?_)
  intro _ _
  rw [hs']

end houseam.fish
