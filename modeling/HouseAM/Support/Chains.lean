import HouseAM.Support.Loops
import Mathlib.Data.Fintype.Card
import Mathlib.Data.List.Nodup

open support.loops

namespace support.chains

variable {Address State : Type} {next next' : Address → Option Address} {head : Option Address} {a b : Address}
  {rest before after cells cells' : List Address}

/-- The cells that a pointer leads to over their links, up to a null pointer. -/
inductive Chain (next : Address → Option Address) : Option Address → List Address → Prop where
  | nil : Chain next none []
  | cons {a : Address} {rest : List Address} (hrest : Chain next (next a) rest) : Chain next (some a) (a :: rest)

theorem Chain.unique (chain : Chain next head cells) (other : Chain next head cells') : cells = cells' := by
  induction chain generalizing cells' with
  | nil =>
    cases other
    rfl
  | cons _ ih =>
    cases other with
    | cons hrest => rw [ih hrest]

theorem Chain.head_eq (chain : Chain next head cells) : head = cells.head? := by
  cases chain <;> rfl

/-- What follows a cell of a chain is the chain from its link. -/
theorem Chain.behind (chain : Chain next head (before ++ a :: after)) : Chain next (next a) after := by
  induction before generalizing head with
  | nil =>
    cases chain with
    | cons hrest => exact hrest
  | cons b before ih =>
    cases chain with
    | cons hrest => exact ih hrest

/-- A chain that ends does not come back to a cell. -/
theorem Chain.nodup (chain : Chain next head cells) : cells.Nodup := by
  induction chain with
  | nil => exact List.nodup_nil
  | @cons a rest hrest ih =>
    refine List.nodup_cons.mpr ⟨fun hmem => ?_, ih⟩
    obtain ⟨before, after, rfl⟩ := List.append_of_mem hmem
    have hsame := congrArg List.length (hrest.unique hrest.behind)
    rw [List.length_append, List.length_cons] at hsame
    omega

/-- It has no more cells than there are. -/
theorem Chain.length_le [Fintype Address] (chain : Chain next head cells) : cells.length ≤ Fintype.card Address :=
  chain.nodup.length_le_card

/-- Only the links of its own cells matter to a chain. -/
theorem Chain.congr (chain : Chain next head cells) (hsame : ∀ a ∈ cells, next' a = next a) :
    Chain next' head cells := by
  induction chain with
  | nil => exact .nil
  | @cons a rest _ ih =>
    refine .cons ?_
    rw [hsame a List.mem_cons_self]
    exact ih fun b hb => hsame b (List.mem_cons_of_mem _ hb)

/-- A cell in front of a chain. -/
theorem Chain.push [DecidableEq Address] (chain : Chain next head cells) (hfresh : a ∉ cells) :
    Chain (Function.update next a head) (some a) (a :: cells) := by
  refine .cons ?_
  rw [Function.update_self]
  refine chain.congr fun b hb => ?_
  have hne : b ≠ a := fun h => hfresh (h ▸ hb)
  exact Function.update_of_ne hne _ _

/-- Other links lead the same way up to a cell at which they differ. -/
theorem Chain.leads (chain : Chain next head (before ++ a :: after)) (hsame : ∀ b ∈ before, next' b = next b)
    (chain' : Chain next' head cells) : ∃ trail, cells = before ++ trail ∧ Chain next' (some a) trail := by
  induction before generalizing head cells with
  | nil =>
    rw [chain.head_eq] at chain'
    exact ⟨cells, rfl, chain'⟩
  | cons b before ih =>
    cases chain with
    | cons hrest =>
      cases chain' with
      | cons hrest' =>
        rw [hsame b List.mem_cons_self] at hrest'
        obtain ⟨trail, rfl, htrail⟩ := ih hrest (fun c hc => hsame c (List.mem_cons_of_mem _ hc)) hrest'
        exact ⟨trail, rfl, htrail⟩

/-- A cell of a chain that is put in front of it closes a ring. -/
theorem Chain.not_push [DecidableEq Address] (chain : Chain next head cells) (hmem : a ∈ cells) :
    ¬ Chain (Function.update next a head) (some a) cells' := by
  intro ring
  obtain ⟨before, after, rfl⟩ := List.append_of_mem hmem
  have hfresh : a ∉ before := fun h => (List.nodup_append.mp chain.nodup).2.2 a h a List.mem_cons_self rfl
  have hsame : ∀ b ∈ before, Function.update next a head b = next b := by
    intro b hb
    have hne : b ≠ a := fun h => hfresh (h ▸ hb)
    exact Function.update_of_ne hne _ _
  have hring := ring
  cases ring with
  | @cons _ rest hrest =>
    rw [Function.update_self] at hrest
    obtain ⟨trail, rfl, htrail⟩ := chain.leads hsame hrest
    have hlength := congrArg List.length (hring.unique htrail)
    rw [List.length_cons, List.length_append] at hlength
    omega

/-! The place of a pointer: the head, or the link of a cell. -/

def pointee (head : Option Address) (next : Address → Option Address) : Option Address → Option Address
  | none => head
  | some p => next p

/-- The head and the links after a pointer was stored at a place. -/
def redirect [DecidableEq Address] (head : Option Address) (next : Address → Option Address)
    (place pointer : Option Address) : Option Address × (Address → Option Address) :=
  match place with
  | none => (pointer, next)
  | some p => (head, Function.update next p pointer)

/-- Storing a cell's link in the pointer to it takes the cell out of the chain. -/
theorem Chain.unlink [DecidableEq Address] (chain : Chain next head (before ++ a :: after)) :
    Chain (redirect head next before.getLast? (next a)).2 (redirect head next before.getLast? (next a)).1
      (before ++ after) := by
  induction before generalizing head with
  | nil => exact chain.behind
  | cons p before ih =>
    have hnodup := chain.nodup
    rw [List.cons_append] at hnodup
    have hp := (List.nodup_cons.mp hnodup).1
    cases chain with
    | cons hrest =>
      have hshort := ih hrest
      rcases List.eq_nil_or_concat before with rfl | ⟨front, q, rfl⟩
      · have hafter : p ∉ after := fun h => hp (List.mem_append_right _ (List.mem_cons_of_mem _ h))
        exact hshort.push hafter
      · rw [List.concat_eq_append] at *
        have hlast : (front ++ [q]).getLast? = some q := by simp
        have hlast' : (p :: (front ++ [q])).getLast? = some q := by
          rw [List.getLast?_cons, hlast]
          rfl
        have hne : p ≠ q := fun h => hp (h ▸ List.mem_append_left _ (List.mem_append_right _ List.mem_cons_self))
        rw [hlast] at hshort
        rw [hlast']
        have hlink : (redirect (some p) next (some q) (next a)).2 p = next p := Function.update_of_ne hne _ _
        refine .cons ?_
        rw [hlink]
        exact hshort

theorem Chain.not_mem_unlinked (chain : Chain next head (before ++ a :: after)) : a ∉ before ++ after := by
  have hnodup := chain.nodup
  rw [List.nodup_middle] at hnodup
  exact (List.nodup_cons.mp hnodup).1

/-! Loops along a chain. -/

/-- A pass of a walk: a cell is visited, and its link is followed as it is then. -/
def walk_pass (next : State → Address → Option Address) (visit : State → Address → State)
    (w : Option Address × State) : Option Address × State :=
  match w.1 with
  | none => w
  | some a => (next (visit w.2 a) a, visit w.2 a)

def Walking (w : Option Address × State) : Prop := w.1 ≠ none

instance (w : Option Address × State) : Decidable (Walking w) := inferInstanceAs (Decidable (w.1 ≠ none))

variable {links : State → Address → Option Address} {visit : State → Address → State} {s : State} {n : Nat}
  {w : Option Address × State}

/-- A walk along a chain visits its cells in order and ends. -/
theorem Chain.walk_ends (hkeep : ∀ s a, links (visit s a) = links s) (chain : Chain (links s) head cells) :
    Ends Walking (walk_pass links visit) (head, s) cells.length (none, cells.foldl visit s) := by
  induction cells generalizing head s with
  | nil =>
    cases chain
    exact .stop fun h => h rfl
  | cons a rest ih =>
    cases chain with
    | cons hrest =>
      have hrest' : Chain (links (visit s a)) (links (visit s a) a) rest := by rwa [hkeep]
      exact .pass (Option.some_ne_none a) (ih hrest')

/-- A walk that ends was along a chain. -/
theorem chain_of_walk_ends (hkeep : ∀ s a, links (visit s a) = links s)
    (ends : Ends Walking (walk_pass links visit) (head, s) n w) : ∃ cells, Chain (links s) head cells := by
  generalize hstart : (head, s) = start at ends
  induction ends generalizing head s with
  | stop hstop =>
    subst hstart
    obtain rfl : head = none := not_not.mp hstop
    exact ⟨[], .nil⟩
  | pass hrunning rest ih =>
    subst hstart
    obtain ⟨a, rfl⟩ := Option.ne_none_iff_exists'.mp hrunning
    obtain ⟨cells, chain⟩ := ih rfl
    rw [hkeep] at chain
    exact ⟨a :: cells, .cons chain⟩

/-- What a walk leaves at the cells, where a visit changes what is at its cell. -/
theorem foldl_visit [DecidableEq Address] {Value : Type} {value : State → Address → Value} {f : Value → Value}
    (hvisit : ∀ s a, value (visit s a) = Function.update (value s) a (f (value s a))) (hnodup : cells.Nodup)
    (s : State) (b : Address) :
    value (cells.foldl visit s) b = if b ∈ cells then f (value s b) else value s b := by
  induction cells generalizing s with
  | nil => rw [List.foldl_nil, if_neg List.not_mem_nil]
  | cons a rest ih =>
    obtain ⟨hfresh, hrest⟩ := List.nodup_cons.mp hnodup
    rw [List.foldl_cons, ih hrest, hvisit]
    by_cases hb : b = a
    · subst hb
      rw [if_neg hfresh, Function.update_self, if_pos List.mem_cons_self]
    · simp only [Function.update_of_ne hb, List.mem_cons, hb, false_or]

/-- What the visits of a walk keep. -/
theorem foldl_keeps {Value : Type} {value : State → Value} (hvisit : ∀ s a, value (visit s a) = value s)
    (cells : List Address) (s : State) : value (cells.foldl visit s) = value s := by
  induction cells generalizing s with
  | nil => rfl
  | cons a rest ih => rw [List.foldl_cons, ih, hvisit]

/-- A search is not over at a cell that it is not for. -/
def Searching (p : Address → Bool) (pointer : Option Address) : Prop := ∃ a, pointer = some a ∧ p a = false

instance (p : Address → Bool) (pointer : Option Address) : Decidable (Searching p pointer) :=
  match pointer with
  | none => isFalse fun ⟨_, h, _⟩ => by cases h
  | some a => decidable_of_iff (p a = false) ⟨fun h => ⟨a, rfl, h⟩, fun ⟨_, h, hp⟩ => by cases h; exact hp⟩

/-- A search along a chain ends at the first cell that it is for, or at its end. -/
theorem Chain.search_ends (chain : Chain next head cells) (p : Address → Bool) :
    ∃ n, n ≤ cells.length ∧ Ends (Searching p) (fun pointer => pointer.bind next) head n (cells.find? p) := by
  induction chain with
  | nil => exact ⟨0, Nat.le_refl 0, .stop fun ⟨_, h, _⟩ => by cases h⟩
  | @cons a rest _ ih =>
    rw [List.find?_cons]
    cases hp : p a with
    | true =>
      refine ⟨0, Nat.zero_le _, .stop ?_⟩
      rintro ⟨b, hb, hpb⟩
      cases hb
      rw [hp] at hpb
      cases hpb
    | false =>
      obtain ⟨n, hn, ends⟩ := ih
      exact ⟨n + 1, Nat.succ_le_succ hn, .pass ⟨a, rfl, hp⟩ ends⟩

/-- The search for the pointer to a cell, along a chain that has the cell, ends
    at the cell before it. -/
theorem Chain.place_ends [DecidableEq Address] (place : Option Address)
    (chain : Chain next (pointee head next place) (before ++ a :: after)) :
    Ends (fun place => pointee head next place ≠ some a) (pointee head next) place before.length
      (before.getLast?.or place) := by
  have hnodup := chain.nodup
  induction before generalizing place with
  | nil => exact .stop (not_not.mpr chain.head_eq)
  | cons p before ih =>
    rw [List.cons_append] at hnodup
    have hpointee : pointee head next place = some p := chain.head_eq
    have hne : p ≠ a := fun h => (List.nodup_cons.mp hnodup).1 (h ▸ List.mem_append_right _ List.mem_cons_self)
    rw [hpointee] at chain
    cases chain with
    | cons hrest =>
      have hbehind := ih (some p) hrest (List.nodup_cons.mp hnodup).2
      have hlast : (p :: before).getLast?.or place = before.getLast?.or (some p) := by
        rw [List.getLast?_cons]
        cases before.getLast? <;> rfl
      rw [hlast]
      refine .pass ?_ ?_
      · rw [hpointee]
        exact fun h => hne (Option.some.inj h)
      · rw [hpointee]
        exact hbehind

end support.chains
