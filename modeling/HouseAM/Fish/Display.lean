import HouseAM.Fish.Rings

open support.chains support.runs

namespace houseam.fish

variable {s s' u : fish_t} {cells : List (Fin 2000)} {blinkers : List blink_t} {i j a : Fin 2000}
  {log : List (fish_t × Request)} {e : Request} {vmem : Nat → Byte}

/-- What a call that returns has changed: nothing, one structure and at most its
    place on the screen, or every structure of the list by a tick. -/
inductive Change (s : fish_t) : Request → fish_t → Prop where
  | same {e : Request} {s' : fish_t} (hclock : e ≠ .tasklet) (hblink : s'.blink = s.blink) (hvmem : s'.vmem = s.vmem) :
      Change s e s'
  | added {arg : mp1_blink_struct} {i : Fin 2000} {s' : fish_t} (hunused : (s.blink i).location = 0#16)
      (hblink : s'.blink = Function.update s.blink i (started arg.toblink_t))
      (hvmem : s'.vmem = Function.update s.vmem (2 * arg.location.toNat) arg.on_char) : Change s (.add arg) s'
  | removed {arg : Word} {a : Fin 2000} {s' : fish_t} (hat : (s.blink a).location = arg.setWidth 16)
      (hblink : s'.blink = Function.update s.blink a zeroed_struct.toblink_t) (hvmem : s'.vmem = s.vmem) :
      Change s (.remove arg) s'
  | synced {arg : Word} {a b : Fin 2000} {s' : fish_t} (hused : (s.blink a).location ≠ 0#16)
      (hat : (s.blink a).location = (arg >>> 16).setWidth 16) (hused' : (s.blink b).location ≠ 0#16)
      (hat' : (s.blink b).location = (arg &&& 0xFFFF#32).setWidth 16)
      (hblink : s'.blink = Function.update s.blink b (timed (s.blink a) (s.blink b)))
      (hvmem : s'.vmem = Function.update s.vmem (2 * (s.blink b).location.toNat) (s.blink b).off_char) :
      Change s (.sync arg) s'
  | ticked {cells : List (Fin 2000)} (hcells : ∀ i, i ∈ cells ↔ (s.blink i).location ≠ 0#16) (hnodup : cells.Nodup) :
      Change s .tasklet (cells.foldl tasklet_pass s)

theorem Holds.mem_iff (hholds : Holds s cells blinkers) (i : Fin 2000) : i ∈ cells ↔ (s.blink i).location ≠ 0#16 := by
  constructor
  · exact hholds.used i
  · intro hused
    by_contra hi
    exact hused (hholds.unused i hi)

theorem At_eq_true {location : BitVec 16} {b : blink_t} : At location b = true ↔ b.location = location :=
  decide_eq_true_iff

theorem find_location {location : BitVec 16} (hfound : (cells.find? fun i => At location (s.blink i)) = some a) :
    (s.blink a).location = location := by
  have hat := List.find?_some hfound
  exact At_eq_true.mp hat

/-- Every call that returns has made one of these changes. -/
theorem Holds.change (hholds : Holds s cells blinkers) (hstep : step s e = some s') : Change s e s' := by
  cases e with
  | add arg =>
    cases hstep
    by_cases hlocation : arg.location.toNat < SCREEN_CELLS
    · cases hmalloc : mp1_malloc s with
      | none =>
        rw [mp1_ioctl_add, if_neg (Nat.not_le.mpr hlocation), hmalloc]
        exact .same (by simp) rfl rfl
      | some i =>
        obtain ⟨-, -, -, hblink, hvmem⟩ := add_eq hlocation hmalloc
        exact .added (malloc_unused hmalloc) hblink hvmem
    · rw [mp1_ioctl_add, if_pos (Nat.not_lt.mp hlocation)]
      exact .same (by simp) rfl rfl
  | remove arg =>
    rcases hholds.remove_cases arg with ⟨-, hremove⟩ | ⟨before, a, after, s'', -, hat, -, hremove, -, hblink, hvmem⟩
    · rw [step, fish.serve, hremove] at hstep
      cases hstep
      exact .same (by simp) rfl rfl
    · rw [step, fish.serve, hremove] at hstep
      cases hstep
      exact .removed (At_eq_true.mp hat) hblink hvmem
  | find location =>
    rw [step, (hholds.serve_find location).1] at hstep
    cases hstep
    exact .same (by simp) rfl rfl
  | sync arg =>
    rcases hholds.sync_cases arg with ⟨-, hsync⟩ | ⟨a, b, s'', hsource, hdestination, hsync, -, hblink, hvmem⟩
    · rw [step, fish.serve, hsync] at hstep
      cases hstep
      exact .same (by simp) rfl rfl
    · rw [step, fish.serve, hsync] at hstep
      cases hstep
      have hat := find_location hsource
      have hat' := find_location hdestination
      have hused := hholds.used a (List.mem_of_find?_eq_some hsource)
      have hused' := hholds.used b (List.mem_of_find?_eq_some hdestination)
      exact .synced hused hat hused' hat' hblink hvmem
  | tasklet =>
    rw [step, fish.serve, hholds.tasklet_eq] at hstep
    cases hstep
    exact .ticked hholds.mem_iff hholds.chain.nodup

/-- The characters are at different places. -/
def Separate (s : fish_t) : Prop :=
  ∀ i j, (s.blink i).location ≠ 0#16 → (s.blink i).location = (s.blink j).location → i = j

/-- A character is on the screen as its status says. -/
def DisplayedAt (s : fish_t) (i : Fin 2000) : Prop := s.vmem (2 * (s.blink i).location.toNat) = shown (s.blink i)

def Displayed (s : fish_t) : Prop := ∀ i, (s.blink i).location ≠ 0#16 → DisplayedAt s i

/-- Characters are added where there is none, and none at location 0, which marks the
    structures that are not used. -/
def Request.Fresh (s : fish_t) : Request → Prop
  | .add arg => arg.location ≠ 0#16 ∧ ∀ i, (s.blink i).location ≠ arg.location
  | _ => True

/-- A character takes over the timing of one that is on, and looks different when
    it is off. -/
def Misplaces (s : fish_t) (e : Request) : Prop :=
  ∃ arg a b, e = .sync arg ∧ (s.blink a).location ≠ 0#16 ∧ (s.blink a).location = (arg >>> 16).setWidth 16 ∧
    (s.blink b).location ≠ 0#16 ∧ (s.blink b).location = (arg &&& 0xFFFF#32).setWidth 16 ∧
    ¬ (s.blink a).status &&& 1#16 = 0#16 ∧ (s.blink b).on_char ≠ (s.blink b).off_char

theorem Request.Fresh.placed (hfresh : e.Fresh s) : e.Placed := by
  cases e with
  | add arg => exact hfresh.1
  | _ => trivial

theorem shown_started (arg : blink_t) : shown (started arg) = arg.on_char := by
  have hon : ¬ 1#16 &&& 1#16 = 0#16 := by decide
  exact if_neg hon

theorem place_injective {x y : BitVec 16} (heq : 2 * x.toNat = 2 * y.toNat) : x = y :=
  BitVec.eq_of_toNat_eq (by omega)

/-- A structure that moves nowhere keeps the characters at different places. -/
theorem Separate.congr (hseparate : Separate s) (hlocation : ∀ i, (s'.blink i).location = (s.blink i).location) :
    Separate s' := by
  intro i j hused hsame
  rw [hlocation] at hused
  rw [hlocation, hlocation] at hsame
  exact hseparate i j hused hsame

theorem tasklet_pass_location (s : fish_t) (a i : Fin 2000) :
    ((tasklet_pass s a).blink i).location = (s.blink i).location := by
  rw [tasklet_pass_blink]
  by_cases hi : i = a
  · rw [hi, Function.update_self, tick_location]
  · rw [Function.update_of_ne hi]

theorem tasklet_location (cells : List (Fin 2000)) (s : fish_t) (i : Fin 2000) :
    ((cells.foldl tasklet_pass s).blink i).location = (s.blink i).location := by
  induction cells generalizing s with
  | nil => rfl
  | cons a rest ih => rw [List.foldl_cons, ih, tasklet_pass_location]

theorem Separate.step (hseparate : Separate s) (hfresh : e.Fresh s) (hchange : Change s e s') : Separate s' := by
  cases hchange with
  | same _ hblink => exact hseparate.congr fun i => by rw [hblink]
  | @added arg k _ _ hblink =>
    intro i j hused hsame
    rw [hblink] at hused hsame
    have hnew (l : Fin 2000) : (s.blink l).location ≠ (started arg.toblink_t).location := hfresh.2 l
    by_cases hi : i = k
    · by_cases hj : j = k
      · rw [hi, hj]
      · rw [hi, Function.update_self, Function.update_of_ne hj] at hsame
        exact absurd hsame.symm (hnew j)
    · rw [Function.update_of_ne hi] at hused hsame
      by_cases hj : j = k
      · rw [hj, Function.update_self] at hsame
        exact absurd hsame (hnew i)
      · rw [Function.update_of_ne hj] at hsame
        exact hseparate i j hused hsame
  | @removed _ k _ _ hblink =>
    intro i j hused hsame
    rw [hblink] at hused hsame
    have hi : i ≠ k := by
      rintro rfl
      rw [Function.update_self] at hused
      exact hused rfl
    rw [Function.update_of_ne hi] at hused hsame
    by_cases hj : j = k
    · rw [hj, Function.update_self] at hsame
      exact absurd hsame hused
    · rw [Function.update_of_ne hj] at hsame
      exact hseparate i j hused hsame
  | synced _ _ _ _ hblink => exact hseparate.congr (sync_location hblink)
  | ticked => exact hseparate.congr (tasklet_location _ s)

/-- A pass shows its character as it changes, and leaves the others alone. -/
theorem DisplayedAt.pass (hdisplayed : DisplayedAt s i) (hused : (s.blink i).location ≠ 0#16) (hseparate : Separate s)
    (a : Fin 2000) : DisplayedAt (tasklet_pass s a) i := by
  rw [DisplayedAt, tasklet_pass_location, tasklet_pass_blink, tasklet_pass_vmem]
  by_cases hia : i = a
  · subst hia
    rw [Function.update_self]
    split
    · rename_i hrunning
      rw [tick_running hrunning]
      exact hdisplayed
    · rw [Function.update_self]
  · have hplace : 2 * (s.blink i).location.toNat ≠ 2 * (s.blink a).location.toNat := fun h =>
      hia (hseparate i a hused (place_injective h))
    rw [Function.update_of_ne hia]
    split
    · exact hdisplayed
    · rw [Function.update_of_ne hplace]
      exact hdisplayed

theorem DisplayedAt.passes (hdisplayed : DisplayedAt s i) (hused : (s.blink i).location ≠ 0#16)
    (hseparate : Separate s) (cells : List (Fin 2000)) : DisplayedAt (cells.foldl tasklet_pass s) i := by
  induction cells generalizing s with
  | nil => exact hdisplayed
  | cons a rest ih =>
    refine ih (hdisplayed.pass hused hseparate a) ?_ (hseparate.congr (tasklet_pass_location s a))
    rwa [tasklet_pass_location]

/-- A change of another character, at another place. -/
theorem DisplayedAt.other (hdisplayed : DisplayedAt s i) {b : blink_t} {c : Byte} (hne : i ≠ j)
    (hlocation : (s.blink i).location ≠ b.location) (hblink : s'.blink = Function.update s.blink j b)
    (hvmem : s'.vmem = Function.update s.vmem (2 * b.location.toNat) c) : DisplayedAt s' i := by
  have hplace : 2 * (s.blink i).location.toNat ≠ 2 * b.location.toNat := fun h => hlocation (place_injective h)
  rw [DisplayedAt, hblink, hvmem, Function.update_of_ne hne, Function.update_of_ne hplace]
  exact hdisplayed

/-- A character that was changed and shown; the others stay. -/
theorem Displayed.update (hdisplayed : Displayed s) {b : blink_t} {c : Byte}
    (hother : ∀ j, j ≠ i → (s.blink j).location ≠ 0#16 → (s.blink j).location ≠ b.location)
    (hblink : s'.blink = Function.update s.blink i b)
    (hvmem : s'.vmem = Function.update s.vmem (2 * b.location.toNat) c) (hshown : c = shown b) : Displayed s' := by
  intro j hj
  rw [hblink] at hj
  by_cases hji : j = i
  · rw [DisplayedAt, hblink, hvmem, hji, Function.update_self, Function.update_self, hshown]
  · rw [Function.update_of_ne hji] at hj
    exact (hdisplayed j hj).other hji (hother j hji hj) hblink hvmem

theorem Displayed.step (hdisplayed : Displayed s) (hseparate : Separate s) (hfresh : e.Fresh s)
    (hright : ¬ Misplaces s e) (hchange : Change s e s') : Displayed s' := by
  cases hchange with
  | same _ hblink hvmem =>
    intro i hi
    rw [hblink] at hi
    rw [DisplayedAt, hblink, hvmem]
    exact hdisplayed i hi
  | @added arg k _ _ hblink hvmem =>
    have hother (j : Fin 2000) : (s.blink j).location ≠ (started arg.toblink_t).location := hfresh.2 j
    exact hdisplayed.update (fun j _ _ => hother j) hblink hvmem (shown_started arg.toblink_t).symm
  | @removed _ k _ _ hblink hvmem =>
    intro i hi
    rw [hblink] at hi
    have hik : i ≠ k := by
      rintro rfl
      rw [Function.update_self] at hi
      exact hi rfl
    rw [Function.update_of_ne hik] at hi
    rw [DisplayedAt, hblink, hvmem, Function.update_of_ne hik]
    exact hdisplayed i hi
  | @synced arg k l _ hused hat hused' hat' hblink hvmem =>
    have hother : ∀ j, j ≠ l → (s.blink j).location ≠ 0#16 →
        (s.blink j).location ≠ (timed (s.blink k) (s.blink l)).location :=
      fun j hj hjused hsame => hj (hseparate j l hjused hsame)
    refine hdisplayed.update hother hblink hvmem ?_
    rw [shown]
    split
    · rfl
    · rename_i hon
      by_contra hdiffer
      exact hright ⟨arg, k, l, rfl, hused, hat, hused', hat', hon, fun h => hdiffer h.symm⟩
  | @ticked cells =>
    intro i hi
    rw [tasklet_location] at hi
    exact (hdisplayed i hi).passes hi hseparate cells

/-- Behind such a sync the screen is wrong. -/
theorem Misplaces.wrong (hholds : Holds s cells blinkers) (hseparate : Separate s) (hmisplaces : Misplaces s e)
    (hstep : fish.step s e = some s') : ¬ Displayed s' := by
  obtain ⟨arg, a, b, rfl, hused, hat, hused', hat', hon, hdiffer⟩ := hmisplaces
  rcases hholds.sync_cases arg with ⟨hnone, -⟩ | ⟨c, d, s'', hsource, hdestination, hsync, -, hblink, hvmem⟩
  · rcases hnone with hnone | hnone
    · exact absurd (At_eq_true.mpr hat) (List.find?_eq_none.mp hnone a ((hholds.mem_iff a).mpr hused))
    · exact absurd (At_eq_true.mpr hat') (List.find?_eq_none.mp hnone b ((hholds.mem_iff b).mpr hused'))
  · obtain rfl := hseparate a c hused (hat.trans (find_location hsource).symm)
    obtain rfl := hseparate b d hused' (hat'.trans (find_location hdestination).symm)
    rw [step, fish.serve, hsync] at hstep
    cases hstep
    intro hdisplayed
    have hshown := hdisplayed b (by rwa [sync_location hblink])
    rw [DisplayedAt, sync_location hblink, hblink, hvmem, Function.update_self, Function.update_self, shown] at hshown
    exact hdiffer ((if_neg hon).symm.trans hshown.symm)

/-- What a run of the calls keeps: the list, and the places of its characters. -/
theorem run_separate (run : Run step (fun s e => e.Fresh s) (fish_start vmem) log s) :
    (∃ cells blinkers, Holds s cells blinkers) ∧ Separate s := by
  refine run.invariant (motive := fun _ s => (∃ cells blinkers, Holds s cells blinkers) ∧ Separate s) ⟨?_, ?_⟩ ?_
  · exact ⟨[], [], fish_start_holds vmem⟩
  · exact fun i j hused _ => absurd rfl hused
  · rintro log s e s' - ⟨⟨cells, blinkers, hholds⟩, hseparate⟩ hfresh hstep
    refine ⟨?_, hseparate.step hfresh (hholds.change hstep)⟩
    obtain ⟨response, u, cells', hserve, -, hafter⟩ := hholds.serve hfresh.placed
    rw [step, hserve] at hstep
    cases hstep
    exact ⟨cells', _, hafter⟩

/-- In every run that adds characters only where there is none, and none at
    location 0, every character is on the screen as its status says, in every state
    reached, exactly if none takes over the timing of one that is on and looks
    different when it is off. -/
theorem displayed_iff (run : Run step (fun s e => e.Fresh s) (fish_start vmem) log s) :
    (∀ before u, before <+: log → Run step (fun s e => e.Fresh s) (fish_start vmem) before u → Displayed u) ↔
      ∀ taken ∈ log, ¬ Misplaces taken.1 taken.2 := by
  constructor
  · intro hdisplayed taken htaken hmisplaces
    obtain ⟨before, after, rfl⟩ := List.append_of_mem htaken
    obtain ⟨hearlier, hfresh⟩ := run.before rfl
    obtain ⟨u, hstep, -⟩ := run.after rfl
    obtain ⟨⟨cells, blinkers, hholds⟩, hseparate⟩ := run_separate hearlier
    have hprefix : before ++ [taken] <+: before ++ taken :: after := ⟨after, by simp⟩
    exact hmisplaces.wrong hholds hseparate hstep (hdisplayed _ u hprefix (hearlier.step hfresh hstep))
  · intro hright before u hbefore hrun
    have hkept : Run step (fun s e => e.Fresh s ∧ ¬ Misplaces s e) (fish_start vmem) before u :=
      hrun.restrict_and fun taken htaken => hright taken (hbefore.subset htaken)
    refine hkept.invariant (motive := fun _ u => Displayed u) (fun i hused => absurd rfl hused) ?_
    intro before u e u' hearlier hdisplayed ⟨hfresh, hkeeps⟩ hstep
    obtain ⟨⟨cells, blinkers, hholds⟩, hseparate⟩ := run_separate (hearlier.mono fun _ _ h => h.1)
    exact hdisplayed.step hseparate hfresh hkeeps (hholds.change hstep)

/-- A character that blinks alone. -/
theorem displayed_iff_letter : ∃ log s, Run step (fun s e => e.Fresh s) (fish_start fun _ => 0#8) log s ∧
    log.map (·.2) = [.add (letter 540#16), .tasklet] ∧
    ∀ before u, before <+: log → Run step (fun s e => e.Fresh s) (fish_start fun _ => 0#8) before u → Displayed u := by
  have hstart : Run step (fun s e => e.Fresh s) (fish_start fun _ => 0#8) [] (fish_start fun _ => 0#8) := .start
  have hfresh : (Request.add (letter 540#16)).Fresh (fish_start fun _ => 0#8) :=
    ⟨fun h => absurd h (by decide), fun i (h : 0#16 = 540#16) => absurd h (by decide)⟩
  have hadded := hstart.step hfresh (add_step _ (letter 540#16))
  obtain ⟨⟨cells, blinkers, hholds⟩, -⟩ := run_separate hadded
  generalize (mp1_ioctl_add (fish_start fun _ => 0#8) (letter 540#16)).2 = s at hadded hholds
  have hticked : step s .tasklet = some (cells.foldl tasklet_pass s) := by
    rw [step, fish.serve, hholds.tasklet_eq]
    rfl
  have hclock : Request.tasklet.Fresh s := trivial
  have hrun := hadded.step hclock hticked
  refine ⟨_, _, hrun, rfl, (displayed_iff hrun).mpr ?_⟩
  rintro taken htaken ⟨arg, a, b, hsync, -⟩
  rcases List.mem_append.mp htaken with hmem | hlast
  · rw [List.mem_singleton.mp hmem] at hsync
    cases hsync
  · rw [List.mem_singleton.mp hlast] at hsync
    cases hsync

end houseam.fish
