import HouseAM.Syscalls.Grep

open houseam.filesystem houseam.system_call support.clients support.lines

namespace houseam.syscalls.grep

variable {img : Image} {s : CString} {data data' : array_t} {front line more seg : List Byte} {last line_start : Nat}
  {history : Transcript} {t : Task}

theorem get_drop {rest : List Byte} {i : Nat} (hdrop : data.bytes.drop i = rest) (k : Nat) :
    data.get (i + k) = rest.getD k 0#8 := by
  rw [← hdrop, array_t.get, List.getD_eq_getElem?_getD, List.getD_eq_getElem?_getD, List.getElem?_drop]

/-- A line is found up to the newline behind it, or up to the end of what was read. -/
theorem find_line_end_eq (hbytes : data.bytes = front ++ line ++ more) (hline : NEWLINE ∉ line)
    (hlast : front.length + line.length ≤ last)
    (hend : last = front.length + line.length ∨ ∃ after, more = NEWLINE :: after) :
    find_line_end data last (last - front.length) front.length = front.length + line.length := by
  induction line generalizing front with
  | nil =>
    cases hn : last - front.length with
    | zero => rfl
    | succ n =>
      have hstop : ¬ (front.length < last ∧ data.get front.length ≠ NEWLINE) := by
        rintro ⟨hlt, hnot⟩
        rcases hend with hend | ⟨after, rfl⟩
        · rw [List.length_nil] at hend
          omega
        · have hget := get_drop (show data.bytes.drop front.length = NEWLINE :: after by simp [hbytes]) 0
          exact hnot hget
      exact if_neg hstop
  | cons b line ih =>
    rw [List.length_cons] at hlast
    obtain ⟨n, hn⟩ : ∃ n, last - front.length = n + 1 := ⟨last - front.length - 1, by omega⟩
    have hget := get_drop (show data.bytes.drop front.length = b :: line ++ more by simp [hbytes]) 0
    have hgoes : front.length < last ∧ data.get front.length ≠ NEWLINE := by
      refine ⟨by omega, ?_⟩
      rintro hnewline
      exact hline (List.mem_cons.mpr (.inl (hnewline.symm.trans hget)))
    have hlength : (front ++ [b]).length = front.length + 1 := by simp
    have hend' : last = (front ++ [b]).length + line.length ∨ ∃ after, more = NEWLINE :: after := by
      refine hend.imp_left fun h => ?_
      rw [h, hlength, List.length_cons]
      omega
    have hbytes' : data.bytes = front ++ [b] ++ line ++ more := by simp [hbytes]
    have hnext := ih hbytes' (fun h => hline (List.mem_cons_of_mem b h)) (by omega) hend'
    rw [hn, find_line_end, if_pos hgoes]
    rw [hlength] at hnext
    obtain rfl : n = last - (front.length + 1) := by omega
    rw [hnext, List.length_cons]
    omega

theorem strncmp_loop_eq_zero {s1 s2 : Nat → Byte} {n i : Nat} (hnul : ∀ k < n, s2 (i + k) ≠ 0#8) :
    ece391_strncmp_loop s1 s2 n i = 0 ↔ ∀ k < n, s1 (i + k) = s2 (i + k) := by
  induction n generalizing i with
  | zero => exact iff_of_true rfl fun k hk => absurd hk (Nat.not_lt_zero k)
  | succ n ih =>
    have hfirst := hnul 0 (Nat.succ_pos n)
    rw [Nat.add_zero] at hfirst
    have hrest : ∀ k < n, s2 (i + 1 + k) ≠ 0#8 := by
      intro k hk
      rw [Nat.add_assoc, Nat.add_comm 1 k]
      exact hnul (k + 1) (Nat.succ_lt_succ hk)
    rw [ece391_strncmp_loop]
    by_cases hsame : s1 i = s2 i
    · rw [if_pos hsame, if_neg (hsame ▸ hfirst), ih hrest]
      constructor
      · intro hall k hk
        cases k with
        | zero => exact hsame
        | succ k =>
          have hk' := hall k (Nat.lt_of_succ_lt_succ hk)
          rwa [Nat.add_assoc, Nat.add_comm 1 k] at hk'
      · intro hall k hk
        rw [Nat.add_assoc, Nat.add_comm 1 k]
        exact hall (k + 1) (Nat.succ_lt_succ hk)
    · rw [if_neg hsame]
      refine iff_of_false (fun hzero => hsame ?_) fun hall => hsame (hall 0 (Nat.succ_pos n))
      exact BitVec.eq_of_toNat_eq (by omega)

/-- A string agrees with the text at a place if the text starts with it there. -/
theorem agrees_iff {word rest : List Byte} (hword : 0#8 ∉ word) :
    (∀ k < word.length, (rest ++ 0#8 :: more).getD k 0#8 = word.getD k 0#8) ↔ word <+: rest := by
  induction word generalizing rest with
  | nil => exact iff_of_true (fun k hk => absurd hk (Nat.not_lt_zero k)) List.nil_prefix
  | cons b word ih =>
    have hb : 0#8 ≠ b := fun h => hword (List.mem_cons.mpr (.inl h))
    cases rest with
    | nil => exact iff_of_false (fun hall => hb (hall 0 (Nat.succ_pos _))) (by simp)
    | cons c rest =>
      rw [List.cons_prefix_cons, ← ih fun h => hword (List.mem_cons_of_mem b h)]
      constructor
      · intro hall
        exact ⟨(hall 0 (Nat.succ_pos _)).symm, fun k hk => hall (k + 1) (Nat.succ_lt_succ hk)⟩
      · rintro ⟨rfl, hall⟩ k hk
        cases k with
        | zero => rfl
        | succ k => exact hall k (Nat.lt_of_succ_lt_succ hk)

/-- A line is searched for a string, which is found if the line contains it. -/
theorem search_line_iff {rest : List Byte} {check : Nat} (hdrop : data.bytes.drop check = rest ++ 0#8 :: more)
    (hs : s.bytes ≠ []) : search_line s data rest.length check = true ↔ s.bytes <:+: rest := by
  induction rest generalizing check with
  | nil =>
    refine iff_of_false (Bool.false_ne_true) fun h => ?_
    exact hs (List.infix_nil.mp h)
  | cons c rest ih =>
    have hdrop' : data.bytes.drop (check + 1) = rest ++ 0#8 :: more := by
      rw [← List.drop_drop, hdrop]
      rfl
    have hhere : (s.get 0 = data.get check ∧
        ece391_strncmp (fun k => data.get (check + k)) s.get (ece391_strlen s) = 0) ↔ s.bytes <+: c :: rest := by
      have hnul : ∀ k < ece391_strlen s, s.get (0 + k) ≠ 0#8 := by
        intro k hk
        rw [Nat.zero_add]
        exact s.get_ne_zero hk
      have hagree : (∀ k < s.bytes.length, (c :: rest ++ 0#8 :: more).getD k 0#8 = s.bytes.getD k 0#8) ↔
          s.bytes <+: c :: rest := agrees_iff s.nul_free
      rw [ece391_strncmp, strncmp_loop_eq_zero hnul, ← hagree]
      simp only [Nat.zero_add, get_drop hdrop]
      have hfirst : data.get check = c := get_drop hdrop 0
      rw [hfirst]
      exact and_iff_right_of_imp fun hall => (hall 0 (List.length_pos_of_ne_nil hs)).symm
    rw [List.length_cons, search_line]
    by_cases hfound : s.bytes <+: c :: rest
    · rw [if_pos (hhere.mpr hfound)]
      exact iff_of_true rfl hfound.isInfix
    · rw [if_neg (mt hhere.mp hfound), ih hdrop', List.infix_cons_iff]
      exact (or_iff_right hfound).symm

/-- One byte of a string is copied towards the front of its array. -/
theorem strcpy_step {rest : List Byte} {b : Byte} {n dst src : Nat} (hdrop : data.bytes.drop src = b :: rest)
    (hdst : dst < src) :
    ∃ data', data.store dst [b] = some data' ∧ strcpy_loop (n + 1) data dst src =
      if b = 0#8 then some data' else strcpy_loop n data' (dst + 1) (src + 1) := by
  have hbyte : data.bytes[src]? = some b := by
    have hhead : (data.bytes.drop src)[0]? = data.bytes[src + 0]? := List.getElem?_drop
    rw [hdrop] at hhead
    exact hhead.symm
  have hroom : dst + [b].length ≤ data.bytes.length := by
    obtain ⟨hsrc, -⟩ := List.getElem?_eq_some_iff.mp hbyte
    rw [List.length_singleton]
    omega
  refine ⟨_, array_t.store_eq hroom, ?_⟩
  rw [strcpy_loop, hbyte]
  dsimp only
  rw [array_t.store_eq hroom, Option.bind_some]

/-- A string is copied towards the front of its array. -/
theorem strcpy_loop_eq {n dst src : Nat} (hdrop : data.bytes.drop src = seg ++ 0#8 :: more) (hseg : 0#8 ∉ seg)
    (hn : seg.length < n) (hdst : dst < src) :
    ∃ data', strcpy_loop n data dst src = some data' ∧
      data'.bytes = data.bytes.take dst ++ (seg ++ 0#8 :: data.bytes.drop (dst + seg.length + 1)) := by
  obtain ⟨n, rfl⟩ : ∃ k, n = k + 1 := ⟨n - 1, by omega⟩
  induction seg generalizing data n dst src with
  | nil =>
    obtain ⟨data', hstore, hloop⟩ := strcpy_step (n := n) hdrop hdst
    refine ⟨data', hloop.trans (if_pos rfl), ?_⟩
    have htake := array_t.store_take hstore
    have hdrop' := array_t.store_drop hstore (le_refl _)
    rw [← List.take_append_drop (dst + 1) data'.bytes]
    rw [List.length_singleton] at htake hdrop'
    rw [htake, hdrop', List.append_assoc]
    rfl
  | cons b seg ih =>
    have hb : b ≠ 0#8 := fun h => hseg (List.mem_cons.mpr (.inl h.symm))
    obtain ⟨data', hstore, hloop⟩ := strcpy_step (n := n) hdrop hdst
    have htake := array_t.store_take hstore
    have hsame (k : Nat) := array_t.store_drop (k := dst + 1 + k) hstore (Nat.le_add_right _ _)
    rw [List.length_singleton] at htake
    rw [List.length_cons] at hn
    have hrest : data'.bytes.drop (src + 1) = seg ++ 0#8 :: more := by
      have hbehind := array_t.store_drop (k := src + 1) hstore (by rw [List.length_singleton]; omega)
      rw [hbehind, ← List.drop_drop, hdrop]
      rfl
    obtain ⟨n, rfl⟩ : ∃ k, n = k + 1 := ⟨n - 1, by omega⟩
    obtain ⟨data'', hcopy, hbytes⟩ := ih hrest (fun h => hseg (List.mem_cons_of_mem b h)) (Nat.succ_lt_succ hdst) n
      (by omega)
    refine ⟨data'', by rw [hloop, if_neg hb, hcopy], ?_⟩
    rw [hbytes, htake, Nat.add_assoc, hsame, List.append_assoc]
    simp only [List.length_cons, List.cons_append, List.nil_append]
    rw [Nat.add_assoc, Nat.add_assoc]
    congr 5
    omega

end houseam.syscalls.grep
