-- Reading an escape. How an escape for one character or for a property is read
-- depends on its own text and on how the text goes on right behind it.
import Highlighting.Regex.Class
import Highlighting.Proofs.Fallible

namespace Highlighting.Regex

/-! ## What follows a piece -/

/-- What may stand behind a pattern inside a longer one: nothing, a bar, or a closing
parenthesis. -/
def EndsPattern (e : List Char) : Prop := e = [] ∨ (∃ r, e = '|' :: r) ∨ ∃ r, e = ')' :: r

/-- The texts start with the same character, or the first one ends where a pattern
may end in the second. -/
def HeadAlike (e e' : List Char) : Prop := e.head? = e'.head? ∨ e = [] ∧ EndsPattern e'

/-- The texts go on alike. An opening brace counts with the character behind it. -/
structure Alike (e e' : List Char) : Prop where
  head : HeadAlike e e'
  brace : ∀ r, e = '\x7b' :: r → ∃ r', e' = '\x7b' :: r' ∧ HeadAlike r r'

theorem HeadAlike.nil {e : List Char} (h : HeadAlike [] e) : EndsPattern e := by
  rcases h with h | ⟨_, h⟩
  · exact .inl (List.head?_eq_none_iff.mp h.symm)
  · exact h

theorem HeadAlike.cons {c : Char} {r e : List Char} (h : HeadAlike (c :: r) e) :
    ∃ r', e = c :: r' := by
  rcases e with _ | ⟨c', r'⟩
  · rcases h with h | ⟨h, _⟩
    · cases h
    · cases h
  · rcases h with h | ⟨h, _⟩
    · cases h
      exact ⟨r', rfl⟩
    · cases h

theorem EndsPattern.ne {e r : List Char} (h : EndsPattern e) {c : Char} (hc : c ≠ '|' ∧ c ≠ ')') :
    e ≠ c :: r := by
  rintro rfl
  rcases h with h | ⟨_, h⟩ | ⟨_, h⟩
  · cases h
  · exact hc.1 (List.cons.inj h).1
  · exact hc.2 (List.cons.inj h).1

theorem HeadAlike.head_eq {e e' : List Char} (h : HeadAlike e e') {c : Char}
    (hc : c ≠ '|' ∧ c ≠ ')') : e.head? = some c ↔ e'.head? = some c := by
  rcases h with h | ⟨rfl, h⟩
  · rw [h]
  · constructor
    · intro hn
      cases hn
    · intro hn
      obtain ⟨r, he⟩ := List.head?_eq_some_iff.mp hn
      exact absurd he (h.ne hc)

/-- No closing bracket behind the text is hidden by it. -/
def KeepsClose (t : List Char) : Prop := ∀ x, hasClose x = true → hasClose (t ++ x) = true

theorem KeepsClose.append {t t' : List Char} (h : KeepsClose t) (h' : KeepsClose t') :
    KeepsClose (t ++ t') := by
  intro x hx
  rw [List.append_assoc]
  exact h _ (h' x hx)

theorem keepsClose_single {c : Char} (hc : c ≠ '\\') : KeepsClose [c] := by
  intro x hx
  by_cases h : c = ']'
  · subst h
    rfl
  · rw [List.singleton_append, hasClose]
    · exact hx
    · intro c' cs he
      cases he
      exact absurd rfl hc
    · exact h

theorem keepsClose_pair (c : Char) : KeepsClose ['\\', c] := fun _ hx => hx

theorem keepsClose_of_forall {t : List Char} (h : ∀ c ∈ t, c ≠ '\\') : KeepsClose t := by
  induction t with
  | nil => exact fun x hx => hx
  | cons c t ih =>
    have hc := keepsClose_single (h c List.mem_cons_self)
    exact hc.append (ih fun c' hc' => h c' (List.mem_cons_of_mem _ hc'))

/-- Of two characters the scan takes at once, the first one is a backslash. -/
theorem keepsClose_of_last {t : List Char} {c : Char} (hc : c ≠ '\\') : KeepsClose (t ++ [c]) := by
  intro x hx
  fun_induction hasClose t with
  | case1 c' t ih => exact ih
  | case2 t => rfl
  | case3 d t hpair hclose ih =>
    by_cases hd : d = '\\'
    · subst hd
      rcases t with _ | ⟨c', t⟩
      · exact hx
      · exact absurd rfl (hpair c' t rfl)
    · exact keepsClose_single hd _ ih
  | case4 => exact keepsClose_single hc x hx

/-! ## Numbers -/

theorem digitValue?_ne {base : Nat} {c d : Char} (h : (digitValue? base c).isSome)
    (hd : digitValue? base d = none) : c ≠ d := by
  intro he
  rw [he, hd] at h
  cases h

theorem readDigits_stop {base n count value : Nat} {cs : List Char}
    (h : ∀ c, cs.head? = some c → digitValue? base c = none) :
    readDigits base n cs count value = (count, value, cs) := by
  rcases n with _ | n
  · rw [readDigits]
  · rcases cs with _ | ⟨c, cs⟩
    · rw [readDigits]
    · rw [readDigits, h c rfl]

/-- Digits are read alike where the text goes on alike, or where there may be no
more of them. -/
theorem readDigits_local {base n count value k v : Nat} {cs rest : List Char}
    (h : readDigits base n cs count value = (k, v, rest)) :
    ∃ t, cs = t ++ rest ∧ k = count + t.length ∧ (∀ c ∈ t, (digitValue? base c).isSome) ∧
      ∀ e m, t.length = n ∧ m = n ∨ HeadAlike rest e ∧ (m = n ∨ cs.length ≤ n ∧ t.length ≤ m) →
        readDigits base m (t ++ e) count value = (k, v, e) := by
  induction n generalizing cs count value with
  | zero =>
    rw [readDigits] at h
    cases h
    refine ⟨[], rfl, rfl, (by simp), ?_⟩
    intro e m hm
    rcases m with _ | m
    · rfl
    · rcases hm with ⟨_, hm⟩ | ⟨he, hm | ⟨hcs, _⟩⟩
      · cases hm
      · cases hm
      · rw [List.length_eq_zero_iff.mp (Nat.le_zero.mp hcs)] at he
        rcases he.nil with rfl | ⟨r, rfl⟩ | ⟨r, rfl⟩
        · rfl
        · rfl
        · rfl
  | succ n ih =>
    rcases cs with _ | ⟨c, cs⟩
    · rw [readDigits] at h
      cases h
      refine ⟨[], rfl, rfl, (by simp), ?_⟩
      intro e m hm
      refine readDigits_stop fun c hc => ?_
      rcases hm with ⟨hm, _⟩ | ⟨he, _⟩
      · cases hm
      · rcases he.nil with rfl | ⟨r, rfl⟩ | ⟨r, rfl⟩
        · cases hc
        · cases hc
          rfl
        · cases hc
          rfl
    · rw [readDigits] at h
      rcases hc : digitValue? base c with _ | d
      · rw [hc] at h
        cases h
        refine ⟨[], rfl, rfl, (by simp), ?_⟩
        intro e m hm
        refine readDigits_stop fun c' hc' => ?_
        rcases hm with ⟨hm, _⟩ | ⟨he, _⟩
        · cases hm
        · obtain ⟨r', rfl⟩ := he.cons
          cases hc'
          exact hc
      · rw [hc] at h
        obtain ⟨t, rfl, rfl, hdigits, hread⟩ := ih h
        refine ⟨c :: t, rfl, (by simp only [List.length_cons]; omega), ?_, ?_⟩
        · intro c' hc'
          rcases List.mem_cons.mp hc' with rfl | hc'
          · rw [hc]
            rfl
          · exact hdigits c' hc'
        · intro e m hm
          simp only [List.length_cons] at hm
          rcases m with _ | m
          · omega
          · rw [List.cons_append, readDigits, hc]
            refine hread e m ?_
            rcases hm with hm | ⟨he, hm⟩
            · exact .inl (by omega)
            · exact .inr ⟨he, by omega⟩

/-! ## Escapes for one character -/

theorem readBytes_local {n code : Nat} {cs rest : List Char} {d : Char}
    (h : readBytes n code cs = .ok (d, rest)) :
    ∃ t, cs = t ++ rest ∧ KeepsClose t ∧ ∀ e, readBytes n code (t ++ e) = .ok (d, e) := by
  induction n generalizing code cs with
  | zero =>
    rw [readBytes] at h
    obtain ⟨d', hd, h⟩ := bind_eq_ok.mp h
    cases h
    refine ⟨[], rfl, fun _ hx => hx, ?_⟩
    intro e
    rw [readBytes, hd]
    rfl
  | succ n ih =>
    unfold readBytes at h
    split at h
    · cases ‹n + 1 = 0›
    · rename_i n' cs' hn
      cases hn
      rcases hd : readDigits 16 2 cs' 0 0 with ⟨k, v, r⟩
      obtain ⟨t, rfl, rfl, hdigits, hread⟩ := readDigits_local hd
      rw [hd] at h
      simp only at h
      split at h
      · rename_i hvalue
        have hlength : t.length = 2 := by
          simp only [Bool.and_eq_true, decide_eq_true_eq] at hvalue
          omega
        obtain ⟨t', rfl, hclose, hbytes⟩ := ih h
        refine ⟨'\\' :: 'x' :: (t ++ t'), by simp, ?_, ?_⟩
        · have hne : KeepsClose t := keepsClose_of_forall fun c hc => digitValue?_ne (hdigits c hc) rfl
          exact (keepsClose_pair 'x').append (hne.append hclose)
        · intro e
          have hagain := hread (t' ++ e) 2 (.inl ⟨hlength, rfl⟩)
          rw [List.cons_append, List.cons_append, List.append_assoc, readBytes, hagain]
          simp only [hvalue, if_true]
          exact hbytes e
      · cases h
    · cases h

theorem readByte_local {b : Nat} {cs rest : List Char} {d : Char}
    (h : readByte b cs = .ok (d, rest)) :
    ∃ t, cs = t ++ rest ∧ KeepsClose t ∧ ∀ e, readByte b (t ++ e) = .ok (d, e) := by
  unfold readByte at h ⊢
  split at h
  · cases h
    exact ⟨[], rfl, fun _ hx => hx, fun e => by simp only [List.nil_append, *, if_true]⟩
  · split at h
    · obtain ⟨t, hcs, hclose, hread⟩ := readBytes_local h
      exact ⟨t, hcs, hclose, fun e => by simp only [hread e, *, if_true, if_false]⟩
    · split at h
      · obtain ⟨t, hcs, hclose, hread⟩ := readBytes_local h
        exact ⟨t, hcs, hclose, fun e => by simp only [hread e, *, if_true, if_false]; rfl⟩
      · split at h
        · obtain ⟨t, hcs, hclose, hread⟩ := readBytes_local h
          exact ⟨t, hcs, hclose, fun e => by simp only [hread e, *, if_true, if_false]; rfl⟩
        · cases h

/-- A code in braces is read to its brace. -/
theorem readBraced_some {base limit : Nat} {cs rest : List Char} {d : Char}
    (h : readBraced base limit cs = .ok (some (d, rest))) :
    ∃ t, cs = t ++ rest ∧ KeepsClose t ∧
      ∀ e, readBraced base limit (t ++ e) = .ok (some (d, e)) := by
  unfold readBraced at h
  rcases hd : readDigits base limit cs 0 0 with ⟨k, v, r⟩
  obtain ⟨t, rfl, hk, hdigits, hread⟩ := readDigits_local hd
  rw [hd] at h
  simp only at h
  split at h
  · cases h
  · rename_i hcount
    split at h
    · cases h
    · rename_i c rest'
      split at h
      · rename_i hc
        subst hc
        obtain ⟨d', hcode, h⟩ := bind_eq_ok.mp h
        cases h
        refine ⟨t ++ ['\x7d'], by simp, keepsClose_of_last (by decide), ?_⟩
        intro e
        have hagain := hread ('\x7d' :: e) limit (.inr ⟨.inl rfl, .inl rfl⟩)
        rw [List.append_assoc, List.singleton_append, readBraced, hagain]
        simp only [hcount, if_false, if_true, hcode]
        rfl
      · split at h
        · cases h
        · cases h

/-- Without a digit there is no code. -/
theorem readBraced_none {base limit : Nat} {cs e : List Char}
    (h : readBraced base limit cs = .ok none) (he : HeadAlike cs e) :
    readBraced base limit e = .ok none := by
  unfold readBraced at h
  rcases hd : readDigits base limit cs 0 0 with ⟨k, v, r⟩
  obtain ⟨t, rfl, rfl, hdigits, hread⟩ := readDigits_local hd
  rw [hd] at h
  simp only at h
  split at h
  · rename_i hcount
    have hempty : t = [] := List.length_eq_zero_iff.mp (by omega)
    subst hempty
    have hagain := hread e limit (.inr ⟨he, .inl rfl⟩)
    rw [List.nil_append] at hagain
    rw [readBraced, hagain]
    rfl
  · split at h
    · cases h
    · split at h
      · obtain ⟨d', hcode, h⟩ := bind_eq_ok.mp h
        cases h
      · split at h
        · cases h
        · cases h

/-- An escape takes a text off, and does so again in front of another text. -/
def TakesEscape (cs : List Char) (d : Char) (rest : List Char) : Prop :=
  ∃ t, t ≠ [] ∧ cs = t ++ rest ∧ KeepsClose ('\\' :: t) ∧
    ∀ e m, Alike rest e → t.length ≤ m → readCharEscape m (t ++ e) = .ok (d, e)

theorem takesEscape_of_succ {c d : Char} {t rest : List Char} (hclose : KeepsClose ('\\' :: c :: t))
    (h : ∀ e m, Alike rest e → t.length ≤ m →
      readCharEscape (m + 1) (c :: (t ++ e)) = .ok (d, e)) :
    TakesEscape (c :: (t ++ rest)) d rest := by
  refine ⟨c :: t, List.cons_ne_nil c t, rfl, hclose, ?_⟩
  intro e m he hm
  rcases m with _ | m
  · cases hm
  · exact h e m he (Nat.le_of_succ_le_succ hm)

/-- The text of an escape with digits or braces behind its letter. -/
theorem keepsClose_escape (c : Char) {t : List Char} (h : KeepsClose t) :
    KeepsClose ('\\' :: c :: t) := (keepsClose_pair c).append h

/-- A letter whose code may stand in braces. Without a code the letter stands for
itself. -/
theorem takesEscape_braced (base limit : Nat) {c d : Char} {fuel : Nat} {cs rest : List Char}
    (hbraced : ∀ m cs, readCharEscape (m + 1) (c :: '\x7b' :: cs) = (do
      match ← readBraced base limit cs with
      | some r => return r
      | none => return (c, '\x7b' :: cs)))
    (h : readCharEscape (fuel + 1) (c :: '\x7b' :: cs) = .ok (d, rest)) :
    TakesEscape (c :: '\x7b' :: cs) d rest := by
  rw [hbraced] at h
  obtain ⟨r, hr, hresult⟩ := bind_eq_ok.mp h
  rcases r with _ | ⟨d', rest'⟩
  · cases hresult
    refine takesEscape_of_succ (keepsClose_pair c) ?_
    intro e m he _
    obtain ⟨r', rfl, he'⟩ := he.brace cs rfl
    rw [List.nil_append, hbraced, readBraced_none hr he']
    rfl
  · cases hresult
    obtain ⟨t, rfl, hclose, hread⟩ := readBraced_some hr
    have hbrace : KeepsClose ('\x7b' :: t) := (keepsClose_single (by decide)).append hclose
    refine takesEscape_of_succ (keepsClose_escape c hbrace) ?_
    intro e m _ _
    rw [List.cons_append, hbraced, hread e]
    rfl

theorem takesEscape_hex {fuel : Nat} {cs rest : List Char} {d : Char}
    (h : readCharEscape (fuel + 1) ('x' :: cs) = .ok (d, rest)) : TakesEscape ('x' :: cs) d rest := by
  by_cases hbrace : ∃ cs', cs = '\x7b' :: cs'
  · obtain ⟨cs', rfl⟩ := hbrace
    exact takesEscape_braced 16 8 (fun _ _ => rfl) h
  · replace hbrace : ∀ cs', cs ≠ '\x7b' :: cs' := fun cs' hcs => hbrace ⟨cs', hcs⟩
    unfold readCharEscape at h
    simp only at h
    rcases hd : readDigits 16 2 cs 0 0 with ⟨k, v, r⟩
    obtain ⟨t, rfl, hk, hdigits, hread⟩ := readDigits_local hd
    rw [hd] at h
    obtain ⟨t', rfl, hclose, hbyte⟩ := readByte_local h
    have hne : KeepsClose t := keepsClose_of_forall fun c hc => digitValue?_ne (hdigits c hc) rfl
    rw [← List.append_assoc]
    refine takesEscape_of_succ (keepsClose_escape 'x' (hne.append hclose)) ?_
    intro e m he _
    -- The first byte ends before a further byte, or where the text goes on alike.
    have hagain : readDigits 16 2 (t ++ (t' ++ e)) 0 0 = (k, v, t' ++ e) := by
      refine hread (t' ++ e) 2 (.inr ⟨?_, .inl rfl⟩)
      rcases t' with _ | ⟨c, t'⟩
      · exact he.head
      · exact .inl rfl
    -- No brace follows the letter here either, so the same branch is taken.
    have hnot : ∀ r', t ++ (t' ++ e) ≠ '\x7b' :: r' := by
      intro r' hr'
      rcases t with _ | ⟨c, t⟩
      · rcases t' with _ | ⟨c', t'⟩
        · simp only [List.nil_append] at hr' hbrace
          have hhead := (he.head.head_eq (c := '\x7b') (by decide)).mpr (by rw [hr']; rfl)
          rcases rest with _ | ⟨c, rest⟩
          · cases hhead
          · cases hhead
            exact hbrace rest rfl
        · cases hr'
          exact hbrace _ rfl
      · cases hr'
        exact hbrace _ rfl
    rw [List.append_assoc]
    unfold readCharEscape
    simp only
    rw [hagain]
    exact hbyte e

theorem takesEscape_octal {fuel : Nat} {cs rest : List Char} {d : Char}
    (h : readCharEscape (fuel + 1) ('o' :: cs) = .ok (d, rest)) : TakesEscape ('o' :: cs) d rest := by
  by_cases hbrace : ∃ cs', cs = '\x7b' :: cs'
  · obtain ⟨cs', rfl⟩ := hbrace
    exact takesEscape_braced 8 11 (fun _ _ => rfl) h
  · replace hbrace : ∀ cs', cs ≠ '\x7b' :: cs' := fun cs' hcs => hbrace ⟨cs', hcs⟩
    unfold readCharEscape at h
    simp only at h
    cases h
    refine takesEscape_of_succ (keepsClose_pair 'o') ?_
    intro e m he _
    unfold readCharEscape
    simp only [List.nil_append]
    split
    · rename_i r'
      have hhead := (he.head.head_eq (c := '\x7b') (by decide)).mpr rfl
      rcases cs with _ | ⟨c, cs⟩
      · cases hhead
      · cases hhead
        exact absurd rfl (hbrace cs)
    · rfl

theorem takesEscape_code {fuel : Nat} {cs rest : List Char} {d : Char}
    (h : readCharEscape (fuel + 1) ('u' :: cs) = .ok (d, rest)) : TakesEscape ('u' :: cs) d rest := by
  unfold readCharEscape at h
  rcases hd : readDigits 16 4 cs 0 0 with ⟨k, v, r⟩
  obtain ⟨t, rfl, hk, hdigits, hread⟩ := readDigits_local hd
  simp only [hd] at h
  split at h
  · cases h
  · rename_i hcount
    obtain ⟨d', hcode, h⟩ := bind_eq_ok.mp h
    cases h
    have hne : KeepsClose t := keepsClose_of_forall fun c hc => digitValue?_ne (hdigits c hc) rfl
    refine takesEscape_of_succ (keepsClose_escape 'u' hne) ?_
    intro e m he _
    unfold readCharEscape
    simp only [hread e 4 (.inr ⟨he.head, .inl rfl⟩), hcount, if_false, hcode]
    rfl

theorem takesEscape_control {fuel : Nat} {cs rest : List Char} {d : Char}
    (ih : ∀ {cs rest : List Char} {d : Char}, readCharEscape fuel cs = .ok (d, rest) →
      cs.length ≤ fuel → TakesEscape cs d rest)
    (h : readCharEscape (fuel + 1) ('c' :: cs) = .ok (d, rest)) (hf : cs.length ≤ fuel) :
    TakesEscape ('c' :: cs) d rest := by
  unfold readCharEscape at h
  simp only at h
  split at h
  · cases h
  · rename_i cs'
    obtain ⟨⟨d', rest'⟩, hd, h⟩ := bind_eq_ok.mp h
    cases h
    obtain ⟨t, _, rfl, hclose, hread⟩ := ih hd (by simp only [List.length_cons] at hf; omega)
    refine takesEscape_of_succ (t := '\\' :: t) (keepsClose_escape 'c' hclose) ?_
    intro e m he hm
    unfold readCharEscape
    simp only [List.cons_append]
    rw [hread e m he (by simp only [List.length_cons] at hm; omega)]
    rfl
  · rename_i d' _ hd'
    cases h
    refine takesEscape_of_succ (t := [d']) (keepsClose_escape 'c' (keepsClose_single hd')) ?_
    intro e m _ _
    unfold readCharEscape
    simp only [List.singleton_append]

/-- The letters that take a key behind a hyphen, with what they make of it. -/
inductive KeyLetter : Char → (Char → Char) → Prop where
  | control : KeyLetter 'C' control
  | highBit : KeyLetter 'M' fun d => Char.ofNat (d.toNat % 128 + 128)

namespace KeyLetter

variable {c : Char} {f : Char → Char}

theorem nested (hletter : KeyLetter c f) (m : Nat) (cs : List Char) :
    readCharEscape (m + 1) (c :: '-' :: '\\' :: cs) = (do
      let (d, rest) ← readCharEscape m cs
      return (f d, rest)) := by
  cases hletter with
  | control => rfl
  | highBit => rfl

theorem plain (hletter : KeyLetter c f) {x : Char} (hx : x ≠ '\\') (m : Nat) (cs : List Char) :
    readCharEscape (m + 1) (c :: '-' :: x :: cs) = .ok (f x, cs) := by
  cases hletter with
  | control =>
    unfold readCharEscape
    simp only
  | highBit =>
    unfold readCharEscape
    simp only

theorem hyphen (hletter : KeyLetter c f) {m : Nat} {cs : List Char} {r : Char × List Char}
    (h : readCharEscape (m + 1) (c :: cs) = .ok r) : ∃ x cs', cs = '-' :: x :: cs' := by
  cases hletter with
  | control | highBit =>
    unfold readCharEscape at h
    simp only at h
    split at h
    · cases h
    · cases h
    · exact ⟨_, _, rfl⟩
    · exact ⟨_, _, rfl⟩
    · cases h

theorem takesEscape (hletter : KeyLetter c f) {fuel : Nat} {cs rest : List Char} {d : Char}
    (ih : ∀ {cs rest : List Char} {d : Char}, readCharEscape fuel cs = .ok (d, rest) →
      cs.length ≤ fuel → TakesEscape cs d rest)
    (h : readCharEscape (fuel + 1) (c :: cs) = .ok (d, rest)) (hf : cs.length ≤ fuel) :
    TakesEscape (c :: cs) d rest := by
  obtain ⟨x, cs, rfl⟩ := hletter.hyphen h
  by_cases hx : x = '\\'
  · subst hx
    rw [hletter.nested] at h
    obtain ⟨⟨d', rest'⟩, hd, h⟩ := bind_eq_ok.mp h
    cases h
    obtain ⟨t, _, rfl, hclose, hread⟩ := ih hd (by simp only [List.length_cons] at hf; omega)
    have hkey : KeepsClose ('-' :: '\\' :: t) := (keepsClose_single (by decide)).append hclose
    refine takesEscape_of_succ (t := '-' :: '\\' :: t) (keepsClose_escape c hkey) ?_
    intro e m he hm
    rw [List.cons_append, List.cons_append, hletter.nested,
      hread e m he (by simp only [List.length_cons] at hm; omega)]
    rfl
  · rw [hletter.plain hx] at h
    cases h
    have hkey : KeepsClose ['-', x] := (keepsClose_single (by decide)).append (keepsClose_single hx)
    refine takesEscape_of_succ (t := ['-', x]) (keepsClose_escape c hkey) ?_
    intro e m _ _
    exact hletter.plain hx m e

end KeyLetter

theorem readCharEscape_local {fuel : Nat} {cs rest : List Char} {d : Char}
    (h : readCharEscape fuel cs = .ok (d, rest)) (hf : cs.length ≤ fuel) :
    TakesEscape cs d rest := by
  induction fuel generalizing cs rest d with
  | zero =>
    rw [List.length_eq_zero_iff.mp (Nat.le_zero.mp hf)] at h
    cases h
  | succ fuel ih =>
    rcases cs with _ | ⟨c, cs⟩
    · cases h
    replace hf : cs.length ≤ fuel := Nat.le_of_succ_le_succ hf
    by_cases hx : c = 'x'
    · subst hx
      exact takesEscape_hex h
    by_cases ho : c = 'o'
    · subst ho
      exact takesEscape_octal h
    by_cases hu : c = 'u'
    · subst hu
      exact takesEscape_code h
    by_cases hc : c = 'c'
    · subst hc
      exact takesEscape_control ih h hf
    by_cases hC : c = 'C'
    · subst hC
      exact KeyLetter.control.takesEscape ih h hf
    by_cases hM : c = 'M'
    · subst hM
      exact KeyLetter.highBit.takesEscape ih h hf
    have hplain : ∀ m e, readCharEscape (m + 1) (c :: e) = .ok ((controlLetter? c).getD c, e) := by
      intro m e
      unfold readCharEscape
      simp only
    rw [hplain] at h
    cases h
    refine takesEscape_of_succ (t := []) (keepsClose_pair c) ?_
    intro e m _ _
    exact hplain m e

/-! ## Properties -/

/-- A caret at the start of a text is taken off. -/
theorem caret_local {cs body : List Char} {negated : Bool}
    (h : (match cs with
      | '^' :: rest => (true, rest)
      | _ => (false, cs)) = (negated, body)) :
    ∃ t, cs = t ++ body ∧ (∀ c ∈ t, c = '^') ∧ (t = [] → ∀ r, body ≠ '^' :: r) ∧
      ∀ x, (t = [] → ∀ r, x ≠ '^' :: r) → (match t ++ x with
        | '^' :: rest => (true, rest)
        | _ => (false, t ++ x)) = (negated, x) := by
  split at h
  · cases h
    exact ⟨['^'], rfl, by simp, by simp, fun _ _ => rfl⟩
  · rename_i hcs
    cases h
    refine ⟨[], rfl, by simp, fun _ => hcs, fun x hx => ?_⟩
    split
    · rename_i r hr
      exact absurd hr (hx rfl r)
    · rfl

theorem drop_takeWhile (q : Char → Bool) (cs : List Char) :
    cs.drop (cs.takeWhile q).length = cs.dropWhile q := by
  have h : (cs.takeWhile q ++ cs.dropWhile q).drop (cs.takeWhile q).length = cs.dropWhile q :=
    List.drop_left
  rwa [List.takeWhile_append_dropWhile] at h

/-- What a search in front of a character finds does not hang on the text behind it. -/
theorem takeWhile_stop (q : Char → Bool) {c : Char} (hc : q c = false) {t : List Char}
    (ht : ∀ c ∈ t, q c = true) (e : List Char) : (t ++ c :: e).takeWhile q = t := by
  rw [List.takeWhile_append_of_pos ht, List.takeWhile_cons, hc]
  simp

theorem readProperty_local {cs rest : List Char} {negated : Bool} {p : Property}
    (h : readProperty cs = .ok (negated, p, rest)) :
    ∃ t, cs = t ++ '\x7d' :: rest ∧ ∀ e, readProperty (t ++ '\x7d' :: e) = .ok (negated, p, e) := by
  unfold readProperty at h
  split at h
  rename_i negated' body hcaret
  simp only at h
  split at h
  · rename_i rest' hrest
    split at h
    · rename_i p' hp
      cases h
      let q : Char → Bool := fun c => !("()\x7b\x7d|".contains c)
      have hbody : body.takeWhile q ++ '\x7d' :: rest = body := by
        rw [← hrest, drop_takeWhile, List.takeWhile_append_dropWhile]
      have hname : ∀ c ∈ body.takeWhile q, q c = true := fun c hc => List.all_eq_true.mp
        List.all_takeWhile c hc
      have hstop : q '\x7d' = false := by simp [q]
      obtain ⟨t, rfl, _, hbegin, hagain⟩ := caret_local hcaret
      refine ⟨t ++ body.takeWhile q, by rw [List.append_assoc, hbody], fun e => ?_⟩
      have hbegin' : t = [] → ∀ r, body.takeWhile q ++ '\x7d' :: e ≠ '^' :: r := by
        intro ht r hr
        rcases hn : body.takeWhile q with _ | ⟨c, n⟩
        · rw [hn] at hr
          cases hr
        · rw [hn] at hr hbody
          cases hr
          exact hbegin ht _ hbody.symm
      unfold readProperty
      split
      rename_i negated' body' hcaret'
      rw [List.append_assoc] at hcaret'
      cases hcaret'.symm.trans (hagain _ hbegin')
      simp only
      rw [show (body.takeWhile q ++ '\x7d' :: e).takeWhile (fun c => !("()\x7b\x7d|".contains c)) = _
        from takeWhile_stop q hstop hname e, List.drop_left]
      simp only [q, hp]
    · cases h
  · cases h
  · cases h

end Highlighting.Regex
