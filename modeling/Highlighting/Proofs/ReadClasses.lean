-- Reading a class. A class is read alike whatever stands behind its closing
-- bracket, and the options do not decide where it ends.
import Highlighting.Proofs.ReadEscapes

namespace Highlighting.Regex

/-! ## Brackets -/

theorem mem_of_hasClose {t : List Char} (h : hasClose t = true) : ']' ∈ t := by
  fun_induction hasClose t with
  | case1 c t ih => exact List.mem_cons_of_mem _ (List.mem_cons_of_mem _ (ih h))
  | case2 t => exact List.mem_cons_self
  | case3 c t _ _ ih => exact List.mem_cons_of_mem _ (ih h)
  | case4 => cases h

theorem bracketCloses_append {t : List Char} (h : hasClose t = true) (e : List Char) :
    bracketCloses (t ++ e) = bracketCloses t := by
  fun_induction hasClose t with
  | case1 c t ih =>
    simp only [List.cons_append, bracketCloses]
    exact ih h
  | case2 t => rfl
  | case3 c t hpair hclose ih =>
    have hesc : c ≠ '\\' := by
      intro he
      rcases t with _ | ⟨d, t⟩
      · cases h
      · exact hpair d t he rfl
    by_cases hend : c = ':' ∧ ∃ t', t = ']' :: t'
    · obtain ⟨rfl, t', rfl⟩ := hend
      rfl
    · rw [List.cons_append, bracketCloses, bracketCloses]
      · exact ih h
      · intro cs he hcs
        exact hend ⟨he, cs, hcs⟩
      · intro d cs he
        exact absurd he hesc
      · exact hclose
      · intro cs he hcs
        rcases t with _ | ⟨d, t⟩
        · cases h
        · cases hcs
          exact hend ⟨he, t, rfl⟩
      · intro d cs he
        exact absurd he hesc
      · exact hclose
  | case4 => cases h

theorem bracketCloses_name {t : List Char} (h : ∀ c ∈ t, c ≠ ':' ∧ c ≠ ']' ∧ c ≠ '\\')
    (e : List Char) : bracketCloses (t ++ ':' :: ']' :: e) = true := by
  induction t with
  | nil => rfl
  | cons c t ih =>
    obtain ⟨hcolon, hclose, hesc⟩ := h c List.mem_cons_self
    rw [List.cons_append, bracketCloses]
    · exact ih fun c' hc' => h c' (List.mem_cons_of_mem _ hc')
    · intro cs he
      exact absurd he hcolon
    · intro d cs he
      exact absurd he hesc
    · exact hclose

/-- Whether a text starts with a name shows before a character that is not in
the name. -/
theorem isPrefixOf_stop {x : Char} {name : List Char} (hx : x ∉ name) (t e e' : List Char) :
    name.isPrefixOf (t ++ x :: e) = name.isPrefixOf (t ++ x :: e') := by
  induction name generalizing t with
  | nil => simp
  | cons a name ih =>
    have hne : a ≠ x := fun he => hx (he ▸ List.mem_cons_self)
    rcases t with _ | ⟨b, t⟩
    · simp [List.isPrefixOf, beq_eq_false_iff_ne.mpr hne]
    · simp only [List.cons_append, List.isPrefixOf]
      rw [ih (fun h => hx (List.mem_cons_of_mem _ h)) t]

theorem mem_bracketNames {entry : String × Property} (h : entry ∈ Property.bracketNames) {c : Char}
    (hc : c ∈ entry.1.toList) : c ≠ ':' ∧ c ≠ ']' ∧ c ≠ '\\' ∧ c ≠ '^' := by
  have hall : (Property.bracketNames.all fun entry => entry.1.toList.all fun c =>
      c != ':' && c != ']' && c != '\\' && c != '^') = true := by decide
  have hone := List.all_eq_true.mp (List.all_eq_true.mp hall entry h) c hc
  simp only [Bool.and_eq_true, bne_iff_ne] at hone
  obtain ⟨⟨⟨h1, h2⟩, h3⟩, h4⟩ := hone
  exact ⟨h1, h2, h3, h4⟩

theorem find?_bracketNames_stop {x : Char}
    (hx : ∀ entry ∈ Property.bracketNames, x ∉ entry.1.toList) (t e e' : List Char) :
    Property.bracketNames.find? (fun (name, _) => name.toList.isPrefixOf (t ++ x :: e)) =
      Property.bracketNames.find? (fun (name, _) => name.toList.isPrefixOf (t ++ x :: e')) := by
  generalize Property.bracketNames = names at hx
  induction names with
  | nil => rfl
  | cons entry names ih =>
    have hentry := isPrefixOf_stop (hx entry List.mem_cons_self) t e e'
    have hrest := ih fun entry' h => hx entry' (List.mem_cons_of_mem _ h)
    simp only [List.find?_cons, hentry, hrest]

/-- A bracket is read to its end. -/
theorem readBracket_some {o : Options} {cs rest : List Char} {s : CharSet}
    (h : readBracket o cs = .ok (some (s, rest))) :
    ∃ t, cs = t ++ ':' :: ']' :: rest ∧ (∀ c ∈ t, c ≠ ':' ∧ c ≠ ']' ∧ c ≠ '\\') ∧
      ∀ e, readBracket o (t ++ ':' :: ']' :: e) = .ok (some (s, e)) := by
  unfold readBracket at h
  split at h
  rename_i negated body hcaret
  obtain ⟨t, rfl, hcarets, hbegin, hagain⟩ := caret_local hcaret
  split at h
  · rename_i name p hfind
    split at h
    · rename_i rest' hdrop
      cases h
      have hmem := List.mem_of_find?_eq_some hfind
      have hprefix := List.find?_some hfind
      simp only [List.isPrefixOf_iff_prefix] at hprefix
      obtain ⟨tail, rfl⟩ := hprefix
      rw [← String.length_toList, List.drop_left] at hdrop
      subst hdrop
      refine ⟨t ++ name.toList, by rw [List.append_assoc], ?_, ?_⟩
      · intro c hc
        rcases List.mem_append.mp hc with hc | hc
        · rw [hcarets c hc]
          decide
        · obtain ⟨h1, h2, h3, _⟩ := mem_bracketNames hmem hc
          exact ⟨h1, h2, h3⟩
      · intro e
        have hbegin' : t = [] → ∀ r, name.toList ++ ':' :: ']' :: e ≠ '^' :: r := by
          intro _ r hr
          rcases hn : name.toList with _ | ⟨c, n⟩
          · rw [hn] at hr
            cases hr
          · rw [hn] at hr
            cases hr
            exact (mem_bracketNames hmem (c := '^') (by rw [hn]; exact List.mem_cons_self)).2.2.2 rfl
        have hfind' := find?_bracketNames_stop (x := ':')
          (fun entry he hc => (mem_bracketNames he hc).1 rfl) name.toList (']' :: e) (']' :: rest)
        rw [hfind] at hfind'
        unfold readBracket
        split
        rename_i negated' body' hcaret'
        rw [List.append_assoc] at hcaret'
        cases hcaret'.symm.trans (hagain _ hbegin')
        simp only [hfind', ← String.length_toList, List.drop_left]
    · cases h
  · simp only at h
    split at h
    · cases h
    · cases h

theorem takeWhile_append_of_mem (q : Char → Bool) {t : List Char} {c : Char} (hc : c ∈ t)
    (hq : q c = false) (e : List Char) : (t ++ e).takeWhile q = t.takeWhile q := by
  induction t with
  | nil => cases hc
  | cons d t ih =>
    simp only [List.cons_append, List.takeWhile_cons]
    rcases List.mem_cons.mp hc with rfl | hc
    · simp [hq]
    · rw [ih hc]

/-- Dropping no more than a search has passed leaves what the search was for. -/
theorem drop_append_of_takeWhile (q : Char → Bool) {t : List Char} {c : Char} (hc : c ∈ t)
    (hq : q c = false) {n : Nat} (hn : n ≤ (t.takeWhile q).length) :
    c ∈ t.drop n ∧ ∀ e, (t ++ e).drop n = t.drop n ++ e := by
  have hlength := (List.takeWhile_sublist q (l := t)).length_le
  refine ⟨?_, fun e => List.drop_append_of_le_length (by omega)⟩
  rw [← List.takeWhile_append_dropWhile (p := q) (l := t)] at hc
  rw [← List.takeWhile_append_dropWhile (p := q) (l := t), List.drop_append_of_le_length hn]
  rcases List.mem_append.mp hc with hc | hc
  · have := List.all_eq_true.mp List.all_takeWhile c hc
    rw [hq] at this
    cases this
  · exact List.mem_append_right _ hc

/-- A caret in front of a closing bracket. -/
theorem caret_append {t : List Char} (ht : ']' ∈ t) :
    ∃ negated u body, t = u ++ body ∧ ']' ∈ body ∧ ∀ x, (match t ++ x with
      | '^' :: rest => (true, rest)
      | _ => (false, t ++ x)) = (negated, body ++ x) := by
  rcases t with _ | ⟨a, t⟩
  · cases ht
  · by_cases ha : a = '^'
    · subst ha
      refine ⟨true, ['^'], t, rfl, ?_, fun x => rfl⟩
      rcases List.mem_cons.mp ht with he | ht
      · cases he
      · exact ht
    · refine ⟨false, [], a :: t, rfl, ht, fun x => ?_⟩
      split
      · rename_i r' hr'
        cases hr'
        exact absurd rfl ha
      · rfl

/-- A text with a closing bracket is no bracket name whatever stands behind it. -/
theorem readBracket_none {o : Options} {t r : List Char} (ht : ']' ∈ t)
    (h : readBracket o (t ++ r) = .ok none) (e : List Char) : readBracket o (t ++ e) = .ok none := by
  obtain ⟨negated, u, body, rfl, hclose, hcaret⟩ := caret_append ht
  let q : Char → Bool := fun c => c != ':' && c != ']'
  have htake : ∀ x, (body ++ x).takeWhile q = body.takeWhile q :=
    takeWhile_append_of_mem q hclose rfl
  obtain ⟨hmem, hdrop⟩ := drop_append_of_takeWhile q hclose rfl
    (n := ((body.takeWhile q).take 21).length) (by simp only [List.length_take]; omega)
  have hfind : ∀ x, Property.bracketNames.find? (fun (name, _) => name.toList.isPrefixOf (body ++ x)) =
      Property.bracketNames.find? (fun (name, _) => name.toList.isPrefixOf (body ++ r)) := by
    intro x
    obtain ⟨v, w, rfl⟩ := List.append_of_mem hclose
    rw [List.append_assoc, List.append_assoc]
    exact find?_bracketNames_stop (fun entry he hc => (mem_bracketNames he hc).2.1 rfl) v _ _
  unfold readBracket at h ⊢
  split at h
  rename_i negated' body' hcaret'
  cases hcaret'.symm.trans (hcaret r)
  split
  rename_i negated'' body'' hcaret''
  cases hcaret''.symm.trans (hcaret e)
  rw [hfind e]
  generalize Property.bracketNames.find? (fun (name, _) => name.toList.isPrefixOf (body ++ r)) =
    found at h ⊢
  rcases found with _ | ⟨name, property⟩
  · simp only at h ⊢
    split at h
    · cases h
    · rename_i hno
      split
      · rename_i x hx
        rw [show (body ++ e).takeWhile (fun c => c != ':' && c != ']') = _ from htake e, hdrop e] at hx
        rw [show (body ++ r).takeWhile (fun c => c != ':' && c != ']') = _ from htake r, hdrop r] at hno
        -- The two characters stand before what is behind the text.
        rcases hd : body.drop ((body.takeWhile q).take 21).length with _ | ⟨a, _ | ⟨b, d⟩⟩
        · rw [hd] at hmem
          cases hmem
        · rw [hd] at hmem hx
          rw [← List.mem_singleton.mp hmem] at hx
          cases hx
        · rw [hd] at hx hno
          cases hx
          exact absurd rfl (hno (d ++ r))
      · rfl
  · simp only at h
    split at h
    · cases h
    · cases h

/-! ## Classes -/

theorem alike_of_hasClose {t : List Char} (h : hasClose t = true) (r e : List Char) :
    Alike (t ++ r) (t ++ e) := by
  rcases t with _ | ⟨c, t⟩
  · cases h
  · refine ⟨.inl rfl, ?_⟩
    intro r' hr'
    cases hr'
    refine ⟨t ++ e, rfl, ?_⟩
    rcases t with _ | ⟨d, t⟩
    · cases h
    · exact .inl rfl

/-- Whether a brace follows shows in a text that goes on alike. -/
theorem Alike.head?_append {rest e t : List Char} (h : Alike rest e) {c : Char}
    (hc : c ≠ '|' ∧ c ≠ ')') : (t ++ rest).head? = some c ↔ (t ++ e).head? = some c := by
  rcases t with _ | ⟨d, t⟩
  · exact h.head.head_eq hc
  · rfl

theorem digitValue?_octal {c : Char} (h : ('0' ≤ c && c ≤ '7') = true) :
    (digitValue? 8 c).isSome = true := by
  simp only [Bool.and_eq_true, decide_eq_true_eq, Char.le_def, UInt32.le_iff_toNat_le] at h
  have h1 : 48 ≤ c.toNat := h.1
  have h2 : c.toNat ≤ 55 := h.2
  have hdigit : c.isDigit = true := by
    simp only [Char.isDigit, Bool.and_eq_true, decide_eq_true_eq, UInt32.le_iff_toNat_le]
    exact ⟨h1, Nat.le_trans h2 (by decide)⟩
  have hvalue : c.toNat - 48 < 8 := by omega
  simp [digitValue?, hdigit, Option.filter, hvalue]

/-- The digits of a code, when the first of them is one. -/
theorem readDigits_first {base n k v : Nat} {c : Char} {cs rest : List Char}
    (hc : (digitValue? base c).isSome = true)
    (h : readDigits base (n + 1) (c :: cs) 0 0 = (k, v, rest)) :
    ∃ t, cs = t ++ rest ∧ (∀ c' ∈ c :: t, (digitValue? base c').isSome) ∧
      ∀ e, HeadAlike rest e → readDigits base (n + 1) (c :: (t ++ e)) 0 0 = (k, v, e) := by
  obtain ⟨d, hd⟩ := Option.isSome_iff_exists.mp hc
  rw [readDigits, hd] at h
  obtain ⟨t, rfl, _, hdigits, hread⟩ := readDigits_local h
  refine ⟨t, rfl, ?_, ?_⟩
  · intro c' hc'
    rcases List.mem_cons.mp hc' with rfl | hc'
    · exact hc
    · exact hdigits c' hc'
  · intro e he
    rw [readDigits, hd]
    exact hread e n (.inr ⟨he, .inl rfl⟩)

/-- What follows a backslash in a class is taken off, and is so again in front of
another text. It never closes the class. -/
def TakesClassPart (o : Options) (cs : List Char) (token : ClassToken) (rest : List Char) : Prop :=
  ∃ t, t ≠ [] ∧ cs = t ++ rest ∧ KeepsClose ('\\' :: t) ∧ token ≠ .close ∧
    ∀ e, Alike rest e → readClassToken o ('\\' :: (t ++ e)) = .ok (token, e)

section Escapes

variable {o : Options} {c : Char} {cs rest : List Char} {token : ClassToken}

/-- A letter behind a backslash that stands for no class of its own. -/
theorem readClassToken_letter (hletter : letterClass? o o.word c = none) (cs : List Char) :
    readClassToken o ('\\' :: c :: cs) =
      if (c = 'p' || c = 'P') && cs.head? = some '\x7b' then
        readProperty cs.tail >>= fun r => .ok (.set (.ofProperty r.2.1 (r.1 != (c = 'P'))), r.2.2)
      else if '0' ≤ c && c ≤ '7' then
        if 0xff < (readDigits 8 3 (c :: cs) 0 0).2.1 then .error .numberTooBig
        else readByte (readDigits 8 3 (c :: cs) 0 0).2.1 (readDigits 8 3 (c :: cs) 0 0).2.2 >>=
          fun r => .ok (.char r.1, r.2)
      else if c = 'b' then .ok (.char '\x08', cs)
      else readCharEscape (c :: cs).length (c :: cs) >>= fun r => .ok (.char r.1, r.2) := by
  rw [readClassToken, hletter]
  rfl

/-- A property in braces. -/
theorem takesClassPart_property (hletter : letterClass? o o.word c = none)
    (hc : (decide (c = 'p') || decide (c = 'P')) = true)
    (h : readClassToken o ('\\' :: c :: '\x7b' :: cs) = .ok (token, rest)) :
    TakesClassPart o (c :: '\x7b' :: cs) token rest := by
  have hp : ∀ cs : List Char, ((c = 'p' || c = 'P') && ('\x7b' :: cs).head? = some '\x7b') = true :=
    fun cs => by rw [hc]; rfl
  rw [readClassToken_letter hletter, if_pos (hp cs)] at h
  obtain ⟨⟨negated, p, rest'⟩, hproperty, h⟩ := bind_eq_ok.mp h
  cases h
  obtain ⟨t, rfl, hagain⟩ := readProperty_local hproperty
  refine ⟨c :: '\x7b' :: (t ++ ['\x7d']), by simp, by simp, ?_, by simp, ?_⟩
  · exact keepsClose_escape c (keepsClose_of_last (t := '\x7b' :: t) (by decide))
  · intro e _
    rw [List.cons_append, List.cons_append, List.append_assoc, readClassToken_letter hletter,
      if_pos (hp _)]
    exact congrArg (· >>= _) (hagain e)

/-- A code in octal digits. -/
theorem takesClassPart_octal (hletter : letterClass? o o.word c = none)
    (hoctal : ('0' ≤ c && c ≤ '7') = true)
    (h : readClassToken o ('\\' :: c :: cs) = .ok (token, rest)) :
    TakesClassPart o (c :: cs) token rest := by
  have hp : ∀ cs : List Char, ¬(((c = 'p' || c = 'P') && cs.head? = some '\x7b') = true) := by
    intro cs hp
    simp only [Bool.and_eq_true, Bool.or_eq_true, decide_eq_true_eq] at hp
    rcases hp.1 with rfl | rfl
    · exact absurd hoctal (by decide)
    · exact absurd hoctal (by decide)
  rw [readClassToken_letter hletter, if_neg (hp cs), if_pos hoctal] at h
  rcases hd : readDigits 8 3 (c :: cs) 0 0 with ⟨k, v, r⟩
  obtain ⟨t, rfl, hdigits, hread⟩ := readDigits_first (digitValue?_octal hoctal) hd
  rw [hd] at h
  split at h
  · cases h
  · rename_i hvalue
    obtain ⟨⟨d, rest'⟩, hbyte, h⟩ := bind_eq_ok.mp h
    cases h
    obtain ⟨t', rfl, hclose, hbyte'⟩ := readByte_local hbyte
    have hne : KeepsClose t := keepsClose_of_forall fun c' hc' =>
      digitValue?_ne (hdigits c' (List.mem_cons_of_mem _ hc')) rfl
    refine ⟨c :: (t ++ t'), by simp, by simp, ?_, by simp, ?_⟩
    · exact keepsClose_escape c (hne.append hclose)
    · intro e he
      have hagain := hread (t' ++ e) (by
        rcases t' with _ | ⟨x, t'⟩
        · exact he.head
        · exact .inl rfl)
      rw [List.cons_append, List.append_assoc, readClassToken_letter hletter, if_neg (hp _),
        if_pos hoctal, hagain, if_neg hvalue, hbyte' e]
      rfl

/-- Any other escape for one character. -/
theorem takesClassPart_char (hletter : letterClass? o o.word c = none)
    (hp : ¬(((c = 'p' || c = 'P') && cs.head? = some '\x7b') = true))
    (hoctal : ¬(('0' ≤ c && c ≤ '7') = true)) (hb : c ≠ 'b')
    (h : readClassToken o ('\\' :: c :: cs) = .ok (token, rest)) :
    TakesClassPart o (c :: cs) token rest := by
  rw [readClassToken_letter hletter, if_neg hp, if_neg hoctal, if_neg hb] at h
  obtain ⟨⟨d, rest'⟩, hd, h⟩ := bind_eq_ok.mp h
  cases h
  obtain ⟨t, hne, hcs, hclose, hagain⟩ := readCharEscape_local hd (Nat.le_refl _)
  rcases t with _ | ⟨c', t⟩
  · exact absurd rfl hne
  cases hcs
  refine ⟨c :: t, hne, rfl, hclose, by simp, ?_⟩
  intro e he
  have hp' : ¬(((c = 'p' || c = 'P') && (t ++ e).head? = some '\x7b') = true) := by
    simp only [Bool.and_eq_true, decide_eq_true_eq] at hp ⊢
    rw [← he.head?_append (c := '\x7b') (by decide)]
    exact hp
  rw [List.cons_append, readClassToken_letter hletter, if_neg hp', if_neg hoctal, if_neg hb,
    ← List.cons_append, hagain e _ he (by simp)]
  rfl

/-- An escape in a class is read alike in front of another text. -/
theorem readClassToken_escape (h : readClassToken o ('\\' :: cs) = .ok (token, rest)) :
    TakesClassPart o cs token rest := by
  rcases cs with _ | ⟨c, cs⟩
  · cases h
  rcases hletter : letterClass? o o.word c with _ | s
  · by_cases hp : ((c = 'p' || c = 'P') && cs.head? = some '\x7b') = true
    · rw [Bool.and_eq_true, decide_eq_true_eq] at hp
      obtain ⟨cs, rfl⟩ := List.head?_eq_some_iff.mp hp.2
      exact takesClassPart_property hletter hp.1 h
    by_cases hoctal : ('0' ≤ c && c ≤ '7') = true
    · exact takesClassPart_octal hletter hoctal h
    by_cases hb : c = 'b'
    · subst hb
      cases h
      exact ⟨['b'], by simp, rfl, keepsClose_pair 'b', by simp, fun e _ => rfl⟩
    exact takesClassPart_char hletter hp hoctal hb h
  · have hset : ∀ cs, readClassToken o ('\\' :: c :: cs) = .ok (.set s, cs) := by
      intro cs
      simp only [readClassToken, hletter]
    rw [hset] at h
    cases h
    exact ⟨[c], by simp, rfl, keepsClose_pair c, by simp, fun e _ => hset e⟩

end Escapes

/-- A bracket with a colon behind it, named or for itself. -/
theorem readClassToken_bracket {o : Options} {cs a r : List Char} {token : ClassToken}
    (h : readClassToken o ('[' :: ':' :: cs) = .ok (token, a ++ r)) (ha : hasClose a = true) :
    ∃ t, t ≠ [] ∧ '[' :: ':' :: cs = t ++ (a ++ r) ∧ hasClose (t ++ a) = true ∧
      ∀ e, readClassToken o (t ++ (a ++ e)) = .ok (token, a ++ e) := by
  have hbracket : ∀ cs, readClassToken o ('[' :: ':' :: cs) =
      if bracketCloses cs then readBracket o cs >>= fun x =>
        .ok (x.elim (.char '[', ':' :: cs) fun r => (.set r.1, r.2))
      else .ok (.opening, ':' :: cs) := by
    intro cs
    rw [readClassToken]
    rcases readBracket o cs with _ | _ | _
    all_goals rfl
  -- A bracket that stands for itself leaves the colon to what follows.
  have hcolon : ∀ {token' : ClassToken}, (token', ':' :: cs) = (token, a ++ r) →
      token' = token ∧ ∃ a', a = ':' :: a' ∧ cs = a' ++ r ∧ hasClose a' = true := by
    intro token' heq
    obtain ⟨rfl, hcs⟩ := Prod.mk.inj heq
    rcases a with _ | ⟨c, a⟩
    · cases ha
    · obtain ⟨rfl, rfl⟩ := List.cons.inj hcs
      exact ⟨rfl, a, rfl, rfl, ha⟩
  rw [hbracket] at h
  split at h
  · rename_i hcloses
    obtain ⟨x, hx, h⟩ := bind_eq_ok.mp h
    rcases x with _ | ⟨s, rest'⟩
    · obtain ⟨rfl, a', rfl, rfl, ha'⟩ := hcolon (Except.ok.inj h)
      refine ⟨['['], by simp, rfl, ha, fun e => ?_⟩
      rw [bracketCloses_append ha', ← bracketCloses_append ha' e] at hcloses
      simp only [List.cons_append, List.nil_append, hbracket, if_pos hcloses,
        readBracket_none (mem_of_hasClose ha') hx e]
      rfl
    · cases h
      obtain ⟨t, rfl, hname, hread⟩ := readBracket_some hx
      refine ⟨'[' :: ':' :: (t ++ [':', ']']), by simp, by simp, ?_, ?_⟩
      · have hkeeps := keepsClose_of_last (t := '[' :: ':' :: (t ++ [':'])) (c := ']') (by decide)
        simpa using hkeeps a ha
      · intro e
        simp only [List.cons_append, List.append_assoc, List.nil_append, hbracket,
          bracketCloses_name hname, if_true, hread (a ++ e)]
        rfl
  · rename_i hcloses
    obtain ⟨rfl, a', rfl, rfl, ha'⟩ := hcolon (Except.ok.inj h)
    refine ⟨['['], by simp, rfl, ha, fun e => ?_⟩
    rw [bracketCloses_append ha', ← bracketCloses_append ha' e] at hcloses
    simp only [List.cons_append, List.nil_append, hbracket, if_neg hcloses]

/-- A part of a class is read alike as long as the class closes behind it. -/
theorem readClassToken_local {o : Options} {cs a r : List Char} {token : ClassToken}
    (h : readClassToken o cs = .ok (token, a ++ r)) (ha : hasClose a = true) :
    ∃ t, t ≠ [] ∧ cs = t ++ (a ++ r) ∧ hasClose (t ++ a) = true ∧
      ∀ e, readClassToken o (t ++ (a ++ e)) = .ok (token, a ++ e) := by
  have hne : a ≠ [] := by
    rintro rfl
    cases ha
  have hagain := h
  unfold readClassToken at h
  split at h
  · cases h
  · cases h
    exact ⟨[']'], by simp, rfl, rfl, fun e => rfl⟩
  · cases h
    exact ⟨['-'], by simp, rfl, keepsClose_single (by decide) a ha, fun e => rfl⟩
  · cases h
    refine ⟨['&', '&'], by simp, rfl, ?_, fun e => rfl⟩
    exact keepsClose_of_forall (by simp) a ha
  · exact readClassToken_bracket hagain ha
  · rename_i hopen
    cases h
    refine ⟨['['], by simp, rfl, keepsClose_single (by decide) a ha, fun e => ?_⟩
    rw [List.singleton_append, readClassToken]
    intro cs' hcs'
    rcases a with _ | ⟨c, a⟩
    · exact hne rfl
    · cases hcs'
      exact hopen _ rfl
  · obtain ⟨t, ht, rfl, hclose, _, hread⟩ := readClassToken_escape hagain
    exact ⟨'\\' :: t, by simp, rfl, hclose a ha, fun e => hread _ (alike_of_hasClose ha r e)⟩
  · rename_i c cs' h1 h2 h3 h4 h5 h6
    cases h
    refine ⟨[c], by simp, rfl, keepsClose_single h6 a ha, fun e => ?_⟩
    rw [List.singleton_append, readClassToken]
    · assumption
    · assumption
    · intro cs' hc hcs'
      rcases a with _ | ⟨d, a⟩
      · exact hne rfl
      · cases hcs'
        exact h3 _ hc rfl
    · intro cs' hc
      exact absurd hc h5
    · assumption
    · assumption

theorem readClassToken_close {o : Options} {cs rest : List Char}
    (h : readClassToken o cs = .ok (.close, rest)) : cs = ']' :: rest := by
  have hescape := h
  unfold readClassToken at h
  split at h
  · cases h
  · cases h
    rfl
  · cases h
  · cases h
  · split at h
    · obtain ⟨x, _, h⟩ := bind_eq_ok.mp h
      rcases x with _ | ⟨s, rest'⟩
      · cases h
      · cases h
    · cases h
  · cases h
  · obtain ⟨t, _, _, _, hne, _⟩ := readClassToken_escape hescape
    exact absurd rfl hne
  · cases h

theorem hasClose_append {t : List Char} (h : hasClose t = true) (e : List Char) :
    hasClose (t ++ e) = true := by
  fun_induction hasClose t with
  | case1 c t ih => exact ih h
  | case2 t => rfl
  | case3 c t hpair hclose ih =>
    refine keepsClose_single ?_ _ (ih h)
    intro he
    rcases t with _ | ⟨d, t⟩
    · cases h
    · exact hpair d t he rfl
  | case4 => cases h

theorem endsMembers_append {t : List Char} (h : hasClose t = true) (r e : List Char) :
    endsMembers (t ++ r) = endsMembers (t ++ e) := by
  rcases t with _ | ⟨c, t⟩
  · cases h
  · by_cases hc : c = ']'
    · subst hc
      rfl
    · by_cases hand : c = '&'
      · subst hand
        rcases t with _ | ⟨d, t⟩
        · cases h
        · by_cases hd : d = '&'
          · subst hd
            rfl
          · simp [endsMembers, hd]
      · simp [endsMembers, hc, hand]

/-! ## One part after the other -/

/-- What a part of a class does to the reading of its members. -/
inductive MembersStep where
  /-- The class ends. -/
  | stop (members : CharSet)
  /-- A class within the class is read first. -/
  | inner
  | next (parts : List CharSet) (acc : CharSet) (state : ClassState)

/-- The step of a part in front of the rest of the text. -/
def membersStep (parts : List CharSet) (acc : CharSet) (state : ClassState) (rest : List Char) :
    ClassToken → Except ReadError MembersStep
  | .close => .ok (.stop (parts.foldl .inter (state.settle acc)))
  | .both => .ok (.next (state.settle acc :: parts) .none .start)
  | .opening => .ok .inner
  | .set s =>
    match state with
    | .range _ => .error .classAtRangeEnd
    | _ => .ok (.next parts (.union (state.settle acc) s) .complete)
  | .char c => do
    let (acc, state) ← state.take acc c
    return .next parts acc state
  | .dash =>
    match state with
    | .value c =>
      if endsMembers rest then .ok (.next parts (state.settle acc) (.value '-'))
      else .ok (.next parts acc (.range c))
    | _ => do
      let (acc, state) ← state.take acc '-'
      return .next parts acc state

theorem readMembers_succ (o : Options) (fuel : Nat) (parts : List CharSet) (acc : CharSet)
    (state : ClassState) (cs : List Char) :
    readMembers o (fuel + 1) parts acc state cs = (do
      let (token, rest) ← readClassToken o cs
      match ← membersStep parts acc state rest token with
      | .stop members => return (members, rest)
      | .inner =>
        let (negated, inner, rest) ← readClass o fuel rest
        let inner := if negated then .compl inner else inner
        readMembers o fuel parts (.union (state.settle acc) inner) .complete rest
      | .next parts acc state => readMembers o fuel parts acc state rest) := by
  rw [readMembers]
  rcases readClassToken o cs with e | ⟨token, rest⟩
  · rfl
  cases token with
  | close | both | opening => rfl
  | set s =>
    cases state with
    | start | value c | range first | complete => rfl
  | char c =>
    simp only [ok_bind_eq, membersStep]
    rcases state.take acc c with e | ⟨acc', state'⟩
    · rfl
    · rfl
  | dash =>
    cases state with
    | value c =>
      simp only [ok_bind_eq, membersStep]
      split
      · rfl
      · rfl
    | range first =>
      simp only [ok_bind_eq, membersStep]
      rcases ClassState.take acc '-' (.range first) with e | ⟨acc', state'⟩
      · rfl
      · rfl
    | start | complete => rfl

variable {parts : List CharSet} {acc : CharSet} {state : ClassState}

/-- Behind a part, the step only looks as far as the closing bracket. -/
theorem membersStep_append {a : List Char} (ha : hasClose a = true) (r e : List Char)
    (token : ClassToken) :
    membersStep parts acc state (a ++ r) token = membersStep parts acc state (a ++ e) token := by
  cases token with
  | dash =>
    cases state with
    | value c => simp only [membersStep, endsMembers_append ha r e]
    | start | range first | complete => rfl
  | close | both | opening | set s | char c => rfl

/-- Only a closing bracket ends a class. -/
theorem membersStep_stop {rest : List Char} {token : ClassToken} {members : CharSet}
    (h : membersStep parts acc state rest token = .ok (.stop members)) : token = .close := by
  cases token with
  | close => rfl
  | both | opening => cases h
  | set s =>
    cases state with
    | start | value c | range first | complete => cases h
  | char c =>
    obtain ⟨r, _, hr⟩ := bind_eq_ok.mp h
    cases hr
  | dash =>
    cases state with
    | value c =>
      simp only [membersStep] at h
      split at h
      · cases h
      · cases h
    | start | range first | complete =>
      obtain ⟨r, _, hr⟩ := bind_eq_ok.mp h
      cases hr

/-- A class is read alike whatever stands behind its closing bracket. -/
def ClassLocal (fuel : Nat) : Prop :=
  ∀ {o : Options} {cs rest : List Char} {negated : Bool} {s : CharSet},
    readClass o fuel cs = .ok (negated, s, rest) →
      ∃ a, cs = a ++ rest ∧ hasClose a = true ∧
        ∀ e m, 2 * a.length + 1 ≤ m → readClass o m (a ++ e) = .ok (negated, s, e)

/-- The members of a class are. -/
def MembersLocal (fuel : Nat) : Prop :=
  ∀ {o : Options} {parts : List CharSet} {acc s : CharSet} {state : ClassState} {cs rest : List Char},
    readMembers o fuel parts acc state cs = .ok (s, rest) →
      ∃ a, cs = a ++ rest ∧ hasClose a = true ∧
        ∀ e m, 2 * a.length ≤ m → readMembers o m parts acc state (a ++ e) = .ok (s, e)

theorem membersLocal_succ {fuel : Nat} (hmembers : MembersLocal fuel) (hclass : ClassLocal fuel) :
    MembersLocal (fuel + 1) := by
  intro o parts acc s state cs rest h
  rw [readMembers_succ] at h
  obtain ⟨⟨token, rest'⟩, htoken, h⟩ := bind_eq_ok.mp h
  obtain ⟨step, hstep, h⟩ := bind_eq_ok.mp h
  -- One part of the class in front of more of them.
  have hmore : ∀ {a : List Char}, rest' = a ++ rest → hasClose a = true →
      ∃ t, cs = (t ++ a) ++ rest ∧ hasClose (t ++ a) = true ∧ ∀ e m, 2 * (t ++ a).length ≤ m →
        ∃ m', m = m' + 1 ∧ 2 * a.length + 1 ≤ m' ∧
          readClassToken o ((t ++ a) ++ e) = .ok (token, a ++ e) ∧
          membersStep parts acc state (a ++ e) token = .ok step := by
    intro a hrest ha
    subst hrest
    obtain ⟨t, hne, rfl, hclose, hread⟩ := readClassToken_local htoken ha
    refine ⟨t, by rw [List.append_assoc], hclose, ?_⟩
    intro e m hm
    have hpos := List.length_pos_iff.mpr hne
    rw [List.length_append] at hm
    rcases m with _ | m
    · omega
    · exact ⟨m, rfl, by omega, by rw [List.append_assoc, hread e],
        (membersStep_append ha e rest token).trans hstep⟩
  cases step with
  | stop members =>
    cases h
    obtain rfl := membersStep_stop hstep
    rw [readClassToken_close htoken]
    refine ⟨[']'], rfl, rfl, ?_⟩
    intro e m hm
    rcases m with _ | m
    · cases hm
    · cases hstep
      rw [List.singleton_append, readMembers_succ]
      rfl
  | inner =>
    obtain ⟨⟨negated, inner, rest₁⟩, hinner, hafter⟩ := bind_eq_ok.mp h
    obtain ⟨b, rfl, hb, hreadClass⟩ := hclass hinner
    obtain ⟨a, rfl, ha, hread⟩ := hmembers hafter
    obtain ⟨t, rfl, hclose, hagain⟩ := hmore (a := b ++ a) (by simp) (hasClose_append hb a)
    refine ⟨t ++ (b ++ a), rfl, hclose, ?_⟩
    intro e m hm
    obtain ⟨m', rfl, hm', htoken', hstep'⟩ := hagain e m hm
    rw [List.length_append] at hm'
    rw [readMembers_succ, htoken', ok_bind_eq]
    simp only [hstep', ok_bind_eq]
    rw [List.append_assoc, hreadClass (a ++ e) m' (by omega)]
    exact hread e m' (by omega)
  | next parts' acc' state' =>
    obtain ⟨a, rfl, ha, hread⟩ := hmembers h
    obtain ⟨t, rfl, hclose, hagain⟩ := hmore rfl ha
    refine ⟨t ++ a, rfl, hclose, ?_⟩
    intro e m hm
    obtain ⟨m', rfl, hm', htoken', hstep'⟩ := hagain e m hm
    rw [readMembers_succ, htoken', ok_bind_eq]
    simp only [hstep', ok_bind_eq]
    exact hread e m' (by omega)

theorem bind_negated (negated : Bool) (x : Except ReadError (CharSet × List Char)) :
    (do
      let (s, rest) ← x
      pure (negated, s, rest)) = x.map fun (s, rest) => (negated, s, rest) := by
  rcases x with e | ⟨s, rest⟩
  · rfl
  · rfl

/-- A class is its members behind the caret. A bracket that would close an empty
class stands for itself. -/
theorem readClass_succ {o : Options} {fuel : Nat} {cs body : List Char} {negated : Bool}
    (hcaret : (match cs with
      | '^' :: rest => (true, rest)
      | _ => (false, cs)) = (negated, body)) :
    readClass o (fuel + 1) cs = (match body with
      | ']' :: rest =>
        if hasClose rest then readMembers o fuel [] .none (.value ']') rest else .error .emptyClass
      | _ => readMembers o fuel [] .none .start body).map fun (s, rest) => (negated, s, rest) := by
  split at hcaret
  · cases hcaret
    split
    · rw [readClass, ← bind_negated]
      split
      · rfl
      · rfl
    · rw [readClass, ← bind_negated]
      assumption
  · cases hcaret
    split
    · rw [readClass, ← bind_negated]
      split
      · rfl
      · rfl
    · rw [readClass, ← bind_negated]
      · assumption
      · assumption

theorem classLocal_succ {fuel : Nat} (hmembers : MembersLocal fuel) : ClassLocal (fuel + 1) := by
  intro o cs rest negated s h
  rcases hcaret : (match cs with
      | '^' :: rest => (true, rest)
      | _ => (false, cs)) with ⟨negated', body⟩
  rw [readClass_succ hcaret] at h
  obtain ⟨⟨s', rest'⟩, hread, hresult⟩ := map_eq_ok.mp h
  cases hresult
  obtain ⟨t, rfl, hcarets, hbegin, hagain⟩ := caret_local hcaret
  have hclose : KeepsClose t := keepsClose_of_forall fun c hc => by rw [hcarets c hc]; decide
  -- The members decide where the class ends.
  have hbody : ∀ {b : List Char}, body = b ++ rest → hasClose b = true →
      (∀ e m, 2 * b.length ≤ m → (match b ++ e with
        | ']' :: rest =>
          if hasClose rest then readMembers o m [] .none (.value ']') rest else .error .emptyClass
        | _ => readMembers o m [] .none .start (b ++ e)) = .ok (s, e)) →
      ∃ a, t ++ body = a ++ rest ∧ hasClose a = true ∧
        ∀ e m, 2 * a.length + 1 ≤ m → readClass o m (a ++ e) = .ok (negated, s, e) := by
    intro b hb hbclose hstep
    subst hb
    refine ⟨t ++ b, by rw [List.append_assoc], hclose b hbclose, ?_⟩
    intro e m hm
    rcases m with _ | m
    · omega
    have hbegin' : t = [] → ∀ r, b ++ e ≠ '^' :: r := by
      intro ht r hr
      rcases b with _ | ⟨c, b⟩
      · cases hbclose
      · cases hr
        exact hbegin ht _ rfl
    rw [List.length_append] at hm
    rw [List.append_assoc, readClass_succ (hagain _ hbegin'), hstep e m (by omega)]
    rfl
  split at hread
  · rename_i rest₁
    split at hread
    · obtain ⟨a, rfl, ha, hagain'⟩ := hmembers hread
      refine hbody (b := ']' :: a) rfl rfl fun e m hm => ?_
      simp only [List.cons_append, hasClose_append ha, if_true]
      exact hagain' e m (by simp only [List.length_cons] at hm; omega)
    · cases hread
  · rename_i hfirst
    obtain ⟨a, rfl, ha, hagain'⟩ := hmembers hread
    refine hbody rfl ha fun e m hm => ?_
    split
    · rename_i r hr
      rcases a with _ | ⟨c, a⟩
      · cases ha
      · cases hr
        exact absurd rfl (hfirst _)
    · exact hagain' e m hm

theorem classLocal_and_membersLocal (fuel : Nat) : ClassLocal fuel ∧ MembersLocal fuel := by
  induction fuel with
  | zero =>
    constructor
    · intro o cs rest negated s h
      cases h
    · intro o parts acc s state cs rest h
      cases h
  | succ fuel ih => exact ⟨classLocal_succ ih.2, membersLocal_succ ih.2 ih.1⟩

theorem readClass_local {o : Options} {fuel : Nat} {cs rest : List Char} {negated : Bool}
    {s : CharSet} (h : readClass o fuel cs = .ok (negated, s, rest)) :
    ∃ a, cs = a ++ rest ∧ hasClose a = true ∧
      ∀ e m, 2 * a.length + 1 ≤ m → readClass o m (a ++ e) = .ok (negated, s, e) :=
  (classLocal_and_membersLocal fuel).1 h

/-! ## Options -/

/-- The parts are the same, or both are sets. -/
def ClassToken.SameKind (token token' : ClassToken) : Prop :=
  token = token' ∨ ∃ s s', token = .set s ∧ token' = .set s'

theorem letterClass?_eq_none {o o' : Options} {w w' : CharSet} {c : Char}
    (h : letterClass? o w c = none) : letterClass? o' w' c = none := by
  unfold letterClass? at h ⊢
  split at h
  all_goals cases h
  rfl

theorem readBracket_options {o : Options} {cs : List Char} {x : Option (CharSet × List Char)}
    (h : readBracket o cs = .ok x) (o' : Options) :
    ∃ x', readBracket o' cs = .ok x' ∧ x'.map (·.2) = x.map (·.2) := by
  unfold readBracket at h ⊢
  split at h
  split at h
  · split at h
    · cases h
      exact ⟨_, rfl, rfl⟩
    · cases h
  · simp only at h ⊢
    split at h
    · cases h
    · cases h
      exact ⟨none, rfl, rfl⟩

/-- The options do not decide where a part of a class ends. -/
theorem readClassToken_options {o : Options} {cs rest : List Char} {token : ClassToken}
    (h : readClassToken o cs = .ok (token, rest)) (o' : Options) :
    ∃ token', readClassToken o' cs = .ok (token', rest) ∧ token.SameKind token' := by
  unfold readClassToken at h ⊢
  split at h
  · cases h
  · cases h
    exact ⟨_, rfl, .inl rfl⟩
  · cases h
    exact ⟨_, rfl, .inl rfl⟩
  · cases h
    exact ⟨_, rfl, .inl rfl⟩
  · split at h
    · rename_i hcloses
      obtain ⟨x, hx, hresult⟩ := bind_eq_ok.mp h
      obtain ⟨x', hx', hsame⟩ := readBracket_options hx o'
      simp only [hcloses, if_true, hx', ok_bind_eq]
      rcases x with _ | ⟨s, r⟩
      · rcases x' with _ | ⟨s', r'⟩
        · cases hresult
          exact ⟨_, rfl, .inl rfl⟩
        · cases hsame
      · rcases x' with _ | ⟨s', r'⟩
        · cases hsame
        · cases hsame
          cases hresult
          exact ⟨_, rfl, .inr ⟨s, s', rfl, rfl⟩⟩
    · rename_i hcloses
      cases h
      simp only [hcloses, if_false, Bool.false_eq_true]
      exact ⟨_, rfl, .inl rfl⟩
  · cases h
    exact ⟨_, rfl, .inl rfl⟩
  · rename_i cs
    rcases cs with _ | ⟨c, cs⟩
    · cases h
    simp only at h ⊢
    rcases hletter : letterClass? o o.word c with _ | s
    · rw [letterClass?_eq_none hletter]
      rw [hletter] at h
      exact ⟨token, h, .inl rfl⟩
    · rcases hletter' : letterClass? o' o'.word c with _ | s'
      · rw [letterClass?_eq_none hletter'] at hletter
        cases hletter
      · rw [hletter] at h
        cases h
        exact ⟨_, rfl, .inr ⟨s, s', rfl, rfl⟩⟩
  · cases h
    exact ⟨_, rfl, .inl rfl⟩

theorem ClassState.take_options {acc acc₁ : CharSet} {state state₁ : ClassState} {c : Char}
    (h : state.take acc c = .ok (acc₁, state₁)) (acc' : CharSet) :
    ∃ acc₁', state.take acc' c = .ok (acc₁', state₁) := by
  cases state with
  | range first =>
    simp only [ClassState.take] at h ⊢
    split at h
    · cases h
    · rename_i hc
      cases h
      exact ⟨_, by rw [if_neg hc]⟩
  | start | value d | complete =>
    cases h
    exact ⟨_, rfl⟩

/-- The steps go on in the same way. -/
inductive MembersStep.SameKind : MembersStep → MembersStep → Prop where
  | stop (members members' : CharSet) : SameKind (.stop members) (.stop members')
  | inner : SameKind .inner .inner
  | next (parts parts' : List CharSet) (acc acc' : CharSet) (state : ClassState) :
    SameKind (.next parts acc state) (.next parts' acc' state)

/-- The sets read so far do not decide how the reading goes on. -/
theorem membersStep_options {rest : List Char} {token token' : ClassToken} {step : MembersStep}
    (h : membersStep parts acc state rest token = .ok step) (hkind : token.SameKind token')
    (parts' : List CharSet) (acc' : CharSet) :
    ∃ step', membersStep parts' acc' state rest token' = .ok step' ∧ step.SameKind step' := by
  have hset : ∀ s s', membersStep parts acc state rest (.set s) = .ok step →
      ∃ step', membersStep parts' acc' state rest (.set s') = .ok step' ∧ step.SameKind step' := by
    intro s s' h
    cases state with
    | range first => cases h
    | start | value c | complete =>
      cases h
      exact ⟨_, rfl, .next ..⟩
  have htake : ∀ c, (do
        let (acc, state) ← state.take acc c
        return MembersStep.next parts acc state) = .ok step →
      ∃ step', (do
        let (acc, state) ← state.take acc' c
        return MembersStep.next parts' acc state) = .ok step' ∧ step.SameKind step' := by
    intro c h
    obtain ⟨⟨acc₁, state₁⟩, htaken, h⟩ := bind_eq_ok.mp h
    cases h
    obtain ⟨acc₁', htaken'⟩ := ClassState.take_options htaken acc'
    rw [htaken']
    exact ⟨_, rfl, .next ..⟩
  rcases hkind with rfl | ⟨s, s', rfl, rfl⟩
  · cases token with
    | close =>
      cases h
      exact ⟨_, rfl, .stop ..⟩
    | both =>
      cases h
      exact ⟨_, rfl, .next ..⟩
    | opening =>
      cases h
      exact ⟨_, rfl, .inner⟩
    | char c => exact htake c h
    | set s => exact hset s s h
    | dash =>
      cases state with
      | value c =>
        simp only [membersStep] at h ⊢
        split at h
        · rename_i hends
          cases h
          exact ⟨_, by rw [if_pos hends], .next ..⟩
        · rename_i hends
          cases h
          exact ⟨_, by rw [if_neg hends], .next ..⟩
      | start | range first | complete => exact htake '-' h
  · exact hset s s' h

/-- Nor where a class ends. -/
theorem readClass_readMembers_options (fuel : Nat) (o' : Options) :
    (∀ {o : Options} {cs rest : List Char} {negated : Bool} {s : CharSet},
      readClass o fuel cs = .ok (negated, s, rest) →
        ∃ s', readClass o' fuel cs = .ok (negated, s', rest)) ∧
    (∀ {o : Options} {parts : List CharSet} {acc s : CharSet} {state : ClassState}
      {cs rest : List Char}, readMembers o fuel parts acc state cs = .ok (s, rest) →
        ∀ parts' acc', ∃ s', readMembers o' fuel parts' acc' state cs = .ok (s', rest)) := by
  induction fuel with
  | zero =>
    constructor
    · intro o cs rest negated s h
      cases h
    · intro o parts acc s state cs rest h
      cases h
  | succ fuel ih =>
    obtain ⟨hclass, hmembers⟩ := ih
    constructor
    · intro o cs rest negated s h
      rcases hcaret : (match cs with
          | '^' :: rest => (true, rest)
          | _ => (false, cs)) with ⟨negated', body⟩
      rw [readClass_succ hcaret] at h ⊢
      obtain ⟨⟨s₁, rest₁⟩, hread, hresult⟩ := map_eq_ok.mp h
      cases hresult
      split at hread
      · split at hread
        · rename_i hclose
          obtain ⟨s', hs'⟩ := hmembers hread [] .none
          simp only [hclose, if_true, hs']
          exact ⟨s', rfl⟩
        · cases hread
      · obtain ⟨s', hs'⟩ := hmembers hread [] .none
        simp only [hs']
        exact ⟨s', rfl⟩
    · intro o parts acc s state cs rest h parts' acc'
      rw [readMembers_succ] at h ⊢
      obtain ⟨⟨token, rest₁⟩, htoken, h⟩ := bind_eq_ok.mp h
      obtain ⟨step, hstep, h⟩ := bind_eq_ok.mp h
      obtain ⟨token', htoken', hkind⟩ := readClassToken_options htoken o'
      obtain ⟨step', hstep', hkind'⟩ := membersStep_options hstep hkind parts' acc'
      rw [htoken', ok_bind_eq]
      simp only [hstep', ok_bind_eq]
      cases hkind' with
      | stop members members' =>
        cases h
        exact ⟨members', rfl⟩
      | inner =>
        obtain ⟨⟨negated, inner, rest₂⟩, hinner, hmore⟩ := bind_eq_ok.mp h
        obtain ⟨inner', hinner'⟩ := hclass hinner
        simp only [hinner', ok_bind_eq]
        exact hmembers hmore _ _
      | next => exact hmembers h _ _

end Highlighting.Regex
