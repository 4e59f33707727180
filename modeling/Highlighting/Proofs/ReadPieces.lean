-- Reading the pieces of a pattern that hold no others: escapes that refer to no
-- group, comments and repetitions. They are read alike in two texts that go on
-- alike behind them.
import Highlighting.Regex.Reader
import Highlighting.Proofs.GroupNumbers
import Highlighting.Proofs.ReadClasses

namespace Highlighting.Regex

/-! ## Pieces without groups -/

/-- The expression has nothing to do with groups. -/
def Free (r : Regex) : Prop := (∀ off, r.shift off = r) ∧ ∀ lo hi, r.Tame lo hi

/-- The part has nothing to do with groups. -/
def Part.Free : Part → Prop
  | char _ => True
  | node r => r.Free

/-! ## Escapes -/

/-- The escape neither refers to a group nor moves the start of the match. -/
def isQuiet : List Char → Bool
  | [] => true
  | c :: rest =>
    c != 'K' && !('1' ≤ c && c ≤ '9') &&
      !((c = 'k' || c = 'g') && (rest.head? = some '<' || rest.head? = some '\''))

theorem Alike.refl (e : List Char) : Alike e e := ⟨.inl rfl, fun r hr => ⟨r, hr, .inl rfl⟩⟩

/-- An escape takes a text off, and does so again in front of another text and
under other options. -/
def TakesPart (o : Options) (cs : List Char) (part : Part) (rest : List Char) : Prop :=
  ∃ t, t ≠ [] ∧ cs = t ++ rest ∧ part.Free ∧ ∀ cur' o', ∃ part', (o' = o → part' = part) ∧
    ∀ e, Alike rest e → readEscape cur' o' (t ++ e) = .ok (part', { cur' with rest := e })

theorem takesPart_letter {c : Char} {f : Options → Regex} (hfree : ∀ o, (f o).Free)
    (hread : ∀ cur o rest, readEscape cur o (c :: rest) = .ok (.node (f o), { cur with rest := rest }))
    (o : Options) (cs : List Char) : TakesPart o (c :: cs) (.node (f o)) cs := by
  refine ⟨[c], by simp, rfl, hfree o, ?_⟩
  intro cur' o'
  refine ⟨.node (f o'), fun he => by rw [he], ?_⟩
  intro e _
  exact hread cur' o' e

/-- The letters of references stand for themselves without a name behind them. -/
theorem takesPart_reference {c : Char} (hc : c = 'k' ∨ c = 'g') {o : Options} {cs : List Char}
    (hcs : cs.head? ≠ some '<' ∧ cs.head? ≠ some '\'') : TakesPart o (c :: cs) (.char c) cs := by
  have hread : ∀ cur o rest, rest.head? ≠ some '<' → rest.head? ≠ some '\'' →
      readEscape cur o (c :: rest) = .ok (.char c, { cur with rest := rest }) := by
    intro cur o rest h1 h2
    rcases hc with rfl | rfl
    all_goals
      rcases rest with _ | ⟨d, rest⟩
      · rfl
      · simp only [List.head?_cons, ne_eq, Option.some.injEq] at h1 h2
        unfold readEscape
        simp [letterClass?, h1, h2]
  refine ⟨[c], by simp, rfl, trivial, ?_⟩
  intro cur' o'
  refine ⟨.char c, fun _ => rfl, ?_⟩
  intro e he
  refine hread cur' o' e ?_ ?_
  · exact fun h => hcs.1 ((he.head.head_eq (by decide)).mpr h)
  · exact fun h => hcs.2 ((he.head.head_eq (by decide)).mpr h)

/-- A zero starts the code of a character. -/
theorem readEscape_zero (cur : Cursor) (o : Options) (cs : List Char) :
    readEscape cur o ('0' :: cs) = (match readDigits 8 3 ('0' :: cs) 0 0 with
      | (_, value, rest) => if 0xff < value then .error .numberTooBig
        else (readByte value rest).map fun (c, rest) => (.char c, { cur with rest := rest })) := by
  have hescape : readEscape cur o ('0' :: cs) = readNumberEscape cur o ('0' :: cs) := rfl
  rw [hescape, readNumberEscape.eq_def]
  simp only [List.head?_cons, bne_self_eq_false, Bool.and_false, Bool.false_and,
    Bool.false_eq_true, if_false]
  rcases readDigits 8 3 ('0' :: cs) 0 0 with ⟨k, v, rest⟩
  by_cases hv : 255 < v
  · simp only [hv, if_true]
    rfl
  · simp only [hv, if_false]
    rcases readByte v rest with _ | ⟨c, rest'⟩
    · rfl
    · rfl

theorem takesPart_zero {cur cur₁ : Cursor} {o : Options} {cs : List Char} {part : Part}
    (h : readEscape cur o ('0' :: cs) = .ok (part, cur₁)) :
    TakesPart o ('0' :: cs) part cur₁.rest := by
  rw [readEscape_zero] at h
  rcases hd : readDigits 8 3 ('0' :: cs) 0 0 with ⟨k, v, r⟩
  simp only [hd] at h
  obtain ⟨t, rfl, _, hread⟩ := readDigits_first (digitValue?_octal (by decide)) hd
  split at h
  · cases h
  · rename_i hvalue
    obtain ⟨⟨d, rest'⟩, hbyte, hresult⟩ := map_eq_ok.mp h
    cases hresult
    obtain ⟨t', rfl, _, hbyte'⟩ := readByte_local hbyte
    refine ⟨'0' :: (t ++ t'), by simp, by simp, trivial, ?_⟩
    intro cur' o'
    refine ⟨.char d, fun _ => rfl, ?_⟩
    intro e he
    have hagain := hread (t' ++ e) (by
      rcases t' with _ | ⟨x, t'⟩
      · exact he.head
      · exact .inl rfl)
    rw [List.cons_append, List.append_assoc, readEscape_zero]
    simp only [hagain, hvalue, if_false, hbyte' e]
    rfl

/-- The escapes that stand for themselves, for a property or for one character. -/
theorem readEscape_other {c : Char} {o : Options} (hletter : letterClass? o o.wordPart c = none)
    (hc : c ∉ ['b', 'B', 'A', 'Z', 'z', 'G', 'K', 'R', 'X', 'y', 'Y', 'k', 'g']) (hdigit : c.isDigit = false)
    (cur : Cursor) (rest : List Char) :
    readEscape cur o (c :: rest) = if (c = 'p' || c = 'P') && rest.head? = some '\x7b' then
        (readProperty rest.tail).map fun (negated, p, rest) =>
          (.node (.set (.ofProperty p (negated != (c = 'P')))), { cur with rest := rest })
      else (readCharEscape (c :: rest).length (c :: rest)).map fun (d, rest) =>
        (.char d, { cur with rest := rest }) := by
  simp only [List.mem_cons, List.not_mem_nil, or_false, not_or] at hc
  obtain ⟨h1, h2, h3, h4, h5, h6, h7, h8, h9, h10, h11, h12, h13⟩ := hc
  unfold readEscape
  simp only [hletter]
  split
  · rcases readProperty rest.tail with _ | ⟨negated, p, rest'⟩
    · rfl
    · rfl
  · simp only [hdigit, Bool.false_eq_true, if_false]
    rcases readCharEscape (c :: rest).length (c :: rest) with _ | ⟨d, rest'⟩
    · rfl
    · rfl

theorem takesPart_other {c : Char} {cur cur₁ : Cursor} {o : Options} {cs : List Char} {part : Part}
    (hletter : letterClass? o o.wordPart c = none)
    (hc : c ∉ ['b', 'B', 'A', 'Z', 'z', 'G', 'K', 'R', 'X', 'y', 'Y', 'k', 'g']) (hdigit : c.isDigit = false)
    (h : readEscape cur o (c :: cs) = .ok (part, cur₁)) : TakesPart o (c :: cs) part cur₁.rest := by
  have hletters : ∀ o' : Options, letterClass? o' o'.wordPart c = none :=
    fun o' => letterClass?_eq_none hletter
  have hread := fun o' => readEscape_other (hletters o') hc hdigit
  rw [hread] at h
  split at h
  · rename_i hprop
    obtain ⟨⟨negated, p, rest⟩, hp, hresult⟩ := map_eq_ok.mp h
    cases hresult
    rcases cs with _ | ⟨x, cs⟩
    · simp at hprop
    simp only [List.head?_cons, Option.some.injEq, Bool.and_eq_true, decide_eq_true_eq] at hprop
    obtain ⟨hp', rfl⟩ := hprop
    obtain ⟨t, hcs, hagain⟩ := readProperty_local hp
    simp only [List.tail_cons] at hcs
    subst hcs
    refine ⟨c :: '\x7b' :: (t ++ ['\x7d']), by simp, by simp, ?_, ?_⟩
    · exact ⟨fun _ => rfl, fun _ _ => trivial⟩
    · intro cur' o'
      refine ⟨_, fun _ => rfl, ?_⟩
      intro e _
      simp only [List.cons_append, List.append_assoc, List.nil_append, hread, List.head?_cons, hp',
        decide_true, Bool.true_and, if_true, List.tail_cons, hagain e]
      rfl
  · rename_i hprop
    obtain ⟨⟨d, rest⟩, hd, hresult⟩ := map_eq_ok.mp h
    cases hresult
    obtain ⟨t, hne, hcs, _, hagain⟩ := readCharEscape_local hd (Nat.le_refl _)
    rcases t with _ | ⟨c', t⟩
    · exact absurd rfl hne
    cases hcs
    refine ⟨c :: t, hne, rfl, trivial, ?_⟩
    intro cur' o'
    refine ⟨.char d, fun _ => rfl, ?_⟩
    intro e he
    have hprop' : ¬(((c = 'p' || c = 'P') && (t ++ e).head? = some '\x7b') = true) := by
      simp only [Bool.and_eq_true, decide_eq_true_eq] at hprop ⊢
      rw [← he.head?_append (c := '\x7b') (by decide)]
      exact hprop
    simp only [List.cons_append, hread, hprop', if_false, Bool.false_eq_true]
    rw [← List.cons_append, hagain e _ he (by simp)]
    rfl

theorem eq_zero_of_isDigit {c : Char} (hdigit : c.isDigit = true)
    (h : ('1' ≤ c && c ≤ '9') = false) : c = '0' := by
  simp only [Char.isDigit, Bool.and_eq_true, decide_eq_true_eq, UInt32.le_iff_toNat_le] at hdigit
  simp only [Bool.and_eq_false_iff, decide_eq_false_iff_not, Char.le_def,
    UInt32.le_iff_toNat_le] at h
  have h1 : 48 ≤ c.val.toNat := hdigit.1
  have h2 : c.val.toNat ≤ 57 := hdigit.2
  have h3 : ¬49 ≤ c.val.toNat ∨ ¬c.val.toNat ≤ 57 := h
  have hval : c.val.toNat = 48 := by omega
  exact Char.ext (UInt32.toNat.inj hval)

/-- An escape that refers to no group is read alike. -/
theorem readEscape_local {cur cur₁ : Cursor} {o : Options} {cs : List Char} {part : Part}
    (hquiet : isQuiet cs = true) (h : readEscape cur o cs = .ok (part, cur₁)) :
    TakesPart o cs part cur₁.rest := by
  rcases cs with _ | ⟨c, cs⟩
  · cases h
  simp only [isQuiet, Bool.and_eq_true, bne_iff_ne, ne_eq, Bool.not_eq_true'] at hquiet
  obtain ⟨⟨hkeep, hnumber⟩, hname⟩ := hquiet
  have hfree : ∀ a : Anchor, (Regex.anchor a).Free := fun a => ⟨fun _ => rfl, fun _ _ => trivial⟩
  -- A letter with a meaning of its own.
  have hmeans : ∀ {f : Options → Regex}, (∀ o, (f o).Free) →
      (∀ cur o rest, readEscape cur o (c :: rest) = .ok (.node (f o), { cur with rest := rest })) →
      TakesPart o (c :: cs) part cur₁.rest := by
    intro f hf hread
    rw [hread] at h
    cases h
    exact takesPart_letter hf hread o cs
  rcases hletter : letterClass? o o.wordPart c with _ | s
  · by_cases hc : c ∈ ['b', 'B', 'A', 'Z', 'z', 'G', 'K', 'R', 'X', 'y', 'Y', 'k', 'g']
    · simp only [List.mem_cons, List.not_mem_nil, or_false] at hc
      rcases hc with rfl | rfl | rfl | rfl | rfl | rfl | rfl | rfl | rfl | rfl | rfl | hc
      · exact hmeans (fun o => hfree (.wordEdge o.wordPart)) fun _ _ _ => rfl
      · exact hmeans (fun o => hfree (.notWordEdge o.wordPart)) fun _ _ _ => rfl
      · exact hmeans (fun _ => hfree .textStart) fun _ _ _ => rfl
      · exact hmeans (fun _ => hfree .lastLineEnd) fun _ _ _ => rfl
      · exact hmeans (fun _ => hfree .textEnd) fun _ _ _ => rfl
      · exact hmeans (fun _ => hfree .searchStart) fun _ _ _ => rfl
      · exact absurd rfl hkeep
      · refine hmeans (f := fun _ => anyLineEnd) (fun _ => ⟨fun _ => rfl, fun _ _ => ?_⟩) fun _ _ _ => rfl
        simp [anyLineEnd, Tame]
      · refine hmeans (f := fun _ => textUnit) (fun _ => ⟨fun _ => rfl, fun _ _ => ?_⟩) fun _ _ _ => rfl
        simp [textUnit, Tame]
      · exact hmeans (fun _ => hfree .segmentEdge) fun _ _ _ => rfl
      · exact hmeans (fun _ => hfree .notSegmentEdge) fun _ _ _ => rfl
      · have hcs : cs.head? ≠ some '<' ∧ cs.head? ≠ some '\'' := by
          simp only [Bool.and_eq_false_iff, Bool.or_eq_false_iff, decide_eq_false_iff_not] at hname
          rcases hname with ⟨h1, h2⟩ | hname
          · rcases hc with hc | hc
            · exact absurd hc h1
            · exact absurd hc h2
          · exact hname
        have htakes := takesPart_reference hc (o := o) hcs
        obtain ⟨t, _, ht, _, hagain⟩ := htakes
        obtain ⟨part', hpart, hread⟩ := hagain cur o
        have := hread cs (Alike.refl cs)
        rw [← ht, h] at this
        cases this
        rw [hpart rfl]
        exact takesPart_reference hc hcs
    · rcases hdigit : c.isDigit with _ | _
      · exact takesPart_other hletter hc hdigit h
      · have hzero := eq_zero_of_isDigit hdigit hnumber
        subst hzero
        exact takesPart_zero h
  · refine hmeans (f := fun o => .set ((letterClass? o o.wordPart c).getD .none))
      (fun _ => ⟨fun _ => rfl, fun _ _ => trivial⟩) ?_
    intro cur' o' rest
    rcases hletter' : letterClass? o' o'.wordPart c with _ | s'
    · rw [letterClass?_eq_none hletter'] at hletter
      cases hletter
    · unfold readEscape
      simp only [hletter']
      rfl

/-! ## Comments -/

theorem afterComment_local {cs rest : List Char} (h : afterComment cs = some rest) :
    ∃ t, cs = t ++ rest ∧ ∀ e, afterComment (t ++ e) = some e := by
  fun_induction afterComment cs with
  | case1 => cases h
  | case2 c cs ih =>
    obtain ⟨t, rfl, hread⟩ := ih h
    exact ⟨'\\' :: c :: t, rfl, fun e => hread e⟩
  | case3 cs =>
    cases h
    exact ⟨[')'], rfl, fun e => rfl⟩
  | case4 c cs hescape hclose ih =>
    obtain ⟨t, rfl, hread⟩ := ih h
    refine ⟨c :: t, rfl, fun e => ?_⟩
    rw [List.cons_append, afterComment]
    · exact hread e
    · intro d cs' hc hcs'
      subst hc
      rcases t with _ | ⟨x, t⟩
      · rcases rest with _ | ⟨x, rest⟩
        · cases h
        · exact hescape x rest rfl rfl
      · exact hescape x (t ++ rest) rfl rfl
    · exact hclose

/-! ## Texts side by side -/

/-- The texts are the same up to a backslash, or to the end of the first one where
a pattern may end in the second. -/
inductive Beside : List Char → List Char → Prop where
  | ended {r : List Char} (h : EndsPattern r) : Beside [] r
  | escaped (r r' : List Char) : Beside ('\\' :: r) ('\\' :: r')
  | same (c : Char) {r r' : List Char} : Beside r r' → Beside (c :: r) (c :: r')

theorem Beside.append (t : List Char) {r r' : List Char} (h : Beside r r') :
    Beside (t ++ r) (t ++ r') := by
  induction t with
  | nil => exact h
  | cons c t ih => exact .same c ih

theorem Beside.headAlike {r r' : List Char} (h : Beside r r') : HeadAlike r r' := by
  cases h with
  | ended h => exact .inr ⟨rfl, h⟩
  | escaped r r' => exact .inl rfl
  | same c h => exact .inl rfl

theorem Beside.alike {r r' : List Char} (h : Beside r r') : Alike r r' := by
  refine ⟨h.headAlike, ?_⟩
  intro x hx
  cases h with
  | ended _ => cases hx
  | escaped r r' => cases hx
  | same c h =>
    cases hx
    exact ⟨_, rfl, h.headAlike⟩

/-- What comes before a backslash is the same text in both. -/
theorem Beside.split {t r cs : List Char} (ht : '\\' ∉ t) (h : Beside (t ++ r) cs) :
    ∃ r', cs = t ++ r' ∧ Beside r r' := by
  induction t generalizing cs with
  | nil => exact ⟨cs, rfl, h⟩
  | cons c t ih =>
    cases h with
    | escaped _ _ => exact absurd List.mem_cons_self ht
    | same _ h =>
      obtain ⟨r', rfl, hr'⟩ := ih (fun hc => ht (List.mem_cons_of_mem _ hc)) h
      exact ⟨r', rfl, hr'⟩

/-! ## Repetitions -/

/-- The character stands for no group, class or escape. -/
def isOrdinary (c : Char) : Bool := c != '(' && c != '[' && c != '\\'

/-- What was read in two texts side by side is the same, and behind it they are
side by side again. -/
def QuantifiersAlike (cs cs' : List Char) (x : Option (Quantifier × List Char))
    (x' : Except ReadError (Option (Quantifier × List Char))) : Prop :=
  match x with
  | none => x' = .ok none
  | some (q, rest) => ∃ t rest', t ≠ [] ∧ cs = t ++ rest ∧ cs' = t ++ rest' ∧
      (∀ c ∈ t, isOrdinary c = true) ∧ Beside rest rest' ∧ x' = .ok (some (q, rest'))

theorem readDigits_beside {base k v : Nat} {cs cs' rest : List Char} (hbeside : Beside cs cs')
    (h : readDigits base cs.length cs 0 0 = (k, v, rest)) :
    ∃ t rest', cs = t ++ rest ∧ cs' = t ++ rest' ∧ (∀ c ∈ t, isOrdinary c = true) ∧
      Beside rest rest' ∧ readDigits base cs'.length cs' 0 0 = (k, v, rest') := by
  obtain ⟨t, rfl, _, hdigits, hread⟩ := readDigits_local h
  have hne : ∀ {d : Char}, digitValue? base d = none → d ∉ t := fun hd hmem =>
    digitValue?_ne (hdigits _ hmem) hd rfl
  obtain ⟨rest', rfl, hrest⟩ := hbeside.split (hne rfl)
  refine ⟨t, rest', rfl, rfl, ?_, hrest, ?_⟩
  · intro c hc
    simp only [isOrdinary, Bool.and_eq_true, bne_iff_ne, ne_eq]
    refine ⟨⟨?_, ?_⟩, ?_⟩
    · exact digitValue?_ne (hdigits c hc) rfl
    · exact digitValue?_ne (hdigits c hc) rfl
    · exact digitValue?_ne (hdigits c hc) rfl
  · exact hread rest' _ (.inr ⟨hrest.headAlike, .inr ⟨Nat.le_refl _, by simp⟩⟩)

/-- Both texts start with the character or neither does, unless the second one goes on
with it where the first one ends. -/
theorem Beside.first_or_neither {r r' : List Char} (h : Beside r r') {c : Char}
    (hend : r = [] → ∀ s', r' ≠ c :: s') (hc' : c ≠ '\\') :
    (∃ s s', r = c :: s ∧ r' = c :: s' ∧ Beside s s') ∨
      (∀ s, r ≠ c :: s) ∧ ∀ s', r' ≠ c :: s' := by
  cases h with
  | ended h => exact .inr ⟨(by simp), hend rfl⟩
  | escaped r r' =>
    refine .inr ⟨fun s he => ?_, fun s' he => ?_⟩
    · cases he
      exact hc' rfl
    · cases he
      exact hc' rfl
  | same d h =>
    by_cases hd : d = c
    · subst hd
      exact .inl ⟨_, _, rfl, rfl, h⟩
    · refine .inr ⟨fun s he => ?_, fun s' he => ?_⟩
      · cases he
        exact hd rfl
      · cases he
        exact hd rfl

/-- A character that ends no pattern starts both texts or neither. -/
theorem Beside.first {r r' : List Char} (h : Beside r r') {c : Char} (hc : c ≠ '|' ∧ c ≠ ')')
    (hc' : c ≠ '\\') :
    (∃ s s', r = c :: s ∧ r' = c :: s' ∧ Beside s s') ∨
      (∀ s, r ≠ c :: s) ∧ ∀ s', r' ≠ c :: s' := by
  refine h.first_or_neither ?_ hc'
  rintro rfl s'
  exact h.headAlike.nil.ne hc

/-- Ordinary text may stand in front of both. -/
theorem QuantifiersAlike.behind {t cs cs' : List Char} {x : Option (Quantifier × List Char)}
    {x' : Except ReadError (Option (Quantifier × List Char))} (h : QuantifiersAlike cs cs' x x')
    (ht : ∀ c ∈ t, isOrdinary c = true) : QuantifiersAlike (t ++ cs) (t ++ cs') x x' := by
  rcases x with _ | ⟨q, rest⟩
  · exact h
  · obtain ⟨u, rest', hu, rfl, rfl, hordinary, hrest, rfl⟩ := h
    refine ⟨t ++ u, rest', by simp [hu], by simp, by simp, ?_, hrest, rfl⟩
    intro c hc
    rcases List.mem_append.mp hc with hc | hc
    · exact ht c hc
    · exact hordinary c hc

theorem forall_cons_ordinary {c : Char} {t : List Char} (hc : isOrdinary c = true)
    (ht : ∀ d ∈ t, isOrdinary d = true) : ∀ d ∈ c :: t, isOrdinary d = true := by
  intro d hd
  rcases List.mem_cons.mp hd with rfl | hd
  · exact hc
  · exact ht d hd

/-- A question mark behind the braces makes the repetition lazy. -/
def readLazy (cs : List Char) : Bool × List Char :=
  match cs with
  | '?' :: rest => (true, rest)
  | _ => (false, cs)

/-- The repetition between two bounds, in front of the text behind its brace. -/
def betweenBounds (lowCount low highCount high : Nat) (cs : List Char) :
    Option (Quantifier × List Char) :=
  let (lazy, rest) := readLazy cs
  let manner := if lazy then Manner.lazy else .greedy
  if highCount = 0 then
    if lowCount = 0 then none else some (⟨low, none, manner⟩, rest)
  else if high < low then some (⟨high, some low, .possessive⟩, cs)
  else some (⟨low, some high, manner⟩, rest)

theorem readInterval_bounds {cs r s : List Char} {lowCount low highCount high : Nat}
    (hlow : readDigits 10 cs.length cs 0 0 = (lowCount, low, ',' :: r)) (hlow' : ¬maxRounds < low)
    (hhigh : readDigits 10 r.length r 0 0 = (highCount, high, '\x7d' :: s))
    (hhigh' : ¬maxRounds < high) :
    readInterval cs = .ok (betweenBounds lowCount low highCount high s) := by
  unfold readInterval betweenBounds
  simp only [hlow, hlow', hhigh, hhigh', if_false]
  split
  · split
    · rfl
    · rfl
  · split
    · rfl
    · rfl

theorem readLazy_beside {s s' : List Char} (h : Beside s s') :
    ∃ b t v v', s = t ++ v ∧ s' = t ++ v' ∧ (∀ c ∈ t, isOrdinary c = true) ∧ Beside v v' ∧
      readLazy s = (b, v) ∧ readLazy s' = (b, v') := by
  rcases h.first (c := '?') (by decide) (by decide) with ⟨r, r', rfl, rfl, hr⟩ | ⟨hlazy, hlazy'⟩
  · exact ⟨true, ['?'], r, r', rfl, rfl, by simp [isOrdinary], hr, rfl, rfl⟩
  · refine ⟨false, [], s, s', rfl, rfl, by simp, h, ?_, ?_⟩
    · unfold readLazy
      split
      · exact absurd rfl (hlazy _)
      · rfl
    · unfold readLazy
      split
      · exact absurd rfl (hlazy' _)
      · rfl

/-- A brace closes the bounds in both texts. -/
theorem betweenBounds_beside (lowCount low highCount high : Nat) {s s' : List Char}
    (h : Beside s s') :
    QuantifiersAlike ('\x7d' :: s) ('\x7d' :: s') (betweenBounds lowCount low highCount high s)
      (.ok (betweenBounds lowCount low highCount high s')) := by
  obtain ⟨b, t, v, v', rfl, rfl, ht, hv, hlazy, hlazy'⟩ := readLazy_beside h
  unfold betweenBounds
  simp only [hlazy, hlazy']
  have hclose : isOrdinary '\x7d' = true := rfl
  have hfound : ∀ q : Quantifier, QuantifiersAlike ('\x7d' :: (t ++ v)) ('\x7d' :: (t ++ v'))
      (some (q, v)) (.ok (some (q, v'))) := fun q =>
    ⟨'\x7d' :: t, v', by simp, rfl, rfl, forall_cons_ordinary hclose ht, hv, rfl⟩
  split
  · split
    · rfl
    · exact hfound _
  · split
    · exact ⟨['\x7d'], t ++ v', by simp, rfl, rfl, forall_cons_ordinary hclose (by simp), h, rfl⟩
    · exact hfound _

theorem readInterval_beside {cs cs' : List Char} {x : Option (Quantifier × List Char)}
    (hbeside : Beside cs cs') (h : readInterval cs = .ok x) :
    QuantifiersAlike cs cs' x (readInterval cs') := by
  rcases hd : readDigits 10 cs.length cs 0 0 with ⟨lowCount, low, rest⟩
  obtain ⟨t, rest', rfl, rfl, ht, hrest, hd'⟩ := readDigits_beside hbeside hd
  have hlow : ¬maxRounds < low := by
    intro hlow
    unfold readInterval at h
    simp only [hd, hlow, if_true] at h
    cases h
  rcases hrest.first (c := ',') (by decide) (by decide) with ⟨r, r', rfl, rfl, hr⟩ | ⟨hcomma, hcomma'⟩
  · rcases hd₂ : readDigits 10 r.length r 0 0 with ⟨highCount, high, rest₂⟩
    obtain ⟨t₂, rest₂', rfl, rfl, ht₂, hrest₂, hd₂'⟩ := readDigits_beside hr hd₂
    have hhigh : ¬maxRounds < high := by
      intro hhigh
      unfold readInterval at h
      simp only [hd, hlow, hd₂, hhigh, if_true, if_false] at h
      cases h
    rcases hrest₂.first (c := '\x7d') (by decide) (by decide) with
      ⟨s, s', rfl, rfl, hs⟩ | ⟨hclose, hclose'⟩
    · rw [readInterval_bounds hd hlow hd₂ hhigh] at h
      rw [readInterval_bounds hd' hlow hd₂' hhigh]
      cases h
      have hbounds := (betweenBounds_beside lowCount low highCount high hs).behind ht₂
      exact (hbounds.behind (t := [',']) (by simp [isOrdinary])).behind ht
    · unfold readInterval at h ⊢
      simp only [hd, hd', hlow, hd₂, hd₂', hhigh, if_false] at h ⊢
      cases h
      rfl
  · unfold readInterval at h ⊢
    simp only [hd, hd', hlow, if_false] at h ⊢
    rcases hrest.first (c := '\x7d') (by decide) (by decide) with
      ⟨s, s', rfl, rfl, hs⟩ | ⟨hclose, hclose'⟩
    · simp only at h ⊢
      split at h
      · rename_i hcount
        rw [if_pos hcount]
        cases h
        rfl
      · rename_i hcount
        rw [if_neg hcount]
        cases h
        refine QuantifiersAlike.behind ?_ ht
        exact ⟨['\x7d'], s', by simp, rfl, rfl, by simp [isOrdinary], hs, rfl⟩
    · simp only at h ⊢
      cases h
      rfl

theorem readManner_beside {r r' : List Char} (h : Beside r r') :
    ∃ m t v v', r = t ++ v ∧ r' = t ++ v' ∧ (∀ c ∈ t, isOrdinary c = true) ∧ Beside v v' ∧
      readManner r = (m, v) ∧ readManner r' = (m, v') := by
  rcases h.first (c := '?') (by decide) (by decide) with ⟨s, s', rfl, rfl, hs⟩ | ⟨hlazy, hlazy'⟩
  · exact ⟨.lazy, ['?'], s, s', rfl, rfl, by simp [isOrdinary], hs, rfl, rfl⟩
  · rcases h.first (c := '+') (by decide) (by decide) with ⟨s, s', rfl, rfl, hs⟩ | ⟨hplus, hplus'⟩
    · exact ⟨.possessive, ['+'], s, s', rfl, rfl, by simp [isOrdinary], hs, rfl, rfl⟩
    · refine ⟨.greedy, [], r, r', rfl, rfl, by simp, h, ?_, ?_⟩
      · rw [readManner]
        · exact hlazy
        · exact hplus
      · rw [readManner]
        · exact hlazy'
        · exact hplus'

/-- A repetition is read alike in texts side by side. -/
theorem readQuantifier_beside {cs cs' : List Char} {x : Option (Quantifier × List Char)}
    (hbeside : Beside cs cs') (h : readQuantifier cs = .ok x) :
    QuantifiersAlike cs cs' x (readQuantifier cs') := by
  -- A sign that is followed by a manner.
  have hsign : ∀ {c : Char} {f : Manner → Quantifier} {s s' : List Char}, isOrdinary c = true →
      Beside s s' →
      (∀ r, readQuantifier (c :: r) = .ok (some (f (readManner r).1, (readManner r).2))) →
      readQuantifier (c :: s) = .ok x → QuantifiersAlike (c :: s) (c :: s') x
        (readQuantifier (c :: s')) := by
    intro c f s s' hc hs hread h
    obtain ⟨m, t, v, v', rfl, rfl, ht, hv, hm, hm'⟩ := readManner_beside hs
    rw [hread, hm] at h
    cases h
    rw [hread, hm']
    exact ⟨c :: t, v', by simp, rfl, rfl, forall_cons_ordinary hc ht, hv, rfl⟩
  rcases hbeside.first (c := '*') (by decide) (by decide) with ⟨s, s', rfl, rfl, hs⟩ | ⟨h1, h1'⟩
  · exact hsign (f := fun m => ⟨0, none, m⟩) rfl hs (fun _ => rfl) h
  rcases hbeside.first (c := '+') (by decide) (by decide) with ⟨s, s', rfl, rfl, hs⟩ | ⟨h2, h2'⟩
  · exact hsign (f := fun m => ⟨1, none, m⟩) rfl hs (fun _ => rfl) h
  rcases hbeside.first (c := '?') (by decide) (by decide) with ⟨s, s', rfl, rfl, hs⟩ | ⟨h3, h3'⟩
  · exact hsign (f := fun m => ⟨0, some 1, m⟩) rfl hs (fun _ => rfl) h
  rcases hbeside.first (c := '\x7b') (by decide) (by decide) with ⟨s, s', rfl, rfl, hs⟩ | ⟨h4, h4'⟩
  · exact (readInterval_beside hs h).behind (t := ['\x7b']) (by simp [isOrdinary])
  · rw [readQuantifier] at h ⊢
    · cases h
      rfl
    all_goals assumption

end Highlighting.Regex
