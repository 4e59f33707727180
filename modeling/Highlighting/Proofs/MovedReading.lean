-- Reading a pattern whose references have been moved, behind the groups of other
-- patterns. Where the parts are in step with the reader, the expression is the
-- one that the pattern has alone, with all group numbers moved.
import Highlighting.Proofs.MovedExpressions
import Highlighting.Proofs.PatternTokens

namespace Highlighting.Alternation

open Regex (Cursor Options Part Quantifier ReadError EndsPattern)

/-! ## Two readers abreast -/

/-- One reader is in the pattern and the other in the moved pattern, both before the
parts `ts`. The other one has met `off` more groups, and behind its pattern come a
closing parenthesis and `more`. -/
structure Abreast (off : Nat) (more : List Char) (ts : List Token) (cur cur' : Cursor) : Prop where
  rest : cur.rest = rawAll ts
  rest' : cur'.rest = moved off ts ++ ')' :: more
  groups : cur'.groups = cur.groups + off
  inStep : inStep off 0 cur.groups ts = true

/-- The readers have gone on from the parts `ts` to the parts `ts₁`, over groups that
joining has counted. -/
structure GoOn (off : Nat) (more : List Char) (ts ts₁ : List Token) (cur cur' cur₁ cur₁' : Cursor) :
    Prop where
  abreast : Abreast off more ts₁ cur₁ cur₁'
  names : cur₁.names = cur.names
  names' : cur₁'.names = cur'.names
  counted : cur₁.groups + captures ts₁ = cur.groups + captures ts
  groups : cur.groups ≤ cur₁.groups
  shorter : (rawAll ts₁).length ≤ (rawAll ts).length
  shorter' : (moved off ts₁).length ≤ (moved off ts).length

variable {off : Nat} {more : List Char}

theorem GoOn.trans {ts ts₁ ts₂ : List Token} {cur cur' cur₁ cur₁' cur₂ cur₂' : Cursor}
    (h : GoOn off more ts ts₁ cur cur' cur₁ cur₁')
    (h' : GoOn off more ts₁ ts₂ cur₁ cur₁' cur₂ cur₂') : GoOn off more ts ts₂ cur cur' cur₂ cur₂' where
  abreast := h'.abreast
  names := h'.names.trans h.names
  names' := h'.names'.trans h.names'
  counted := h'.counted.trans h.counted
  groups := Nat.le_trans h.groups h'.groups
  shorter := Nat.le_trans h'.shorter h.shorter
  shorter' := Nat.le_trans h'.shorter' h.shorter'

theorem Abreast.stay {ts : List Token} {cur cur' : Cursor} (h : Abreast off more ts cur cur') :
    GoOn off more ts ts cur cur' cur cur' :=
  ⟨h, rfl, rfl, rfl, Nat.le_refl _, Nat.le_refl _, Nat.le_refl _⟩

/-- Over a text that has nothing to do with groups. -/
theorem Abreast.over {ts ts₁ : List Token} {cur cur' : Cursor} {text : List Char}
    (h : Abreast off more ts cur cur') (hc : Continues off cur.groups ts text ts₁) :
    GoOn off more ts ts₁ cur cur' { cur with rest := rawAll ts₁ }
      { cur' with rest := moved off ts₁ ++ ')' :: more } where
  abreast := ⟨rfl, rfl, h.groups, hc.inStep⟩
  names := rfl
  names' := rfl
  counted := congrArg (cur.groups + ·) hc.captures.symm
  groups := Nat.le_refl _
  shorter := by
    rw [hc.raw, List.length_append]
    omega
  shorter' := by
    rw [hc.moved, List.length_append]
    omega

theorem Abreast.beside {ts : List Token} {cur cur' : Cursor} (h : Abreast off more ts cur cur') :
    Regex.Beside cur.rest cur'.rest := by
  rw [h.rest, h.rest']
  exact beside_moved off ts more

theorem eq_nil_of_rawAll {groups : Nat} {ts : List Token} (h : inStep off 0 groups ts = true)
    (hraw : rawAll ts = []) : ts = [] := by
  rcases inStep_cases h with rfl | ⟨ts', rfl, _⟩ | ⟨digits, ts', rfl, _⟩ | ⟨rest, hitem, _⟩
  · rfl
  · cases hraw
  · cases hraw
  · rw [hraw] at hitem
    cases hitem

/-! ## Comments -/

theorem skipIgnored_of_not_comment {n : Nat} {cs : List Char}
    (h : ∀ r, cs ≠ '(' :: '?' :: '#' :: r) : Regex.skipIgnored false n cs = .ok cs := by
  rcases n with _ | n
  · rfl
  · unfold Regex.skipIgnored
    split
    · exact absurd rfl (h _)
    · rfl
    · rfl
    · rfl

/-- A comment is a row of whole parts. -/
theorem continues_comment {groups : Nat} {ts : List Token} {cs rest : List Char}
    (h : inStep off 0 groups ts = true) (hraw : rawAll ts = '(' :: '?' :: '#' :: cs)
    (hcomment : Regex.afterComment cs = some rest) :
    ∃ text ts₁, rest = rawAll ts₁ ∧ Continues off groups ts ('(' :: '?' :: '#' :: text) ts₁ ∧
      ∀ e, Regex.afterComment (text ++ e) = some e := by
  obtain ⟨text, rfl, hagain⟩ := Regex.afterComment_local hcomment
  rcases inStep_cases h with rfl | ⟨ts', rfl, hnext, _⟩ | ⟨digits, ts', rfl, _⟩ | ⟨rest', hitem, hnext⟩
  · cases hraw
  · have hrest : rawAll ts' = '?' :: '#' :: (text ++ rest) := (List.cons.inj hraw).2
    rw [hrest] at hnext
    exact absurd rfl hnext
  · exact absurd (List.cons.inj hraw).1 (by decide)
  · rw [hraw, afterItem?, hcomment] at hitem
    cases hitem
    obtain ⟨ts₁, hrest, hcontinues⟩ := hnext ('(' :: '?' :: '#' :: text) hraw
    exact ⟨text, ts₁, hrest, hcontinues, hagain⟩

theorem skipIgnored_abreast (more : List Char) {groups n : Nat} {ts : List Token}
    {rest : List Char} (hstep : inStep off 0 groups ts = true) (hn : (rawAll ts).length ≤ n)
    (h : Regex.skipIgnored false n (rawAll ts) = .ok rest) {m : Nat}
    (hm : (moved off ts).length ≤ m) :
    ∃ text ts₁, rest = rawAll ts₁ ∧ Continues off groups ts text ts₁ ∧
      Regex.skipIgnored false m (moved off ts ++ ')' :: more) = .ok (moved off ts₁ ++ ')' :: more) := by
  induction n generalizing ts m with
  | zero =>
    have hnil := eq_nil_of_rawAll hstep (List.length_eq_zero_iff.mp (Nat.le_zero.mp hn))
    subst hnil
    cases h
    exact ⟨[], [], rfl, continues_nil hstep, skipIgnored_of_not_comment (by simp)⟩
  | succ n ih =>
    by_cases hcomment : ∃ cs, rawAll ts = '(' :: '?' :: '#' :: cs
    · obtain ⟨cs, hraw⟩ := hcomment
      rw [hraw, Regex.skipIgnored] at h
      rcases hafter : Regex.afterComment cs with _ | rest'
      · rw [hafter] at h
        cases h
      rw [hafter] at h
      obtain ⟨text, ts', rfl, hcontinues, hagain⟩ := continues_comment hstep hraw hafter
      have hlength : (rawAll ts').length ≤ n := by
        rw [hcontinues.raw, List.length_append] at hn
        simp only [List.length_cons] at hn
        omega
      have hmoved := hcontinues.moved
      rw [hmoved, List.length_append] at hm
      simp only [List.length_cons] at hm
      rcases m with _ | m
      · omega
      obtain ⟨text', ts₁, hrest, hcontinues', hread⟩ := ih hcontinues.inStep hlength h (m := m)
        (by omega)
      refine ⟨_, ts₁, hrest, hcontinues.trans hcontinues', ?_⟩
      rw [hmoved]
      simp only [List.cons_append, List.append_assoc, Regex.skipIgnored, hagain]
      exact hread
    · rw [skipIgnored_of_not_comment (fun r hr => hcomment ⟨r, hr⟩)] at h
      cases h
      refine ⟨[], ts, rfl, continues_nil hstep, skipIgnored_of_not_comment ?_⟩
      intro r hr
      -- The first three characters are the same in both texts.
      have hbeside := beside_moved off ts more
      rw [hr] at hbeside
      rcases hbeside.first (c := '(') (by decide) (by decide) with ⟨s, s', hs, he, hrest⟩ | ⟨_, hno⟩
      · cases he
        rcases hrest.first (c := '?') (by decide) (by decide) with ⟨u, u', hu, he, hrest'⟩ | ⟨_, hno⟩
        · cases he
          rcases hrest'.first (c := '#') (by decide) (by decide) with ⟨v, v', hv, _⟩ | ⟨_, hno⟩
          · exact hcomment ⟨v, by rw [hs, hu, hv]⟩
          · exact absurd rfl (hno r)
        · exact absurd rfl (hno _)
      · exact absurd rfl (hno _)

/-- Both readers skip the same comments. -/
theorem advance_abreast {o : Options} (ho : o.extended = false) {ts : List Token}
    {cur cur' cur₁ : Cursor} (habreast : Abreast off more ts cur cur')
    (h : cur.advance o = .ok cur₁) :
    ∃ ts₁ cur₁', cur'.advance o = .ok cur₁' ∧ GoOn off more ts ts₁ cur cur' cur₁ cur₁' ∧
      cur₁.groups = cur.groups := by
  unfold Cursor.advance at h ⊢
  rw [ho] at h ⊢
  obtain ⟨rest, hrest, hresult⟩ := bind_eq_ok.mp h
  cases hresult
  rw [habreast.rest] at hrest
  obtain ⟨text, ts₁, rfl, hcontinues, hagain⟩ :=
    skipIgnored_abreast more habreast.inStep (Nat.le_refl _) hrest
      (m := cur'.rest.length) (by rw [habreast.rest']; simp)
  rw [habreast.rest'] at hagain ⊢
  rw [hagain]
  exact ⟨ts₁, _, rfl, habreast.over hcontinues, rfl⟩

/-! ## Repetitions -/

/-- The repetitions of an expression are those of the moved expression. -/
theorem readQuantifiers_abreast {o : Options} (ho : o.extended = false) {n hi : Nat} {r r₁ : Regex}
    {ts : List Token} {cur cur' cur₁ : Cursor} (habreast : Abreast off more ts cur cur')
    (hr : r.Tame 0 hi) (hn : cur.rest.length ≤ n)
    (h : Regex.readQuantifiers o n r cur = .ok (r₁, cur₁)) {m : Nat} (hm : cur'.rest.length ≤ m) :
    ∃ ts₁ cur₁', Regex.readQuantifiers o m (r.shift off) cur' = .ok (r₁.shift off, cur₁') ∧
      GoOn off more ts ts₁ cur cur' cur₁ cur₁' ∧ cur₁.groups = cur.groups ∧ r₁.Tame 0 hi := by
  induction n generalizing r ts cur cur' m with
  | zero =>
    have hnil := List.length_eq_zero_iff.mp (Nat.le_zero.mp hn)
    have hts := eq_nil_of_rawAll habreast.inStep (habreast.rest.symm.trans hnil)
    subst hts
    cases h
    refine ⟨[], cur', ?_, habreast.stay, rfl, hr⟩
    have hrest' := habreast.rest'
    rw [moved_nil, List.nil_append] at hrest'
    rcases m with _ | m
    · rfl
    · have hadvance : cur'.advance o = .ok cur' := by
        unfold Cursor.advance
        rw [ho, skipIgnored_of_not_comment (by simp [hrest'])]
        rfl
      rw [Regex.readQuantifiers, hadvance]
      simp only [ok_bind_eq, hrest']
      rfl
  | succ n ih =>
    rw [Regex.readQuantifiers] at h
    obtain ⟨cur₂, hadvance, h₂⟩ := bind_eq_ok.mp h
    obtain ⟨ts₂, cur₂', hadvance', hgo, hgroups⟩ := advance_abreast ho habreast hadvance
    obtain ⟨x, hx, h₃⟩ := bind_eq_ok.mp h₂
    have hbeside := hgo.abreast.beside
    have halike := Regex.readQuantifier_beside hbeside hx
    have hm' : 0 < m := by
      rw [habreast.rest', List.length_append, List.length_cons] at hm
      omega
    obtain ⟨m, rfl⟩ := Nat.exists_eq_succ_of_ne_zero (Nat.ne_of_gt hm')
    rw [Regex.readQuantifiers, hadvance']
    simp only [ok_bind_eq]
    rcases x with _ | ⟨q, rest⟩
    · cases h₃
      have hnone : Regex.readQuantifier cur₂'.rest = .ok none := halike
      rw [hnone]
      exact ⟨ts₂, cur₂', rfl, hgo, hgroups, hr⟩
    · obtain ⟨t, rest', hne, ht, ht', hordinary, hrest, hread⟩ := halike
      rw [hread]
      rw [hgo.abreast.rest] at ht
      obtain ⟨ts₃, rfl, hcontinues⟩ := continues_ordinary hgo.abreast.inStep ht hordinary
      have hrest' : rest' = moved off ts₃ ++ ')' :: more := by
        rw [hgo.abreast.rest', hcontinues.moved, List.append_assoc] at ht'
        exact (List.append_cancel_left ht').symm
      subst hrest'
      have hgo₃ := hgo.trans (hgo.abreast.over hcontinues)
      have hlength := List.length_pos_iff.mpr hne
      have hshort : (rawAll ts₃).length ≤ n := by
        have := hgo.shorter
        rw [habreast.rest] at hn
        rw [ht, List.length_append] at this
        omega
      have hshort' : (moved off ts₃ ++ ')' :: more).length ≤ m := by
        have := hgo.shorter'
        rw [habreast.rest', List.length_append, Nat.succ_eq_add_one] at hm
        rw [hcontinues.moved, List.length_append] at this
        rw [List.length_append]
        omega
      obtain ⟨ts₄, cur₄', hmore, hgo₄, hgroups₄, htame⟩ :=
        ih hgo₃.abreast ((hereditary_tame _ _).apply q hr) hshort h₃ hshort'
      rw [shift_apply] at hmore
      exact ⟨ts₄, cur₄', hmore, hgo₃.trans hgo₄, hgroups₄.trans hgroups, htame⟩

/-! ## The steps of the reader -/

/-- What the reader does once it has an expression: its repetitions, and then the
parts after it. -/
def afterNode (fuel : Nat) (o : Options) (done : List Part) (r : Regex) (cur : Cursor) :
    Except ReadError (Regex × Cursor) := do
  let (r, cur) ← Regex.readQuantifiers o cur.rest.length r cur
  Regex.readParts fuel o cur (.node r :: done)

/-- What the reader does once it has a part. A character without repetitions joins
the characters beside it. -/
def afterPart (fuel : Nat) (o : Options) (done : List Part) (part : Part) (next : Cursor) :
    Except ReadError (Regex × Cursor) := do
  let next ← next.advance o
  match part, ← Regex.readQuantifier next.rest with
  | .char d, none => Regex.readParts fuel o next (.char d :: done)
  | .char d, some _ => afterNode fuel o done (Regex.literal o [d]) next
  | .node r, _ => afterNode fuel o done r next

/-- The branches of a group up to its closing parenthesis. -/
def readBody (fuel : Nat) (o : Options) (cur : Cursor) : Except ReadError (Regex × Cursor) := do
  let (branches, cur) ← Regex.readBranches fuel o cur
  return (Regex.ofBranches branches, ← Regex.closeGroup cur)

section

variable {fuel : Nat} {o : Options} {cur cur₁ : Cursor} {done : List Part} {c : Char}
  {rest : List Char}

theorem readBranches_bar {r : Regex} (h : Regex.readParts fuel o cur [] = .ok (r, cur₁))
    (hrest : cur₁.rest = '|' :: rest) :
    Regex.readBranches (fuel + 1) o cur = (do
      let (more, cur) ← Regex.readBranches fuel o { cur₁ with rest := rest }
      return (r :: more, cur)) := by
  rw [Regex.readBranches, h]
  simp only [ok_bind_eq, hrest]

theorem readBranches_last {r : Regex} (h : Regex.readParts fuel o cur [] = .ok (r, cur₁))
    (hrest : ∀ rest, cur₁.rest ≠ '|' :: rest) :
    Regex.readBranches (fuel + 1) o cur = .ok ([r], cur₁) := by
  rw [Regex.readBranches, h]
  simp only [ok_bind_eq]
  rfl

theorem readParts_stop (h : cur.advance o = .ok cur₁) (hrest : EndsPattern cur₁.rest) :
    Regex.readParts (fuel + 1) o cur done = .ok (Regex.joinParts o done [] [], cur₁) := by
  rw [Regex.readParts, h]
  rcases hrest with hrest | ⟨r, hrest⟩ | ⟨r, hrest⟩
  · simp only [ok_bind_eq, hrest]
    rfl
  · simp only [ok_bind_eq, hrest]
    rfl
  · simp only [ok_bind_eq, hrest]
    rfl

theorem readParts_capture (h : cur.advance o = .ok cur₁) (hrest : cur₁.rest = '(' :: c :: rest)
    (hc : c ≠ '?') :
    Regex.readParts (fuel + 1) o cur done = (do
      let (r, cur) ← readBody fuel o { cur₁ with rest := c :: rest, groups := cur₁.groups + 1 }
      afterNode fuel o done (.group (cur₁.groups + 1) r) cur) := by
  rw [Regex.readParts, h]
  simp only [ok_bind_eq, hrest, readBody, afterNode, bind_assoc, pure_bind]
  split
  · rename_i he
    cases he
    exact absurd rfl hc
  · rename_i he
    cases he
    exact absurd rfl hc
  · rename_i he
    cases he
  · rfl

theorem readParts_group (h : cur.advance o = .ok cur₁) (hrest : cur₁.rest = '(' :: '?' :: c :: rest)
    (hc : c ∈ [':', '=', '!', '>', '<', '\'', '~', '(']) :
    Regex.readParts (fuel + 1) o cur done = (do
      let (r, cur) ← Regex.readGroup fuel o { cur₁ with rest := '?' :: c :: rest }
      afterNode fuel o done r cur) := by
  rw [Regex.readParts, h]
  simp only [ok_bind_eq, hrest, afterNode]
  simp only [List.mem_cons, List.not_mem_nil, or_false] at hc
  rcases hc with rfl | rfl | rfl | rfl | rfl | rfl | rfl | rfl
  all_goals rfl

theorem readParts_options (h : cur.advance o = .ok cur₁)
    (hrest : cur₁.rest = '(' :: '?' :: c :: rest)
    (hc : c ∉ [':', '=', '!', '>', '<', '\'', '~', '(']) :
    Regex.readParts (fuel + 1) o cur done = (do
      let (inner, limited, after) ← Regex.readOptions o true (c :: rest)
      if limited then
        let (r, cur) ← readBody fuel inner { cur₁ with rest := after }
        afterNode fuel o done r cur
      else
        let (branches, cur) ← Regex.readBranches fuel inner { cur₁ with rest := after }
        return (Regex.joinParts o (.node (Regex.ofBranches branches) :: done) [] [], cur)) := by
  rw [Regex.readParts, h]
  simp only [List.mem_cons, List.not_mem_nil, or_false, not_or] at hc
  simp only [ok_bind_eq, hrest, hc, decide_false, Bool.or_false, Bool.false_eq_true, if_false,
    List.tail_cons, readBody, afterNode, bind_assoc, pure_bind]
  rcases Regex.readOptions o true (c :: rest) with _ | ⟨inner, limited, after⟩
  · rfl
  · cases limited
    · rfl
    · rfl

theorem readParts_class (h : cur.advance o = .ok cur₁) (hrest : cur₁.rest = '[' :: rest) :
    Regex.readParts (fuel + 1) o cur done = (do
      let (negated, members, rest) ← Regex.readClass o (2 * rest.length + 2) rest
      afterNode fuel o done (Regex.classRegex o negated members) { cur₁ with rest := rest }) := by
  rw [Regex.readParts, h]
  simp only [ok_bind_eq, hrest]
  rfl

theorem readParts_escape (h : cur.advance o = .ok cur₁) (hrest : cur₁.rest = '\\' :: rest) :
    Regex.readParts (fuel + 1) o cur done = (do
      let (part, next) ← Regex.readEscape cur₁ o rest
      afterPart fuel o done part next) := by
  rw [Regex.readParts, h]
  simp only [ok_bind_eq, hrest]
  rfl

/-- The part that one character stands for, if it is no repetition. -/
def charPart (o : Options) (c : Char) : Part :=
  match c with
  | '.' => .node (.set (if o.dotAll then .all else .compl (.single '\n')))
  | '^' => .node (.anchor .lineStart)
  | '$' => .node (.anchor .lineEnd)
  | c => .char c

theorem readParts_char (h : cur.advance o = .ok cur₁) (hrest : cur₁.rest = c :: rest)
    (hc : Regex.isOrdinary c = true) (hend : c ≠ '|' ∧ c ≠ ')') :
    Regex.readParts (fuel + 1) o cur done = (do
      match ← Regex.readQuantifier (c :: rest) with
      | some _ => throw .repeatTarget
      | none => afterPart fuel o done (charPart o c) { cur₁ with rest := rest }) := by
  simp only [Regex.isOrdinary, Bool.and_eq_true, bne_iff_ne, ne_eq] at hc
  obtain ⟨⟨hparen, hbracket⟩, hescape⟩ := hc
  obtain ⟨hbar, hclose⟩ := hend
  rw [Regex.readParts, h]
  simp only [ok_bind_eq, hrest]
  by_cases hdot : c = '.'
  · subst hdot
    rfl
  by_cases hcaret : c = '^'
  · subst hcaret
    rfl
  by_cases hdollar : c = '$'
  · subst hdollar
    rfl
  have hpart : charPart o c = .char c := by
    simp only [charPart]
  rw [hpart]
  simp only
  rcases Regex.readQuantifier (c :: rest) with _ | _ | _
  · rfl
  · rfl
  · rfl

end

/-! ## Moved steps -/

/-- The other reader comes to the moved expression and stays abreast. -/
def MovesTo (off : Nat) (more : List Char) (ts : List Token) (cur cur' : Cursor)
    (result : Regex × Cursor) (x : Except ReadError (Regex × Cursor)) : Prop :=
  ∃ ts₁ cur₁', x = .ok (result.1.shift off, cur₁') ∧
    GoOn off more ts ts₁ cur cur' result.2 cur₁' ∧ result.1.Tame 0 result.2.groups

theorem MovesTo.after {ts ts₁ : List Token} {cur cur' cur₁ cur₁' : Cursor} {result : Regex × Cursor}
    {x : Except ReadError (Regex × Cursor)} (hgo : GoOn off more ts ts₁ cur cur' cur₁ cur₁')
    (h : MovesTo off more ts₁ cur₁ cur₁' result x) : MovesTo off more ts cur cur' result x := by
  obtain ⟨ts₂, cur₂', hx, hgo', htame⟩ := h
  exact ⟨ts₂, cur₂', hx, hgo.trans hgo', htame⟩

/-- Branches that are read with `fuel` are read moved, given a step for each
character of the moved text. -/
def BranchesMove (off : Nat) (more : List Char) (fuel : Nat) : Prop :=
  ∀ {o : Options} {ts : List Token} {cur cur' cur₁ : Cursor} {rs : List Regex},
    o.extended = false → Abreast off more ts cur cur' →
    Regex.readBranches fuel o cur = .ok (rs, cur₁) → ∀ {m : Nat},
    4 * (moved off ts).length + 4 ≤ m → ∃ ts₁ cur₁',
      Regex.readBranches m o cur' = .ok (rs.map (Regex.shift off), cur₁') ∧
      GoOn off more ts ts₁ cur cur' cur₁ cur₁' ∧ ∀ r ∈ rs, r.Tame 0 cur₁.groups

/-- So are the parts of a branch. -/
def PartsMove (off : Nat) (more : List Char) (fuel : Nat) : Prop :=
  ∀ {o : Options} {ts : List Token} {cur cur' cur₁ : Cursor} {done : List Part} {r : Regex},
    o.extended = false → Abreast off more ts cur cur' →
    (∀ part ∈ done, PartTame cur.groups part) →
    Regex.readParts fuel o cur done = .ok (r, cur₁) → ∀ {m : Nat},
    4 * (moved off ts).length + 3 ≤ m →
      MovesTo off more ts cur cur' (r, cur₁) (Regex.readParts m o cur' (done.map (movePart off)))

section

variable {o : Options} {ts : List Token} {cur cur' cur₁ : Cursor} {done : List Part} {r : Regex}
  {fuel m : Nat}

theorem PartTame.mono {hi hi' : Nat} {part : Part} (h : PartTame hi part) (hle : hi ≤ hi') :
    PartTame hi' part := by
  cases part with
  | char c => trivial
  | node r => exact Regex.Tame.mono (Nat.le_refl 0) hle h

theorem closeGroup_abreast (habreast : Abreast off more ts cur cur')
    (h : Regex.closeGroup cur = .ok cur₁) :
    ∃ ts₁ cur₁', Regex.closeGroup cur' = .ok cur₁' ∧ GoOn off more ts ts₁ cur cur' cur₁ cur₁' ∧
      cur₁.groups = cur.groups := by
  unfold Regex.closeGroup at h
  split at h
  · rename_i rest hrest
    cases h
    rw [habreast.rest] at hrest
    have htext : rawAll ts = [')'] ++ rest := hrest
    obtain ⟨ts₁, rfl, hcontinues⟩ := continues_ordinary habreast.inStep htext (by simp [Regex.isOrdinary])
    refine ⟨ts₁, _, ?_, habreast.over hcontinues, rfl⟩
    unfold Regex.closeGroup
    rw [habreast.rest', hcontinues.moved]
    rfl
  · cases h

theorem readBody_abreast (hbranches : BranchesMove off more fuel) (ho : o.extended = false)
    (habreast : Abreast off more ts cur cur') (h : readBody fuel o cur = .ok (r, cur₁))
    (hm : 4 * (moved off ts).length + 4 ≤ m) :
    MovesTo off more ts cur cur' (r, cur₁) (readBody m o cur') := by
  unfold readBody at h ⊢
  obtain ⟨⟨rs, cur₂⟩, hread, h₂⟩ := bind_eq_ok.mp h
  obtain ⟨cur₃, hclose, h₃⟩ := bind_eq_ok.mp h₂
  cases h₃
  obtain ⟨ts₂, cur₂', hread', hgo, htame⟩ := hbranches ho habreast hread hm
  obtain ⟨ts₃, cur₃', hclose', hgo', hgroups⟩ := closeGroup_abreast hgo.abreast hclose
  refine ⟨ts₃, cur₃', ?_, hgo.trans hgo', ?_⟩
  · rw [hread']
    simp only [ok_bind_eq, hclose', shift_ofBranches]
    rfl
  · rw [hgroups]
    exact (hereditary_tame _ _).ofBranches htame

theorem afterNode_abreast (hparts : PartsMove off more fuel) (ho : o.extended = false)
    (habreast : Abreast off more ts cur cur') (hr : r.Tame 0 cur.groups)
    (hdone : ∀ part ∈ done, PartTame cur.groups part) {result : Regex × Cursor}
    (h : afterNode fuel o done r cur = .ok result) (hm : 4 * (moved off ts).length + 3 ≤ m) :
    MovesTo off more ts cur cur' result
      (afterNode m o (done.map (movePart off)) (r.shift off) cur') := by
  unfold afterNode at h ⊢
  obtain ⟨⟨r₂, cur₂⟩, hread, h₂⟩ := bind_eq_ok.mp h
  obtain ⟨ts₂, cur₂', hread', hgo, hgroups, htame⟩ :=
    readQuantifiers_abreast ho habreast hr (Nat.le_refl _) hread (Nat.le_refl _)
  rw [hread']
  have hdone₂ : ∀ part ∈ .node r₂ :: done, PartTame cur₂.groups part := by
    rw [hgroups]
    intro part hpart
    rcases List.mem_cons.mp hpart with rfl | hpart
    · exact htame
    · exact hdone part hpart
  have := hgo.shorter'
  exact (hparts ho hgo.abreast hdone₂ h₂ (by omega)).after hgo

theorem afterPart_abreast (hparts : PartsMove off more fuel) (ho : o.extended = false)
    (habreast : Abreast off more ts cur cur') {part : Part} (hpart : PartTame cur.groups part)
    (hdone : ∀ part ∈ done, PartTame cur.groups part) {result : Regex × Cursor}
    (h : afterPart fuel o done part cur = .ok result) (hm : 4 * (moved off ts).length + 3 ≤ m) :
    MovesTo off more ts cur cur' result
      (afterPart m o (done.map (movePart off)) (movePart off part) cur') := by
  unfold afterPart at h ⊢
  obtain ⟨cur₂, hadvance, h₂⟩ := bind_eq_ok.mp h
  obtain ⟨ts₂, cur₂', hadvance', hgo, hgroups⟩ := advance_abreast ho habreast hadvance
  obtain ⟨x, hx, h₃⟩ := bind_eq_ok.mp h₂
  have halike := Regex.readQuantifier_beside hgo.abreast.beside hx
  have hshorter := hgo.shorter'
  have hdone₂ : ∀ part ∈ done, PartTame cur₂.groups part := by rwa [hgroups]
  rw [hadvance']
  simp only [ok_bind_eq]
  refine MovesTo.after hgo ?_
  cases part with
  | char d =>
    rcases x with _ | ⟨q, rest⟩
    · have hnone : Regex.readQuantifier cur₂'.rest = .ok none := halike
      rw [hnone]
      have hdone₃ : ∀ part ∈ .char d :: done, PartTame cur₂.groups part := by
        intro part hpart
        rcases List.mem_cons.mp hpart with rfl | hpart
        · trivial
        · exact hdone₂ part hpart
      exact hparts ho hgo.abreast hdone₃ h₃ (by omega)
    · obtain ⟨t, rest', _, _, _, _, _, hread⟩ := halike
      rw [hread]
      have hnode := afterNode_abreast hparts ho hgo.abreast ((free_literal o [d]).2 0 _) hdone₂ h₃
        (m := m) (by omega)
      rw [(free_literal o [d]).1] at hnode
      exact hnode
  | node r =>
    have hnode := afterNode_abreast hparts ho hgo.abreast (r := r) (by rw [hgroups]; exact hpart)
      hdone₂ h₃ (m := m) (by omega)
    rcases x with _ | ⟨q, rest⟩
    · have hnone : Regex.readQuantifier cur₂'.rest = .ok none := halike
      rw [hnone]
      exact hnode
    · obtain ⟨t, rest', _, _, _, _, _, hread⟩ := halike
      rw [hread]
      exact hnode

end

/-! ## The parts of a branch -/

/-- The readers are at a part, behind the comments in front of it. -/
structure AtPart (off : Nat) (more : List Char) (fuel m : Nat) (o : Options) (ts : List Token)
    (cur₀ cur₀' cur cur' : Cursor) (done : List Part) : Prop where
  parts : PartsMove off more fuel
  extended : o.extended = false
  advance : cur₀.advance o = .ok cur
  advance' : cur₀'.advance o = .ok cur'
  abreast : Abreast off more ts cur cur'
  done : ∀ part ∈ done, PartTame cur.groups part
  steps : 4 * (moved off ts).length + 2 ≤ m

section

variable {o : Options} {ts : List Token} {cur₀ cur₀' cur cur' cur₁ : Cursor} {done : List Part}
  {r : Regex} {fuel m : Nat} (hat : AtPart off more fuel m o ts cur₀ cur₀' cur cur' done)
  (h : Regex.readParts (fuel + 1) o cur₀ done = .ok (r, cur₁))

include hat h

theorem moves_at_stop (hrest : EndsPattern cur.rest) :
    MovesTo off more ts cur cur' (r, cur₁)
      (Regex.readParts (m + 1) o cur₀' (done.map (movePart off))) := by
  rw [readParts_stop hat.advance hrest] at h
  cases h
  have hrest' : EndsPattern cur'.rest := by
    have hbeside := hat.abreast.beside
    rcases hrest with hrest | ⟨r, hrest⟩ | ⟨r, hrest⟩
    · rw [hrest] at hbeside
      exact hbeside.headAlike.nil
    · rw [hrest] at hbeside
      exact .inr (.inl hbeside.headAlike.cons)
    · rw [hrest] at hbeside
      exact .inr (.inr hbeside.headAlike.cons)
  rw [readParts_stop hat.advance' hrest']
  refine ⟨ts, cur', ?_, hat.abreast.stay, ?_⟩
  · rw [shift_joinParts]
    rfl
  · exact tame_joinParts o [] hat.done (by simp)

theorem moves_at_class {rest : List Char} (hrest : cur.rest = '[' :: rest) :
    MovesTo off more ts cur cur' (r, cur₁)
      (Regex.readParts (m + 1) o cur₀' (done.map (movePart off))) := by
  rw [readParts_class hat.advance hrest] at h
  obtain ⟨⟨negated, members, rest₁⟩, hclass, h₂⟩ := bind_eq_ok.mp h
  obtain ⟨a, rfl, _, hagain⟩ := Regex.readClass_local hclass
  have hraw : rawAll ts = ('[' :: a) ++ rest₁ := hat.abreast.rest.symm.trans hrest
  have hitem : afterItem? (rawAll ts) = some rest₁ := by
    obtain ⟨s', hs'⟩ := (Regex.readClass_readMembers_options _ {}).1 hclass
    rw [hraw, List.cons_append, afterItem?, hs']
  obtain ⟨ts₁, rfl, hcontinues⟩ := continues_item hat.abreast.inStep hitem hraw
  have hgo := hat.abreast.over hcontinues
  have hrest' : cur'.rest = '[' :: (a ++ (moved off ts₁ ++ ')' :: more)) := by
    rw [hat.abreast.rest', hcontinues.moved, List.append_assoc]
    rfl
  have hclass' := hagain (moved off ts₁ ++ ')' :: more)
    (2 * (a ++ (moved off ts₁ ++ ')' :: more)).length + 2) (by rw [List.length_append]; omega)
  have hfree := free_classRegex o negated members
  have hsteps : 4 * (moved off ts₁).length + 3 ≤ m := by
    have := hat.steps
    rw [hcontinues.moved, List.length_append, List.length_cons] at this
    omega
  have hnode := afterNode_abreast hat.parts hat.extended hgo.abreast (hfree.2 0 _) hat.done h₂ hsteps
  rw [hfree.1] at hnode
  rw [readParts_class hat.advance' hrest', hclass']
  exact hnode.after hgo

theorem moves_at_escape {rest rest₁ : List Char} (hrest : cur.rest = '\\' :: rest)
    (hitem : afterItem? (rawAll ts) = some rest₁) :
    MovesTo off more ts cur cur' (r, cur₁)
      (Regex.readParts (m + 1) o cur₀' (done.map (movePart off))) := by
  rw [readParts_escape hat.advance hrest] at h
  obtain ⟨⟨part, cur₂⟩, hescape, h₂⟩ := bind_eq_ok.mp h
  have hraw : rawAll ts = '\\' :: rest := hat.abreast.rest.symm.trans hrest
  rw [hraw, afterItem?] at hitem
  split at hitem
  · rename_i hquiet
    obtain ⟨t, hne, rfl, hfree, hagain⟩ := Regex.readEscape_local hquiet hescape
    -- The reader stops where joining expects it to.
    have hstop : cur₂ = { cur with rest := cur₂.rest } := by
      obtain ⟨part', _, hread⟩ := hagain cur o
      have hsame := hread cur₂.rest (Regex.Alike.refl _)
      rw [hescape, Except.ok.injEq, Prod.mk.injEq] at hsame
      exact hsame.2
    have hitem' : afterItem? (rawAll ts) = some cur₂.rest := by
      obtain ⟨part', _, hread⟩ := hagain { rest := t ++ cur₂.rest } {}
      rw [hraw, afterItem?, if_pos hquiet, hread cur₂.rest (Regex.Alike.refl _)]
    obtain ⟨ts₁, hrest₁, hcontinues⟩ := continues_item hat.abreast.inStep hitem'
      (show rawAll ts = ('\\' :: t) ++ cur₂.rest from hraw)
    have hgo := hat.abreast.over hcontinues
    rw [hrest₁] at hstop
    subst hstop
    have hrest' : cur'.rest = '\\' :: (t ++ (moved off ts₁ ++ ')' :: more)) := by
      rw [hat.abreast.rest', hcontinues.moved, List.append_assoc]
      rfl
    obtain ⟨part', hpart, hread⟩ := hagain cur' o
    rw [hpart rfl] at hread
    have hsteps : 4 * (moved off ts₁).length + 3 ≤ m := by
      have := hat.steps
      rw [hcontinues.moved, List.length_append, List.length_cons] at this
      omega
    have hafter := afterPart_abreast hat.parts hat.extended hgo.abreast (partTame_free hfree _)
      hat.done h₂ hsteps
    rw [movePart_free hfree] at hafter
    rw [readParts_escape hat.advance' hrest', hread _ (beside_moved off ts₁ more).alike]
    exact hafter.after hgo
  · cases hitem

theorem moves_at_reference {digits : List Char} {ts₁ : List Token}
    (hts : ts = .reference digits :: ts₁)
    (hrefers : refersAlike off cur.groups digits (rawAll ts₁) = true)
    (hstep : inStep off 0 cur.groups ts₁ = true) :
    MovesTo off more ts cur cur' (r, cur₁)
      (Regex.readParts (m + 1) o cur₀' (done.map (movePart off))) := by
  subst hts
  obtain ⟨hpos, hread, hread'⟩ := readEscape_refersAlike hrefers
  have hrest : cur.rest = '\\' :: (digits ++ rawAll ts₁) := hat.abreast.rest
  have hmoved : moved off (.reference digits :: ts₁) =
      '\\' :: ((toString (groupNumber digits + off)).toList ++ moved off ts₁) := by
    simp [Token.render]
  have hrest' : cur'.rest = '\\' :: ((toString (groupNumber digits + off)).toList ++
      (moved off ts₁ ++ ')' :: more)) := by
    rw [hat.abreast.rest', hmoved]
    simp
  rw [readParts_escape hat.advance hrest, hread cur o rfl] at h
  rw [readParts_escape hat.advance' hrest', hread' cur' o more hat.abreast.groups]
  have hgo : GoOn off more (.reference digits :: ts₁) ts₁ cur cur' { cur with rest := rawAll ts₁ }
      { cur' with rest := moved off ts₁ ++ ')' :: more } := by
    refine ⟨⟨rfl, rfl, hat.abreast.groups, hstep⟩, rfl, rfl, ?_, Nat.le_refl _, ?_, ?_⟩
    · simp [captures]
    · simp
    · rw [hmoved, List.length_cons, List.length_append]
      omega
  have hpart : PartTame cur.groups (.node (.backref [groupNumber digits] o.anyCase)) := by
    intro n hn
    rw [List.mem_singleton.mp hn]
    exact hpos
  have hsteps : 4 * (moved off ts₁).length + 3 ≤ m := by
    have := hat.steps
    rw [hmoved, List.length_cons, List.length_append] at this
    omega
  exact (afterPart_abreast hat.parts hat.extended hgo.abreast hpart hat.done h hsteps).after hgo

theorem moves_at_char {c : Char} {rest : List Char} (hrest : cur.rest = c :: rest)
    (hc : Regex.isOrdinary c = true) (hend : c ≠ '|' ∧ c ≠ ')') :
    MovesTo off more ts cur cur' (r, cur₁)
      (Regex.readParts (m + 1) o cur₀' (done.map (movePart off))) := by
  rw [readParts_char hat.advance hrest hc hend] at h
  obtain ⟨x, hx, h₂⟩ := bind_eq_ok.mp h
  have hraw : rawAll ts = [c] ++ rest := hat.abreast.rest.symm.trans hrest
  obtain ⟨ts₁, rfl, hcontinues⟩ := continues_ordinary hat.abreast.inStep hraw
    (fun d hd => by rw [List.mem_singleton.mp hd]; exact hc)
  have hgo := hat.abreast.over hcontinues
  have hrest' : cur'.rest = c :: (moved off ts₁ ++ ')' :: more) := by
    rw [hat.abreast.rest', hcontinues.moved, List.append_assoc]
    rfl
  rcases x with _ | x
  · have hnone : Regex.readQuantifier (c :: (moved off ts₁ ++ ')' :: more)) = .ok none :=
      Regex.readQuantifier_beside ((beside_moved off ts₁ more).same c) hx
    have hfree : (charPart o c).Free := by
      unfold charPart
      split
      · exact free_set _
      · exact ⟨fun _ => rfl, fun _ _ => trivial⟩
      · exact ⟨fun _ => rfl, fun _ _ => trivial⟩
      · trivial
    have hsteps : 4 * (moved off ts₁).length + 3 ≤ m := by
      have := hat.steps
      rw [hcontinues.moved, List.length_append, List.length_singleton] at this
      omega
    have hafter := afterPart_abreast hat.parts hat.extended hgo.abreast (partTame_free hfree _)
      hat.done h₂ hsteps
    rw [movePart_free hfree] at hafter
    rw [readParts_char hat.advance' hrest' hc hend, hnone]
    exact hafter.after hgo
  · cases h₂

theorem moves_at_capture (hbranches : BranchesMove off more fuel) {ts₁ : List Token}
    (hts : ts = .capture :: ts₁) (hnext : (rawAll ts₁).head? ≠ some '?')
    (hstep : inStep off 0 (cur.groups + 1) ts₁ = true) :
    MovesTo off more ts cur cur' (r, cur₁)
      (Regex.readParts (m + 1) o cur₀' (done.map (movePart off))) := by
  subst hts
  have hrest : cur.rest = '(' :: rawAll ts₁ := hat.abreast.rest
  have hmoved : moved off (.capture :: ts₁) = '(' :: moved off ts₁ := by simp [Token.render]
  have hrest' : cur'.rest = '(' :: (moved off ts₁ ++ ')' :: more) := by
    rw [hat.abreast.rest', hmoved]
    rfl
  rcases hraw : rawAll ts₁ with _ | ⟨c, rest⟩
  · rw [hraw] at hrest
    rw [Regex.readParts, hat.advance] at h
    simp only [ok_bind_eq, hrest] at h
    cases h
  have hc : c ≠ '?' := by
    rintro rfl
    rw [hraw] at hnext
    exact hnext rfl
  obtain ⟨rest', hraw'⟩ : ∃ rest', moved off ts₁ ++ ')' :: more = c :: rest' := by
    have hbeside := beside_moved off ts₁ more
    rw [hraw] at hbeside
    exact hbeside.headAlike.cons
  rw [hraw] at hrest
  rw [hraw'] at hrest'
  rw [readParts_capture hat.advance hrest hc] at h
  rw [readParts_capture hat.advance' hrest' hc]
  obtain ⟨⟨r₂, cur₂⟩, hbody, h₂⟩ := bind_eq_ok.mp h
  have hgo : GoOn off more (.capture :: ts₁) ts₁ cur cur'
      { cur with rest := c :: rest, groups := cur.groups + 1 }
      { cur' with rest := c :: rest', groups := cur'.groups + 1 } := by
    refine ⟨⟨hraw.symm, hraw'.symm, ?_, hstep⟩, rfl, rfl, ?_, Nat.le_succ _, ?_, ?_⟩
    · have := hat.abreast.groups
      simp only
      omega
    · simp only [captures, List.count_cons_self]
      omega
    · simp
    · rw [hmoved, List.length_cons]
      omega
  have hsteps : 4 * (moved off ts₁).length + 4 ≤ m := by
    have := hat.steps
    rw [hmoved, List.length_cons] at this
    omega
  obtain ⟨ts₂, cur₂', hbody', hgo₂, htame⟩ :=
    readBody_abreast hbranches hat.extended hgo.abreast hbody hsteps
  rw [hbody']
  have hgroups := hgo₂.groups
  simp only at hgroups
  have hgroup : (Regex.group (cur.groups + 1) r₂).Tame 0 cur₂.groups :=
    ⟨⟨Nat.succ_pos _, hgroups⟩, htame⟩
  have hdone : ∀ part ∈ done, PartTame cur₂.groups part := fun part hpart =>
    (hat.done part hpart).mono (by omega)
  have hshorter := hgo₂.shorter'
  have hnode := afterNode_abreast hat.parts hat.extended hgo₂.abreast hgroup hdone h₂ (m := m) (by omega)
  have hnumber : cur.groups + 1 + off = cur'.groups + 1 := by
    have := hat.abreast.groups
    omega
  rw [Regex.shift, hnumber] at hnode
  exact hnode.after (hgo.trans hgo₂)

end

/-- What opens a group without a number, and what it makes of the group. -/
inductive Opens : List Char → (Regex → Regex) → Prop where
  | plain : Opens [':'] id
  | ahead : Opens ['='] (.ahead false)
  | notAhead : Opens ['!'] (.ahead true)
  | atomic : Opens ['>'] .atomic
  | absent : Opens ['~'] .absent
  | behind : Opens ['<', '='] (.behind false 0)
  | notBehind : Opens ['<', '!'] (.behind true 0)

theorem Opens.ordinary {opener : List Char} {f : Regex → Regex} (h : Opens opener f) :
    ∀ c ∈ opener, Regex.isOrdinary c = true := by
  cases h <;> simp [Regex.isOrdinary]

theorem Opens.shift {opener : List Char} {f : Regex → Regex} (h : Opens opener f) (off : Nat)
    (r : Regex) : (f r).shift off = f (r.shift off) := by
  cases h <;> rfl

theorem Opens.tame {opener : List Char} {f : Regex → Regex} (h : Opens opener f) {lo hi : Nat}
    {r : Regex} (hr : r.Tame lo hi) : (f r).Tame lo hi := by
  cases h <;> exact hr

theorem opens_of_quietly {c : Char} {rest : List Char} (h : opensQuietly (c :: rest) = true)
    (hc : c ∈ [':', '=', '!', '>', '<', '~']) :
    ∃ opener f rest', Opens opener f ∧ c :: rest = opener ++ rest' := by
  simp only [List.mem_cons, List.not_mem_nil, or_false] at hc
  rcases hc with rfl | rfl | rfl | rfl | rfl | rfl
  · exact ⟨_, _, rest, .plain, rfl⟩
  · exact ⟨_, _, rest, .ahead, rfl⟩
  · exact ⟨_, _, rest, .notAhead, rfl⟩
  · exact ⟨_, _, rest, .atomic, rfl⟩
  · rcases rest with _ | ⟨d, rest⟩
    · cases h
    · by_cases heq : d = '='
      · subst heq
        exact ⟨_, _, rest, .behind, rfl⟩
      · by_cases hnot : d = '!'
        · subst hnot
          exact ⟨_, _, rest, .notBehind, rfl⟩
        · simp [opensQuietly, heq, hnot] at h
  · exact ⟨_, _, rest, .absent, rfl⟩

/-- A body is closed, so it is not at the end of the text. -/
theorem readBody_ne_nil {fuel : Nat} {o : Options} {cur : Cursor} {x : Regex × Cursor}
    (h : readBody fuel o cur = .ok x) : cur.rest ≠ [] := by
  intro hrest
  obtain ⟨rest, groups, names⟩ := cur
  cases hrest
  rcases fuel with _ | _ | fuel
  · cases h
  · cases h
  · have hunclosed : readBody (fuel + 2) o ⟨[], groups, names⟩ = .error .groupUnclosed := rfl
    rw [hunclosed] at h
    cases h

/-- What is absent is no range: no bar stands behind the tilde. -/
def NoRange (opener rest : List Char) : Prop := opener = ['~'] → rest.head? ≠ some '|'

theorem noRange_of_readGroup {opener rest : List Char} {fuel : Nat} {o : Options} {cur : Cursor}
    {x : Regex × Cursor}
    (h : Regex.readGroup fuel o { cur with rest := '?' :: (opener ++ rest) } = .ok x) :
    NoRange opener rest := by
  rintro rfl hbar
  obtain ⟨tail, rfl⟩ := List.head?_eq_some_iff.mp hbar
  rcases fuel with _ | fuel
  · cases h
  · cases h

theorem readGroup_opens {opener : List Char} {f : Regex → Regex} (h : Opens opener f) (fuel : Nat)
    (o : Options) (cur : Cursor) {rest : List Char} (hrange : NoRange opener rest) :
    Regex.readGroup (fuel + 1) o { cur with rest := '?' :: (opener ++ rest) } =
      (readBody fuel o { cur with rest := rest }).map fun (r, cur) => (f r, cur) := by
  have hmap : ∀ x : Except ReadError (Regex × Cursor), (x >>= fun p => pure (Regex.absent p.1, p.2)) =
      x.map fun p => (Regex.absent p.1, p.2) := by
    intro x
    rcases x with _ | _
    · rfl
    · rfl
  unfold Regex.readGroup
  cases h
  case absent =>
    simp only [List.cons_append, List.nil_append]
    split
    all_goals rename_i heq
    all_goals try cases heq
    · exact absurd rfl (hrange rfl)
    · exact hmap (readBody fuel o { cur with rest := rest })
    · rename_i habsent _ _ _ _ _
      exact absurd rfl (habsent rest)
  all_goals
    unfold readBody
    simp only [List.cons_append, List.nil_append]
    rcases Regex.readBranches fuel o { cur with rest := rest } with _ | ⟨branches, cur₁⟩
    · rfl
    · simp only [ok_bind_eq]
      rcases Regex.closeGroup cur₁ with _ | _
      · rfl
      · rfl

theorem all_of_opensQuietly {c : Char} {rest : List Char} (h : opensQuietly (c :: rest) = true)
    (hc : c ∉ [':', '=', '!', '>', '<', '\'', '~', '(']) :
    (((c :: rest).takeWhile fun c => c != ':' && c != ')').all (· != 'x')) = true := by
  simp only [List.mem_cons, List.not_mem_nil, or_false, not_or] at hc
  obtain ⟨h1, h2, h3, h4, h5, h6, h7, h8⟩ := hc
  rw [opensQuietly] at h
  · exact h
  all_goals simp_all

theorem afterItem?_paren {rest rest₁ : List Char} (h : afterItem? ('(' :: rest) = some rest₁) :
    (∃ cs, rest = '?' :: '#' :: cs) ∨
      ∃ cs, rest = '?' :: cs ∧ opensQuietly cs = true ∧ rest₁ = cs := by
  by_cases hcomment : ∃ cs, rest = '?' :: '#' :: cs
  · exact .inl hcomment
  by_cases hquestion : ∃ cs, rest = '?' :: cs
  · obtain ⟨cs, rfl⟩ := hquestion
    rw [afterItem?] at h
    · split at h
      · rename_i hopens
        cases h
        exact .inr ⟨rest₁, rfl, hopens, rfl⟩
      · cases h
    · intro cs' hcs'
      exact hcomment ⟨cs', by rw [hcs']⟩
  · rw [afterItem?] at h
    · cases h
    · intro cs hcs
      exact hcomment ⟨cs, hcs⟩
    · intro cs hcs
      exact hquestion ⟨cs, hcs⟩

theorem readOptions_letter {c : Char} (hcolon : c ≠ ':') (hclose : c ≠ ')') (hminus : c ≠ '-')
    (o : Options) (on : Bool) (cs : List Char) :
    Regex.readOptions o on (c :: cs) =
      match o.switch on c with
      | some o => Regex.readOptions o on cs
      | none => .error .groupOption := by
  rw [Regex.readOptions]
  all_goals first | rfl | assumption

/-- The letters of an option group are ordinary. Without an `x` among them blanks are
read as before. -/
theorem readOptions_local {o inner : Options} {on limited : Bool} {cs after : List Char}
    (h : Regex.readOptions o on cs = .ok (inner, limited, after)) :
    ∃ t, t ≠ [] ∧ cs = t ++ after ∧ (∀ c ∈ t, Regex.isOrdinary c = true) ∧
      (o.extended = false → ((cs.takeWhile fun c => c != ':' && c != ')').all (· != 'x')) = true →
        inner.extended = false) ∧
      ∀ e, Regex.readOptions o on (t ++ e) = .ok (inner, limited, e) := by
  induction cs generalizing o on with
  | nil => cases h
  | cons c cs ih =>
    by_cases hcolon : c = ':'
    · subst hcolon
      cases h
      exact ⟨[':'], by simp, rfl, by simp [Regex.isOrdinary], fun ho _ => ho, fun e => rfl⟩
    by_cases hclose : c = ')'
    · subst hclose
      cases h
      exact ⟨[')'], by simp, rfl, by simp [Regex.isOrdinary], fun ho _ => ho, fun e => rfl⟩
    have hwhile : (c :: cs).takeWhile (fun c => c != ':' && c != ')') =
        c :: cs.takeWhile fun c => c != ':' && c != ')' := by
      simp [hcolon, hclose]
    by_cases hminus : c = '-'
    · subst hminus
      obtain ⟨t, _, rfl, hordinary, hinner, hread⟩ := ih h
      refine ⟨'-' :: t, by simp, rfl, ?_, ?_, fun e => hread e⟩
      · intro d hd
        rcases List.mem_cons.mp hd with rfl | hd
        · rfl
        · exact hordinary d hd
      · intro ho hall
        rw [hwhile, List.all_cons, Bool.and_eq_true] at hall
        exact hinner ho hall.2
    · have hstep := readOptions_letter hcolon hclose hminus
      rw [hstep] at h
      rcases hswitch : o.switch on c with _ | o₂
      · rw [hswitch] at h
        cases h
      rw [hswitch] at h
      obtain ⟨t, _, rfl, hordinary, hinner, hread⟩ := ih h
      refine ⟨c :: t, by simp, rfl, ?_, ?_, ?_⟩
      · intro d hd
        rcases List.mem_cons.mp hd with rfl | hd
        · unfold Regex.Options.switch at hswitch
          split at hswitch
          all_goals first | rfl | cases hswitch
        · exact hordinary d hd
      · intro ho hall
        rw [hwhile, List.all_cons, Bool.and_eq_true, bne_iff_ne] at hall
        refine hinner ?_ hall.2
        unfold Regex.Options.switch at hswitch
        split at hswitch
        all_goals cases hswitch
        all_goals first | exact ho | exact absurd rfl hall.1
      · intro e
        rw [List.cons_append, hstep, hswitch]
        exact hread e

/-- What follows the question mark of a group without a number is the same in both texts. -/
theorem AtPart.opener {o : Options} {ts : List Token} {cur₀ cur₀' cur cur' : Cursor}
    {done : List Part} {fuel m : Nat} (hat : AtPart off more fuel m o ts cur₀ cur₀' cur cur' done)
    {c : Char} {rest opener behind : List Char} (hrest : cur.rest = '(' :: '?' :: c :: rest)
    (hitem : afterItem? (rawAll ts) = some (c :: rest)) (hne : opener ≠ [])
    (htext : c :: rest = opener ++ behind) (hordinary : ∀ d ∈ opener, Regex.isOrdinary d = true) :
    ∃ ds ts₁, opener = c :: ds ∧ behind = rawAll ts₁ ∧
      Continues off cur.groups ts ('(' :: '?' :: opener) ts₁ ∧
      cur'.rest = '(' :: '?' :: c :: (ds ++ (moved off ts₁ ++ ')' :: more)) ∧
      (moved off ts₁).length + 3 ≤ (moved off ts).length := by
  have hraw : rawAll ts = ['(', '?'] ++ (c :: rest) := hat.abreast.rest.symm.trans hrest
  obtain ⟨ts₁, hrest₁, hcontinues₁⟩ := continues_item hat.abreast.inStep hitem hraw
  obtain ⟨ts₂, rfl, hcontinues₂⟩ := continues_ordinary hcontinues₁.inStep
    (hrest₁.symm.trans htext) hordinary
  have hcontinues := hcontinues₁.trans hcontinues₂
  obtain ⟨d, ds, rfl⟩ := List.exists_cons_of_ne_nil hne
  obtain rfl : c = d := (List.cons.inj htext).1
  refine ⟨ds, ts₂, rfl, rfl, hcontinues, ?_, ?_⟩
  · rw [hat.abreast.rest', hcontinues.moved]
    simp
  · rw [hcontinues.moved]
    simp only [List.length_append, List.length_cons]
    omega

section

variable {o : Options} {ts : List Token} {cur₀ cur₀' cur cur' cur₁ : Cursor} {done : List Part}
  {r : Regex} {fuel m : Nat} (hat : AtPart off more fuel m o ts cur₀ cur₀' cur cur' done)
  (h : Regex.readParts (fuel + 1) o cur₀ done = .ok (r, cur₁))

include hat h

theorem moves_at_group (hbranches : ∀ k, k < fuel → BranchesMove off more k) {c : Char}
    {rest : List Char} (hrest : cur.rest = '(' :: '?' :: c :: rest)
    (hitem : afterItem? (rawAll ts) = some (c :: rest)) (hopens : opensQuietly (c :: rest) = true)
    (hc : c ∈ [':', '=', '!', '>', '<', '~']) :
    MovesTo off more ts cur cur' (r, cur₁)
      (Regex.readParts (m + 1) o cur₀' (done.map (movePart off))) := by
  obtain ⟨opener, f, rest₁, hopener, htext⟩ := opens_of_quietly hopens hc
  have hne : opener ≠ [] := by
    rintro rfl
    cases hopener
  obtain ⟨ds, ts₂, rfl, rfl, hcontinues, hrest', hlength⟩ :=
    hat.opener hrest hitem hne htext hopener.ordinary
  have hgo := hat.abreast.over hcontinues
  have hc' : c ∈ [':', '=', '!', '>', '<', '\'', '~', '('] := by
    simp only [List.mem_cons, List.not_mem_nil, or_false] at hc ⊢
    rcases hc with rfl | rfl | rfl | rfl | rfl | rfl
    all_goals simp
  rw [readParts_group hat.advance hrest hc', htext] at h
  rw [readParts_group hat.advance' hrest' hc', ← List.cons_append]
  have hsteps := hat.steps
  rcases fuel with _ | fuel
  · obtain ⟨_, hread, _⟩ := bind_eq_ok.mp h
    cases hread
  rcases m with _ | m
  · omega
  obtain ⟨⟨r₂, cur₂⟩, hread, h₂⟩ := bind_eq_ok.mp h
  have hrange := noRange_of_readGroup hread
  rw [readGroup_opens hopener _ _ _ hrange] at hread
  obtain ⟨⟨r₃, cur₃⟩, hbody, hresult⟩ := map_eq_ok.mp hread
  cases hresult
  obtain ⟨ts₃, cur₃', hbody', hgo₃, htame⟩ := readBody_abreast (hbranches fuel (Nat.lt_succ_self _))
    hat.extended hgo.abreast hbody (m := m) (by omega)
  have hbody'' : readBody m o { cur' with rest := moved off ts₂ ++ ')' :: more } = _ := hbody'
  have hrange' : NoRange (c :: ds) (moved off ts₂ ++ ')' :: more) := by
    have hbeside := beside_moved off ts₂ more
    rcases hraw : rawAll ts₂ with _ | ⟨e, rest₂⟩
    · exact absurd hraw (readBody_ne_nil hbody)
    · rw [hraw] at hbeside hrange
      obtain ⟨rest₂', hrest₂⟩ := hbeside.headAlike.cons
      rw [hrest₂]
      exact hrange
  rw [readGroup_opens hopener _ _ _ hrange', hbody'']
  have hgroups := hgo₃.groups
  have hshorter := hgo₃.shorter'
  have hdone : ∀ part ∈ done, PartTame cur₂.groups part := fun part hpart =>
    (hat.done part hpart).mono hgroups
  have hnode := afterNode_abreast hat.parts hat.extended hgo₃.abreast (hopener.tame htame) hdone h₂
    (m := m + 1) (by omega)
  rw [hopener.shift] at hnode
  exact hnode.after (hgo.trans hgo₃)

theorem moves_at_options (hbranches : BranchesMove off more fuel) {c : Char} {rest : List Char}
    (hrest : cur.rest = '(' :: '?' :: c :: rest) (hitem : afterItem? (rawAll ts) = some (c :: rest))
    (hopens : opensQuietly (c :: rest) = true)
    (hc : c ∉ [':', '=', '!', '>', '<', '\'', '~', '(']) :
    MovesTo off more ts cur cur' (r, cur₁)
      (Regex.readParts (m + 1) o cur₀' (done.map (movePart off))) := by
  rw [readParts_options hat.advance hrest hc] at h
  obtain ⟨⟨inner, limited, after⟩, hoptions, h₂⟩ := bind_eq_ok.mp h
  obtain ⟨t, hne, htext, hordinary, hinner, hagain⟩ := readOptions_local hoptions
  have hextended := hinner hat.extended (all_of_opensQuietly hopens hc)
  obtain ⟨ds, ts₂, rfl, rfl, hcontinues, hrest', hlength⟩ :=
    hat.opener hrest hitem hne htext hordinary
  have hgo := hat.abreast.over hcontinues
  have hoptions' := hagain (moved off ts₂ ++ ')' :: more)
  rw [List.cons_append] at hoptions'
  rw [readParts_options hat.advance' hrest' hc, hoptions']
  have hsteps := hat.steps
  simp only [ok_bind_eq]
  cases limited with
  | true =>
    simp only [if_true] at h₂ ⊢
    obtain ⟨⟨r₃, cur₃⟩, hbody, h₃⟩ := bind_eq_ok.mp h₂
    obtain ⟨ts₃, cur₃', hbody', hgo₃, htame⟩ :=
      readBody_abreast hbranches hextended hgo.abreast hbody (m := m) (by omega)
    rw [hbody']
    have hshorter := hgo₃.shorter'
    have hdone : ∀ part ∈ done, PartTame cur₃.groups part := fun part hpart =>
      (hat.done part hpart).mono hgo₃.groups
    have hnode := afterNode_abreast hat.parts hat.extended hgo₃.abreast htame hdone h₃ (m := m)
      (by omega)
    exact hnode.after (hgo.trans hgo₃)
  | false =>
    simp only [Bool.false_eq_true, if_false] at h₂ ⊢
    obtain ⟨⟨rs, cur₃⟩, hread, h₃⟩ := bind_eq_ok.mp h₂
    cases h₃
    obtain ⟨ts₃, cur₃', hread', hgo₃, htame⟩ :=
      hbranches hextended hgo.abreast hread (m := m) (by omega)
    rw [hread']
    have hdone : ∀ part ∈ .node (Regex.ofBranches rs) :: done, PartTame cur₃.groups part := by
      intro part hpart
      rcases List.mem_cons.mp hpart with rfl | hpart
      · exact (hereditary_tame _ _).ofBranches htame
      · exact (hat.done part hpart).mono hgo₃.groups
    refine ⟨ts₃, cur₃', ?_, hgo.trans hgo₃, tame_joinParts o [] hdone (by simp)⟩
    simp only [ok_bind_eq, shift_joinParts, List.map_cons, movePart, shift_ofBranches, List.map_nil]
    rfl

end

/-! ## The whole reader -/

theorem partsMove_succ {fuel : Nat} (hparts : PartsMove off more fuel)
    (hbranches : ∀ k, k ≤ fuel → BranchesMove off more k) : PartsMove off more (fuel + 1) := by
  intro o ts₀ cur₀ cur₀' cur₁ done r ho habreast₀ hdone₀ h m hm
  obtain ⟨m, rfl⟩ := Nat.exists_eq_succ_of_ne_zero (show m ≠ 0 by omega)
  have hadvance : ∃ cur, cur₀.advance o = .ok cur := by
    rw [Regex.readParts] at h
    obtain ⟨cur, hcur, _⟩ := bind_eq_ok.mp h
    exact ⟨cur, hcur⟩
  obtain ⟨cur, hadvance⟩ := hadvance
  obtain ⟨ts, cur', hadvance', hgo, hgroups⟩ := advance_abreast ho habreast₀ hadvance
  have hshorter := hgo.shorter'
  have hat : AtPart off more fuel m o ts cur₀ cur₀' cur cur' done :=
    ⟨hparts, ho, hadvance, hadvance', hgo.abreast, by rwa [hgroups], by omega⟩
  refine MovesTo.after hgo ?_
  rcases inStep_cases hat.abreast.inStep with rfl | ⟨ts₁, hts, hnext, hstep⟩ |
    ⟨digits, ts₁, hts, hrefers, hstep⟩ | ⟨rest₁, hitem, _⟩
  · exact moves_at_stop hat h (.inl hat.abreast.rest)
  · exact moves_at_capture hat h (hbranches fuel (Nat.le_refl _)) hts hnext hstep
  · exact moves_at_reference hat h hts hrefers hstep
  · have hraw := hat.abreast.rest
    rcases hrest : cur.rest with _ | ⟨c, rest⟩
    · exact moves_at_stop hat h (.inl hrest)
    rw [hrest] at hraw
    by_cases hbracket : c = '['
    · subst hbracket
      exact moves_at_class hat h hrest
    by_cases hescape : c = '\\'
    · subst hescape
      exact moves_at_escape hat h hrest hitem
    by_cases hparen : c = '('
    · subst hparen
      rw [← hraw] at hitem
      rcases afterItem?_paren hitem with ⟨cs, rfl⟩ | ⟨cs, rfl, hopens, rfl⟩
      · -- No comment is left behind the ones that were skipped.
        rw [readParts_options hadvance hrest (by decide)] at h
        obtain ⟨_, hoptions, _⟩ := bind_eq_ok.mp h
        cases hoptions
      · rw [hraw] at hitem
        rcases rest₁ with _ | ⟨c, cs⟩
        · rw [Regex.readParts, hadvance] at h
          simp only [ok_bind_eq, hrest] at h
          cases h
        · by_cases hgroup : c ∈ [':', '=', '!', '>', '<', '~']
          · exact moves_at_group hat h (fun k hk => hbranches k (Nat.le_of_lt hk)) hrest hitem hopens
              hgroup
          · refine moves_at_options hat h (hbranches fuel (Nat.le_refl _)) hrest hitem hopens ?_
            intro hc
            simp only [List.mem_cons, List.not_mem_nil, or_false] at hc hgroup
            rcases hc with rfl | rfl | rfl | rfl | rfl | rfl | rfl | rfl
            all_goals first
              | exact hgroup (by decide)
              | cases hopens
    · by_cases hend : c = '|' ∨ c = ')'
      · refine moves_at_stop hat h (.inr ?_)
        rcases hend with rfl | rfl
        · exact .inl ⟨rest, hrest⟩
        · exact .inr ⟨rest, hrest⟩
      · refine moves_at_char hat h hrest ?_ (not_or.mp hend)
        simp [Regex.isOrdinary, hparen, hbracket, hescape]

theorem branchesMove_succ {fuel : Nat} (hparts : PartsMove off more fuel)
    (hbranches : BranchesMove off more fuel) : BranchesMove off more (fuel + 1) := by
  intro o ts cur cur' cur₁ rs ho habreast h m hm
  obtain ⟨m, rfl⟩ := Nat.exists_eq_succ_of_ne_zero (show m ≠ 0 by omega)
  have hfirst : ∃ x, Regex.readParts fuel o cur [] = .ok x := by
    rw [Regex.readBranches] at h
    obtain ⟨x, hx, _⟩ := bind_eq_ok.mp h
    exact ⟨x, hx⟩
  obtain ⟨⟨r, cur₂⟩, hread⟩ := hfirst
  obtain ⟨ts₂, cur₂', hread', hgo, htame⟩ := hparts ho habreast (by simp) hread (m := m) (by omega)
  replace hgo : GoOn off more ts ts₂ cur cur' cur₂ cur₂' := hgo
  have hbeside := hgo.abreast.beside
  have hshorter := hgo.shorter'
  have hend : cur₂.rest = [] → ∀ s, cur₂'.rest ≠ '|' :: s := by
    intro hnil s
    have hts := eq_nil_of_rawAll hgo.abreast.inStep (hgo.abreast.rest.symm.trans hnil)
    rw [hgo.abreast.rest', hts]
    simp
  rcases hbeside.first_or_neither hend (by decide) with ⟨s, s', hs, hs', hrest⟩ | ⟨hno, hno'⟩
  · rw [readBranches_bar hread hs] at h
    rw [Nat.succ_eq_add_one, readBranches_bar hread' hs']
    obtain ⟨⟨rs₃, cur₃⟩, hmore, h₃⟩ := bind_eq_ok.mp h
    cases h₃
    have hraw : rawAll ts₂ = ['|'] ++ s := hgo.abreast.rest.symm.trans hs
    obtain ⟨ts₃, rfl, hcontinues⟩ := continues_ordinary hgo.abreast.inStep hraw (by simp [Regex.isOrdinary])
    have hs'' : s' = moved off ts₃ ++ ')' :: more := by
      have hrest' := hgo.abreast.rest'
      rw [hs', hcontinues.moved] at hrest'
      exact (List.cons.inj hrest').2
    subst hs''
    have hgo₃ := hgo.abreast.over hcontinues
    have hlength : (moved off ts₃).length + 1 = (moved off ts₂).length := by
      rw [hcontinues.moved]
      rfl
    obtain ⟨ts₄, cur₄', hmore', hgo₄, htame₄⟩ :=
      hbranches ho hgo₃.abreast hmore (m := m) (by omega)
    rw [hmore']
    refine ⟨ts₄, cur₄', rfl, (hgo.trans hgo₃).trans hgo₄, ?_⟩
    intro r' hr'
    rcases List.mem_cons.mp hr' with rfl | hr'
    · exact Regex.Tame.mono (Nat.le_refl 0) hgo₄.groups htame
    · exact htame₄ r' hr'
  · rw [readBranches_last hread hno] at h
    cases h
    refine ⟨ts₂, cur₂', readBranches_last hread' hno', hgo, fun r' hr' => ?_⟩
    rw [List.mem_singleton.mp hr']
    exact htame

theorem branchesMove_and_partsMove (off : Nat) (more : List Char) (fuel : Nat) :
    BranchesMove off more fuel ∧ PartsMove off more fuel := by
  induction fuel using Nat.strongRecOn with
  | ind fuel ih =>
    rcases fuel with _ | fuel
    · constructor
      · intro o ts cur cur' cur₁ rs _ _ h
        rw [Regex.readBranches] at h
        cases h
      · intro o ts cur cur' cur₁ done r _ _ _ h
        rw [Regex.readParts] at h
        cases h
    · obtain ⟨hbranches, hparts⟩ := ih fuel (Nat.lt_succ_self _)
      exact ⟨branchesMove_succ hparts hbranches,
        partsMove_succ hparts fun k hk => (ih k (Nat.lt_succ_of_le hk)).1⟩

end Highlighting.Alternation
