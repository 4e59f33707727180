-- Ends that extend others. A copy of a mode that is being linked around a reference
-- stands for the reference again if the end there is the end of the copy, or some text, a
-- bar and that end. The longer end matches wherever the shorter one does if what stands
-- in front only adds branches: it is a pattern by itself, leaves no option on at the bar,
-- and does not change which groups the shorter end means. The texts alone do not tell. A
-- bar that is escaped, or stands in a class or a comment, separates no branches.
import Highlighting.Proofs.CompileDepths
import Highlighting.Proofs.JoinedEnds
import Highlighting.Proofs.RestartFree

namespace Highlighting.Regex

open Alternation (Hereditary)

/-! ## Groups in branches -/

theorem groupBody?_eq_none {r : Regex} (h : r.hasGroup = false) (n : Nat) : r.groupBody? n = none := by
  induction r with
  | group _ _ => cases h
  | seq a b iha ihb | alt a b iha ihb =>
    obtain ⟨ha, hb⟩ := Bool.or_eq_false_iff.mp h
    simp [groupBody?, iha ha, ihb hb]
  | ifElse a b c iha ihb ihc =>
    obtain ⟨hab, hc⟩ := Bool.or_eq_false_iff.mp h
    obtain ⟨ha, hb⟩ := Bool.or_eq_false_iff.mp hab
    simp [groupBody?, iha ha, ihb hb, ihc hc]
  | loop a _ _ _ ih | atomic a ih | ahead _ a ih | behind _ _ a ih | absent a ih => exact ih h
  | _ => rfl

/-- Branches without groups in front do not change where a group is found. -/
theorem groupBody?_append {as bs : List Regex} (has : ∀ a ∈ as, a.hasGroup = false) (hbs : bs ≠ [])
    (n : Nat) : (ofBranches (as ++ bs)).groupBody? n = (ofBranches bs).groupBody? n := by
  induction as with
  | nil => rfl
  | cons a as ih =>
    have hrest := ih fun a' ha' => has a' (List.mem_cons_of_mem _ ha')
    obtain ⟨c, cs, hcs⟩ := List.exists_cons_of_ne_nil (List.append_ne_nil_of_right_ne_nil as hbs)
    rw [← hrest, List.cons_append, hcs]
    show (a.groupBody? n <|> (ofBranches (c :: cs)).groupBody? n) = _
    rw [groupBody?_eq_none (has a List.mem_cons_self)]
    rfl

theorem hereditary_hasGroup : Hereditary fun r => r.hasGroup = false where
  empty := rfl
  fail := rfl
  set _ := rfl
  seq _ _ := Bool.or_eq_false_iff
  alt _ _ := Bool.or_eq_false_iff
  loop _ _ _ _ := Iff.rfl
  group _ _ h := by cases h
  atomic _ := Iff.rfl
  ahead _ _ := Iff.rfl
  behind _ _ _ := Iff.rfl
  ifElse _ _ _ := by
    simp only [hasGroup, Bool.or_eq_false_iff, and_assoc]
  absent _ := Iff.rfl

theorem hereditary_movable : Hereditary Movable where
  empty := trivial
  fail := trivial
  set _ := trivial
  seq _ _ := Iff.rfl
  alt _ _ := Iff.rfl
  loop _ _ _ _ := Iff.rfl
  group _ _ h := ⟨h, fun _ hb => hb⟩
  atomic _ := Iff.rfl
  ahead _ _ := Iff.rfl
  behind _ _ _ := Iff.rfl
  ifElse _ _ _ := Iff.rfl
  absent _ := Iff.rfl

instance decidableMovable : DecidablePred Movable
  | backref ns _ | matched ns => inferInstanceAs (Decidable (∀ n ∈ ns, 0 < n))
  | seq a b | alt a b =>
    have := decidableMovable a
    have := decidableMovable b
    inferInstanceAs (Decidable (a.Movable ∧ b.Movable))
  | ifElse a b c =>
    have := decidableMovable a
    have := decidableMovable b
    have := decidableMovable c
    inferInstanceAs (Decidable (a.Movable ∧ b.Movable ∧ c.Movable))
  | group _ a | loop a _ _ _ | atomic a | ahead _ a | behind _ _ a | absent a => decidableMovable a
  | call _ => isFalse id
  | empty | fail | set _ | folded _ | anchor _ | keep => isTrue trivial

end Highlighting.Regex

namespace Highlighting.Pattern

open Regex

/-- A called group matches alike in two expressions that have the same groups, if neither
it nor any of them calls the whole. -/
theorem called_congr (s : Subject) {p q : Program} (hnames : p.names = q.names)
    (hgroups : ∀ n, p.root.groupBody? n = q.root.groupBody? n)
    (hwhole : ∀ target ∈ q.root.calls, target ≠ .number 0) (depth : Nat) {target : GroupRef}
    (ht : target ≠ .number 0) : called s p depth target = called s q depth target := by
  induction depth generalizing target with
  | zero => rfl
  | succ depth ih =>
    have hbody : body? p target = body? q target := by
      unfold body?
      split
      · exact absurd rfl ht
      · exact hgroups _
      · simp only [hnames, hgroups]
    rw [called, called, hbody]
    rcases hr : body? q target with _ | r
    · rfl
    have hcalls : ∀ t ∈ r.calls, t ≠ .number 0 := by
      unfold body? at hr
      split at hr
      · exact absurd rfl ht
      · exact (hereditary_calls _).groupBody? hwhole hr
      · obtain ⟨n, _, hn⟩ := Option.bind_eq_some_iff.mp hr
        exact (hereditary_calls _).groupBody? hwhole hn
    have hgroup : ∀ n, matcher s (called s p depth) (.group n r) = matcher s (called s q depth) (.group n r) :=
      fun n => matcher_congr s fun t hcalled => ih (hcalls t hcalled)
    rcases target with (_ | n) | name
    · exact absurd rfl ht
    · exact hgroup _
    · simp only [hnames, hgroup]

/-- A pattern that does not call its whole matches alike as a part of one that has the same
groups. -/
theorem matcher_part {p q : Pattern} (hcount : p.program.groups = q.program.groups)
    (hnames : p.program.names = q.program.names)
    (hgroups : ∀ n, p.program.root.groupBody? n = q.program.root.groupBody? n)
    (hwhole : ∀ target ∈ q.program.root.calls, target ≠ .number 0) (s : Subject) (pos : Nat) :
    matcher s (called s p.program ((s.text.size + 1) * (p.program.groups + 1) + 1)) q.program.root
      ⟨pos, pos, []⟩ some = q.matchFrom s pos := by
  rw [matcher_congr s fun target ht => called_congr s hnames hgroups hwhole _ (hwhole target ht), hcount]
  rfl

end Highlighting.Pattern

namespace Highlighting

open Regex (Cursor length_names_le matcher_append ne_nil_of_settled ne_nil_of_readBranches
  settle_append_eq_ok shift_zero groupBody?_append hereditary_calls hereditary_hasGroup
  hereditary_movable)

/-! ## Texts that add branches -/

/-- What the reader makes of the rest of a text, if that is a pattern up to its end. -/
def Regex.readAll (anyCase : Bool) (cur : Cursor) : Option (List Regex × Cursor) :=
  (Regex.readBranches (4 * cur.rest.length + 4) { anyCase := anyCase } cur).toOption.filter
    (·.2.rest.isEmpty)

theorem readAll_eq_some {anyCase : Bool} {cur cur' : Cursor} {branches : List Regex} :
    Regex.readAll anyCase cur = some (branches, cur') ↔
      Regex.readBranches (4 * cur.rest.length + 4) { anyCase := anyCase } cur = .ok (branches, cur') ∧
        cur'.rest = [] := by
  rw [Regex.readAll, Option.filter_eq_some_iff, List.isEmpty_iff]
  rcases Regex.readBranches (4 * cur.rest.length + 4) { anyCase := anyCase } cur with e | x
  · simp [Except.toOption]
  · simp [Except.toOption]

/-- Branches behind a bar call no group, or only groups of their own, of which there are no
others. -/
def CallsOwnGroups (fronts bases : List Regex) (groups : Nat) : Prop :=
  (∀ r ∈ bases, r.Movable) ∨ groups = 0 ∧ (∀ r ∈ fronts, r.hasGroup = false) ∧
    ∀ r ∈ bases, ∀ target ∈ r.calls, target ≠ .number 0

instance CallsOwnGroups.decidable (fronts bases : List Regex) (groups : Nat) :
    Decidable (CallsOwnGroups fronts bases groups) := inferInstanceAs (Decidable (_ ∨ _))

/-- The text `front` and a bar add the branches `fronts` to the branches `bases` of
`base`. The reader stands at `cur` behind the one text and at `cur₁` behind the other, and
at `cur₂` behind both. -/
structure Adds (front base : String) (anyCase : Bool) (fronts bases : List Regex)
    (cur cur₁ cur₂ : Cursor) : Prop where
  /-- The text in front is a pattern by itself, so that the bar separates branches. -/
  readsFront : Regex.readAll anyCase { rest := front.toList } = some (fronts, cur)
  /-- No option is left on at the bar. -/
  keeps : Regex.keepsOptions front.toList = true
  readsBase : Regex.readAll anyCase { rest := base.toList } = some (bases, cur₁)
  /-- The branches behind the bar refer to their own groups as they do by themselves. -/
  readsBehind : Regex.readAll anyCase ⟨base.toList, cur.groups, cur.names⟩ =
    some (bases.map (Regex.shift cur.groups), cur₂)
  groups : cur₂.groups = cur₁.groups + cur.groups
  calls : CallsOwnGroups fronts bases cur.groups

/-- The text and a bar only add branches to the pattern behind them. -/
def AddsBranches (front base : String) (anyCase : Bool) : Prop :=
  ∃ fronts bases cur cur₁ cur₂, Adds front base anyCase fronts bases cur cur₁ cur₂

/-- Whether the text and a bar only add branches. -/
def addsBranches (front base : String) (anyCase : Bool) : Bool :=
  Regex.keepsOptions front.toList &&
    (Regex.readAll anyCase { rest := front.toList }).any fun (fronts, cur) =>
      (Regex.readAll anyCase { rest := base.toList }).any fun (bases, cur₁) =>
        (Regex.readAll anyCase ⟨base.toList, cur.groups, cur.names⟩).any fun (behind, cur₂) =>
          behind = bases.map (Regex.shift cur.groups) && cur₂.groups = cur₁.groups + cur.groups &&
            decide (CallsOwnGroups fronts bases cur.groups)

theorem addsBranches_iff {front base : String} {anyCase : Bool} :
    addsBranches front base anyCase = true ↔ AddsBranches front base anyCase := by
  simp only [addsBranches, Bool.and_eq_true, Option.any_eq_true, Prod.exists, decide_eq_true_eq]
  constructor
  · rintro ⟨hkeeps, fronts, cur, hfront, bases, cur₁, hbase, _, cur₂, hbehind, ⟨rfl, hgroups⟩, hcalls⟩
    exact ⟨fronts, bases, cur, cur₁, cur₂, hfront, hkeeps, hbase, hbehind, hgroups, hcalls⟩
  · rintro ⟨fronts, bases, cur, cur₁, cur₂, h⟩
    exact ⟨h.keeps, fronts, cur, h.readsFront, bases, cur₁, h.readsBase, _, cur₂, h.readsBehind,
      ⟨rfl, h.groups⟩, h.calls⟩

instance AddsBranches.decidable (front base : String) (anyCase : Bool) :
    Decidable (AddsBranches front base anyCase) := decidable_of_iff _ addsBranches_iff

/-! ## Patterns with more branches -/

/-- The first pattern tries the branches `fronts`, and then the second one with its groups
moved by `off`. -/
structure Prepends (p q : Pattern) (fronts : List Regex) (off : Nat) : Prop where
  nonempty : fronts ≠ []
  root : ∃ backs, backs ≠ [] ∧ p.program.root = .ofBranches (fronts ++ backs) ∧
    Regex.ofBranches backs = q.program.root.shift off

/-- The longer pattern matches where the moved expression of the shorter one does. -/
theorem Prepends.matchesAt {p q : Pattern} {fronts : List Regex} {off : Nat}
    (h : Prepends p q fronts off) {text : Array Char} {pos : Nat} (hpos : pos ≤ text.size)
    (hmatch : (Regex.matcher ⟨text, pos⟩
      (Pattern.called ⟨text, pos⟩ p.program ((text.size + 1) * (p.program.groups + 1) + 1))
      (q.program.root.shift off) ⟨pos, pos, []⟩ some).isSome = true) :
    p.matchesAt text pos = true := by
  obtain ⟨backs, hbacks, hroot, hback⟩ := h.root
  rw [Pattern.matchesAt, Bool.and_eq_true, decide_eq_true_eq]
  refine ⟨hpos, ?_⟩
  rw [Pattern.matchFrom, hroot, matcher_append h.nonempty hbacks, isSome_matcher_alt, hback, hmatch,
    Bool.or_true]

section

variable {front base : String} {anyCase : Bool} {fronts bases : List Regex} {cur cur₁ cur₂ : Cursor}
  {p q : Pattern}

/-- The longer text is read as the branches in front and then those of the shorter one. -/
theorem Adds.prepends (h : Adds front base anyCase fronts bases cur cur₁ cur₂)
    (hp : Pattern.ofSource (front ++ "|" ++ base) anyCase = .ok p)
    (hq : Pattern.ofSource base anyCase = .ok q) :
    (∃ as, fronts.mapM (Regex.settle cur₂.groups) = .ok as ∧ Prepends p q as cur.groups) ∧
      p.program.groups = cur₂.groups ∧ p.program.names = cur₂.names := by
  obtain ⟨hfront, hrest⟩ := readAll_eq_some.mp h.readsFront
  obtain ⟨hbehind, _⟩ := readAll_eq_some.mp h.readsBehind
  obtain ⟨hbase, _⟩ := readAll_eq_some.mp h.readsBase
  have hboth := readBranches_joins hfront hrest h.keeps hbehind
  obtain ⟨branches, cur', hlong⟩ := readsAs_of_ofSource hp
  obtain ⟨branches', cur₁', hshort⟩ := readsAs_of_ofSource hq
  cases hlong.read.symm.trans hboth
  cases hshort.read.symm.trans hbase
  obtain ⟨as, bs, has, hbs, hroot⟩ := settle_append_eq_ok.mp hlong.root
  have hmoved := Alternation.settle_shift cur.groups h.groups.ge hshort.root
  rw [Alternation.shift_ofBranches, Regex.settle_branches, hbs] at hmoved
  refine ⟨⟨as, has, ne_nil_of_settled has (ne_nil_of_readBranches hfront), bs, ?_, hroot.symm, ?_⟩,
    hlong.groups, hlong.names⟩
  · exact ne_nil_of_settled hbs (by simpa using ne_nil_of_readBranches hbase)
  · exact Except.ok.inj hmoved

/-- Behind no groups the shorter text is read as by itself. -/
theorem Adds.cursor_eq (h : Adds front base anyCase fronts bases cur cur₁ cur₂)
    (hzero : cur.groups = 0) : cur₂ = cur₁ := by
  have hnames := length_names_le (readAll_eq_some.mp h.readsFront).1
  rw [hzero] at hnames
  have hbehind := h.readsBehind
  rw [hzero, List.eq_nil_of_length_eq_zero (Nat.le_zero.mp hnames), h.readsBase] at hbehind
  exact (Prod.mk.inj (Option.some.inj hbehind)).2.symm

/-- Where the shorter pattern matches, the longer one does. -/
theorem Adds.matchesAt (h : Adds front base anyCase fronts bases cur cur₁ cur₂)
    (hp : Pattern.ofSource (front ++ "|" ++ base) anyCase = .ok p)
    (hq : Pattern.ofSource base anyCase = .ok q) {text : Array Char} {pos : Nat}
    (hmatch : q.matchesAt text pos = true) : p.matchesAt text pos = true := by
  obtain ⟨⟨as, has, hprepends⟩, hgroups, hnames⟩ := h.prepends hp hq
  obtain ⟨branches, cur', hshort⟩ := readsAs_of_ofSource hq
  obtain ⟨hbase, _⟩ := readAll_eq_some.mp h.readsBase
  cases hshort.read.symm.trans hbase
  rw [Pattern.matchesAt, Bool.and_eq_true, decide_eq_true_eq] at hmatch
  refine hprepends.matchesAt hmatch.1 ?_
  rcases h.calls with hmovable | ⟨hzero, hgroupless, hwhole⟩
  · have hroot := hereditary_movable.settle (hereditary_movable.ofBranches hmovable) hshort.root
    rw [isSome_matcher_shift hroot]
    exact hmatch.2
  · -- Nothing is moved, and a group that is called is the same in both patterns.
    obtain ⟨backs, hbacks, hroot, hback⟩ := hprepends.root
    obtain rfl := h.cursor_eq hzero
    rw [hzero, shift_zero] at hback ⊢
    have hnone : ∀ a ∈ as, a.hasGroup = false := by
      intro a ha
      obtain ⟨r, hr, hsettle⟩ := mapM_mem has ha
      exact hereditary_hasGroup.settle (hgroupless r hr) hsettle
    have hbodies : ∀ n, p.program.root.groupBody? n = q.program.root.groupBody? n := by
      intro n
      rw [hroot, groupBody?_append hnone hbacks, hback]
    have hcalls := (hereditary_calls _).settle ((hereditary_calls _).ofBranches hwhole) hshort.root
    rw [Pattern.matcher_part (hgroups.trans hshort.groups.symm) (hnames.trans hshort.names.symm) hbodies hcalls]
    exact hmatch.2

end

/-! ## Ends that extend others -/

/-- An end extends another if it is that end, or a text, a bar and that end. -/
theorem extendsEnd_iff_front {source base : String} :
    extendsEnd source base = true ↔
      source = base ∨ base ≠ "" ∧ ∃ front, source = front ++ "|" ++ base := by
  rw [extendsEnd_iff]
  refine or_congr_right (and_congr_right fun _ => ⟨?_, ?_⟩)
  · rintro ⟨front, hfront⟩
    refine ⟨String.ofList front, String.toList_injective ?_⟩
    simpa [String.toList_append] using hfront.symm
  · rintro ⟨front, rfl⟩
    exact ⟨front.toList, by simp [String.toList_append]⟩

/-- What stands in front of the base in the source, if anything, only adds branches. -/
def OnlyAddsBranches (source base : String) (anyCase : Bool) : Prop :=
  ∀ front, source = front ++ "|" ++ base → AddsBranches front base anyCase

/-- If the two texts are patterns, then the first is the second with more branches in front,
and it matches wherever the second does. -/
structure Covers (source base : String) (anyCase : Bool) : Prop where
  reads : ∀ p q, Pattern.ofSource source anyCase = .ok p → Pattern.ofSource base anyCase = .ok q →
    p = q ∨ ∃ fronts off, Prepends p q fronts off
  meets : ∀ p q, Pattern.ofSource source anyCase = .ok p → Pattern.ofSource base anyCase = .ok q →
    ∀ text pos, q.matchesAt text pos = true → p.matchesAt text pos = true

theorem onlyAddsBranches_of_adds {front base : String} {anyCase : Bool}
    (h : AddsBranches front base anyCase) : OnlyAddsBranches (front ++ "|" ++ base) base anyCase := by
  intro front' hfront'
  have hlists := congrArg String.toList hfront'
  rw [toList_bar, toList_bar] at hlists
  rwa [← String.toList_injective (List.append_cancel_right hlists)]

/-- An end that extends another covers it, if it only adds branches. -/
theorem covers_of_extendsEnd {source base : String} {anyCase : Bool}
    (h : extendsEnd source base = true) (hadds : OnlyAddsBranches source base anyCase) :
    Covers source base anyCase := by
  rcases extendsEnd_iff_front.mp h with rfl | ⟨_, front, rfl⟩
  · have hsame : ∀ p q, Pattern.ofSource source anyCase = .ok p →
        Pattern.ofSource source anyCase = .ok q → p = q := fun _ _ hp hq => Except.ok.inj (hp.symm.trans hq)
    exact ⟨fun p q hp hq => .inl (hsame p q hp hq), fun p q hp hq _ _ hmatch => hsame p q hp hq ▸ hmatch⟩
  · obtain ⟨_, _, _, _, _, hall⟩ := hadds front rfl
    refine ⟨fun p q hp hq => .inr ?_, fun p q hp hq _ _ hmatch => hall.matchesAt hp hq hmatch⟩
    obtain ⟨⟨as, _, hprepends⟩, _⟩ := hall.prepends hp hq
    exact ⟨as, _, hprepends⟩

/-- The indices are those of a copy of the name that is being linked, and one of its modes
ends in `base`. -/
def Arena.OpenAs (a : Arena) (name : String) (expanded : Bool) (ids : List Nat) (base : String) : Prop :=
  ∃ r ∈ a.linking, r.name = name ∧ r.expanded = expanded ∧ r.ids = ids ∧
    ∃ id ∈ ids, ∃ m, a.modes[id]? = some m ∧ m.terminatorEnd = base

/-- Where an end extends another and only adds branches, it is that one with more branches
in front, and matches wherever it does. A copy that stands for a reference again is being
linked, and the end around the reference is that of the copy, or a text, a bar and that. If
these only add branches, it matches wherever the end of the copy does. -/
theorem ends_that_add_branches_match_where_their_bases_do (anyCase : Bool) :
    (∀ source base, extendsEnd source base = true → OnlyAddsBranches source base anyCase →
      Covers source base anyCase) ∧
    ∀ (a : Arena) name expanded under ids, a.enclosing? name expanded under = some ids →
      ∃ source base, under = some source ∧ a.OpenAs name expanded ids base ∧
        (source = base ∨ base ≠ "" ∧ ∃ front, source = front ++ "|" ++ base) ∧
        (OnlyAddsBranches source base anyCase → Covers source base anyCase) := by
  refine ⟨fun _ _ => covers_of_extendsEnd, ?_⟩
  intro a name expanded under ids h
  obtain ⟨source, r, rfl, hr, hname, hexpanded, rfl, id, hid, m, hm, hextends⟩ := enclosing?_eq_some h
  exact ⟨source, m.terminatorEnd, rfl, ⟨r, hr, hname, hexpanded, rfl, id, hid, m, hm, rfl⟩,
    extendsEnd_iff_front.mp hextends, covers_of_extendsEnd hextends⟩

/-- What stands in quotes, with a name for the quote. -/
def namedQuotes : String := "(?<quote>['\"])(?:\\\\.|[^\\\\])*?\\k<quote>"

/-- Parentheses that match. -/
def nestedParens : String := "(\\((?:[^()]|\\g<1>)*\\))"

/-- A value, which ends with what stands in quotes or with the mode around it. -/
def quotingValue : Mode where
  begins := some "="
  ends := some namedQuotes
  endsWithParent := true

/-- The value is being linked. -/
def valueArena (value : CompiledMode) : Arena where
  modes := #[value]
  linking := [⟨"value", true, [0]⟩]

theorem eq_of_openAs_valueArena {value : CompiledMode} {base : String}
    (h : (valueArena value).OpenAs "value" true [0] base) : value.terminatorEnd = base := by
  obtain ⟨r, _, _, _, _, id, hid, m, hm, hbase⟩ := h
  rw [List.mem_singleton] at hid
  subst hid
  cases hm
  exact hbase

theorem quotes_and_parens_are_met_in_longer_ends :
    (∃ p q, Pattern.ofSource ("\\]|;" ++ "|" ++ nestedParens) false = .ok p ∧
      Pattern.ofSource nestedParens false = .ok q ∧
      ∀ text pos, q.matchesAt text pos = true → p.matchesAt text pos = true) ∧
    ∃ c, quotingValue.prepare false (some "") = .ok c ∧
      (valueArena c).enclosing? "value" true (some (listEnd ++ "|" ++ namedQuotes)) = some [0] ∧
      (valueArena c).OpenAs "value" true [0] namedQuotes ∧
      Covers (listEnd ++ "|" ++ namedQuotes) namedQuotes false := by
  obtain ⟨p, hp⟩ := exists_of_isOk
    (show (Pattern.ofSource ("\\]|;" ++ "|" ++ nestedParens) false).isOk = true by decide +kernel)
  obtain ⟨q, hq⟩ := exists_of_isOk (show (Pattern.ofSource nestedParens false).isOk = true by decide +kernel)
  have hparens : OnlyAddsBranches ("\\]|;" ++ "|" ++ nestedParens) nestedParens false :=
    onlyAddsBranches_of_adds (by decide +kernel)
  have hquotes : OnlyAddsBranches (listEnd ++ "|" ++ namedQuotes) namedQuotes false :=
    onlyAddsBranches_of_adds (by decide +kernel)
  obtain ⟨c, hc⟩ := exists_of_isOk
    (show (quotingValue.prepare false (some "")).isOk = true by decide +kernel)
  have hend : c.terminatorEnd = namedQuotes := (prepare_prepared hc).terminatorEnd
  have hfound : (valueArena c).enclosing? "value" true (some (listEnd ++ "|" ++ namedQuotes)) =
      some [0] := by
    have hextends : extendsEnd (listEnd ++ "|" ++ namedQuotes) namedQuotes = true := by decide +kernel
    simp [Arena.enclosing?, valueArena, hend, hextends]
  obtain ⟨source, base, hsource, hopen, _, hmatches⟩ :=
    (ends_that_add_branches_match_where_their_bases_do false).2 _ _ _ _ _ hfound
  cases hsource
  obtain rfl : namedQuotes = base := hend.symm.trans (eq_of_openAs_valueArena hopen)
  have hcovers := (ends_that_add_branches_match_where_their_bases_do false).1 _ _
    (show extendsEnd ("\\]|;" ++ "|" ++ nestedParens) nestedParens = true by decide +kernel) hparens
  exact ⟨⟨p, q, hp, hq, hcovers.meets p q hp hq⟩, c, hc, hfound, hopen, hmatches hquotes⟩

/-- The first end extends the second, both are patterns, and at the place in the text only
the second matches. -/
def ExtendsTextOnly (source base : String) (text : Array Char) (pos : Nat) : Prop :=
  extendsEnd source base = true ∧ ∃ p, Pattern.ofSource source false = .ok p ∧
    ∃ q, Pattern.ofSource base false = .ok q ∧ q.matchesAt text pos = true ∧
      p.matchesAt text pos = false

instance ExtendsTextOnly.decidable (source base : String) (text : Array Char) (pos : Nat) :
    Decidable (ExtendsTextOnly source base text pos) :=
  decidable_of_iff (extendsEnd source base = true ∧
    ((Pattern.ofSource source false).toOption.any fun p =>
      (Pattern.ofSource base false).toOption.any fun q =>
        q.matchesAt text pos && !p.matchesAt text pos) = true) (by
    simp only [ExtendsTextOnly, toOption_any_eq_true, Bool.and_eq_true, Bool.not_eq_true'])

/-- Parentheses and brackets that stand in one another. Before the sign that closes a
bracket there is a bar. -/
def barredBrackets : Grammar where
  definitions := [
    ("paren", {
      begins := some "\\(", ends := some "\\)", endsWithParent := true
      contains := [.named "bracket"] }),
    ("bracket", { begins := some "\\[", ends := some "\\|\\)", contains := [.named "paren"] })]
  root := { contains := [.named "paren"] }

/-- A bar in the text need not separate branches: it is escaped, it stands in a class, in a
comment or in the group of an option. Groups in front change what a number, a code or a
call means, and more branches change what the whole is that is called. So a bracket, whose
end is not met where a parenthesis ends, holds the copy of the parenthesis around it. -/
theorem bars_that_separate_no_branches :
    ExtendsTextOnly "\\|a" "a" #['a'] 0 ∧
    ExtendsTextOnly "[^a|b]" "b]" #['b', ']'] 0 ∧
    ExtendsTextOnly "x(?#|(a)" "(a)" #['a'] 0 ∧
    ExtendsTextOnly "x(?i)y|a" "a" #['a'] 0 ∧
    ExtendsTextOnly "(x)|(a)\\1" "(a)\\1" #['a', 'a'] 0 ∧
    ExtendsTextOnly "()()()()()()()()()()x|\\10" "\\10" #['\x08'] 0 ∧
    ExtendsTextOnly "(x)|(a)\\g<1>" "(a)\\g<1>" #['a', 'a'] 0 ∧
    ExtendsTextOnly "x|a(?!\\g<0>)x" "a(?!\\g<0>)x" #['a', 'x'] 0 ∧
    ∃ l, compile barredBrackets = .ok l ∧ l.modes.toList.map (·.contains) = [[1], [2], [1]] ∧
      l.modes.toList.map (·.terminatorEnd) = ["", "\\)", "\\|\\)"] ∧
      ExtendsTextOnly "\\|\\)" "\\)" #[')'] 0 := by
  have hgrammar : ((compileWithin barredBrackets 9).toOption.any fun l =>
      l.modes.toList.map (·.contains) == [[1], [2], [1]] &&
      l.modes.toList.map (·.terminatorEnd) == ["", "\\)", "\\|\\)"]) = true := by
    decide +kernel
  obtain ⟨l, hl, hmodes⟩ := compile_of_any hgrammar
  rw [Bool.and_eq_true, beq_iff_eq, beq_iff_eq] at hmodes
  refine ⟨?_, ?_, ?_, ?_, ?_, ?_, ?_, ?_, l, hl, hmodes.1, hmodes.2, ?_⟩
  all_goals decide +kernel

end Highlighting
