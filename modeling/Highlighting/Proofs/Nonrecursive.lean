-- Grammars whose definitions are not recursive. The names in a definition lead
-- away from it, so no mode is met below its own copy, and whether a definition
-- depends on its parent can be read off its continuations. Such a grammar is
-- faithful.
import Highlighting.Proofs.ModeOrigins

namespace Highlighting

/-! ## Names -/

mutual

/-- The names in a mode, at any depth. -/
def Mode.names : Mode → List String
  | { contains, variants, starts, .. } =>
    namesOfAll contains ++ namesOfVariants variants ++ namesOfStarts starts

/-- The names in a reference. -/
def ModeRef.names : ModeRef → List String
  | .named name => [name]
  | .inline m => m.names

/-- The names in references. -/
def namesOfAll : List ModeRef → List String
  | [] => []
  | r :: rs => r.names ++ namesOfAll rs

/-- The names in variants. -/
def namesOfVariants : List Mode → List String
  | [] => []
  | m :: ms => m.names ++ namesOfVariants ms

/-- The names in what follows a mode. -/
def namesOfStarts : Option ModeRef → List String
  | none => []
  | some r => r.names

end

theorem mem_namesOfAll {rs : List ModeRef} {k : String} :
    k ∈ namesOfAll rs ↔ ∃ r ∈ rs, k ∈ r.names := by
  induction rs with
  | nil => simp [namesOfAll]
  | cons r rs ih => simp [namesOfAll, ih]

theorem mem_namesOfVariants {ms : List Mode} {k : String} :
    k ∈ namesOfVariants ms ↔ ∃ m ∈ ms, k ∈ m.names := by
  induction ms with
  | nil => simp [namesOfVariants]
  | cons m ms ih => simp [namesOfVariants, ih]

theorem mem_namesOfStarts {o : Option ModeRef} {k : String} :
    k ∈ namesOfStarts o ↔ ∃ r, o = some r ∧ k ∈ r.names := by
  cases o <;> simp [namesOfStarts]

/-- A name in a mode is in what it contains, in a variant, or in what follows. -/
theorem mem_names {m : Mode} {k : String} :
    k ∈ m.names ↔ (∃ r ∈ m.contains, k ∈ r.names) ∨ (∃ v ∈ m.variants, k ∈ v.names) ∨
      ∃ r, m.starts = some r ∧ k ∈ r.names := by
  cases m
  simp [Mode.names, mem_namesOfAll, mem_namesOfVariants, mem_namesOfStarts]

/-- An instance is the mode without its variants or, expanded, the mode that has none
or the mode with one of its variants put over it. -/
theorem mem_instances_iff {m i : Mode} {expanded : Bool} :
    i ∈ m.instances expanded ↔ expanded = false ∧ i = m.withoutVariants ∨
      expanded = true ∧ (m.variants = [] ∧ i = m ∨ ∃ v ∈ m.variants, i = m.inherit v) := by
  unfold Mode.instances Mode.expand
  cases expanded with
  | false => simp
  | true =>
    rcases hvariants : m.variants with _ | ⟨v, vs⟩
    · simp
    · simp [eq_comm]

/-- An instance has no names of its own. -/
theorem names_instance {d i : Mode} {expanded : Bool} (hi : i ∈ d.instances expanded) :
    i.names ⊆ d.names := by
  intro k hk
  rcases mem_instances_iff.mp hi with ⟨_, rfl⟩ | ⟨_, ⟨_, rfl⟩ | ⟨v, hv, rfl⟩⟩
  · rw [mem_names] at hk ⊢
    rcases hk with hk | ⟨v, hv, _⟩ | hk
    · exact .inl hk
    · cases hv
    · exact .inr (.inr hk)
  · exact hk
  · rw [mem_names] at hk ⊢
    rcases hk with ⟨r, hr, hk⟩ | ⟨v', hv', _⟩ | ⟨r, hr, hk⟩
    · unfold Mode.inherit at hr
      simp only at hr
      split at hr
      · exact .inl ⟨r, hr, hk⟩
      · exact .inr (.inl ⟨v, hv, mem_names.mpr (.inl ⟨r, hr, hk⟩)⟩)
    · cases hv'
    · unfold Mode.inherit at hr
      simp only at hr
      rcases hs : v.starts with _ | r'
      · rw [hs] at hr
        exact .inr (.inr ⟨r, hr, hk⟩)
      · rw [hs] at hr
        cases hr
        exact .inr (.inl ⟨v, hv, mem_names.mpr (.inr (.inr ⟨_, hs, hk⟩))⟩)

/-! ## Where names lead -/

namespace Grammar

/-- The second name stands in what the first one names. -/
def Leads (g : Grammar) (name other : String) : Prop :=
  ∃ d, g.lookup? name = some d ∧ other ∈ d.names ∧ other ≠ selfName

/-- The mode that follows a mode, other than itself. -/
def next? (g : Grammar) (m : Mode) : Option Mode := m.starts.bind g.target?

/-- The mode after so many hops along a chain of continuations. -/
def hops (g : Grammar) : Nat → Mode → Option Mode
  | 0, m => some m
  | n + 1, m => (g.next? m).bind (g.hops n)

/-- No definition reaches itself, its variants change neither how it ends nor
what follows it, and no chain of continuations is longer than what is looked at. -/
structure Nonrecursive (g : Grammar) : Prop where
  apart : ∀ p ∈ g.definitions, ¬ Relation.TransGen g.Leads p.1 p.1
  variants : ∀ p ∈ g.definitions, ∀ v ∈ p.2.variants, v.endsWithParent = false ∧ v.starts = none
  chains : ∀ p ∈ g.definitions, g.hops continuationLimit p.2 = none

end Grammar

/-! ### Common modes -/

/-- A common mode stands alone. -/
theorem commonMode_alone {name : String} {m : Mode} (h : CommonMode.find? name = some m) :
    m.names = [] ∧ m.variants = [] ∧ m.starts = none ∧ m.endsWithParent = false := by
  unfold CommonMode.find? at h
  obtain ⟨before, after, heq, _⟩ := List.lookup_eq_some_iff.mp h
  have hmem : (name, m) ∈ CommonMode.all := heq ▸ List.mem_append_right before List.mem_cons_self
  have hall : ∀ p ∈ CommonMode.all, p.2.names = [] ∧ p.2.variants = [] ∧ p.2.starts = none ∧
      p.2.endsWithParent = false := by
    intro p hp
    simp only [CommonMode.all, List.mem_cons, List.not_mem_nil, or_false] at hp
    rcases hp with rfl | rfl | rfl | rfl | rfl | rfl | rfl | rfl | rfl | rfl | rfl | rfl | rfl | rfl |
      rfl | rfl <;> exact ⟨rfl, rfl, rfl, rfl⟩
  exact hall _ hmem

/-- What a name stands for is a definition or a common mode. -/
theorem lookup?_cases {g : Grammar} {name : String} {d : Mode} (h : g.lookup? name = some d) :
    (name, d) ∈ g.definitions ∨ CommonMode.find? name = some d := by
  unfold Grammar.lookup? at h
  rcases hl : g.definitions.lookup name with _ | d'
  · rw [hl] at h
    exact .inr h
  · rw [hl] at h
    cases h
    obtain ⟨before, after, heq, _⟩ := List.lookup_eq_some_iff.mp hl
    exact .inl (heq ▸ List.mem_append_right before List.mem_cons_self)

section

variable {g : Grammar} (hg : g.Nonrecursive)

include hg

/-- No name reaches itself, that of a common mode included. -/
theorem not_leads_back (name : String) : ¬ Relation.TransGen g.Leads name name := by
  intro h
  obtain ⟨other, ⟨d, hd, hother, _⟩, _⟩ := Relation.TransGen.head'_iff.mp h
  rcases lookup?_cases hd with hmem | hcommon
  · exact hg.apart _ hmem h
  · rw [(commonMode_alone hcommon).1] at hother
    cases hother

/-- An instance ends like what it is an instance of, and the same follows it. -/
theorem instance_follows {name : String} {d i : Mode} (hd : g.lookup? name = some d)
    {expanded : Bool} (hi : i ∈ d.instances expanded) :
    i.endsWithParent = d.endsWithParent ∧ i.starts = d.starts := by
  have hvariants : ∀ v ∈ d.variants, v.endsWithParent = false ∧ v.starts = none := by
    rcases lookup?_cases hd with hmem | hcommon
    · exact hg.variants _ hmem
    · rw [(commonMode_alone hcommon).2.1]
      intro v hv
      cases hv
  rcases mem_instances_iff.mp hi with ⟨_, rfl⟩ | ⟨_, ⟨_, rfl⟩ | ⟨v, hv, rfl⟩⟩
  · exact ⟨rfl, rfl⟩
  · exact ⟨rfl, rfl⟩
  · obtain ⟨hends, hstarts⟩ := hvariants v hv
    simp [Mode.inherit, hends, hstarts]

end

/-! ## Depending on the parent -/

/-- The look at a chain of continuations goes from one mode to the next. -/
theorem dependsOnParentWithin_succ (g : Grammar) (n : Nat) (m : Mode) :
    g.dependsOnParentWithin (n + 1) m =
      (m.endsWithParent || (g.next? m).any (g.dependsOnParentWithin n)) := by
  unfold Grammar.dependsOnParentWithin Grammar.next?
  congr 1
  rcases m.starts with _ | r
  · rfl
  · cases r with
    | inline d => rfl
    | named name =>
      simp only [Option.bind_some, Grammar.target?]
      split
      · rfl
      · rcases g.lookup? name with _ | d <;> rfl

/-- Along a chain that ends in time the look tells right. -/
theorem not_inherits_of_independent {g : Grammar} {n : Nat} {m : Mode} (hends : g.hops n m = none)
    (h : g.dependsOnParentWithin n m = false) : ¬ g.Inherits m := by
  induction n generalizing m with
  | zero => cases hends
  | succ n ih =>
    rw [dependsOnParentWithin_succ, Bool.or_eq_false_iff] at h
    obtain ⟨hself, hrest⟩ := h
    intro hinherits
    cases hinherits with
    | ends h => rw [hself] at h; cases h
    | @follows _ next r hr hd hnext =>
      have hnext? : g.next? m = some next := by
        rw [Grammar.next?, hr, Option.bind_some, hd]
      rw [hnext?] at hrest
      rw [Grammar.hops, hnext?] at hends
      exact ih hends hrest hnext

theorem inherits_congr {g : Grammar} {i d : Mode} (hends : i.endsWithParent = d.endsWithParent)
    (hstarts : i.starts = d.starts) (h : g.Inherits i) : g.Inherits d := by
  cases h with
  | ends h => exact .ends (hends ▸ h)
  | follows hr hd h => exact .follows (hstarts ▸ hr) hd h

theorem inherits_of_instance {g : Grammar} {d i : Mode} (hi : i ∈ d.instances false) (h : g.Inherits i) :
    g.Inherits d := by
  unfold Mode.instances at hi
  rw [if_neg (by simp), List.mem_singleton] at hi
  have hends : i.endsWithParent = d.endsWithParent := by rw [hi]; rfl
  have hstarts : i.starts = d.starts := by rw [hi]; rfl
  exact inherits_congr hends hstarts h

/-! ## Below a name -/

theorem lookup?_of_target? {g : Grammar} {name : String} {d : Mode}
    (h : g.target? (.named name) = some d) : name ≠ selfName ∧ g.lookup? name = some d := by
  unfold Grammar.target? at h
  by_cases hself : name = selfName
  · simp [hself] at h
  · simp only [hself, if_false] at h
    exact ⟨hself, h⟩

theorem Origin.Refers.names {o : Origin} {r : ModeRef} {expanded : Bool} {under : Option String}
    (h : o.Refers r expanded under) : ∀ k ∈ r.names, k ∈ o.mode.names := by
  intro k hk
  rw [mem_names]
  cases h with
  | contains hr => exact .inl ⟨r, hr, hk⟩
  | starts hr => exact .inr (.inr ⟨r, hr, hk⟩)

/-- From inside what a name stands for, every name that is met is one to which
it leads. -/
theorem leads_of_below {g : Grammar} {name : String} {d : Mode} {copy o : Origin}
    {expanded : Bool} (hd : g.lookup? name = some d) (hcopy : copy.mode ∈ d.instances expanded)
    (h : Relation.ReflTransGen g.Holds copy o) :
    ∃ near d', Relation.ReflTransGen g.Leads name near ∧ g.lookup? near = some d' ∧
      o.mode.names ⊆ d'.names := by
  induction h with
  | refl => exact ⟨name, d, .refl, hd, names_instance hcopy⟩
  | tail _ hholds ih =>
    obtain ⟨near, d', hleads, hnear, hnames⟩ := ih
    obtain ⟨r, expanded', d'', hr, htarget, hi⟩ := hholds
    have hmentions : r.names ⊆ d'.names := fun k hk => hnames (hr.names k hk)
    cases r with
    | inline m =>
      cases htarget
      exact ⟨near, d', hleads, hnear, fun k hk => hmentions (names_instance hi hk)⟩
    | named other =>
      obtain ⟨hself, hother⟩ := lookup?_of_target? htarget
      have hmem : other ∈ d'.names := hmentions (by simp [ModeRef.names])
      exact ⟨other, d'', hleads.tail ⟨d', hnear, hmem, hself⟩, hother, names_instance hi⟩

/-- A name in a mode that is met stands in the root or in a definition. -/
theorem names_of_meets {g : Grammar} {o : Origin} (h : g.Meets o) {k : String}
    (hk : k ∈ o.mode.names) : k ∈ g.root.names ∨ ∃ p ∈ g.definitions, k ∈ p.2.names := by
  induction h with
  | refl =>
    have hroot : g.root.withoutVariants ∈ g.root.instances false := List.mem_cons_self
    exact .inl (names_instance hroot hk)
  | tail _ hholds ih =>
    obtain ⟨r, expanded, d, hr, htarget, hi⟩ := hholds
    have hd : k ∈ d.names := names_instance hi hk
    cases r with
    | inline m =>
      cases htarget
      exact ih (hr.names k hd)
    | named name =>
      rcases lookup?_cases (lookup?_of_target? htarget).2 with hmem | hcommon
      · exact .inr ⟨_, hmem, hd⟩
      · rw [(commonMode_alone hcommon).1] at hd
        cases hd

/-- A grammar without recursive definitions shares modes only where that is
right. -/
theorem Grammar.Nonrecursive.faithful {g : Grammar} {fits : Origin → Option String → Prop}
    (hg : g.Nonrecursive) : g.Faithful fits where
  independent o name expanded under d i _ _ htarget hdepends hi hinherits := by
    obtain ⟨_, hd⟩ := lookup?_of_target? htarget
    obtain ⟨hends, hstarts⟩ := instance_follows hg hd hi
    refine not_inherits_of_independent ?_ hdepends (inherits_congr hends hstarts hinherits)
    rcases lookup?_cases hd with hmem | hcommon
    · exact hg.chains _ hmem
    · obtain ⟨_, _, hnone, _⟩ := commonMode_alone hcommon
      have hnext : g.next? d = none := by rw [Grammar.next?, hnone, Option.bind_none]
      exact congrArg (·.bind (g.hops 63)) hnext
  reused copy o name expanded under d _ hpath hr htarget _ hcopy _ := by
    obtain ⟨hself, hd⟩ := lookup?_of_target? htarget
    obtain ⟨near, d', hleads, hnear, hnames⟩ := leads_of_below hd hcopy hpath
    have hmem : name ∈ o.mode.names := hr.names name (by simp [ModeRef.names])
    exact absurd (Relation.TransGen.tail' hleads ⟨d', hnear, hnames hmem, hself⟩)
      (not_leads_back hg name)

end Highlighting
