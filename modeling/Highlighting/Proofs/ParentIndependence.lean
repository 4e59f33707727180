-- Whether the end around a mode matters for it is read off the mode as it is
-- defined: whether it ends with its parent, and whether one of the first modes
-- that follow it does. What is compiled are its instances. So the look tells
-- right where the variants bring no end of the parent in, and where nothing
-- ends with the parent further along than is looked. There, resolving a
-- reference is the same under any end, whichever mode asked for it first.
import Highlighting.Proofs.CompileDepths
import Highlighting.Proofs.Nonrecursive

namespace Highlighting

/-! ## Modes under different ends -/

/-- The end of a mode does not tell which end is around it. -/
def Mode.EndsAlike (m : Mode) : Prop := ∀ p q, m.terminatorEnd p = m.terminatorEnd q

theorem endsAlike_iff {m : Mode} : m.EndsAlike ↔ m.endsWithParent = false := by
  constructor
  · intro h
    have hlength := congrArg String.length (h "" "x")
    rcases hends : m.endsWithParent with _ | _
    · rfl
    · -- Under a longer end it becomes longer.
      have hx : "x".length = 1 := rfl
      have hx' : "x".isEmpty = false := rfl
      have hbar : "|".length = 1 := rfl
      rcases hsource : m.endSource with _ | own
      · simp [Mode.terminatorEnd, hends, hsource, hx, hx'] at hlength
      · simp [Mode.terminatorEnd, hends, hsource, hx, hx', hbar] at hlength
        omega
  · intro h p q
    simp [Mode.terminatorEnd, h]

/-- A mode that does not end with its parent is prepared alike under any end. -/
theorem prepare_congr {m : Mode} (h : m.endsWithParent = false) (anyCase : Bool) (p q : String) :
    m.prepare anyCase (some p) = m.prepare anyCase (some q) := by
  unfold Mode.prepare
  simp only [endsAlike_iff.mpr h p q]

/-! ## Chains of continuations -/

namespace Grammar

/-- The second mode is on the chain of continuations of the first, which is the
first mode on it. -/
def Follows (g : Grammar) (m n : Mode) : Prop := ∃ k, g.hops k m = some n

end Grammar

section

variable {g : Grammar}

theorem next?_of_starts {m : Mode} {r : ModeRef} (h : m.starts = some r) :
    g.next? m = g.target? r := by
  rw [Grammar.next?, h, Option.bind_some]

theorem hops_add (j k : Nat) (m : Mode) : g.hops (j + k) m = (g.hops j m).bind (g.hops k) := by
  induction j generalizing m with
  | zero => simp [Grammar.hops]
  | succ j ih =>
    rw [Nat.add_right_comm, Grammar.hops, Grammar.hops]
    rcases g.next? m with _ | next
    · rfl
    · exact ih next

/-- The end around a mode matters if it does for the mode itself or for the next. -/
theorem inherits_iff_next {m : Mode} :
    g.Inherits m ↔ m.endsWithParent = true ∨ ∃ next, g.next? m = some next ∧ g.Inherits next := by
  constructor
  · intro h
    cases h with
    | ends h => exact .inl h
    | follows hr hd h => exact .inr ⟨_, (next?_of_starts hr).trans hd, h⟩
  · rintro (h | ⟨next, hnext, h⟩)
    · exact .ends h
    · obtain ⟨r, hr, hd⟩ := Option.bind_eq_some_iff.mp hnext
      exact .follows hr hd h

theorem inherits_of_hops {k : Nat} {m n : Mode} (hk : g.hops k m = some n) (h : g.Inherits n) :
    g.Inherits m := by
  induction k generalizing m with
  | zero =>
    cases hk
    exact h
  | succ k ih =>
    obtain ⟨next, hnext, hk⟩ := Option.bind_eq_some_iff.mp hk
    exact inherits_iff_next.mpr (.inr ⟨next, hnext, ih hk⟩)

theorem inherits_iff_follows {m : Mode} :
    g.Inherits m ↔ ∃ n, g.Follows m n ∧ n.endsWithParent = true := by
  constructor
  · intro h
    induction h with
    | @ends m h => exact ⟨m, ⟨0, rfl⟩, h⟩
    | follows hr hd _ ih =>
      obtain ⟨n, ⟨k, hk⟩, hn⟩ := ih
      refine ⟨n, ⟨k + 1, ?_⟩, hn⟩
      rw [Grammar.hops, next?_of_starts hr, hd, Option.bind_some, hk]
  · rintro ⟨n, ⟨k, hk⟩, hn⟩
    exact inherits_of_hops hk (.ends hn)

/-- The ends on a chain do not tell which end is around it if that does not
matter for the mode at its head. -/
theorem endsAlike_along_iff {m : Mode} :
    (∀ n, g.Follows m n → n.EndsAlike) ↔ ¬ g.Inherits m := by
  rw [inherits_iff_follows, not_exists]
  refine forall_congr' fun n => ?_
  rw [endsAlike_iff, not_and, Bool.not_eq_true]

/-! ## What the look leaves out -/

/-- What the look finds is there. -/
theorem inherits_of_dependsOnParentWithin {n : Nat} {m : Mode}
    (h : g.dependsOnParentWithin n m = true) : g.Inherits m := by
  induction n generalizing m with
  | zero => cases h
  | succ n ih =>
    rw [dependsOnParentWithin_succ, Bool.or_eq_true, Option.any_eq_true] at h
    rcases h with h | ⟨next, hnext, h⟩
    · exact .ends h
    · exact inherits_iff_next.mpr (.inr ⟨next, hnext, ih h⟩)

/-- Where the look finds nothing, all that matters lies behind its limit. -/
theorem inherits_iff_beyond {n : Nat} {m : Mode} (h : g.dependsOnParentWithin n m = false) :
    g.Inherits m ↔ ∃ far, g.hops n m = some far ∧ g.Inherits far := by
  constructor
  · intro hinherits
    induction n generalizing m with
    | zero => exact ⟨m, rfl, hinherits⟩
    | succ n ih =>
      rw [dependsOnParentWithin_succ, Bool.or_eq_false_iff] at h
      rcases inherits_iff_next.mp hinherits with hends | ⟨next, hnext, hinherits⟩
      · rw [h.1] at hends
        cases hends
      · have hrest := h.2
        rw [hnext, Option.any_some] at hrest
        obtain ⟨far, hfar, hinherits⟩ := ih hrest hinherits
        refine ⟨far, ?_, hinherits⟩
        rw [Grammar.hops, hnext, Option.bind_some, hfar]
  · rintro ⟨far, hfar, hinherits⟩
    exact inherits_of_hops hfar hinherits

/-- A chain that comes back has all its modes in front of the place where it does. -/
theorem hops_lt_of_return {j k : Nat} {m : Mode} (hjk : j < k) (h : g.hops j m = g.hops k m)
    (n : Nat) : ∃ i < k, g.hops i m = g.hops n m := by
  induction n using Nat.strongRecOn with
  | ind n ih =>
    rcases Nat.lt_or_ge n k with hn | hn
    · exact ⟨n, hn, rfl⟩
    · obtain ⟨i, hi, heq⟩ := ih (j + (n - k)) (by omega)
      refine ⟨i, hi, heq.trans ?_⟩
      rw [hops_add, h, ← hops_add, Nat.add_sub_cancel' hn]

theorem dependsOnParentWithin_of_hops {n i : Nat} (hi : i < n) {m far : Mode}
    (hfar : g.hops i m = some far) (hends : far.endsWithParent = true) :
    g.dependsOnParentWithin n m = true := by
  induction n generalizing i m with
  | zero => omega
  | succ n ih =>
    rw [dependsOnParentWithin_succ, Bool.or_eq_true]
    cases i with
    | zero =>
      cases hfar
      exact .inl hends
    | succ i =>
      obtain ⟨next, hnext, hfar⟩ := Option.bind_eq_some_iff.mp hfar
      rw [hnext, Option.any_some]
      exact .inr (ih (by omega) hfar)

/-- On a chain that ends or comes back within the limit, nothing is left out. -/
theorem not_inherits_of_return {n j k : Nat} {m : Mode} (hjk : j < k) (hk : k ≤ n)
    (hreturns : g.hops j m = g.hops k m) (h : g.dependsOnParentWithin n m = false) :
    ¬ g.Inherits m := by
  intro hinherits
  obtain ⟨far, ⟨i, hi⟩, hends⟩ := inherits_iff_follows.mp hinherits
  obtain ⟨i', hi', heq⟩ := hops_lt_of_return hjk hreturns i
  rw [dependsOnParentWithin_of_hops (by omega) (heq.trans hi) hends] at h
  cases h

/-! ## Instances -/

/-- An instance for a variant inherits through the variant, or as the mode does
if the variant says nothing of what follows. -/
theorem inherits_inherit_iff {m v : Mode} (hm : m.endsWithParent = false) :
    g.Inherits (m.inherit v) ↔ g.Inherits v ∨ v.starts = none ∧ g.Inherits m := by
  have hends : (m.inherit v).endsWithParent = v.endsWithParent := by simp [Mode.inherit, hm]
  rw [inherits_iff_next (m := m.inherit v), inherits_iff_next (m := v), inherits_iff_next (m := m),
    hends, hm]
  rcases hv : v.starts with _ | r
  · have hnext : g.next? (m.inherit v) = g.next? m := by simp [Grammar.next?, Mode.inherit, hv]
    have hnone : g.next? v = none := by simp [Grammar.next?, hv]
    simp [hnext, hnone]
  · have hnext : g.next? (m.inherit v) = g.next? v := by simp [Grammar.next?, Mode.inherit, hv]
    simp [hnext]

/-- The mode has an instance that is followed by what follows the mode. -/
def Mode.HandsOver (m : Mode) (expanded : Bool) : Prop :=
  expanded = true → m.variants = [] ∨ ∃ v ∈ m.variants, v.starts = none

/-- The look at a mode leaves nothing out: no variant inherits, and nothing does
that follows the mode behind the limit, if that follows an instance too. -/
structure Grammar.LooksThrough (g : Grammar) (m : Mode) (expanded : Bool) : Prop where
  variants : expanded = true → ∀ v ∈ m.variants, ¬ g.Inherits v
  beyond : m.HandsOver expanded → ∀ far, g.hops continuationLimit m = some far → ¬ g.Inherits far

theorem endsWithParent_of_independent {m : Mode} (h : g.dependsOnParent m = false) :
    m.endsWithParent = false := by
  unfold Grammar.dependsOnParent continuationLimit at h
  rw [dependsOnParentWithin_succ, Bool.or_eq_false_iff] at h
  exact h.1

/-- The instances of a mode that is taken to be independent are so exactly if the
look at the mode leaves nothing out. -/
theorem instances_independent_iff {m : Mode} (h : g.dependsOnParent m = false) (expanded : Bool) :
    (∀ i ∈ m.instances expanded, ¬ g.Inherits i) ↔ g.LooksThrough m expanded := by
  have hm := endsWithParent_of_independent h
  have hbeyond : g.Inherits m ↔ ∃ far, g.hops continuationLimit m = some far ∧ g.Inherits far :=
    inherits_iff_beyond h
  constructor
  · intro hinstances
    refine ⟨?_, ?_⟩
    · intro hexpanded v hv hinherits
      have hi : m.inherit v ∈ m.instances expanded :=
        mem_instances_iff.mpr (.inr ⟨hexpanded, .inr ⟨v, hv, rfl⟩⟩)
      exact hinstances _ hi ((inherits_inherit_iff hm).mpr (.inl hinherits))
    · intro hover far hfar hfarInherits
      have hinherits : g.Inherits m := hbeyond.mpr ⟨far, hfar, hfarInherits⟩
      cases expanded with
      | false =>
        have hi : m.withoutVariants ∈ m.instances false := mem_instances_iff.mpr (.inl ⟨rfl, rfl⟩)
        exact hinstances _ hi (inherits_congr (i := m) rfl rfl hinherits)
      | true =>
        rcases hover rfl with hnone | ⟨v, hv, hstarts⟩
        · have hi : m ∈ m.instances true := mem_instances_iff.mpr (.inr ⟨rfl, .inl ⟨hnone, rfl⟩⟩)
          exact hinstances _ hi hinherits
        · have hi : m.inherit v ∈ m.instances true :=
            mem_instances_iff.mpr (.inr ⟨rfl, .inr ⟨v, hv, rfl⟩⟩)
          exact hinstances _ hi ((inherits_inherit_iff hm).mpr (.inr ⟨hstarts, hinherits⟩))
  · intro hlooks i hi hinherits
    have hwhole : m.HandsOver expanded → ¬ g.Inherits m := by
      intro hover hinherits
      obtain ⟨far, hfar, hfarInherits⟩ := hbeyond.mp hinherits
      exact hlooks.beyond hover far hfar hfarInherits
    rcases mem_instances_iff.mp hi with ⟨rfl, rfl⟩ | ⟨rfl, ⟨hnone, rfl⟩ | ⟨v, hv, rfl⟩⟩
    · exact hwhole (fun h => by cases h) (inherits_of_instance hi hinherits)
    · exact hwhole (fun _ => .inl hnone) hinherits
    · rcases (inherits_inherit_iff hm).mp hinherits with hvariant | ⟨hstarts, hinherits⟩
      · exact hlooks.variants rfl v hv hvariant
      · exact hwhole (fun _ => .inr ⟨v, hv, hstarts⟩) hinherits

/-! ## Resolving under different ends -/

theorem prepareAll_congr {modes : List Mode} (h : ∀ m ∈ modes, m.endsWithParent = false)
    (p q : String) : prepareAll g modes (some p) = prepareAll g modes (some q) := by
  unfold prepareAll
  induction modes with
  | nil => rfl
  | cons m ms ih =>
    rw [List.mapM_cons, List.mapM_cons, ih fun n hn => h n (List.mem_cons_of_mem m hn)]
    simp only [prepare_congr (h m List.mem_cons_self) _ p q]

/-- Links are the same under two ends if what follows the mode is. -/
theorem link_congr {next : Resolver} {m : Mode} {p q : String}
    (h : ∀ r, m.starts = some r → ∀ id, next r id (some p) false = next r id (some q) false)
    (id : Nat) : link g next id m (some p) = link g next id m (some q) := by
  have hstarts : linkStarts next id m.starts (some p) = linkStarts next id m.starts (some q) := by
    rcases hr : m.starts with _ | r
    · rfl
    · simp only [linkStarts, h r hr id]
  funext a
  rw [link_eq, link_eq, hstarts]

theorem linkAll_congr {next : Resolver} {modes : List Mode} {p q : String}
    (h : ∀ m ∈ modes, ∀ id, link g next id m (some p) = link g next id m (some q))
    (ids : List Nat) : linkAll g next ids modes (some p) = linkAll g next ids modes (some q) := by
  unfold linkAll
  induction modes generalizing ids with
  | nil => simp
  | cons m ms ih =>
    cases ids with
    | nil => rfl
    | cons id ids =>
      have hfirst := h m List.mem_cons_self id
      have hrest := ih (fun n hn => h n (List.mem_cons_of_mem m hn)) ids
      exact congrArg₂ (fun x y : Build Unit => x >>= fun _ => y) hfirst hrest

/-- Modes are compiled alike under two ends if they do not inherit and what follows
them is resolved alike. -/
theorem compileModes_congr {next : Resolver} {modes : List Mode} {p q : String}
    (hmodes : ∀ m ∈ modes, ¬ g.Inherits m)
    (hnext : ∀ m ∈ modes, ∀ r, m.starts = some r → ∀ id,
      next r id (some p) false = next r id (some q) false)
    (note : List Nat → Arena → Arena) (release : Arena → Arena) :
    compileModes g next modes (some p) note release =
      compileModes g next modes (some q) note release := by
  have hends : ∀ m ∈ modes, m.endsWithParent = false := by
    intro m hm
    by_contra hends
    exact hmodes m hm (.ends (by simpa using hends))
  unfold compileModes
  rw [prepareAll_congr hends p q]
  congr 1
  funext ids
  rw [linkAll_congr (fun m hm => link_congr (hnext m hm)) ids]

/-- The modes that a reference stands for are taken to be independent of their
parent, and so they are. -/
structure Grammar.StandsAlone (g : Grammar) (r : ModeRef) (expanded : Bool) : Prop where
  named : ∀ name, r = .named name → ∀ m, g.target? r = some m → g.dependsOnParent m = false
  instances : ∀ m, g.target? r = some m → ∀ i ∈ m.instances expanded, ¬ g.Inherits i

/-- What follows a mode that does not inherit stands alone. -/
theorem standsAlone_of_starts {m : Mode} {r : ModeRef} (hm : ¬ g.Inherits m)
    (hr : m.starts = some r) : g.StandsAlone r false := by
  have hd : ∀ d, g.target? r = some d → ¬ g.Inherits d := fun d hd h => hm (.follows hr hd h)
  refine ⟨?_, ?_⟩
  · intro _ _ d hr
    by_contra hdepends
    have hdepends : g.dependsOnParent d = true := by simpa using hdepends
    exact hd d hr (inherits_of_dependsOnParentWithin hdepends)
  · intro d hr i hi h
    exact hd d hr (inherits_of_instance hi h)

/-- A reference that stands alone is resolved alike under any end around it. -/
theorem resolve_congr {r : ModeRef} {expanded : Bool} (h : g.StandsAlone r expanded)
    (depth current : Nat) (p q : String) :
    resolve g depth r current (some p) expanded = resolve g depth r current (some q) expanded := by
  induction depth generalizing r current expanded with
  | zero => rfl
  | succ depth ih =>
    have hfresh : ∀ m, g.target? r = some m → ∀ note release,
        compileModes g (resolve g depth) (m.instances expanded) (some p) note release =
          compileModes g (resolve g depth) (m.instances expanded) (some q) note release := by
      intro m hm
      apply compileModes_congr (h.instances m hm)
      intro i hi r' hr' id
      exact ih (standsAlone_of_starts (h.instances m hm i hi) hr') id
    funext a
    rw [resolve_succ, resolve_succ]
    cases r with
    | inline m => exact congrFun (hfresh m rfl _ _) a
    | named name =>
      unfold resolveWith
      have hknown : a.known g name current (some p) expanded =
          a.known g name current (some q) expanded := by
        unfold Arena.known
        by_cases hself : name = selfName
        · simp [hself]
        · rcases hm : g.lookup? name with _ | m
          · simp [hself]
          · have htarget : g.target? (.named name) = some m := by simp [Grammar.target?, hself, hm]
            simp [hself, refKey, h.named name rfl m htarget]
      simp only [hknown]
      rcases hfound : a.known g name current (some q) expanded with ids | _ | ⟨m, dependent, key⟩
      · rfl
      · rfl
      · exact congrFun (hfresh m (known_eq_fresh hfound).1 _ _) a

/-! ## Where the look tells right -/

/-- A mode that is taken to be independent of its parent is exactly where the look
leaves nothing out: the ends of its instances, and of what follows them, are then the
same under any end around them. There a reference to the mode is resolved alike under
any end, so that a shared copy does not tell where it was met first. On a chain of
continuations that ends or comes back within the limit, it is only the variants that
can be left out. -/
theorem independent_where_the_look_leaves_nothing_out (g : Grammar) (m : Mode)
    (hm : g.dependsOnParent m = false) :
    (∀ expanded, (∀ i ∈ m.instances expanded, ∀ n, g.Follows i n →
        ∀ p q, n.terminatorEnd p = n.terminatorEnd q) ↔ g.LooksThrough m expanded) ∧
    (∀ expanded, g.LooksThrough m expanded → ∀ r, g.target? r = some m →
        ∀ depth current p q, resolve g depth r current (some p) expanded =
          resolve g depth r current (some q) expanded) ∧
    (∀ j k, j < k → k ≤ continuationLimit → g.hops j m = g.hops k m →
        ∀ expanded, g.LooksThrough m expanded ↔
          (expanded = true → ∀ v ∈ m.variants, ¬ g.Inherits v)) := by
  refine ⟨?_, ?_, ?_⟩
  · intro expanded
    rw [← instances_independent_iff hm]
    exact forall_congr' fun i => forall_congr' fun _ => endsAlike_along_iff
  · intro expanded hlooks r hr depth current p q
    refine resolve_congr ⟨?_, ?_⟩ depth current p q
    · intro _ _ m' hm'
      cases hr.symm.trans hm'
      exact hm
    · intro m' hm'
      cases hr.symm.trans hm'
      exact (instances_independent_iff hm expanded).mpr hlooks
  · intro j k hjk hk hreturns expanded
    refine ⟨Grammar.LooksThrough.variants, fun hvariants => ⟨hvariants, ?_⟩⟩
    intro _ far hfar hinherits
    exact not_inherits_of_return hjk hk hreturns hm (inherits_of_hops hfar hinherits)

end

/-- Angles and brackets that contain the same value. -/
def valueGrammar (value : Mode) : Grammar where
  definitions := [("value", value)]
  root := { contains := [
    .inline { begins := some "<", ends := some ">", contains := [.named "value"] },
    .inline { begins := some "\\[", ends := some "\\]", contains := [.named "value"] }] }

/-- A value that is quoted in one variant, and that another value follows in the
other one. -/
def quotedValue : Mode where
  begins := some "="
  ends := some ";"
  variants := [{ begins := some "'", ends := some "'" }, { starts := some (.named "value") }]

/-- What the angles contain and what the brackets contain is the same, and ends
alike in both. -/
theorem quotedValue_is_resolved_alike :
    (valueGrammar quotedValue).dependsOnParent quotedValue = false ∧
    (∀ i ∈ quotedValue.instances true, ∀ p q, i.terminatorEnd p = i.terminatorEnd q) ∧
    resolve (valueGrammar quotedValue) 9 (.named "value") 2 (some ">") true =
      resolve (valueGrammar quotedValue) 9 (.named "value") 2 (some "\\]") true := by
  have hindependent : (valueGrammar quotedValue).dependsOnParent quotedValue = false := rfl
  obtain ⟨hends, hresolve, hreturns⟩ :=
    independent_where_the_look_leaves_nothing_out _ quotedValue hindependent
  have hvariants : ∀ v ∈ quotedValue.variants, ¬ (valueGrammar quotedValue).Inherits v := by
    intro v hv
    simp only [quotedValue, List.mem_cons, List.not_mem_nil, or_false] at hv
    rcases hv with rfl | rfl
    · exact not_inherits_of_independent (n := 1) rfl rfl
    · exact not_inherits_of_independent (n := 2) rfl rfl
  have hlooks : (valueGrammar quotedValue).LooksThrough quotedValue true :=
    (hreturns 1 2 (by decide) (by decide) rfl true).mpr fun _ => hvariants
  exact ⟨hindependent, fun i hi => (hends true).mpr hlooks i hi i ⟨0, rfl⟩,
    hresolve true hlooks (.named "value") rfl 9 2 ">" "\\]"⟩

/-! ## Where it does not -/

/-- A mode that is taken to be independent of its parent has an instance, or one
follows it, whose end tells which end is around it. -/
def Grammar.Overlooks (g : Grammar) (m : Mode) : Prop :=
  g.dependsOnParent m = false ∧ ∃ i ∈ m.instances true, ∃ n, g.Follows i n ∧
    ∃ p q, n.terminatorEnd p ≠ n.terminatorEnd q

theorem overlooks_of_hops {g : Grammar} {m i n : Mode} {k : Nat} (hm : g.dependsOnParent m = false)
    (hi : i ∈ m.instances true) (hk : g.hops k i = some n) (hn : n.endsWithParent = true) :
    g.Overlooks m := by
  refine ⟨hm, i, hi, n, ⟨k, hk⟩, ?_⟩
  by_contra hnone
  have halike : n.EndsAlike := by
    intro p q
    by_contra hne
    exact hnone ⟨p, q, hne⟩
  rw [endsAlike_iff.mp halike] at hn
  cases hn

/-- A value that ends with its parent, in a variant. -/
def openValue : Mode where
  begins := some "="
  variants := [{ endsWithParent := true }]

/-- A value that is followed in a variant by what ends with its parent. -/
def ledValue : Mode where
  begins := some "="
  ends := some ";"
  variants := [{ starts := some (.inline { endsWithParent := true }) }]

/-- A mode at the end of a chain of continuations, which ends with its parent. -/
def lastOf : Nat → Mode
  | 0 => { endsWithParent := true }
  | n + 1 => { begins := some "=", ends := some ";", starts := some (.inline (lastOf n)) }

/-- The angles come first, and the brackets take over their value, which ends where
the angles do. -/
theorem parents_that_are_overlooked :
    (valueGrammar openValue).Overlooks openValue ∧ (valueGrammar ledValue).Overlooks ledValue ∧
    (valueGrammar (lastOf continuationLimit)).Overlooks (lastOf continuationLimit) ∧
    ∃ l brackets value, compile (valueGrammar openValue) = .ok l ∧ l.mode? 3 = some brackets ∧
      brackets.contains = [2] ∧ l.mode? 2 = some value ∧
      brackets.terminatorEnd = "\\]" ∧ value.terminatorEnd = ">" := by
  refine ⟨overlooks_of_hops (k := 0) rfl List.mem_cons_self rfl rfl,
    overlooks_of_hops (k := 1) rfl List.mem_cons_self rfl rfl,
    overlooks_of_hops (k := continuationLimit) rfl List.mem_cons_self rfl rfl, ?_⟩
  have hmodes : ((compileWithin (valueGrammar openValue) 9).toOption.any fun l =>
      (l.mode? 3).any fun brackets => (l.mode? 2).any fun value =>
        brackets.contains == [2] && brackets.terminatorEnd == "\\]" &&
          value.terminatorEnd == ">") = true := by
    decide +kernel
  obtain ⟨l, hl, hmodes⟩ := compile_of_any hmodes
  obtain ⟨brackets, hbrackets, hmodes⟩ := (Option.any_eq_true _ _).mp hmodes
  obtain ⟨value, hvalue, hmodes⟩ := (Option.any_eq_true _ _).mp hmodes
  simp only [Bool.and_eq_true, beq_iff_eq] at hmodes
  obtain ⟨⟨hcontains, hends⟩, hend⟩ := hmodes
  exact ⟨l, brackets, value, hl, hbrackets, hcontains, hvalue, hends, hend⟩

end Highlighting
