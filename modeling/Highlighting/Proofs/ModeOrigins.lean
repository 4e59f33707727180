-- Where compiled modes come from. Every index of a compiled language belongs to
-- a mode as it was declared and to the end of the mode around it: that is its
-- origin. A shared copy was compiled for another place than the one at which it
-- is met again. It is right there too if the end around it does not matter, or
-- is the same, and in a faithful grammar that is always so. What it takes for a
-- copy to fit under yet another end is left open: it depends on what is asked
-- of the copy. So is, at first, what a reference stands for at all: compiling
-- keeps whatever is true of a copy when it is used.
--
-- Resolving a reference adds modes behind those that are there and leaves these
-- alone. So what is said of one mode stays true while others are compiled.
import Highlighting.Proofs.CompiledIds
import Mathlib.Data.List.Forall2
import Mathlib.Logic.Relation

namespace Highlighting

/-! ## What a mode refers to -/

/-- What a compiled mode was compiled from: the mode as declared, and the end of
the mode around it. -/
structure Origin where
  mode : Mode
  parentEnd : Option String

namespace Origin

/-- The end that the children of the mode see around them. -/
def ownEnd (o : Origin) : String := (o.parentEnd.map o.mode.terminatorEnd).getD ""

/-- A mode refers to what it contains, with its variants and under its own end,
and to what follows it, without variants and under the end around it. -/
inductive Refers (o : Origin) : ModeRef → (expanded : Bool) → (under : Option String) → Prop
  | contains {r : ModeRef} (h : r ∈ o.mode.contains) : o.Refers r true (some o.ownEnd)
  | starts {r : ModeRef} (h : o.mode.starts = some r) : o.Refers r false o.parentEnd

end Origin

namespace Grammar

/-- The mode that a reference stands for, unless that is the mode in which the
reference stands. -/
def target? (g : Grammar) : ModeRef → Option Mode
  | .inline m => some m
  | .named name => if name = selfName then none else g.lookup? name

/-- One mode holds another: the other is an instance of what it refers to. -/
def Holds (g : Grammar) (o i : Origin) : Prop :=
  ∃ r expanded d, o.Refers r expanded i.parentEnd ∧ g.target? r = some d ∧
    i.mode ∈ d.instances expanded

/-- Where compiling begins. -/
def rootOrigin (g : Grammar) : Origin := ⟨g.root.withoutVariants, none⟩

/-- The mode is met, under its end, when the grammar is compiled. -/
def Meets (g : Grammar) (o : Origin) : Prop := Relation.ReflTransGen g.Holds g.rootOrigin o

/-- The end of the mode around it matters: the mode ends with its parent, or
one does that follows it. -/
inductive Inherits (g : Grammar) : Mode → Prop
  | ends {m : Mode} (h : m.endsWithParent = true) : g.Inherits m
  | follows {m d : Mode} {r : ModeRef} (hr : m.starts = some r) (hd : g.target? r = some d)
      (h : g.Inherits d) : g.Inherits m

/-- Shared copies are right wherever they are met: a named mode that is taken
to be independent of its parent is, and where a mode that depends on its parent
is met below its own copy, with an end around it that extends the end of the
copy, that is the end under which the copy was compiled, or the copy fits there
all the same. -/
structure Faithful (g : Grammar) (fits : Origin → Option String → Prop) : Prop where
  independent : ∀ o name expanded under d i, g.Meets o → o.Refers (.named name) expanded under →
    g.target? (.named name) = some d → g.dependsOnParent d = false → i ∈ d.instances expanded →
    ¬ g.Inherits i
  reused : ∀ copy o name expanded under d, g.Meets copy → Relation.ReflTransGen g.Holds copy o →
    o.Refers (.named name) expanded (some under) → g.target? (.named name) = some d →
    g.dependsOnParent d = true → copy.mode ∈ d.instances expanded →
    (∃ i ∈ d.instances expanded, extendsEnd under (Origin.mk i copy.parentEnd).ownEnd = true) →
    copy.parentEnd = some under ∨ copy.parentEnd.isSome ∧
      ∀ i ∈ d.instances expanded, g.Inherits i → fits ⟨i, copy.parentEnd⟩ (some under)

end Grammar

/-! ## Origins -/

/-- The mode without its links. -/
def CompiledMode.unlinked (c : CompiledMode) : CompiledMode :=
  { c with contains := [], starts := none, terminators := .empty }

namespace CompiledMode

@[simp] theorem unlinked_begins (c : CompiledMode) : c.unlinked.begins = c.begins := rfl

@[simp] theorem unlinked_byKeywords (c : CompiledMode) : c.unlinked.byKeywords = c.byKeywords := rfl

@[simp] theorem unlinked_ends (c : CompiledMode) : c.unlinked.ends = c.ends := rfl

@[simp] theorem unlinked_terminatorEnd (c : CompiledMode) :
    c.unlinked.terminatorEnd = c.terminatorEnd := rfl

@[simp] theorem unlinked_endsWithParent (c : CompiledMode) :
    c.unlinked.endsWithParent = c.endsWithParent := rfl

end CompiledMode

/-- The mode was compiled to the index under exactly this end. -/
def BecomesExactly (os : List Origin) (parentEnd : Option String) (i : Mode) (id : Nat) : Prop :=
  os[id]? = some ⟨i, parentEnd⟩

/-- The mode `i` was compiled to the index `id`, under an end that is as good
as `parentEnd` for it, or where it fits under that one. -/
def Grammar.BecomesAt (g : Grammar) (fits : Origin → Option String → Prop) (os : List Origin)
    (parentEnd : Option String) (i : Mode) (id : Nat) : Prop :=
  ∃ p, os[id]? = some ⟨i, p⟩ ∧ (g.Inherits i → p = parentEnd ∨ fits ⟨i, p⟩ parentEnd) ∧
    p.isSome = parentEnd.isSome

/-- A reference in the mode `current` resolves to indices. -/
inductive ResolvesTo (g : Grammar) (fits : Origin → Option String → Prop) (os : List Origin)
    (current : Nat) (parentEnd : Option String) (expanded : Bool) : ModeRef → List Nat → Prop
  | self : ResolvesTo g fits os current parentEnd expanded (.named selfName) [current]
  | modes {r : ModeRef} {d : Mode} {ids : List Nat} (hd : g.target? r = some d)
      (hids : List.Forall₂ (g.BecomesAt fits os parentEnd) (d.instances expanded) ids) :
      ResolvesTo g fits os current parentEnd expanded r ids

/-- A way to say what a reference in the mode `current` stands for, from the origins of
the modes. It stays true when modes are added, and only modes are stood for. -/
structure Resolution where
  Stands : (os : List Origin) → (current : Nat) → (parentEnd : Option String) →
    (expanded : Bool) → ModeRef → List Nat → Prop
  mono : ∀ {os os' current parentEnd expanded r ids},
    Stands os current parentEnd expanded r ids → os <+: os' →
      Stands os' current parentEnd expanded r ids
  lt : ∀ {os current parentEnd expanded r ids}, Stands os current parentEnd expanded r ids →
    current < os.length → ∀ id ∈ ids, id < os.length

/-- The rules of a mode among compiled modes. -/
def rulesAmong (modes : Array CompiledMode) (contains : List Nat) (terminatorEnd : String)
    (illegal : Option String) : List (Rule × String) :=
  ({ modes } : Arena).rules contains terminatorEnd illegal

/-- The links of a compiled mode are those that its origin asks for. -/
structure Links (g : Grammar) (R : Resolution) (os : List Origin)
    (modes : Array CompiledMode) (id : Nat) (o : Origin) (c : CompiledMode) : Prop where
  contains : ∃ lists, c.contains = lists.flatten ∧
    List.Forall₂ (R.Stands os id (some c.terminatorEnd) true) o.mode.contains lists
  starts : ∀ r, o.mode.starts = some r →
    ∃ ids, c.starts = ids.head? ∧ R.Stands os id o.parentEnd false r ids
  starts_none : o.mode.starts = none → c.starts = none
  terminators : Terminators.ofRules
    (rulesAmong modes c.contains c.terminatorEnd o.mode.illegal) g.caseInsensitive =
      .ok c.terminators

/-- The mode with an index is linked as its origin asks. -/
def LinkedAt (g : Grammar) (R : Resolution) (os : List Origin) (modes : Array CompiledMode)
    (id : Nat) : Prop :=
  ∃ o c, os[id]? = some o ∧ modes[id]? = some c ∧ Links g R os modes id o c

/-- A reference is being linked around a mode: the mode stands below one of the
copies that were compiled for it. -/
def OpenRef.Around (g : Grammar) (os : List Origin) (r : OpenRef) (o : Origin) : Prop :=
  ∃ d copy, g.target? (.named r.name) = some d ∧ copy.mode ∈ d.instances r.expanded ∧
    List.Forall₂ (BecomesExactly os copy.parentEnd) (d.instances r.expanded) r.ids ∧
    g.Meets copy ∧ Relation.ReflTransGen g.Holds copy o

/-- Every mode of the arena was prepared from its origin, which is met, and what
is shared belongs to its name. -/
structure Described (g : Grammar) (os : List Origin) (a : Arena) : Prop where
  size : os.length = a.modes.size
  meets : ∀ o ∈ os, g.Meets o
  prepared : ∀ (id : Nat) (o : Origin) (c : CompiledMode), os[id]? = some o →
    a.modes[id]? = some c → o.mode.prepare g.caseInsensitive o.parentEnd = .ok c.unlinked
  shared : ∀ key ids, (key, ids) ∈ a.shared → ∃ d, g.target? (.named key.name) = some d ∧
    List.Forall₂ (fun i id => ∃ p, os[id]? = some ⟨i, p⟩ ∧
      refKey g d key.name p key.expanded = key) (d.instances key.expanded) ids

/-! ### More modes -/

theorem exists_of_mem_right {α β : Type} {R : α → β → Prop} {xs : List α} {ys : List β}
    (h : List.Forall₂ R xs ys) {y : β} (hy : y ∈ ys) : ∃ x ∈ xs, R x y := by
  induction h with
  | nil => cases hy
  | cons hxy _ ih =>
    rcases List.mem_cons.mp hy with rfl | hy
    · exact ⟨_, List.mem_cons_self, hxy⟩
    · obtain ⟨x, hx, hxy'⟩ := ih hy
      exact ⟨x, List.mem_cons_of_mem _ hx, hxy'⟩

section

variable {g : Grammar} {fits : Origin → Option String → Prop} {R : Resolution}
  {os os' : List Origin}

theorem getElem?_of_initial (h : os <+: os') {id : Nat} {o : Origin} (ho : os[id]? = some o) :
    os'[id]? = some o := by
  obtain ⟨rest, rfl⟩ := h
  obtain ⟨hlt, _⟩ := List.getElem?_eq_some_iff.mp ho
  rw [List.getElem?_append_left hlt]
  exact ho

theorem OpenRef.Around.mono {r : OpenRef} {o : Origin} (h : r.Around g os o) (hos : os <+: os') :
    r.Around g os' o := by
  obtain ⟨d, copy, hd, hcopy, hids, hmeets, hpath⟩ := h
  exact ⟨d, copy, hd, hcopy, hids.imp fun _ _ hi => getElem?_of_initial hos hi, hmeets, hpath⟩

theorem OpenRef.Around.tail {r : OpenRef} {o i : Origin} (h : r.Around g os o)
    (hi : g.Holds o i) : r.Around g os i := by
  obtain ⟨d, copy, hd, hcopy, hids, hmeets, hpath⟩ := h
  exact ⟨d, copy, hd, hcopy, hids, hmeets, hpath.tail hi⟩

theorem Grammar.BecomesAt.mono {parentEnd : Option String} {i : Mode} {id : Nat}
    (h : g.BecomesAt fits os parentEnd i id) (hos : os <+: os') :
    g.BecomesAt fits os' parentEnd i id := by
  obtain ⟨p, hp, hinherits, hsome⟩ := h
  exact ⟨p, getElem?_of_initial hos hp, hinherits, hsome⟩

theorem ResolvesTo.mono {current : Nat} {parentEnd : Option String} {expanded : Bool}
    {r : ModeRef} {ids : List Nat} (h : ResolvesTo g fits os current parentEnd expanded r ids)
    (hos : os <+: os') : ResolvesTo g fits os' current parentEnd expanded r ids := by
  cases h with
  | self => exact .self
  | modes hd hids => exact .modes hd (hids.imp fun _ _ hi => hi.mono hos)

/-- A reference in a mode of the arena resolves to modes of the arena. -/
theorem ResolvesTo.lt {current : Nat} {parentEnd : Option String} {expanded : Bool}
    {r : ModeRef} {ids : List Nat} (h : ResolvesTo g fits os current parentEnd expanded r ids)
    (hcurrent : current < os.length) : ∀ id ∈ ids, id < os.length := by
  cases h with
  | self => simpa using hcurrent
  | modes hd hids =>
    intro id hid
    obtain ⟨i, _, p, hp, _⟩ := exists_of_mem_right hids hid
    exact (List.getElem?_eq_some_iff.mp hp).1

/-- Copies stand for a reference where they fit. -/
abbrev Grammar.sharing (g : Grammar) (fits : Origin → Option String → Prop) : Resolution where
  Stands := ResolvesTo g fits
  mono h hos := h.mono hos
  lt h hcurrent := h.lt hcurrent

theorem Links.contains_lt {modes : Array CompiledMode} {id : Nat} {o : Origin} {c : CompiledMode}
    (h : Links g R os modes id o c) (hid : id < os.length) :
    ∀ i ∈ c.contains, i < os.length := by
  obtain ⟨lists, hflat, hlists⟩ := h.contains
  intro i hi
  rw [hflat] at hi
  obtain ⟨ids, hids, hi⟩ := List.mem_flatten.mp hi
  obtain ⟨r, _, hr⟩ := exists_of_mem_right hlists hids
  exact R.lt hr hid i hi

/-- The rules of a mode depend on its children without their links. -/
theorem rulesAmong_congr {modes modes' : Array CompiledMode} {contains : List Nat}
    (h : ∀ i ∈ contains,
      (modes'[i]?).map CompiledMode.unlinked = (modes[i]?).map CompiledMode.unlinked)
    (terminatorEnd : String) (illegal : Option String) :
    rulesAmong modes' contains terminatorEnd illegal =
      rulesAmong modes contains terminatorEnd illegal := by
  unfold rulesAmong Arena.rules
  congr 2
  apply List.filterMap_congr
  intro i hi
  have hi' := h i hi
  simp only
  rcases hc : modes[i]? with _ | c
  · rw [hc, Option.map_none, Option.map_eq_none_iff] at hi'
    rw [hi']
  · rw [hc, Option.map_some, Option.map_eq_some_iff] at hi'
    obtain ⟨c', hc', hunlinked⟩ := hi'
    have hbegins : c'.unlinked.begins = c.unlinked.begins := by rw [hunlinked]
    have hkeywords : c'.unlinked.byKeywords = c.unlinked.byKeywords := by rw [hunlinked]
    simp only [CompiledMode.unlinked_begins] at hbegins
    simp only [CompiledMode.unlinked_byKeywords] at hkeywords
    rw [hc']
    simp only [bind, Option.bind, hbegins, hkeywords]

/-- A linked mode stays linked when its own entry is left alone and no other
one changes but in its links. -/
theorem LinkedAt.mono {modes modes' : Array CompiledMode} {id : Nat}
    (h : LinkedAt g R os modes id) (hos : os <+: os') (hsize : os.length = modes.size)
    (hself : modes'[id]? = modes[id]?)
    (hkept : ∀ i, i < modes.size →
      (modes'[i]?).map CompiledMode.unlinked = (modes[i]?).map CompiledMode.unlinked) :
    LinkedAt g R os' modes' id := by
  obtain ⟨o, c, ho, hc, hlinks⟩ := h
  have hid : id < os.length := (List.getElem?_eq_some_iff.mp ho).1
  refine ⟨o, c, getElem?_of_initial hos ho, hself.trans hc, ?_, ?_, hlinks.starts_none, ?_⟩
  · obtain ⟨lists, hflat, hlists⟩ := hlinks.contains
    exact ⟨lists, hflat, hlists.imp fun _ _ hr => R.mono hr hos⟩
  · intro r hr
    obtain ⟨ids, hhead, hids⟩ := hlinks.starts r hr
    exact ⟨ids, hhead, R.mono hids hos⟩
  · rw [rulesAmong_congr]
    · exact hlinks.terminators
    · intro i hi
      apply hkept
      rw [← hsize]
      exact hlinks.contains_lt hid i hi

end

/-! ## What compiling adds -/

/-- From one arena to a later one: modes were added and linked, and of the
modes that were there only those of `relinked` were changed, in their links. -/
structure Extends (g : Grammar) (R : Resolution) (relinked : List Nat) (os os' : List Origin)
    (a a' : Arena) : Prop where
  origins : os <+: os'
  described : Described g os' a'
  linking : a'.linking = a.linking
  kept : ∀ i, i < a.modes.size → i ∉ relinked → a'.modes[i]? = a.modes[i]?
  unlinked : ∀ i, i < a.modes.size →
    (a'.modes[i]?).map CompiledMode.unlinked = (a.modes[i]?).map CompiledMode.unlinked
  linked : ∀ i, i < a'.modes.size → a.modes.size ≤ i ∨ i ∈ relinked →
    LinkedAt g R os' a'.modes i

section

variable {g : Grammar} {fits : Origin → Option String → Prop} {R : Resolution}

theorem Extends.refl {os : List Origin} {a : Arena} (h : Described g os a) :
    Extends g R [] os os a a where
  origins := List.prefix_rfl
  described := h
  linking := rfl
  kept _ _ _ := rfl
  unlinked _ _ := rfl
  linked i hi hor := by
    rcases hor with hle | hmem
    · exact absurd hi (Nat.not_lt.mpr hle)
    · cases hmem

theorem Extends.size_le {relinked : List Nat} {os os' : List Origin} {a a' : Arena}
    (hd : Described g os a) (h : Extends g R relinked os os' a a') :
    a.modes.size ≤ a'.modes.size := by
  rw [← hd.size, ← h.described.size]
  exact h.origins.length_le

theorem Extends.trans {first second : List Nat} {os₁ os₂ os₃ : List Origin} {a₁ a₂ a₃ : Arena}
    (hd : Described g os₁ a₁) (h : Extends g R first os₁ os₂ a₁ a₂)
    (h' : Extends g R second os₂ os₃ a₂ a₃) :
    Extends g R (first ++ second) os₁ os₃ a₁ a₃ where
  origins := h.origins.trans h'.origins
  described := h'.described
  linking := h'.linking.trans h.linking
  kept i hi hmem := by
    rw [List.mem_append, not_or] at hmem
    have hi' := Nat.lt_of_lt_of_le hi (h.size_le hd)
    exact (h'.kept i hi' hmem.2).trans (h.kept i hi hmem.1)
  unlinked i hi := by
    have hi' := Nat.lt_of_lt_of_le hi (h.size_le hd)
    exact (h'.unlinked i hi').trans (h.unlinked i hi)
  linked i hi hor := by
    by_cases hsecond : a₂.modes.size ≤ i ∨ i ∈ second
    · exact h'.linked i hi hsecond
    · rw [not_or, Nat.not_le] at hsecond
      obtain ⟨hlt, hnot⟩ := hsecond
      have hor' : a₁.modes.size ≤ i ∨ i ∈ first := by
        rcases hor with hle | hmem
        · exact .inl hle
        · exact .inr ((List.mem_append.mp hmem).resolve_right hnot)
      exact (h.linked i hlt hor').mono h'.origins h.described.size (h'.kept i hlt hnot) h'.unlinked

/-! ### Preparing -/

theorem prepare_unlinked {m : Mode} {anyCase : Bool} {parentEnd : Option String}
    {c : CompiledMode} (h : m.prepare anyCase parentEnd = .ok c) : c.unlinked = c := by
  have hm := prepare_prepared h
  unfold CompiledMode.unlinked
  rw [← hm.contains, ← hm.starts, ← hm.terminators]

theorem forall₂_of_mapM {ε α β : Type} {f : α → Except ε β} {xs : List α} {ys : List β}
    (h : xs.mapM f = .ok ys) : List.Forall₂ (fun x y => f x = .ok y) xs ys := by
  induction xs generalizing ys with
  | nil =>
    cases h
    exact .nil
  | cons x xs ih =>
    rw [List.mapM_cons] at h
    obtain ⟨y, hy, h⟩ := bind_eq_ok.mp h
    obtain ⟨ys', hys, h⟩ := bind_eq_ok.mp h
    cases h
    exact .cons hy (ih hys)

theorem of_forall₂_getElem? {α β : Type} {R : α → β → Prop} {xs : List α} {ys : List β}
    (h : List.Forall₂ R xs ys) {k : Nat} {x : α} {y : β} (hx : xs[k]? = some x)
    (hy : ys[k]? = some y) : R x y := by
  induction h generalizing k with
  | nil => cases hx
  | cons hxy _ ih =>
    rcases k with _ | k
    · cases hx
      cases hy
      exact hxy
    · exact ih hx hy

/-- The origins of modes that are prepared together. -/
def originsOf (modes : List Mode) (parentEnd : Option String) : List Origin :=
  modes.map (⟨·, parentEnd⟩)

/-- The modes of a row that stands behind what was there. -/
theorem forall₂_range' {α : Type} {P : α → Nat → Prop} (xs : List α) (start : Nat)
    (h : ∀ k x, xs[k]? = some x → P x (start + k)) :
    List.Forall₂ P xs (List.range' start xs.length) := by
  induction xs generalizing start with
  | nil => exact .nil
  | cons x xs ih =>
    rw [List.length_cons, List.range'_succ]
    refine .cons (h 0 x rfl) (ih (start + 1) ?_)
    intro k y hy
    have hk := h (k + 1) y hy
    rwa [Nat.add_comm k 1, ← Nat.add_assoc] at hk

/-- Preparing adds modes that belong to their origins, in order. -/
theorem prepareAll_describes {modes : List Mode} {parentEnd : Option String} {os : List Origin}
    {a a₁ : Arena} {ids : List Nat} (hmeets : ∀ i ∈ modes, g.Meets ⟨i, parentEnd⟩)
    (hd : Described g os a) (h : prepareAll g modes parentEnd a = .ok (ids, a₁)) :
    Described g (os ++ originsOf modes parentEnd) a₁ ∧ a₁.linking = a.linking ∧
      (∀ i, i < a.modes.size → a₁.modes[i]? = a.modes[i]?) ∧
      a₁.modes.size = a.modes.size + modes.length ∧
      ids = List.range' a.modes.size modes.length := by
  obtain ⟨ms, hms, rfl, rfl⟩ := prepareAll_ok h
  have hlength : modes.length = ms.length := (forall₂_of_mapM hms).length_eq
  refine ⟨⟨?_, ?_, ?_, ?_⟩, rfl, ?_, ?_, ?_⟩
  · simp [hd.size, originsOf, hlength]
  · intro o ho
    rcases List.mem_append.mp ho with ho | ho
    · exact hd.meets o ho
    · obtain ⟨i, hi, rfl⟩ := List.mem_map.mp ho
      exact hmeets i hi
  · intro id o c ho hc
    by_cases hid : id < os.length
    · rw [List.getElem?_append_left hid] at ho
      rw [Array.getElem?_append_left (hd.size ▸ hid)] at hc
      exact hd.prepared id o c ho hc
    · rw [Nat.not_lt] at hid
      rw [List.getElem?_append_right hid] at ho
      rw [Array.getElem?_append_right (hd.size ▸ hid), ← hd.size] at hc
      obtain ⟨m, hm, rfl⟩ : ∃ m, modes[id - os.length]? = some m ∧ ⟨m, parentEnd⟩ = o := by
        simpa [originsOf] using ho
      have hprepare : m.prepare g.caseInsensitive parentEnd = .ok c :=
        of_forall₂_getElem? (forall₂_of_mapM hms) hm (by simpa using hc)
      rw [prepare_unlinked hprepare]
      exact hprepare
  · intro key ids hkey
    obtain ⟨d, hd', hids⟩ := hd.shared key ids hkey
    refine ⟨d, hd', hids.imp ?_⟩
    rintro i id ⟨p, hp, hk⟩
    exact ⟨p, getElem?_of_initial (List.prefix_append _ _) hp, hk⟩
  · intro i hi
    exact Array.getElem?_append_left hi
  · simp [hlength]
  · rw [hlength]

/-- Every prepared mode has the index that it was given. -/
theorem prepareAll_becomes {modes : List Mode} {parentEnd : Option String} {os : List Origin}
    {a a₁ : Arena} {ids : List Nat} (hd : Described g os a)
    (h : prepareAll g modes parentEnd a = .ok (ids, a₁)) :
    List.Forall₂ (BecomesExactly (os ++ originsOf modes parentEnd) parentEnd) modes ids := by
  obtain ⟨ms, hms, _, rfl⟩ := prepareAll_ok h
  rw [← (forall₂_of_mapM hms).length_eq]
  refine forall₂_range' modes a.modes.size ?_
  intro k i hk
  rw [BecomesExactly, ← hd.size, List.getElem?_append_right (Nat.le_add_right _ _)]
  simp [originsOf, hk]

/-- The end that the children see is the one that was compiled. -/
theorem prepare_terminatorEnd {o : Origin} {anyCase : Bool} {c : CompiledMode}
    (h : o.mode.prepare anyCase o.parentEnd = .ok c) : c.terminatorEnd = o.ownEnd :=
  (prepare_prepared h).terminatorEnd

theorem Described.terminatorEnd {os : List Origin} {a : Arena} (h : Described g os a) {id : Nat}
    {o : Origin} {c : CompiledMode} (ho : os[id]? = some o) (hc : a.modes[id]? = some c) :
    c.terminatorEnd = o.ownEnd := by
  rw [← CompiledMode.unlinked_terminatorEnd]
  exact prepare_terminatorEnd (h.prepared id o c ho hc)

/-! ### Linking -/

/-- A way to resolve what a mode refers to that says where the new modes come
from. The references being linked are all around the mode. -/
def Resolver.Describes (g : Grammar) (R : Resolution) (next : Resolver) : Prop :=
  ∀ o reference expanded current under os a ids a', g.Meets o → o.Refers reference expanded under →
    (∀ r ∈ a.linking, r.Around g os o) → Described g os a →
    next reference current under expanded a = .ok (ids, a') →
    ∃ os', Extends g R [] os os' a a' ∧ R.Stands os' current under expanded reference ids

variable {next : Resolver} {o : Origin}

theorem around_of_extends {relinked : List Nat} {os os' : List Origin} {a a' : Arena}
    (hlinking : ∀ r ∈ a.linking, r.Around g os o) (h : Extends g R relinked os os' a a') :
    ∀ r ∈ a'.linking, r.Around g os' o := by
  intro r hr
  rw [h.linking] at hr
  exact (hlinking r hr).mono h.origins

theorem linkChildren_describes (hnext : next.Describes g R) (hm : g.Meets o)
    {refs : List ModeRef} (hrefs : ∀ r ∈ refs, r ∈ o.mode.contains) {id : Nat} {os : List Origin}
    {a a' : Arena} {lists : List (List Nat)} (hlinking : ∀ r ∈ a.linking, r.Around g os o)
    (hd : Described g os a) (h : linkChildren next id refs o.ownEnd a = .ok (lists, a')) :
    ∃ os', Extends g R [] os os' a a' ∧
      List.Forall₂ (R.Stands os' id (some o.ownEnd) true) refs lists := by
  unfold linkChildren at h
  induction refs generalizing os a lists with
  | nil =>
    cases h
    exact ⟨os, .refl hd, .nil⟩
  | cons r refs ih =>
    rw [List.mapM_cons] at h
    obtain ⟨ids, a₁, hr, h⟩ := build_bind_eq_ok.mp h
    obtain ⟨lists', a₂, hlists, h⟩ := build_bind_eq_ok.mp h
    cases h
    obtain ⟨os₁, hext₁, hids⟩ := hnext o r true id (some o.ownEnd) os a ids a₁ hm
      (.contains (hrefs r List.mem_cons_self)) hlinking hd hr
    obtain ⟨os₂, hext₂, hrest⟩ := ih (fun r' hr' => hrefs r' (List.mem_cons_of_mem _ hr'))
      (around_of_extends hlinking hext₁) hext₁.described hlists
    exact ⟨os₂, hext₁.trans hd hext₂, .cons (R.mono hids hext₂.origins) hrest⟩

theorem linkStarts_describes (hnext : next.Describes g R) (hm : g.Meets o) {id : Nat}
    {os : List Origin} {a a' : Arena} {result : Option Nat}
    (hlinking : ∀ r ∈ a.linking, r.Around g os o) (hd : Described g os a)
    (h : linkStarts next id o.mode.starts o.parentEnd a = .ok (result, a')) :
    ∃ os', Extends g R [] os os' a a' ∧ (o.mode.starts = none → result = none) ∧
      ∀ r, o.mode.starts = some r →
        ∃ ids, result = ids.head? ∧ R.Stands os' id o.parentEnd false r ids := by
  unfold linkStarts at h
  rcases hstarts : o.mode.starts with _ | r
  · rw [hstarts] at h
    cases h
    exact ⟨os, .refl hd, fun _ => rfl, fun r hr => by cases hr⟩
  · rw [hstarts] at h
    obtain ⟨ids, a₁, hr, h⟩ := build_bind_eq_ok.mp h
    cases h
    obtain ⟨os', hext, hids⟩ := hnext o r false id o.parentEnd os a ids _ hm (.starts hstarts)
      hlinking hd hr
    refine ⟨os', hext, (fun hnone => by cases hnone), ?_⟩
    intro r' hr'
    cases hr'
    exact ⟨ids, rfl, hids⟩

/-- Setting the links of a mode as its origin asks links it. -/
theorem setLinks_describes {id : Nat} {c : CompiledMode} {os : List Origin}
    {a : Arena} {contains : List Nat} {starts : Option Nat} {r : Unit × Arena}
    (hd : Described g os a) (ho : os[id]? = some o) (hc : a.modes[id]? = some c)
    (hcontains : ∃ lists, contains = lists.flatten ∧
      List.Forall₂ (R.Stands os id (some c.terminatorEnd) true) o.mode.contains lists)
    (hstarts : ∀ r, o.mode.starts = some r →
      ∃ ids, starts = ids.head? ∧ R.Stands os id o.parentEnd false r ids)
    (hnone : o.mode.starts = none → starts = none)
    (h : setLinks g id c.terminatorEnd o.mode.illegal contains starts a = .ok r) :
    Extends g R [id] os os a r.2 := by
  obtain ⟨terminators, hterminators, hr⟩ := setLinks_ok h
  have hmodes : ∀ i : Nat, r.2.modes[i]? = if id = i then (a.modes[i]?).map
      (fun c => { c with contains, starts, terminators }) else a.modes[i]? := by
    intro i
    rw [hr]
    exact Array.getElem?_modify
  have hunlinked : ∀ i : Nat, (r.2.modes[i]?).map CompiledMode.unlinked =
      (a.modes[i]?).map CompiledMode.unlinked := by
    intro i
    rw [hmodes]
    split
    · rw [Option.map_map]
      rfl
    · rfl
  have hsize : r.2.modes.size = a.modes.size := by
    rw [hr]
    exact Array.size_modify
  refine ⟨List.prefix_rfl, ⟨?_, hd.meets, ?_, ?_⟩, ?_, ?_, fun i _ => hunlinked i, ?_⟩
  · rw [hsize]
    exact hd.size
  · intro i o' c' ho' hc'
    have hi := hunlinked i
    rw [hc', Option.map_some, eq_comm, Option.map_eq_some_iff] at hi
    obtain ⟨c₀, hc₀, heq⟩ := hi
    rw [← heq]
    exact hd.prepared i o' c₀ ho' hc₀
  · rw [hr]
    exact hd.shared
  · rw [hr]
  · intro i _ hi
    rw [hmodes, if_neg]
    rintro rfl
    exact hi List.mem_cons_self
  · intro i hi hor
    have hi : i = id := by
      rcases hor with hle | hmem
      · rw [hsize] at hi
        exact absurd hi (Nat.not_lt.mpr hle)
      · exact List.mem_singleton.mp hmem
    subst hi
    refine ⟨o, { c with contains, starts, terminators }, ho, ?_, hcontains, hstarts, hnone, ?_⟩
    · rw [hmodes, if_pos rfl, hc]
      rfl
    · rw [rulesAmong_congr (fun i _ => hunlinked i)]
      exact hterminators

theorem link_describes (hnext : next.Describes g R) (hm : g.Meets o) {id : Nat}
    {os : List Origin} {a : Arena} {r : Unit × Arena}
    (hlinking : ∀ r ∈ a.linking, r.Around g os o) (hd : Described g os a)
    (ho : os[id]? = some o) (h : link g next id o.mode o.parentEnd a = .ok r) :
    ∃ os', Extends g R [id] os os' a r.2 := by
  have hid : id < a.modes.size := hd.size ▸ (List.getElem?_eq_some_iff.mp ho).1
  obtain ⟨c, hc⟩ : ∃ c, a.modes[id]? = some c := ⟨_, Array.getElem?_eq_getElem hid⟩
  have hend : a.ownEnd id = o.ownEnd := by simp [Arena.ownEnd, hc, hd.terminatorEnd ho hc]
  rw [link_eq, hend] at h
  obtain ⟨lists, a₁, hchildren, h⟩ := build_bind_eq_ok.mp h
  obtain ⟨starts, a₂, hstarts, h⟩ := build_bind_eq_ok.mp h
  obtain ⟨os₁, hext₁, hlists⟩ :=
    linkChildren_describes hnext hm (fun r hr => hr) hlinking hd hchildren
  obtain ⟨os₂, hext₂, hnone, hstarts⟩ := linkStarts_describes hnext hm
    (around_of_extends hlinking hext₁) hext₁.described hstarts
  have hext := hext₁.trans hd hext₂
  have hc₂ : a₂.modes[id]? = some c := (hext.kept id hid (by simp)).trans hc
  rw [← hd.terminatorEnd ho hc] at h hlists
  refine ⟨os₂, hext.trans hd (setLinks_describes hext.described
    (getElem?_of_initial hext.origins ho) hc₂ ⟨lists, rfl, ?_⟩ hstarts hnone h)⟩
  exact hlists.imp fun _ _ hr => R.mono hr hext₂.origins

theorem linkAll_describes (hnext : next.Describes g R) {ids : List Nat} {modes : List Mode}
    {parentEnd : Option String} {os : List Origin} {a : Arena} {r : Unit × Arena}
    (hmodes : ∀ p ∈ ids.zip modes, g.Meets ⟨p.2, parentEnd⟩ ∧ os[p.1]? = some ⟨p.2, parentEnd⟩)
    (hlinking : ∀ p ∈ ids.zip modes, ∀ r ∈ a.linking, r.Around g os ⟨p.2, parentEnd⟩)
    (hd : Described g os a) (h : linkAll g next ids modes parentEnd a = .ok r) :
    ∃ os', Extends g R ((ids.zip modes).map Prod.fst) os os' a r.2 := by
  unfold linkAll at h
  generalize ids.zip modes = tasks at h hmodes hlinking
  induction tasks generalizing os a with
  | nil =>
    cases h
    exact ⟨os, .refl hd⟩
  | cons p tasks ih =>
    obtain ⟨u, a₁, hlink, h⟩ := build_bind_eq_ok.mp h
    obtain ⟨hmeets, hp⟩ := hmodes p List.mem_cons_self
    obtain ⟨os₁, hext₁⟩ := link_describes hnext hmeets (hlinking p List.mem_cons_self) hd hp hlink
    have hmodes₁ : ∀ q ∈ tasks, g.Meets ⟨q.2, parentEnd⟩ ∧ os₁[q.1]? = some ⟨q.2, parentEnd⟩ := by
      intro q hq
      obtain ⟨hmeets, hq⟩ := hmodes q (List.mem_cons_of_mem _ hq)
      exact ⟨hmeets, getElem?_of_initial hext₁.origins hq⟩
    have hlinking₁ : ∀ q ∈ tasks, ∀ r ∈ a₁.linking, r.Around g os₁ ⟨q.2, parentEnd⟩ := fun q hq =>
      around_of_extends (hlinking q (List.mem_cons_of_mem _ hq)) hext₁
    obtain ⟨os₂, hext₂⟩ := ih hext₁.described h hmodes₁ hlinking₁
    exact ⟨os₂, hext₁.trans hd hext₂⟩

/-! ### Resolving -/

theorem Described.congr {os : List Origin} {a a' : Arena} (h : Described g os a)
    (hmodes : a'.modes = a.modes) (hshared : a'.shared = a.shared) : Described g os a' where
  size := hmodes ▸ h.size
  meets := h.meets
  prepared := hmodes ▸ h.prepared
  shared := hshared ▸ h.shared

/-- How a reference is noted while its modes are linked. The note leaves all modes
alone, and what is then open is around each mode of the reference. It is taken
back at the end. -/
structure Notes (g : Grammar) (modes : List Mode) (parentEnd : Option String)
    (note : List Nat → Arena → Arena) (release : Arena → Arena) (os : List Origin) (a : Arena) :
    Prop where
  described : ∀ ids os₁ a₁, Described g os₁ a₁ →
    List.Forall₂ (BecomesExactly os₁ parentEnd) modes ids → Described g os₁ (note ids a₁)
  kept : ∀ ids a₁, (note ids a₁).modes = a₁.modes
  around : ∀ ids os₁ a₁, os <+: os₁ → a₁.linking = a.linking →
    List.Forall₂ (BecomesExactly os₁ parentEnd) modes ids →
    ∀ r ∈ (note ids a₁).linking, ∀ i ∈ modes, r.Around g os₁ ⟨i, parentEnd⟩
  back : ∀ ids a₁ a₃, a₁.linking = a.linking → a₃.linking = (note ids a₁).linking →
    (release a₃).linking = a.linking
  released : ∀ a₃, (release a₃).modes = a₃.modes ∧ (release a₃).shared = a₃.shared

/-- Every prepared mode is a task for linking, with the index that it was given. -/
theorem tasks_of_becomes {modes : List Mode} {parentEnd : Option String} {os : List Origin}
    {ids : List Nat} (h : List.Forall₂ (BecomesExactly os parentEnd) modes ids) {p : Nat × Mode}
    (hp : p ∈ ids.zip modes) : p.2 ∈ modes ∧ os[p.1]? = some ⟨p.2, parentEnd⟩ :=
  ⟨(List.of_mem_zip hp).2, List.forall₂_zip h.flip hp⟩

/-- Compiling the modes of a reference adds them and all that they hold. -/
theorem compileModes_describes (hnext : next.Describes g R) {modes : List Mode}
    {parentEnd : Option String} {note : List Nat → Arena → Arena} {release : Arena → Arena}
    {os : List Origin} {a a' : Arena} {ids : List Nat}
    (hmodes : ∀ i ∈ modes, g.Meets ⟨i, parentEnd⟩) (hd : Described g os a)
    (hnotes : Notes g modes parentEnd note release os a)
    (h : compileModes g next modes parentEnd note release a = .ok (ids, a')) :
    ∃ os', Extends g R [] os os' a a' ∧
      List.Forall₂ (BecomesExactly os' parentEnd) modes ids ∧
        ids = List.range' a.modes.size modes.length := by
  obtain ⟨a₁, a₃, hprep, hlink, rfl⟩ := compileModes_eq_ok.mp h
  obtain ⟨hd₁, hlinking₁, hkept₁, hsize₁, hids⟩ := prepareAll_describes hmodes hd hprep
  have hbecomes := prepareAll_becomes hd hprep
  set os₁ := os ++ originsOf modes parentEnd with hos₁
  have hd₂ := hnotes.described ids os₁ a₁ hd₁ hbecomes
  have hbelow := hnotes.around ids os₁ a₁ (List.prefix_append _ _) hlinking₁ hbecomes
  have hmodes₂ := hnotes.kept ids a₁
  obtain ⟨os₂, hext⟩ := linkAll_describes hnext
    (fun p hp => ⟨hmodes p.2 (tasks_of_becomes hbecomes hp).1, (tasks_of_becomes hbecomes hp).2⟩)
    (fun p hp r hr => hbelow r hr p.2 (tasks_of_becomes hbecomes hp).1) hd₂ hlink
  have hlength : ids.length = modes.length := hbecomes.length_eq.symm
  rw [List.map_fst_zip (Nat.le_of_eq hlength)] at hext
  have hrange : ∀ i, i ∈ ids ↔ a.modes.size ≤ i ∧ i < a₁.modes.size := by
    intro i
    rw [hids, hsize₁, List.mem_range'_1]
  have hkept : ∀ i, i < a.modes.size → a₃.modes[i]? = a.modes[i]? := by
    intro i hi
    have hi₁ : i < (note ids a₁).modes.size := by
      rw [hmodes₂, hsize₁]
      omega
    have hnot : i ∉ ids := by
      rw [hrange]
      omega
    rw [hext.kept i hi₁ hnot, hmodes₂, hkept₁ i hi]
  obtain ⟨hmodes₃, hshared₃⟩ := hnotes.released a₃
  refine ⟨os₂, ⟨?_, hext.described.congr hmodes₃ hshared₃, ?_, ?_, ?_, ?_⟩, ?_, hids⟩
  · exact (List.prefix_append os _).trans hext.origins
  · exact hnotes.back ids a₁ a₃ hlinking₁ hext.linking
  · intro i hi _
    rw [hmodes₃, hkept i hi]
  · intro i hi
    rw [hmodes₃, hkept i hi]
  · intro i hi hor
    rw [hmodes₃] at hi ⊢
    have hle : a.modes.size ≤ i := hor.resolve_right (by simp)
    apply hext.linked i hi
    rw [hmodes₂, hrange]
    omega
  · exact hbecomes.imp fun _ _ hi => getElem?_of_initial hext.origins hi

theorem forall₂_imp_of_mem {α β : Type} {R S : α → β → Prop} {xs : List α} {ys : List β}
    (h : List.Forall₂ R xs ys) (himp : ∀ x ∈ xs, ∀ y, R x y → S x y) : List.Forall₂ S xs ys := by
  induction h with
  | nil => exact .nil
  | cons hxy _ ih =>
    refine .cons (himp _ List.mem_cons_self _ hxy) (ih ?_)
    exact fun x hx => himp x (List.mem_cons_of_mem _ hx)

theorem becomesAt_of_exactly {os : List Origin} {parentEnd : Option String} {i : Mode} {id : Nat}
    (h : BecomesExactly os parentEnd i id) : g.BecomesAt fits os parentEnd i id :=
  ⟨parentEnd, h, fun _ => .inl rfl, rfl⟩

/-- What is known under the key of a reference may stand for it. -/
theorem becomesAt_of_refKey {os : List Origin} {d i : Mode} {name : String} {expanded : Bool}
    {p parentEnd : Option String} {id : Nat} (hp : os[id]? = some ⟨i, p⟩)
    (hkey : refKey g d name p expanded = refKey g d name parentEnd expanded)
    (hindependent : g.dependsOnParent d = false → ¬ g.Inherits i) :
    g.BecomesAt fits os parentEnd i id := by
  refine ⟨p, hp, ?_, ?_⟩
  · intro hinherits
    rcases hdepends : g.dependsOnParent d with _ | _
    · exact absurd hinherits (hindependent hdepends)
    · exact .inl (by simpa [refKey, hdepends] using hkey)
  · have hend := congrArg RefKey.parentEnd hkey
    unfold refKey at hend
    simp only at hend
    split at hend
    · rw [hend]
    · have hsome := congrArg Option.isSome hend
      simpa using hsome

/-- The copy that is found has the name, and the end there extends that of one of its
modes. -/
theorem enclosing?_eq_some {a : Arena} {name : String} {expanded : Bool} {under : Option String}
    {ids : List Nat} (h : a.enclosing? name expanded under = some ids) :
    ∃ e r, under = some e ∧ r ∈ a.linking ∧ r.name = name ∧ r.expanded = expanded ∧ r.ids = ids ∧
      ∃ id ∈ r.ids, ∃ c, a.modes[id]? = some c ∧ extendsEnd e c.terminatorEnd = true := by
  unfold Arena.enclosing? at h
  obtain ⟨e, rfl, hrest⟩ := Option.bind_eq_some_iff.mp h
  obtain ⟨r, hfound, hids⟩ := Option.bind_eq_some_iff.mp hrest
  cases hids
  have hmatch := List.find?_some hfound
  simp only [Bool.and_eq_true, beq_iff_eq, List.any_eq_true] at hmatch
  obtain ⟨⟨hname, hexpanded⟩, id, hid, hextends⟩ := hmatch
  exact ⟨e, r, rfl, List.mem_of_find?_eq_some hfound, hname, hexpanded, rfl, id, hid,
    (Option.any_eq_true _ _).mp hextends⟩

/-- A copy that is being linked further out stands for a reference if the end
around that one extends the end of the copy. -/
theorem enclosing_cases {name : String} {expanded : Bool} {under : Option String} {d : Mode}
    (htarget : g.target? (.named name) = some d) {os : List Origin} {a : Arena} {ids : List Nat}
    (hlinking : ∀ r ∈ a.linking, r.Around g os o) (hd : Described g os a)
    (h : a.enclosing? name expanded under = some ids) :
    ∃ e copy, under = some e ∧ copy.mode ∈ d.instances expanded ∧ g.Meets copy ∧
      Relation.ReflTransGen g.Holds copy o ∧
      List.Forall₂ (BecomesExactly os copy.parentEnd) (d.instances expanded) ids ∧
      ∃ i ∈ d.instances expanded, extendsEnd e (Origin.mk i copy.parentEnd).ownEnd = true := by
  obtain ⟨e, r, rfl, hr, rfl, rfl, rfl, id, hid, c, hc, hextends⟩ := enclosing?_eq_some h
  obtain ⟨d', copy, hd', hcopy, hids, hmeets, hpath⟩ := hlinking r hr
  have hdd : d' = d := Option.some.inj (hd'.symm.trans htarget)
  subst hdd
  obtain ⟨i, hi, hbecomes⟩ := exists_of_mem_right hids hid
  rw [hd.terminatorEnd hbecomes hc] at hextends
  exact ⟨e, copy, rfl, hcopy, hmeets, hpath, hids, i, hi, hextends⟩

/-- What is known of a name: the mode in which it stands, a copy around that
mode, or what was kept under the same key. -/
theorem known_cases {name : String} {expanded : Bool} {under : Option String} {current : Nat}
    {os : List Origin} {a : Arena} {ids : List Nat} (hlinking : ∀ r ∈ a.linking, r.Around g os o)
    (hd : Described g os a) (h : a.known g name current under expanded = .ids ids) :
    (name = selfName ∧ ids = [current]) ∨ ∃ d, g.target? (.named name) = some d ∧
      ((g.dependsOnParent d = true ∧ ∃ e copy, under = some e ∧ copy.mode ∈ d.instances expanded ∧
          g.Meets copy ∧ Relation.ReflTransGen g.Holds copy o ∧
          List.Forall₂ (BecomesExactly os copy.parentEnd) (d.instances expanded) ids ∧
          ∃ i ∈ d.instances expanded, extendsEnd e (Origin.mk i copy.parentEnd).ownEnd = true) ∨
        List.Forall₂ (fun i id => ∃ p, os[id]? = some ⟨i, p⟩ ∧
          refKey g d name p expanded = refKey g d name under expanded)
            (d.instances expanded) ids) := by
  unfold Arena.known at h
  split at h
  · rename_i hself
    cases h
    exact .inl ⟨hself, rfl⟩
  · rename_i hself
    split at h
    · cases h
    · rename_i d hlookup
      have htarget : g.target? (.named name) = some d := by
        simp [Grammar.target?, hself, hlookup]
      refine .inr ⟨d, htarget, ?_⟩
      split at h
      · rename_i found hfound
        cases h
        split at hfound
        · rename_i hdepends
          exact .inl ⟨hdepends, enclosing_cases htarget hlinking hd hfound⟩
        · cases hfound
      · split at h
        · rename_i found hfound
          cases h
          obtain ⟨before, after, heq, _⟩ := List.lookup_eq_some_iff.mp hfound
          obtain ⟨d', hd', hids⟩ := hd.shared _ _
            (heq ▸ List.mem_append_right before List.mem_cons_self)
          rw [show g.target? (.named (refKey g d name under expanded).name) = some d from htarget]
            at hd'
          cases hd'
          exact .inr hids
        · cases h

/-- A reference that is met for the first time is noted with what it becomes. -/
theorem note_described {os : List Origin} {a : Arena} (hd : Described g os a) {name : String}
    {d : Mode} (htarget : g.target? (.named name) = some d) (expanded dependent : Bool)
    {parentEnd : Option String} {ids : List Nat}
    (hids : List.Forall₂ (BecomesExactly os parentEnd) (d.instances expanded) ids) :
    Described g os (a.note name expanded dependent (refKey g d name parentEnd expanded) ids) := by
  refine ⟨hd.size, hd.meets, hd.prepared, ?_⟩
  intro key ids' hmem
  rcases List.mem_cons.mp hmem with heq | hmem
  · cases heq
    exact ⟨d, htarget, hids.imp fun _ _ hi => ⟨parentEnd, hi, rfl⟩⟩
  · exact hd.shared key ids' hmem

theorem known_eq_fresh {a : Arena} {name : String} {current : Nat} {parentEnd : Option String}
    {expanded dependent : Bool} {d : Mode} {key : RefKey}
    (h : a.known g name current parentEnd expanded = .fresh d dependent key) :
    g.target? (.named name) = some d ∧ key = refKey g d name parentEnd expanded := by
  unfold Arena.known at h
  split at h
  · cases h
  · rename_i hself
    split at h
    · cases h
    · rename_i d' hlookup
      split at h
      · cases h
      · split at h
        · cases h
        · cases h
          exact ⟨by simp [Grammar.target?, hself, hlookup], rfl⟩

theorem known_eq_missing {a : Arena} {name : String} {current : Nat} {parentEnd : Option String}
    {expanded : Bool} (h : a.known g name current parentEnd expanded = .missing) :
    g.target? (.named name) = none := by
  unfold Arena.known at h
  split at h
  · cases h
  · rename_i hself
    split at h
    · rename_i hlookup
      simp [Grammar.target?, hself, hlookup]
    · split at h
      · cases h
      · split at h
        · cases h
        · cases h

/-- An inline mode is not noted. -/
theorem notes_inline {d : Mode} {expanded : Bool} {under : Option String}
    (hr : o.Refers (.inline d) expanded under) {os : List Origin} {a : Arena}
    (hlinking : ∀ r ∈ a.linking, r.Around g os o) :
    Notes g (d.instances expanded) under (fun _ a => a) id os a where
  described _ _ _ hd _ := hd
  kept _ _ := rfl
  around _ _ _ hos₁ hlinking₁ _ r hr' _ hi :=
    ((hlinking r (hlinking₁ ▸ hr')).mono hos₁).tail ⟨.inline d, expanded, d, hr, rfl, hi⟩
  back _ _ _ hlinking₁ hlinking₃ := hlinking₃.trans hlinking₁
  released _ := ⟨rfl, rfl⟩

/-- A named mode is noted under its key, and as open if it depends on its
parent. -/
theorem notes_named (hm : g.Meets o) {name : String} {d : Mode} {expanded : Bool}
    {under : Option String} (hr : o.Refers (.named name) expanded under)
    (htarget : g.target? (.named name) = some d) (dependent : Bool) {os : List Origin} {a : Arena}
    (hlinking : ∀ r ∈ a.linking, r.Around g os o) :
    Notes g (d.instances expanded) under
      (fun ids a => a.note name expanded dependent (refKey g d name under expanded) ids)
      (·.release dependent) os a where
  described _ _ _ hd hids := note_described hd htarget expanded dependent hids
  kept _ _ := rfl
  around ids os₁ a₁ hos₁ hlinking₁ hids r hr' i hi := by
    have hholds : g.Holds o ⟨i, under⟩ := ⟨.named name, expanded, d, hr, htarget, hi⟩
    have hold : ∀ r ∈ a₁.linking, r.Around g os₁ ⟨i, under⟩ := fun r hr =>
      ((hlinking r (hlinking₁ ▸ hr)).mono hos₁).tail hholds
    cases dependent with
    | false => exact hold r hr'
    | true =>
      rcases List.mem_cons.mp hr' with rfl | hr'
      · exact ⟨d, ⟨i, under⟩, htarget, hi, hids, hm.tail hholds, .refl⟩
      · exact hold r hr'
  back ids a₁ a₃ hlinking₁ hlinking₃ := by
    cases dependent with
    | false => exact hlinking₃.trans hlinking₁
    | true => exact (congrArg List.tail hlinking₃).trans hlinking₁
  released _ := ⟨rfl, rfl⟩

/-- What a reference stands for is right for a grammar: it is right of the modes
that were compiled for the reference, and of what was known of a name. -/
structure Resolution.Sound (g : Grammar) (R : Resolution) : Prop where
  fresh : ∀ {os current under expanded r d ids}, g.target? r = some d →
    List.Forall₂ (BecomesExactly os under) (d.instances expanded) ids →
    R.Stands os current under expanded r ids
  known : ∀ {o name expanded under current os ids} {a : Arena}, g.Meets o →
    o.Refers (.named name) expanded under → (∀ r ∈ a.linking, r.Around g os o) →
    Described g os a → a.known g name current under expanded = .ids ids →
    R.Stands os current under expanded (.named name) ids

/-- In a faithful grammar a copy fits wherever it is used. -/
theorem Grammar.Faithful.sound (hg : g.Faithful fits) : (g.sharing fits).Sound g where
  fresh htarget hids := .modes htarget (hids.imp fun _ _ => becomesAt_of_exactly)
  known {o name expanded under current os ids a} hm hr hlinking hd h := by
    rcases known_cases hlinking hd h with ⟨rfl, rfl⟩ | ⟨d, htarget, hcopy | hkept⟩
    · exact .self
    · obtain ⟨hdepends, e, copy, rfl, hmem, hmeets, hpath, hids, hextends⟩ := hcopy
      refine .modes htarget (forall₂_imp_of_mem hids ?_)
      intro i hi id hbecomes
      rcases hg.reused copy o name expanded e d hmeets hpath hr htarget hdepends hmem hextends with
        hsame | ⟨hsome, hfits⟩
      · rw [hsame] at hbecomes
        exact becomesAt_of_exactly hbecomes
      · exact ⟨copy.parentEnd, hbecomes, fun hinherits => .inr (hfits i hi hinherits), hsome⟩
    · refine .modes htarget (forall₂_imp_of_mem hkept ?_)
      rintro i hi id ⟨p, hp, hkey⟩
      exact becomesAt_of_refKey hp hkey fun hdepends =>
        hg.independent o name expanded under d i hm hr htarget hdepends hi

/-- At every depth, what is compiled comes from where the grammar says. -/
theorem resolve_describes (hR : R.Sound g) (depth : Nat) : (resolve g depth).Describes g R := by
  induction depth with
  | zero =>
    intro o reference expanded current under os a ids a' _ _ _ _ h
    rw [resolve_zero] at h
    cases h
  | succ depth ih =>
    intro o reference expanded current under os a ids a' hm hr hlinking hd h
    cases reference with
    | inline d =>
      rw [resolve_succ] at h
      have hmodes : ∀ i ∈ d.instances expanded, g.Meets ⟨i, under⟩ := fun i hi =>
        hm.tail ⟨.inline d, expanded, d, hr, rfl, hi⟩
      obtain ⟨os', hext, hids, _⟩ :=
        compileModes_describes ih hmodes hd (notes_inline hr hlinking) h
      exact ⟨os', hext, hR.fresh rfl hids⟩
    | named name =>
      rcases resolve_named_ok h with ⟨hknown, rfl⟩ | ⟨d, dependent, key, hknown, h⟩
      · exact ⟨os, .refl hd, hR.known hm hr hlinking hd hknown⟩
      · obtain ⟨htarget, rfl⟩ := known_eq_fresh hknown
        have hmodes : ∀ i ∈ d.instances expanded, g.Meets ⟨i, under⟩ := fun i hi =>
          hm.tail ⟨.named name, expanded, d, hr, htarget, hi⟩
        obtain ⟨os', hext, hids, _⟩ := compileModes_describes ih hmodes hd
          (notes_named hm hr htarget dependent hlinking) h
        exact ⟨os', hext, hR.fresh htarget hids⟩

/-! ### Languages -/

/-- The modes of a language and their origins, the root first. Every mode is
prepared from its origin and linked as its origin asks. -/
structure Comes (g : Grammar) (R : Resolution) (os : List Origin) (l : CompiledLanguage) :
    Prop where
  size : os.length = l.modes.size
  meets : ∀ o ∈ os, g.Meets o
  root : os[0]? = some g.rootOrigin
  prepared : ∀ (id : Nat) (o : Origin) (c : CompiledMode), os[id]? = some o →
    l.modes[id]? = some c → o.mode.prepare g.caseInsensitive o.parentEnd = .ok c.unlinked
  linked : ∀ id, id < l.modes.size → LinkedAt g R os l.modes id
  anyCase : l.caseInsensitive = g.caseInsensitive

/-- The origin of a mode, and its links. -/
theorem Comes.links {os : List Origin} {l : CompiledLanguage} (h : Comes g R os l) {id : Nat}
    {c : CompiledMode} (hc : l.mode? id = some c) :
    ∃ o, os[id]? = some o ∧ Links g R os l.modes id o c := by
  obtain ⟨o, c', ho, hc', hlinks⟩ := h.linked id (Array.getElem?_eq_some_iff.mp hc).1
  have hcc : c' = c := Option.some.inj (hc'.symm.trans hc)
  subst hcc
  exact ⟨o, ho, hlinks⟩

theorem Comes.terminatorEnd {os : List Origin} {l : CompiledLanguage} (h : Comes g R os l)
    {id : Nat} {o : Origin} {c : CompiledMode} (ho : os[id]? = some o) (hc : l.mode? id = some c) :
    c.terminatorEnd = o.ownEnd := by
  rw [← CompiledMode.unlinked_terminatorEnd]
  exact prepare_terminatorEnd (h.prepared id o c ho hc)

/-- Compiling a grammar is compiling its root, in an arena that is still empty. -/
theorem compileWithin_eq (g : Grammar) (depth : Nat) :
    compileWithin g depth = (compileModes g (resolve g depth) [g.root.withoutVariants] none
      (fun _ a => a) id {}).map
        fun p => { caseInsensitive := g.caseInsensitive, modes := p.2.modes } := by
  have hbind : ∀ {α β : Type} (x : Build α) (f : α → Build β) (a : Arena),
      (x >>= f) a = (x a >>= fun p => f p.1 p.2) := fun _ _ _ => rfl
  have hmodify : ∀ (f : Arena → Arena) (a : Arena), (modify f : Build Unit) a = .ok ((), f a) :=
    fun _ _ => rfl
  unfold compileWithin compileModes
  simp only [StateT.run, hbind]
  rcases prepareAll g [g.root.withoutVariants] none {} with e | ⟨ids, a₁⟩
  · rfl
  · simp only [hmodify, ok_bind_eq]
    rcases linkAll g (resolve g depth) ids [g.root.withoutVariants] none a₁ with e | ⟨_, a₂⟩
    · rfl
    · rfl

theorem described_empty (g : Grammar) : Described g [] {} := by
  refine ⟨rfl, ?_, ?_, ?_⟩
  · intro o ho
    cases ho
  · intro id o c ho
    cases ho
  · intro key ids hmem
    cases hmem

/-- Nothing is open around the root. -/
theorem notes_root (modes : List Mode) (parentEnd : Option String) :
    Notes g modes parentEnd (fun _ a => a) id [] {} where
  described _ _ _ hd _ := hd
  kept _ _ := rfl
  around _ _ _ _ hlinking _ r hr _ _ := by
    rw [hlinking] at hr
    cases hr
  back _ _ _ hlinking₁ hlinking₃ := hlinking₃.trans hlinking₁
  released _ := ⟨rfl, rfl⟩

/-- Every mode of a language that a grammar compiles to has an origin. -/
theorem compileWithin_comes (hR : R.Sound g) {depth : Nat} {l : CompiledLanguage}
    (h : compileWithin g depth = .ok l) : ∃ os, Comes g R os l := by
  rw [compileWithin_eq, map_eq_ok] at h
  obtain ⟨⟨ids, a⟩, hcompile, rfl⟩ := h
  have hroot : ∀ i ∈ [g.root.withoutVariants], g.Meets ⟨i, none⟩ := by
    intro i hi
    rw [List.mem_singleton.mp hi]
    exact .refl
  obtain ⟨os, hext, hbecomes, hids⟩ := compileModes_describes (resolve_describes hR depth) hroot
    (described_empty g) (notes_root _ none) hcompile
  have hids : ids = [0] := hids
  rw [hids] at hbecomes
  cases hbecomes with
  | cons hfirst _ =>
    exact ⟨os, hext.described.size, hext.described.meets, hfirst, hext.described.prepared,
      fun id hid => hext.linked id hid (.inl (Nat.zero_le id)), rfl⟩

end

end Highlighting
