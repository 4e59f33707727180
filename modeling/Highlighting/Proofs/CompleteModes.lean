-- The modes of a compiled language are complete. Modes are prepared first and get
-- their links later, and in between other modes already refer to them: to the mode
-- that is being linked, to a copy around it, or to one that was kept. When
-- compiling is done, every mode has got its links, once, and they are those that
-- the mode as declared asks for.
import Highlighting.Proofs.CompileDepths
import Highlighting.Proofs.InheritedEnds

namespace Highlighting

/-! ## The order of linking -/

/-- The modes that a way to resolve references links, in order. -/
abbrev LinkOrder := (reference : ModeRef) → (current : Nat) → (parentEnd : Option String) →
  (expanded : Bool) → Arena → List Nat

/-- What is linked behind a step, unless that fails. -/
def orderAfter {α : Type} (x : Except GrammarError (α × Arena)) (order : α → Arena → List Nat) :
    List Nat :=
  match x with
  | .ok (v, a) => order v a
  | .error _ => []

@[simp] theorem orderAfter_ok {α : Type} (p : α × Arena) (order : α → Arena → List Nat) :
    orderAfter (.ok p) order = order p.1 p.2 := rfl

/-- What is linked when the references of a mode are resolved. -/
def childrenOrder (next : Resolver) (order : LinkOrder) (id : Nat) (ownEnd : String) :
    List ModeRef → Arena → List Nat
  | [], _ => []
  | r :: refs, a =>
    order r id (some ownEnd) true a ++ orderAfter (next r id (some ownEnd) true a)
      fun _ a₁ => childrenOrder next order id ownEnd refs a₁

/-- What is linked when what follows a mode is resolved. -/
def startsOrder (order : LinkOrder) (id : Nat) (starts : Option ModeRef)
    (parentEnd : Option String) (a : Arena) : List Nat :=
  match starts with
  | some r => order r id parentEnd false a
  | none => []

/-- A mode is linked behind all that its references add. -/
def linkOrder (next : Resolver) (order : LinkOrder) (id : Nat) (m : Mode)
    (parentEnd : Option String) (a : Arena) : List Nat :=
  childrenOrder next order id (a.ownEnd id) m.contains a ++
    orderAfter (linkChildren next id m.contains (a.ownEnd id) a)
      fun _ a₁ => startsOrder order id m.starts parentEnd a₁ ++ [id]

def linkAllOrder (g : Grammar) (next : Resolver) (order : LinkOrder) (parentEnd : Option String) :
    List (Nat × Mode) → Arena → List Nat
  | [], _ => []
  | (id, m) :: tasks, a =>
    linkOrder next order id m parentEnd a ++ orderAfter (link g next id m parentEnd a)
      fun _ a₁ => linkAllOrder g next order parentEnd tasks a₁

def compileModesOrder (g : Grammar) (next : Resolver) (order : LinkOrder) (modes : List Mode)
    (parentEnd : Option String) (note : List Nat → Arena → Arena) (a : Arena) : List Nat :=
  orderAfter (prepareAll g modes parentEnd a)
    fun ids a₁ => linkAllOrder g next order parentEnd (ids.zip modes) (note ids a₁)

/-- What is linked when a reference is resolved: nothing, if it is known. -/
def resolveOrder (g : Grammar) : Nat → LinkOrder
  | 0, _, _, _, _, _ => []
  | depth + 1, .inline m, _, parentEnd, expanded, a =>
    compileModesOrder g (resolve g depth) (resolveOrder g depth) (m.instances expanded) parentEnd
      (fun _ a => a) a
  | depth + 1, .named name, current, parentEnd, expanded, a =>
    match a.known g name current parentEnd expanded with
    | .fresh m dependent key =>
      compileModesOrder g (resolve g depth) (resolveOrder g depth) (m.instances expanded)
        parentEnd (fun ids a => a.note name expanded dependent key ids) a
    | _ => []

/-- The modes that are linked when a grammar is compiled, in order. -/
def compileOrder (g : Grammar) (depth : Nat) : List Nat :=
  compileModesOrder g (resolve g depth) (resolveOrder g depth) [g.root.withoutVariants] none
    (fun _ a => a) {}

/-! ## Every mode is linked once -/

/-- From one arena to a later one, the modes that were added were linked once, and so were
those of `ids`. -/
structure LinksOnce (ids : List Nat) (a a' : Arena) (linked : List Nat) : Prop where
  size : a.modes.size ≤ a'.modes.size
  perm : linked.Perm (ids ++ List.range' a.modes.size (a'.modes.size - a.modes.size))

namespace LinksOnce

theorem same {a a' : Arena} (h : a'.modes.size = a.modes.size) (ids : List Nat) :
    LinksOnce ids a a' ids where
  size := Nat.le_of_eq h.symm
  perm := by simp [h]

theorem trans {first second linked linked' : List Nat} {a₁ a₂ a₃ : Arena}
    (h : LinksOnce first a₁ a₂ linked) (h' : LinksOnce second a₂ a₃ linked') :
    LinksOnce (first ++ second) a₁ a₃ (linked ++ linked') where
  size := Nat.le_trans h.size h'.size
  perm := by
    have hsize := h.size
    have hsize' := h'.size
    -- What the two parts add stands in one row.
    have hcount : a₃.modes.size - a₁.modes.size =
        (a₂.modes.size - a₁.modes.size) + (a₃.modes.size - a₂.modes.size) := by omega
    have hrow : List.range' a₁.modes.size (a₃.modes.size - a₁.modes.size) =
        List.range' a₁.modes.size (a₂.modes.size - a₁.modes.size) ++
          List.range' a₂.modes.size (a₃.modes.size - a₂.modes.size) := by
      rw [hcount, ← List.range'_append_1, Nat.add_sub_cancel' hsize]
    refine (h.perm.append h'.perm).trans ?_
    rw [hrow]
    simp only [List.append_assoc]
    exact (List.perm_append_comm_assoc _ _ _).append_left first

end LinksOnce

/-- A way to resolve references that links what it adds, once, and nothing else. -/
def Resolver.LinksOnce (next : Resolver) (order : LinkOrder) : Prop :=
  ∀ reference current parentEnd expanded a ids a',
    next reference current parentEnd expanded a = .ok (ids, a') →
      Highlighting.LinksOnce [] a a' (order reference current parentEnd expanded a)

section

variable {g : Grammar} {next : Resolver} {order : LinkOrder}

theorem linkChildren_linksOnce (hnext : next.LinksOnce order) {id : Nat} {refs : List ModeRef}
    {ownEnd : String} {a a' : Arena} {lists : List (List Nat)}
    (h : linkChildren next id refs ownEnd a = .ok (lists, a')) :
    LinksOnce [] a a' (childrenOrder next order id ownEnd refs a) := by
  unfold linkChildren at h
  induction refs generalizing a lists with
  | nil =>
    cases h
    exact .same rfl []
  | cons r refs ih =>
    rw [List.mapM_cons] at h
    obtain ⟨ids, a₁, hr, h⟩ := build_bind_eq_ok.mp h
    obtain ⟨lists', a₂, hlists, h⟩ := build_bind_eq_ok.mp h
    cases h
    rw [childrenOrder, hr, orderAfter_ok]
    exact (hnext _ _ _ _ _ _ _ hr).trans (ih hlists)

theorem linkStarts_linksOnce (hnext : next.LinksOnce order) {id : Nat} {starts : Option ModeRef}
    {parentEnd : Option String} {a a' : Arena} {result : Option Nat}
    (h : linkStarts next id starts parentEnd a = .ok (result, a')) :
    LinksOnce [] a a' (startsOrder order id starts parentEnd a) := by
  cases starts with
  | none =>
    cases h
    exact .same rfl []
  | some r =>
    obtain ⟨ids, a₁, hr, h⟩ := build_bind_eq_ok.mp h
    cases h
    exact hnext _ _ _ _ _ _ _ hr

theorem link_linksOnce (hnext : next.LinksOnce order) {id : Nat} {m : Mode}
    {parentEnd : Option String} {a : Arena} {r : Unit × Arena}
    (h : link g next id m parentEnd a = .ok r) :
    LinksOnce [id] a r.2 (linkOrder next order id m parentEnd a) := by
  rw [link_eq] at h
  obtain ⟨lists, a₁, hchildren, h⟩ := build_bind_eq_ok.mp h
  obtain ⟨starts, a₂, hstarts, h⟩ := build_bind_eq_ok.mp h
  obtain ⟨terminators, _, hr⟩ := setLinks_ok h
  have hsize : r.2.modes.size = a₂.modes.size := by
    rw [hr]
    exact Array.size_modify
  rw [linkOrder, hchildren, orderAfter_ok]
  exact (linkChildren_linksOnce hnext hchildren).trans
    ((linkStarts_linksOnce hnext hstarts).trans (.same hsize [id]))

theorem linkAll_linksOnce (hnext : next.LinksOnce order) {ids : List Nat} {modes : List Mode}
    {parentEnd : Option String} {a : Arena} {r : Unit × Arena}
    (h : linkAll g next ids modes parentEnd a = .ok r) :
    LinksOnce ((ids.zip modes).map Prod.fst) a r.2
      (linkAllOrder g next order parentEnd (ids.zip modes) a) := by
  unfold linkAll at h
  generalize ids.zip modes = tasks at h
  induction tasks generalizing a with
  | nil =>
    cases h
    exact .same rfl []
  | cons p tasks ih =>
    obtain ⟨_, a₁, hlink, h⟩ := build_bind_eq_ok.mp h
    have hlink : link g next p.1 p.2 parentEnd a = .ok ((), a₁) := hlink
    rw [linkAllOrder, hlink, orderAfter_ok]
    exact (link_linksOnce hnext hlink).trans (ih h)

/-- Compiling the modes of a reference links them and all that they hold, once. -/
theorem compileModes_linksOnce (hnext : next.LinksOnce order) {modes : List Mode}
    {parentEnd : Option String} {note : List Nat → Arena → Arena} {release : Arena → Arena}
    {a a' : Arena} {ids : List Nat} (hnote : ∀ ids a, (note ids a).modes = a.modes)
    (hrelease : ∀ a, (release a).modes = a.modes)
    (h : compileModes g next modes parentEnd note release a = .ok (ids, a')) :
    LinksOnce [] a a' (compileModesOrder g next order modes parentEnd note a) := by
  obtain ⟨a₁, a₃, hprep, hlink, rfl⟩ := compileModes_eq_ok.mp h
  have hlinked := linkAll_linksOnce hnext hlink
  rw [compileModesOrder, hprep, orderAfter_ok]
  obtain ⟨ms, hms, rfl, rfl⟩ := prepareAll_ok hprep
  have hlength : (List.range' a.modes.size ms.length).length ≤ modes.length := by
    rw [List.length_range']
    exact Nat.le_of_eq (forall₂_of_mapM hms).length_eq.symm
  rw [List.map_fst_zip hlength] at hlinked
  obtain ⟨hsize, hperm⟩ := hlinked
  simp only [hnote, Array.size_append, List.size_toArray] at hsize hperm
  rw [List.range'_append_1] at hperm
  have hcount : ms.length + (a₃.modes.size - (a.modes.size + ms.length)) =
      a₃.modes.size - a.modes.size := by omega
  rw [hcount] at hperm
  constructor
  · rw [hrelease]
    omega
  · rw [hrelease]
    exact hperm

theorem resolve_linksOnce (g : Grammar) (depth : Nat) :
    (resolve g depth).LinksOnce (resolveOrder g depth) := by
  induction depth with
  | zero =>
    intro reference current parentEnd expanded a ids a' h
    rw [resolve_zero] at h
    cases h
  | succ depth ih =>
    intro reference current parentEnd expanded a ids a' h
    cases reference with
    | inline d =>
      rw [resolve_succ] at h
      exact compileModes_linksOnce ih (fun _ _ => rfl) (fun _ => rfl) h
    | named name =>
      rw [resolveOrder]
      rcases resolve_named_ok h with ⟨hknown, rfl⟩ | ⟨d, dependent, key, hknown, h⟩
      · rw [hknown]
        exact .same rfl []
      · rw [hknown]
        refine compileModes_linksOnce ih ?_ ?_ h
        · exact fun _ _ => rfl
        · exact fun _ => rfl

/-- When a grammar is compiled, every mode is linked, and none of them twice. -/
theorem compileWithin_linksOnce {depth : Nat} {l : CompiledLanguage}
    (h : compileWithin g depth = .ok l) :
    (compileOrder g depth).Perm (List.range l.modes.size) := by
  rw [compileWithin_eq, map_eq_ok] at h
  obtain ⟨⟨ids, a⟩, hcompile, rfl⟩ := h
  have hlinked := compileModes_linksOnce (resolve_linksOnce g depth) (fun _ _ => rfl)
    (fun _ => rfl) hcompile
  rw [List.range_eq_range']
  exact hlinked.perm

end

/-! ## Which copies a reference stands for -/

/-- A copy of a mode that was compiled under the end `p` is used for a reference under
another one. A name is kept under a key, and where the mode depends on its parent, a copy
of it that is being linked around the reference is used again if the end there extends
the end of that copy. -/
inductive Grammar.Reuses (g : Grammar) (d : Mode) (expanded : Bool) :
    ModeRef → (p under : Option String) → Prop
  | same {r : ModeRef} {under : Option String} : g.Reuses d expanded r under under
  | kept {name : String} {p under : Option String}
      (h : refKey g d name p expanded = refKey g d name under expanded) :
      g.Reuses d expanded (.named name) p under
  | enclosing {name : String} {p : Option String} {under : String} {i : Mode}
      (hdepends : g.dependsOnParent d = true) (hi : i ∈ d.instances expanded)
      (h : extendsEnd under (Origin.mk i p).ownEnd = true) :
      g.Reuses d expanded (.named name) p (some under)

/-- A reference in the mode `current` stands for indices: for that of the mode itself, or
for one copy of each instance of what it refers to, in order. -/
inductive StandsFor (g : Grammar) (os : List Origin) (current : Nat) (under : Option String)
    (expanded : Bool) : ModeRef → List Nat → Prop
  | self : StandsFor g os current under expanded (.named selfName) [current]
  | copies {r : ModeRef} {d : Mode} {ids : List Nat} (htarget : g.target? r = some d)
      (hids : List.Forall₂
        (fun i id => ∃ p, os[id]? = some ⟨i, p⟩ ∧ g.Reuses d expanded r p under)
        (d.instances expanded) ids) :
      StandsFor g os current under expanded r ids

/-- Any copy that the compiler uses again may stand for a reference. -/
abbrev Grammar.copying (g : Grammar) : Resolution where
  Stands := StandsFor g
  mono h hos := by
    cases h with
    | self => exact .self
    | copies htarget hids =>
      refine .copies htarget (hids.imp ?_)
      rintro i id ⟨p, hp, hreuses⟩
      exact ⟨p, getElem?_of_initial hos hp, hreuses⟩
  lt h hcurrent := by
    cases h with
    | self => simpa using hcurrent
    | copies htarget hids =>
      intro id hid
      obtain ⟨i, _, p, hp, _⟩ := exists_of_mem_right hids hid
      exact (List.getElem?_eq_some_iff.mp hp).1

theorem copying_sound (g : Grammar) : g.copying.Sound g where
  fresh htarget hids := .copies htarget (hids.imp fun _ _ hi => ⟨_, hi, .same⟩)
  known _ _ hlinking hd h := by
    rcases known_cases hlinking hd h with ⟨rfl, rfl⟩ | ⟨d, htarget, hcopy | hkept⟩
    · exact .self
    · obtain ⟨hdepends, e, copy, rfl, _, _, _, hids, i, hi, hextends⟩ := hcopy
      exact .copies htarget (hids.imp fun _ _ hbecomes =>
        ⟨copy.parentEnd, hbecomes, .enclosing hdepends hi hextends⟩)
    · refine .copies htarget (hkept.imp ?_)
      rintro i id ⟨p, hp, hkey⟩
      exact ⟨p, hp, .kept hkey⟩

/-! ## Complete modes -/

/-- The rule by which a mode begins among the terminators of another. A beginning at
keywords allows for a dot on either side. -/
def CompiledLanguage.beginRule? (l : CompiledLanguage) (id : Nat) : Option (Rule × String) := do
  let child ← l.mode? id
  let source ← child.begins
  return (.begins id, if child.byKeywords then "\\.?(?:" ++ source ++ ")\\.?" else source)

/-- The rule by which a mode ends, unless there is nothing at which it does. -/
def CompiledMode.endRule? (m : CompiledMode) : Option (Rule × String) :=
  if m.terminatorEnd = "" then none else some (.ends, m.terminatorEnd)

/-- The mode with the index `id` is complete: it is what its origin was prepared to, with
the links and the terminators that the origin asks for. Its end is its own, which only a
mode inside another one has, joined with the end around it if it takes that over. -/
structure CompleteMode (g : Grammar) (os : List Origin) (l : CompiledLanguage) (id : Nat)
    (o : Origin) (m : CompiledMode) : Prop where
  prepared : o.mode.prepare g.caseInsensitive o.parentEnd = .ok m.unlinked
  contains : ∃ lists, m.contains = lists.flatten ∧
    List.Forall₂ (StandsFor g os id (some m.terminatorEnd) true) o.mode.contains lists
  starts : ∀ r, o.mode.starts = some r →
    ∃ next, m.starts = some next ∧ StandsFor g os id o.parentEnd false r [next]
  starts_none : o.mode.starts = none → m.starts = none
  terminators : Terminators.ofRules (m.contains.filterMap l.beginRule? ++ m.endRule?.toList ++
    (o.mode.illegal.map fun source => (Rule.illegal, source)).toList) g.caseInsensitive =
      .ok m.terminators
  ownEnd : m.ends.map Pattern.source = o.parentEnd.bind fun _ => o.mode.endSource
  terminatorEnd : m.terminatorEnd = "|".intercalate ((m.ends.map Pattern.source).toList ++
    (o.parentEnd.filter fun e => m.endsWithParent && !e.isEmpty).toList)

section

variable {g : Grammar}

/-- A copy that stands for a reference without variants stands there alone. -/
theorem StandsFor.head? {os : List Origin} {current : Nat} {under : Option String} {r : ModeRef}
    {ids : List Nat} (h : StandsFor g os current under false r ids) :
    ∃ next, ids.head? = some next ∧ StandsFor g os current under false r [next] := by
  have hlength : ids.length = 1 := by
    cases h with
    | self => rfl
    | copies _ hids => exact hids.length_eq.symm
  obtain ⟨next, rfl⟩ := List.length_eq_one_iff.mp hlength
  exact ⟨next, rfl, h⟩

theorem prepare_ends_source {o : Origin} {anyCase : Bool} {c : CompiledMode}
    (h : o.mode.prepare anyCase o.parentEnd = .ok c) :
    c.ends.map Pattern.source = o.parentEnd.bind fun _ => o.mode.endSource := by
  have hends := (prepare_prepared h).ends
  rcases hs : o.parentEnd.bind fun _ => o.mode.endSource with _ | s
  · rw [hs] at hends
    rw [← Except.ok.inj hends]
    rfl
  · rw [hs] at hends
    rcases hr : grammarPattern s anyCase with _ | p
    · simp [hr] at hends
    · have hown : c.ends = some p := by simpa [hr, eq_comm] using hends
      rw [hown, Option.map_some, (grammarPattern_ok hr).2]

/-- The end of a mode is its own, joined with the end around it if it ends with that. -/
theorem Origin.ownEnd_eq (o : Origin) :
    o.ownEnd = "|".intercalate ((o.parentEnd.bind fun _ => o.mode.endSource).toList ++
      (o.parentEnd.filter fun e => o.mode.endsWithParent && !e.isEmpty).toList) := by
  unfold Origin.ownEnd Mode.terminatorEnd
  rcases o.parentEnd with _ | e
  · rfl
  · simp only [Option.map_some, Option.getD_some, Option.bind_some, Option.filter_some]
    by_cases hinherits : (o.mode.endsWithParent && !e.isEmpty) = true
    · rw [if_pos hinherits, if_pos hinherits]
      rcases o.mode.endSource with _ | s
      · simp
      · simp
    · rw [if_neg hinherits, if_neg hinherits]
      rcases o.mode.endSource with _ | s
      · simp
      · simp

/-- The rules of a mode of a language. -/
theorem rulesAmong_eq (l : CompiledLanguage) (m : CompiledMode) (illegal : Option String) :
    rulesAmong l.modes m.contains m.terminatorEnd illegal =
      m.contains.filterMap l.beginRule? ++ m.endRule?.toList ++
        (illegal.map fun source => (Rule.illegal, source)).toList := by
  have hend : (if m.terminatorEnd.isEmpty then [] else [(Rule.ends, m.terminatorEnd)]) =
      m.endRule?.toList := by
    unfold CompiledMode.endRule?
    by_cases hempty : m.terminatorEnd = ""
    · simp [hempty]
    · simp [hempty]
  unfold rulesAmong Arena.rules
  rw [hend]
  rfl

/-- What comes from a grammar with the copies that the compiler uses is complete. -/
theorem Comes.complete {os : List Origin} {l : CompiledLanguage} (h : Comes g g.copying os l)
    {id : Nat} {m : CompiledMode} (hm : l.mode? id = some m) :
    ∃ o, os[id]? = some o ∧ CompleteMode g os l id o m := by
  obtain ⟨o, ho, hlinks⟩ := h.links hm
  have hprepared := h.prepared id o m ho hm
  have hsource := prepare_ends_source hprepared
  rw [CompiledMode.unlinked_ends] at hsource
  have hends := (prepare_prepared hprepared).endsWithParent
  rw [CompiledMode.unlinked_endsWithParent] at hends
  refine ⟨o, ho, hprepared, hlinks.contains, ?_, hlinks.starts_none, ?_, hsource, ?_⟩
  · intro r hr
    obtain ⟨ids, hhead, hids⟩ := hlinks.starts r hr
    rw [hhead]
    exact hids.head?
  · rw [← rulesAmong_eq]
    exact hlinks.terminators
  · rw [h.terminatorEnd ho hm, hsource, hends]
    exact o.ownEnd_eq

/-- Mode 0 comes from the root, and it neither begins nor ends. -/
theorem Comes.root_mode {R : Resolution} {os : List Origin} {l : CompiledLanguage}
    (h : Comes g R os l) :
    ∃ root, l.mode? 0 = some root ∧ root.begins = none ∧ root.ends = none ∧
      root.terminatorEnd = "" := by
  have hsize : 0 < l.modes.size := by
    rw [← h.size]
    exact (List.getElem?_eq_some_iff.mp h.root).1
  obtain ⟨root, hroot⟩ : ∃ root, l.mode? 0 = some root := ⟨_, Array.getElem?_eq_getElem hsize⟩
  have hprepared := h.prepared 0 g.rootOrigin root h.root hroot
  have hbegins : root.unlinked.begins = none := (prepare_prepared hprepared).begins
  have hends : root.unlinked.ends = none := prepare_none hprepared
  exact ⟨root, hroot, hbegins, hends, h.terminatorEnd h.root hroot⟩

end

/-- The modes of a language are in order, with these origins: the root comes first, every
index that a mode holds is that of a mode, and every mode is complete. -/
structure WellFormed (g : Grammar) (os : List Origin) (l : CompiledLanguage) : Prop where
  size : os.length = l.modes.size
  root : os[0]? = some g.rootOrigin
  root_mode : ∃ root, l.mode? 0 = some root ∧ root.begins = none ∧ root.ends = none ∧
    root.terminatorEnd = ""
  ids : ∀ m ∈ l.modes, m.IdsBelow l.modes.size
  complete : ∀ id m, l.mode? id = some m → ∃ o, os[id]? = some o ∧ CompleteMode g os l id o m

/-- A grammar that compiles gives a language of complete modes. The first is the root,
which neither begins nor ends, and every index in a mode is that of a mode. Every mode was
linked once, with what its references stand for. -/
theorem compiled_modes_are_complete {g : Grammar} {depth : Nat} {l : CompiledLanguage}
    (h : compileWithin g depth = .ok l) :
    (∃ os, WellFormed g os l) ∧ (compileOrder g depth).Perm (List.range l.modes.size) := by
  obtain ⟨os, hcomes⟩ := compileWithin_comes (copying_sound g) h
  refine ⟨⟨os, hcomes.size, hcomes.root, hcomes.root_mode, compileWithin_idsBelow h, ?_⟩,
    compileWithin_linksOnce h⟩
  intro id m hm
  exact hcomes.complete hm

/-- Words that open a declaration, which may stand in itself. Its value ends at a comma, or
where the declaration does, and holds quotations of two kinds. -/
def declaring : Grammar where
  definitions := [("value", {
    begins := some "=", ends := some ",", endsWithParent := true
    contains := [.inline { variants := [
      { begins := some "'", ends := some "'" }, { begins := some "<", ends := some ">" }] }] })]
  root := { contains := [.inline {
    beginKeywords := some "let var", ends := some ";", illegal := some "!"
    contains := [.named "value", .named "self"] }] }

theorem declarations_are_complete :
    ∃ l, compile declaring = .ok l ∧
      l.modes.toList.map (·.contains) = [[1], [2, 1], [3, 4], [], []] ∧
      l.modes.toList.map (·.terminatorEnd) = ["", ";", ",|;", "'", ">"] ∧
      l.beginRule? 1 = some (.begins 1, "\\.?(?:\\b(let|var)\\b)\\.?") ∧
      compileOrder declaring 9 = [3, 4, 2, 1, 0] ∧
      (∃ os, WellFormed declaring os l) ∧
      (compileOrder declaring 9).Perm (List.range l.modes.size) := by
  have hall : ((compileWithin declaring 9).toOption.any fun l =>
      l.modes.toList.map (·.contains) == [[1], [2, 1], [3, 4], [], []] &&
      l.modes.toList.map (·.terminatorEnd) == ["", ";", ",|;", "'", ">"] &&
      l.beginRule? 1 == some (.begins 1, "\\.?(?:\\b(let|var)\\b)\\.?")) = true := by
    decide +kernel
  have horder : compileOrder declaring 9 = [3, 4, 2, 1, 0] := by decide +kernel
  obtain ⟨l, hl, hall⟩ := toOption_any_eq_true.mp hall
  simp only [Bool.and_eq_true, beq_iff_eq] at hall
  obtain ⟨⟨hcontains, hends⟩, hrule⟩ := hall
  exact ⟨l, compile_of_compileWithin hl, hcontains, hends, hrule, horder, compiled_modes_are_complete hl⟩

end Highlighting
