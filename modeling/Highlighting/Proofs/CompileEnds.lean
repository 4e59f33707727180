-- When compiling comes to an end. A reference asks for the references of the
-- modes that it compiles, one after another. What is named is compiled once for
-- each end that it inherits, so only ends that keep growing can lead on for
-- ever; and a definition that stands in what follows it can make them grow.
import Mathlib.Data.Finite.Prod
import Mathlib.Data.Set.Card
import Mathlib.Data.Set.Finite.Lattice
import Mathlib.Data.Set.Finite.List
import Mathlib.Logic.Relation
import Mathlib.Order.Interval.Finset.Nat
import Highlighting.Proofs.ResolvingDepth

namespace Highlighting

/-! ## The references that compiling asks for -/

/-- A reference with all that it is resolved under. -/
structure Call where
  reference : ModeRef
  current : Nat
  parentEnd : Option String
  expanded : Bool
  arena : Arena

namespace Call

/-- Resolving the reference, following references to a depth. -/
def resolved (q : Call) (g : Grammar) (depth : Nat) : Except GrammarError (List Nat × Arena) :=
  resolve g depth q.reference q.current q.parentEnd q.expanded q.arena

/-- The reference is resolved or refused at some depth. -/
def Settles (q : Call) (g : Grammar) : Prop := ∃ depth, q.resolved g depth ≠ .error .tooDeep

/-- How long the end is that the reference inherits. -/
def inherited (q : Call) : Nat := (q.parentEnd.getD "").length

end Call

/-- The references that linking the children of a mode asks for. Each is asked
for once those before it are resolved. -/
inductive ChildrenAsk (g : Grammar) (id : Nat) (ownEnd : String) :
    List ModeRef → Arena → Call → Prop
  | here (r : ModeRef) (refs : List ModeRef) (a : Arena) :
      ChildrenAsk g id ownEnd (r :: refs) a ⟨r, id, some ownEnd, true, a⟩
  | later {r : ModeRef} {refs : List ModeRef} {a a' : Arena} {depth : Nat} {ids : List Nat}
      {q : Call} (hr : resolve g depth r id (some ownEnd) true a = .ok (ids, a'))
      (h : ChildrenAsk g id ownEnd refs a' q) : ChildrenAsk g id ownEnd (r :: refs) a q

/-- The references that linking prepared modes asks for: first the children of
a mode, then what follows it, then those of the other modes. -/
inductive LinksAsk (g : Grammar) (parentEnd : Option String) :
    List (Nat × Mode) → Arena → Call → Prop
  | child {id : Nat} {m : Mode} {tasks : List (Nat × Mode)} {a : Arena} {q : Call}
      (h : ChildrenAsk g id (a.ownEnd id) m.contains a q) :
      LinksAsk g parentEnd ((id, m) :: tasks) a q
  | starts {id : Nat} {m : Mode} {tasks : List (Nat × Mode)} {a a' : Arena} {depth : Nat}
      {lists : List (List Nat)} {r : ModeRef}
      (hchildren : linkChildren (resolve g depth) id m.contains (a.ownEnd id) a = .ok (lists, a'))
      (hr : m.starts = some r) :
      LinksAsk g parentEnd ((id, m) :: tasks) a ⟨r, id, parentEnd, false, a'⟩
  | later {id : Nat} {m : Mode} {tasks : List (Nat × Mode)} {a : Arena} {depth : Nat}
      {linked : Unit × Arena} {q : Call}
      (hlink : link g (resolve g depth) id m parentEnd a = .ok linked)
      (h : LinksAsk g parentEnd tasks linked.2 q) : LinksAsk g parentEnd ((id, m) :: tasks) a q

/-- The references that one reference asks for. One that is known asks for none. -/
inductive Asks (g : Grammar) : Call → Call → Prop
  | inline {m : Mode} {current : Nat} {parentEnd : Option String} {expanded : Bool}
      {a a' : Arena} {ids : List Nat} {q : Call}
      (hprepare : prepareAll g (m.instances expanded) parentEnd a = .ok (ids, a'))
      (h : LinksAsk g parentEnd (ids.zip (m.instances expanded)) a' q) :
      Asks g ⟨.inline m, current, parentEnd, expanded, a⟩ q
  | named {name : String} {m : Mode} {dependent : Bool} {key : RefKey} {current : Nat}
      {parentEnd : Option String} {expanded : Bool} {a a' : Arena} {ids : List Nat} {q : Call}
      (hknown : a.known g name current parentEnd expanded = .fresh m dependent key)
      (hprepare : prepareAll g (m.instances expanded) parentEnd a = .ok (ids, a'))
      (h : LinksAsk g parentEnd (ids.zip (m.instances expanded))
        (a'.note name expanded dependent key ids) q) :
      Asks g ⟨.named name, current, parentEnd, expanded, a⟩ q

/-- Compiling a grammar is resolving its root outside of any mode. -/
def rootCall (g : Grammar) : Call := ⟨.inline g.root, 0, none, false, {}⟩

/-- A reference that compiling the grammar comes to. -/
def Reached (g : Grammar) (q : Call) : Prop := Relation.ReflTransGen (Asks g) (rootCall g) q

/-! ## Links and the references they ask for -/

/-- Links prepared modes, in order. -/
def linkTasks (g : Grammar) (next : Resolver) (parentEnd : Option String)
    (tasks : List (Nat × Mode)) : Build Unit :=
  tasks.forM fun p => link g next p.1 p.2 parentEnd

theorem linkTasks_cons (g : Grammar) (next : Resolver) (parentEnd : Option String) (id : Nat)
    (m : Mode) (tasks : List (Nat × Mode)) :
    linkTasks g next parentEnd ((id, m) :: tasks) =
      (link g next id m parentEnd >>= fun _ => linkTasks g next parentEnd tasks) := rfl

theorem refines_linkTasks {next next' : Resolver} (h : next.Refines next') (g : Grammar)
    (parentEnd : Option String) (tasks : List (Nat × Mode)) :
    Refines (linkTasks g next parentEnd tasks) (linkTasks g next' parentEnd tasks) := by
  induction tasks with
  | nil => exact .refl _
  | cons p tasks ih => exact .bind (refines_link h g p.1 p.2 parentEnd) fun _ => ih

/-- Of a chain whose first link comes out at one depth and whose others come
out at another, all come out at the larger. -/
theorem comesOut_bind_of_depths {α β : Type} {g : Grammar} {x : Resolver → Build α}
    {f : Resolver → α → Build β}
    (hx : ∀ next next', next.Refines next' → Refines (x next) (x next'))
    (hf : ∀ next next', next.Refines next' → ∀ v, Refines (f next v) (f next' v))
    {depth : Nat} {a : Arena} (h : ComesOut (x (resolve g depth)) a)
    (hnext : ∀ v a', x (resolve g depth) a = .ok (v, a') →
      ∃ depth', ComesOut (f (resolve g depth') v) a') :
    ∃ depth', ComesOut (x (resolve g depth') >>= f (resolve g depth')) a := by
  rcases hok : x (resolve g depth) a with e | ⟨v, a'⟩
  · refine ⟨depth, comesOut_bind.mpr ⟨h, ?_⟩⟩
    intro v a' hok'
    rw [hok] at hok'
    cases hok'
  · obtain ⟨depth', hout⟩ := hnext v a' hok
    refine ⟨max depth depth', comesOut_bind.mpr ?_⟩
    have hx' := hx _ _ (resolve_refines g (Nat.le_max_left depth depth')) a h
    refine ⟨?_, ?_⟩
    · unfold ComesOut
      rw [hx']
      exact h
    · intro v₁ a₁ hok₁
      rw [hx', hok] at hok₁
      cases hok₁
      unfold ComesOut
      rw [hf _ _ (resolve_refines g (Nat.le_max_right depth depth')) v a' hout]
      exact hout

theorem linkChildren_cons (next : Resolver) (id : Nat) (r : ModeRef) (refs : List ModeRef)
    (ownEnd : String) :
    linkChildren next id (r :: refs) ownEnd = (next r id (some ownEnd) true >>= fun ids =>
      linkChildren next id refs ownEnd >>= fun lists => pure (ids :: lists)) := by
  unfold linkChildren
  exact List.mapM_cons

/-- Children come out if all the references they ask for do. -/
theorem linkChildren_comesOut {g : Grammar} {id : Nat} {ownEnd : String} {refs : List ModeRef}
    {a : Arena} (h : ∀ q, ChildrenAsk g id ownEnd refs a q → q.Settles g) :
    ∃ depth, ComesOut (linkChildren (resolve g depth) id refs ownEnd) a := by
  induction refs generalizing a with
  | nil => exact ⟨0, comesOut_of_ok rfl⟩
  | cons r refs ih =>
    obtain ⟨depth, hout⟩ := h _ (.here r refs a)
    have hrest : ∀ ids a', resolve g depth r id (some ownEnd) true a = .ok (ids, a') →
        ∃ depth', ComesOut (linkChildren (resolve g depth') id refs ownEnd >>= fun lists =>
          pure (ids :: lists)) a' := by
      intro ids a' hok
      obtain ⟨depth', hout'⟩ := ih fun q hq => h q (.later hok hq)
      exact ⟨depth', comesOut_bind.mpr ⟨hout', fun _ _ _ => comesOut_of_ok rfl⟩⟩
    simp only [linkChildren_cons]
    exact comesOut_bind_of_depths (x := fun next => next r id (some ownEnd) true)
      (f := fun next ids => linkChildren next id refs ownEnd >>= fun lists => pure (ids :: lists))
      (fun _ _ hr => hr r id (some ownEnd) true)
      (fun _ _ hr _ => (refines_linkChildren hr id refs ownEnd).bind fun _ => .refl _) hout hrest

/-- Where children come out, the references they ask for come out too. -/
theorem childrenAsk_comesOut {g : Grammar} {id : Nat} {ownEnd : String} {refs : List ModeRef}
    {a : Arena} {q : Call} (h : ChildrenAsk g id ownEnd refs a q) {depth : Nat}
    (hout : ComesOut (linkChildren (resolve g depth) id refs ownEnd) a) :
    q.resolved g depth ≠ .error .tooDeep := by
  induction h with
  | here r refs a =>
    rw [linkChildren_cons] at hout
    exact (comesOut_bind.mp hout).1
  | later hr _ ih =>
    rename_i r refs a a' depth' ids q _
    rw [linkChildren_cons] at hout
    obtain ⟨hfirst, hrest⟩ := comesOut_bind.mp hout
    have heq := eq_of_comesOut (fun next => next r id (some ownEnd) true)
      (fun _ _ h => h r id (some ownEnd) true) hfirst (comesOut_of_ok hr)
    exact ih (comesOut_bind.mp (hrest ids a' (heq.trans hr))).1

theorem setLinks_comesOut {g : Grammar} {id : Nat} {ownEnd : String} {illegal : Option String}
    {contains : List Nat} {starts : Option Nat} {a : Arena} :
    ComesOut (setLinks g id ownEnd illegal contains starts) a := by
  intro hdeep
  have hget : ∀ f : Arena → Build Unit, (get >>= f) a = f a a := fun _ => rfl
  unfold setLinks at hdeep
  rw [hget] at hdeep
  rcases ht : Terminators.ofRules (a.rules contains ownEnd illegal) g.caseInsensitive with e | ts
  · rw [ht] at hdeep
    cases hdeep
  · rw [ht] at hdeep
    cases hdeep

theorem link_comesOut {g : Grammar} {id : Nat} {m : Mode} {parentEnd : Option String} {a : Arena}
    (hchildren : ∀ q, ChildrenAsk g id (a.ownEnd id) m.contains a q → q.Settles g)
    (hstarts : ∀ r depth lists a',
      linkChildren (resolve g depth) id m.contains (a.ownEnd id) a = .ok (lists, a') →
        m.starts = some r → Call.Settles ⟨r, id, parentEnd, false, a'⟩ g) :
    ∃ depth, ComesOut (link g (resolve g depth) id m parentEnd) a := by
  obtain ⟨depth, hout⟩ := linkChildren_comesOut hchildren
  have hrest : ∀ lists a',
      linkChildren (resolve g depth) id m.contains (a.ownEnd id) a = .ok (lists, a') →
        ∃ depth', ComesOut (linkStarts (resolve g depth') id m.starts parentEnd >>= fun starts =>
          setLinks g id (a.ownEnd id) m.illegal lists.flatten starts) a' := by
    intro lists a' hok
    rcases hs : m.starts with _ | r
    · exact ⟨0, comesOut_bind.mpr ⟨comesOut_of_ok rfl, fun _ _ _ => setLinks_comesOut⟩⟩
    · obtain ⟨depth', hout'⟩ := hstarts r depth lists a' hok hs
      refine ⟨depth', comesOut_bind.mpr ⟨?_, fun _ _ _ => setLinks_comesOut⟩⟩
      exact comesOut_bind.mpr ⟨hout', fun _ _ _ => comesOut_of_ok rfl⟩
  obtain ⟨depth', hout'⟩ := comesOut_bind_of_depths
    (x := fun next => linkChildren next id m.contains (a.ownEnd id))
    (f := fun next lists => linkStarts next id m.starts parentEnd >>= fun starts =>
      setLinks g id (a.ownEnd id) m.illegal lists.flatten starts)
    (fun _ _ hr => refines_linkChildren hr id m.contains (a.ownEnd id))
    (fun _ _ hr _ => (refines_linkStarts hr id m.starts parentEnd).bind fun _ => .refl _)
    hout hrest
  refine ⟨depth', ?_⟩
  unfold ComesOut
  rw [link_eq]
  exact hout'

/-- Links come out if all the references they ask for do. -/
theorem linkTasks_comesOut {g : Grammar} {parentEnd : Option String} {tasks : List (Nat × Mode)}
    {a : Arena} (h : ∀ q, LinksAsk g parentEnd tasks a q → q.Settles g) :
    ∃ depth, ComesOut (linkTasks g (resolve g depth) parentEnd tasks) a := by
  induction tasks generalizing a with
  | nil => exact ⟨0, comesOut_of_ok rfl⟩
  | cons p tasks ih =>
    obtain ⟨id, m⟩ := p
    obtain ⟨depth, hout⟩ : ∃ depth, ComesOut (link g (resolve g depth) id m parentEnd) a :=
      link_comesOut (fun q hq => h q (.child hq))
        fun r depth lists a' hok hr => h _ (.starts hok hr)
    exact comesOut_bind_of_depths (x := fun next => link g next id m parentEnd)
      (f := fun next _ => linkTasks g next parentEnd tasks)
      (fun _ _ hr => refines_link hr g id m parentEnd)
      (fun _ _ hr _ => refines_linkTasks hr g parentEnd tasks) hout
      fun u a' hok => ih fun q hq => h q (.later hok hq)

/-- Where links come out, the references they ask for come out too. -/
theorem linksAsk_comesOut {g : Grammar} {parentEnd : Option String} {tasks : List (Nat × Mode)}
    {a : Arena} {q : Call} (h : LinksAsk g parentEnd tasks a q) {depth : Nat}
    (hout : ComesOut (linkTasks g (resolve g depth) parentEnd tasks) a) :
    q.resolved g depth ≠ .error .tooDeep := by
  induction h with
  | child hchild =>
    rw [linkTasks_cons] at hout
    have hlink := (comesOut_bind.mp hout).1
    unfold ComesOut at hlink
    rw [link_eq] at hlink
    exact childrenAsk_comesOut hchild (comesOut_bind.mp hlink).1
  | starts hchildren hr =>
    rename_i id m tasks a a' depth' lists r
    rw [linkTasks_cons] at hout
    have hlink := (comesOut_bind.mp hout).1
    unfold ComesOut at hlink
    rw [link_eq] at hlink
    obtain ⟨hfirst, hrest⟩ := comesOut_bind.mp hlink
    have heq := eq_of_comesOut (fun next => linkChildren next id m.contains (a.ownEnd id))
      (fun _ _ h => refines_linkChildren h id m.contains (a.ownEnd id)) hfirst
      (comesOut_of_ok hchildren)
    have hstarts := (comesOut_bind.mp (hrest lists a' (heq.trans hchildren))).1
    rw [hr] at hstarts
    exact (comesOut_bind.mp hstarts).1
  | later hlink _ ih =>
    rename_i id m tasks a depth' linked q _
    obtain ⟨hfirst, hrest⟩ := comesOut_bind.mp hout
    have heq := eq_of_comesOut (fun next => link g next id m parentEnd)
      (fun _ _ h => refines_link h g id m parentEnd) hfirst (comesOut_of_ok hlink)
    exact ih (hrest linked.1 linked.2 (heq.trans hlink))

/-! ## References and those they ask for -/

theorem grammarPattern_ne_tooDeep (source : String) (anyCase : Bool) :
    grammarPattern source anyCase ≠ .error .tooDeep := by
  unfold grammarPattern
  rcases Pattern.ofSource source anyCase with e | p
  · intro h; cases h
  · intro h; cases h

theorem prepare_ne_tooDeep (m : Mode) (anyCase : Bool) (parentEnd : Option String) :
    m.prepare anyCase parentEnd ≠ .error .tooDeep := by
  intro h
  unfold Mode.prepare at h
  rcases bind_eq_error.mp h with h | ⟨dispatch, _, h⟩
  · unfold Mode.dispatch at h
    split at h
    · cases h
    · rcases bind_eq_error.mp h with h | ⟨_, _, h⟩
      · exact grammarPattern_ne_tooDeep _ _ h
      · cases h
    · cases h
  · rcases parentEnd with _ | parentEnd
    · cases h
    · rcases bind_eq_error.mp h with h | ⟨_, _, h⟩
      · exact grammarPattern_ne_tooDeep _ _ h
      · rcases bind_eq_error.mp h with h | ⟨_, _, h⟩
        · rcases hends : m.endSource with _ | source
          · rw [hends] at h
            cases h
          · rcases hp : grammarPattern source anyCase with e | p
            · rw [hends, Option.mapM_some, hp] at h
              cases h
              exact grammarPattern_ne_tooDeep _ _ hp
            · rw [hends, Option.mapM_some, hp] at h
              cases h
        · cases h

theorem prepareAll_comesOut (g : Grammar) (modes : List Mode) (parentEnd : Option String)
    (a : Arena) : ComesOut (prepareAll g modes parentEnd) a := by
  unfold prepareAll
  induction modes generalizing a with
  | nil => exact comesOut_of_ok rfl
  | cons m modes ih =>
    rw [List.mapM_cons]
    refine comesOut_bind.mpr ⟨comesOut_bind.mpr ⟨?_, fun _ _ _ => comesOut_of_ok rfl⟩, ?_⟩
    · intro hdeep
      rcases hm : m.prepare g.caseInsensitive parentEnd with e | c
      · rw [hm] at hdeep
        cases hdeep
        exact prepare_ne_tooDeep _ _ _ hm
      · rw [hm] at hdeep
        cases hdeep
    · intro id a₁ _
      exact comesOut_bind.mpr ⟨ih a₁, fun _ _ _ => comesOut_of_ok rfl⟩

/-- Compiling modes comes out exactly when linking them does. -/
theorem compileModes_comesOut {g : Grammar} {next : Resolver} {modes : List Mode}
    {parentEnd : Option String} {note : List Nat → Arena → Arena} {release : Arena → Arena}
    {a : Arena} :
    ComesOut (compileModes g next modes parentEnd note release) a ↔
      ∀ ids a', prepareAll g modes parentEnd a = .ok (ids, a') →
        ComesOut (linkTasks g next parentEnd (ids.zip modes)) (note ids a') := by
  constructor
  · intro h ids a' hprepare
    obtain ⟨_, h⟩ := comesOut_bind.mp h
    obtain ⟨_, h⟩ := comesOut_bind.mp (h ids a' hprepare)
    exact (comesOut_bind.mp (h () (note ids a') rfl)).1
  · intro h
    refine comesOut_bind.mpr ⟨prepareAll_comesOut g modes parentEnd a, ?_⟩
    intro ids a' hprepare
    refine comesOut_bind.mpr ⟨comesOut_of_ok rfl, ?_⟩
    intro _ a₁ hnote
    cases hnote
    refine comesOut_bind.mpr ⟨h ids a' hprepare, ?_⟩
    intro _ a₂ _
    exact comesOut_bind.mpr ⟨comesOut_of_ok rfl, fun _ _ _ => comesOut_of_ok rfl⟩

/-- A reference settles if all those that it asks for do. -/
theorem settles_of_asked {g : Grammar} {q : Call} (h : ∀ p, Asks g q p → p.Settles g) :
    q.Settles g := by
  obtain ⟨reference, current, parentEnd, expanded, a⟩ := q
  -- Modes that are to be compiled come out one level further down.
  have hcompile : ∀ (modes : List Mode) (note : List Nat → Arena → Arena)
      (release : Arena → Arena),
      (∀ ids a' p, prepareAll g modes parentEnd a = .ok (ids, a') →
        LinksAsk g parentEnd (ids.zip modes) (note ids a') p → p.Settles g) →
      ∃ depth, ComesOut (compileModes g (resolve g depth) modes parentEnd note release) a := by
    intro modes note release hasked
    rcases hprepare : prepareAll g modes parentEnd a with e | ⟨ids, a'⟩
    · refine ⟨0, compileModes_comesOut.mpr fun ids a' hok => ?_⟩
      rw [hprepare] at hok
      cases hok
    · obtain ⟨depth, hout⟩ := linkTasks_comesOut fun p hp => hasked ids a' p hprepare hp
      refine ⟨depth, compileModes_comesOut.mpr fun ids₁ a₁ hok => ?_⟩
      rw [hprepare] at hok
      cases hok
      exact hout
  cases reference with
  | inline m =>
    obtain ⟨depth, hout⟩ := hcompile (m.instances expanded) (fun _ a => a) id
      fun ids a' p hprepare hp => h p (.inline hprepare hp)
    refine ⟨depth + 1, ?_⟩
    unfold Call.resolved
    rw [resolve_succ]
    exact hout
  | named name =>
    rcases hknown : a.known g name current parentEnd expanded with ids | _ | ⟨m, dependent, key⟩
    · refine ⟨1, ?_⟩
      unfold Call.resolved
      simp [resolve_succ, resolveWith, hknown]
    · refine ⟨1, ?_⟩
      unfold Call.resolved
      simp [resolve_succ, resolveWith, hknown]
    · obtain ⟨depth, hout⟩ := hcompile (m.instances expanded)
        (fun ids a => a.note name expanded dependent key ids) (·.release dependent)
        fun ids a' p hprepare hp => h p (.named hknown hprepare hp)
      refine ⟨depth + 1, ?_⟩
      unfold Call.resolved
      rw [resolve_succ]
      simp only [resolveWith, hknown]
      exact hout

/-- Where a reference comes out, those that it asks for come out one level
further down. -/
theorem asked_comesOut {g : Grammar} {q p : Call} {depth : Nat} (h : Asks g q p)
    (hout : q.resolved g (depth + 1) ≠ .error .tooDeep) :
    p.resolved g depth ≠ .error .tooDeep := by
  unfold Call.resolved at hout
  rw [resolve_succ] at hout
  cases h with
  | inline hprepare hlinks =>
    exact linksAsk_comesOut hlinks (compileModes_comesOut.mp hout _ _ hprepare)
  | named hknown hprepare hlinks =>
    simp only [resolveWith, hknown] at hout
    exact linksAsk_comesOut hlinks (compileModes_comesOut.mp hout _ _ hprepare)

/-! ## A reference that settles asks for finitely many -/

theorem childrenAsk_finite (g : Grammar) (id : Nat) (ownEnd : String) (refs : List ModeRef)
    (a : Arena) : {q | ChildrenAsk g id ownEnd refs a q}.Finite := by
  induction refs generalizing a with
  | nil =>
    refine Set.finite_empty.subset ?_
    intro q hq
    cases hq
  | cons r refs ih =>
    by_cases hok : ∃ depth ids a', resolve g depth r id (some ownEnd) true a = .ok (ids, a')
    · obtain ⟨depth, ids, a', hok⟩ := hok
      refine ((Set.finite_singleton ⟨r, id, some ownEnd, true, a⟩).union (ih a')).subset ?_
      intro q hq
      cases hq with
      | here => exact .inl rfl
      | later hr hq =>
        cases eq_of_oks (· r id (some ownEnd) true) (fun _ _ h => h r id (some ownEnd) true) hr hok
        exact .inr hq
    · refine (Set.finite_singleton ⟨r, id, some ownEnd, true, a⟩).subset ?_
      intro q hq
      cases hq with
      | here => rfl
      | later hr _ => exact absurd ⟨_, _, _, hr⟩ hok

theorem linksAsk_finite (g : Grammar) (parentEnd : Option String) (tasks : List (Nat × Mode))
    (a : Arena) : {q | LinksAsk g parentEnd tasks a q}.Finite := by
  induction tasks generalizing a with
  | nil =>
    refine Set.finite_empty.subset ?_
    intro q hq
    cases hq
  | cons p tasks ih =>
    obtain ⟨id, m⟩ := p
    have hchild := childrenAsk_finite g id (a.ownEnd id) m.contains a
    -- What follows the mode is asked for at most once, and so are the other modes.
    have hstarts : {q | ∃ depth lists a' r,
        linkChildren (resolve g depth) id m.contains (a.ownEnd id) a = .ok (lists, a') ∧
          m.starts = some r ∧ q = Call.mk r id parentEnd false a'}.Finite := by
      refine Set.Subsingleton.finite ?_
      rintro q ⟨depth, lists, a', r, hok, hr, rfl⟩ q' ⟨depth', lists', a'', r', hok', hr', rfl⟩
      cases eq_of_oks (linkChildren · id m.contains (a.ownEnd id))
        (fun _ _ h => refines_linkChildren h id m.contains (a.ownEnd id)) hok hok'
      cases hr.symm.trans hr'
      rfl
    have hlater : {q | ∃ depth linked, link g (resolve g depth) id m parentEnd a = .ok linked ∧
        LinksAsk g parentEnd tasks linked.2 q}.Finite := by
      by_cases hok : ∃ depth linked, link g (resolve g depth) id m parentEnd a = .ok linked
      · obtain ⟨depth, linked, hok⟩ := hok
        refine (ih linked.2).subset ?_
        rintro q ⟨depth', linked', hok', hq⟩
        cases eq_of_oks (link g · id m parentEnd) (fun _ _ h => refines_link h g id m parentEnd) hok hok'
        exact hq
      · refine Set.finite_empty.subset ?_
        rintro q ⟨depth', linked', hok', _⟩
        exact hok ⟨depth', linked', hok'⟩
    refine ((hchild.union hstarts).union hlater).subset ?_
    intro q hq
    cases hq with
    | child h => exact .inl (.inl h)
    | starts hok hr => exact .inl (.inr ⟨_, _, _, _, hok, hr, rfl⟩)
    | later hok h => exact .inr ⟨_, _, hok, h⟩

theorem asks_finite (g : Grammar) (q : Call) : {p | Asks g q p}.Finite := by
  obtain ⟨reference, current, parentEnd, expanded, a⟩ := q
  cases reference with
  | inline m =>
    rcases hprepare : prepareAll g (m.instances expanded) parentEnd a with e | ⟨ids, a'⟩
    · refine Set.finite_empty.subset ?_
      rintro p (⟨hok, _⟩ | _)
      rw [hprepare] at hok
      cases hok
    · refine (linksAsk_finite g parentEnd (ids.zip (m.instances expanded)) a').subset ?_
      rintro p (⟨hok, hp⟩ | _)
      cases hprepare.symm.trans hok
      exact hp
  | named name =>
    rcases hknown : a.known g name current parentEnd expanded with ids | _ | ⟨m, dependent, key⟩
    · refine Set.finite_empty.subset ?_
      rintro p (_ | ⟨hk, _, _⟩)
      cases hknown.symm.trans hk
    · refine Set.finite_empty.subset ?_
      rintro p (_ | ⟨hk, _, _⟩)
      cases hknown.symm.trans hk
    · rcases hprepare : prepareAll g (m.instances expanded) parentEnd a with e | ⟨ids, a'⟩
      · refine Set.finite_empty.subset ?_
        rintro p (_ | ⟨hk, hok, _⟩)
        cases hknown.symm.trans hk
        cases hprepare.symm.trans hok
      · refine (linksAsk_finite g parentEnd (ids.zip (m.instances expanded))
          (a'.note name expanded dependent key ids)).subset ?_
        rintro p (_ | ⟨hk, hok, hp⟩)
        cases hknown.symm.trans hk
        cases hprepare.symm.trans hok
        exact hp

/-- A reference that comes out leads to finitely many. -/
theorem reached_finite_of_comesOut {g : Grammar} {depth : Nat} {q : Call}
    (h : q.resolved g depth ≠ .error .tooDeep) :
    {q' | Relation.ReflTransGen (Asks g) q q'}.Finite := by
  induction depth generalizing q with
  | zero => exact absurd (resolve_zero g _ _ _ _ _) h
  | succ depth ih =>
    have hasked := (asks_finite g q).biUnion fun p hp => ih (asked_comesOut hp h)
    refine ((Set.finite_singleton q).union hasked).subset ?_
    intro q' hq'
    rcases Relation.ReflTransGen.cases_head hq' with rfl | ⟨p, hp, hpq⟩
    · exact .inl rfl
    · exact .inr (Set.mem_biUnion hp hpq)

/-- All that a reference leads to inherits ends of bounded length if it comes out. -/
theorem bounded_of_comesOut {g : Grammar} {depth : Nat} {q : Call}
    (h : q.resolved g depth ≠ .error .tooDeep) :
    ∃ n, ∀ q', Relation.ReflTransGen (Asks g) q q' → q'.inherited ≤ n := by
  obtain ⟨n, hn⟩ := ((reached_finite_of_comesOut h).image Call.inherited).bddAbove
  exact ⟨n, fun q' hq' => hn (Set.mem_image_of_mem Call.inherited hq')⟩

/-! ## A reference that inherits bounded ends settles -/

theorem childrenAsk_remembers {g : Grammar} {id : Nat} {ownEnd : String} {refs : List ModeRef}
    {a : Arena} {q : Call} (h : ChildrenAsk g id ownEnd refs a q) :
    q.arena.Remembers a ∧ q.reference ∈ refs := by
  induction h with
  | here r refs a => exact ⟨.refl _, List.mem_cons_self⟩
  | later hr _ ih =>
    exact ⟨(resolve_remembers g _ _ _ _ _ _ _ _ hr).trans ih.1, List.mem_cons_of_mem _ ih.2⟩

/-- What is known stays known, and only what a mode refers to is asked for. -/
theorem linksAsk_remembers {g : Grammar} {parentEnd : Option String} {tasks : List (Nat × Mode)}
    {a : Arena} {q : Call} (h : LinksAsk g parentEnd tasks a q) :
    q.arena.Remembers a ∧
      ∃ t ∈ tasks, q.reference ∈ t.2.contains ∨ t.2.starts = some q.reference := by
  induction h with
  | child hchild =>
    obtain ⟨hknown, hmem⟩ := childrenAsk_remembers hchild
    exact ⟨hknown, _, List.mem_cons_self, .inl hmem⟩
  | starts hchildren hr =>
    exact ⟨linkChildren_remembers (resolve_remembers g _) hchildren, _, List.mem_cons_self, .inr hr⟩
  | later hlink _ ih =>
    obtain ⟨hknown, t, ht, href⟩ := ih
    exact ⟨(link_remembers (resolve_remembers g _) hlink).trans hknown, t,
      List.mem_cons_of_mem _ ht, href⟩

theorem sizeOf_contains (m : Mode) {r : ModeRef} (h : r ∈ m.contains) : sizeOf r < sizeOf m := by
  have hlist := List.sizeOf_lt_of_mem h
  cases m
  simp only [Mode.mk.sizeOf_spec] at hlist ⊢
  omega

theorem sizeOf_starts (m : Mode) {r : ModeRef} (h : m.starts = some r) : sizeOf r < sizeOf m := by
  cases m
  simp only at h
  subst h
  simp only [Mode.mk.sizeOf_spec, Option.some.sizeOf_spec]
  omega

theorem sizeOf_variant (m : Mode) {v : Mode} (h : v ∈ m.variants) : sizeOf v < sizeOf m := by
  have hlist := List.sizeOf_lt_of_mem h
  cases m
  simp only [Mode.mk.sizeOf_spec] at hlist ⊢
  omega

/-- What a mode refers to is smaller than the mode, also through its variants. -/
theorem sizeOf_instance {m m' : Mode} {expanded : Bool} (hm : m' ∈ m.instances expanded)
    {r : ModeRef} (hr : r ∈ m'.contains ∨ m'.starts = some r) : sizeOf r < sizeOf m := by
  have hsmaller : ∀ {v : Mode}, sizeOf v ≤ sizeOf m →
      r ∈ v.contains ∨ v.starts = some r → sizeOf r < sizeOf m := by
    rintro v hv (hr | hr)
    · exact Nat.lt_of_lt_of_le (sizeOf_contains v hr) hv
    · exact Nat.lt_of_lt_of_le (sizeOf_starts v hr) hv
  unfold Mode.instances at hm
  split at hm
  · unfold Mode.expand at hm
    split at hm
    · rw [List.mem_singleton] at hm
      subst hm
      exact hsmaller (Nat.le_refl _) hr
    · obtain ⟨v, hv, rfl⟩ := List.mem_map.mp hm
      have hvm := (sizeOf_variant m hv).le
      rcases hr with hr | hr
      · simp only [Mode.inherit] at hr
        split at hr
        · exact hsmaller (Nat.le_refl _) (.inl hr)
        · exact hsmaller hvm (.inl hr)
      · simp only [Mode.inherit] at hr
        rcases hs : v.starts with _ | r'
        · rw [hs] at hr
          exact hsmaller (Nat.le_refl _) (.inr hr)
        · rw [hs] at hr
          cases hr
          exact hsmaller hvm (.inr hs)
  · rw [List.mem_singleton] at hm
    subst hm
    exact hsmaller (Nat.le_refl _) hr

/-- The keys under which something can be kept as long as inherited ends are no
longer than `n`. -/
def keysWithin (g : Grammar) (n : Nat) : Set RefKey :=
  {k | (g.lookup? k.name).isSome ∧ (k.parentEnd.getD "").length ≤ n}

theorem lookup?_mem {g : Grammar} {name : String} (h : (g.lookup? name).isSome) :
    name ∈ g.definitions.map (·.1) ++ CommonMode.names := by
  have hmem : ∀ (l : List (String × Mode)) m, l.lookup name = some m → name ∈ l.map (·.1) := by
    intro l m hl
    obtain ⟨before, after, heq, _⟩ := List.lookup_eq_some_iff.mp hl
    rw [heq]
    simp
  obtain ⟨m, hm⟩ := Option.isSome_iff_exists.mp h
  unfold Grammar.lookup? at hm
  rcases hd : g.definitions.lookup name with _ | m'
  · rw [hd] at hm
    exact List.mem_append_right _ (hmem CommonMode.all m hm)
  · exact List.mem_append_left _ (hmem g.definitions m' hd)

instance finiteChar : Finite Char :=
  Finite.of_injective (fun c : Char => (⟨c.toNat, c.val.toNat_lt⟩ : Fin (2 ^ 32))) fun _ _ h =>
    Char.toNat_inj.mp (congrArg Fin.val h)

theorem finite_strings (n : Nat) : {s : Option String | (s.getD "").length ≤ n}.Finite := by
  have hlists := List.finite_length_le Char n
  refine ((hlists.image fun cs => some (String.ofList cs)).insert none).subset ?_
  rintro (_ | s) hs
  · exact .inl rfl
  · exact .inr ⟨s.toList, by simpa [String.length_toList] using hs, by simp⟩

theorem keysWithin_finite (g : Grammar) (n : Nat) : (keysWithin g n).Finite := by
  have hnames : {x | x ∈ g.definitions.map (·.1) ++ CommonMode.names}.Finite := List.finite_toSet _
  have hparts := (hnames.prod (Set.finite_univ : (Set.univ : Set Bool).Finite)).prod (finite_strings n)
  refine (hparts.image fun p => RefKey.mk p.1.1 p.1.2 p.2).subset ?_
  intro k hk
  exact ⟨((k.name, k.expanded), k.parentEnd), ⟨⟨lookup?_mem hk.1, trivial⟩, hk.2⟩, rfl⟩

/-- How many keys are not taken yet. -/
noncomputable def unused (g : Grammar) (n : Nat) (a : Arena) : Nat :=
  {k | k ∈ keysWithin g n ∧ k ∉ a.shared.map (·.1)}.ncard

theorem unused_finite (g : Grammar) (n : Nat) (a : Arena) :
    {k | k ∈ keysWithin g n ∧ k ∉ a.shared.map (·.1)}.Finite :=
  (keysWithin_finite g n).subset fun _ h => h.1

theorem unused_le {g : Grammar} {n : Nat} {a a' : Arena} (h : a.shared <:+ a'.shared) :
    unused g n a' ≤ unused g n a := by
  refine Set.ncard_le_ncard ?_ (unused_finite g n a)
  rintro k ⟨hk, hnew⟩
  exact ⟨hk, fun hold => hnew ((h.map _).subset hold)⟩

theorem unused_lt {g : Grammar} {n : Nat} {a a' : Arena} (h : a.shared <:+ a'.shared)
    {key : RefKey} (hkey : key ∈ keysWithin g n) (hfresh : key ∉ a.shared.map (·.1))
    (htaken : key ∈ a'.shared.map (·.1)) : unused g n a' < unused g n a := by
  refine Set.ncard_lt_ncard ⟨?_, ?_⟩ (unused_finite g n a)
  · rintro k ⟨hk, hnew⟩
    exact ⟨hk, fun hold => hnew ((h.map _).subset hold)⟩
  · intro hsubset
    exact (hsubset ⟨hkey, hfresh⟩).2 htaken

/-- The name names a mode that has to be compiled: no copy of it can be used. -/
structure Arena.Fresh (a : Arena) (g : Grammar) (name : String) (parentEnd : Option String)
    (expanded : Bool) (m : Mode) (dependent : Bool) (key : RefKey) : Prop where
  name_ne : name ≠ selfName
  lookup : g.lookup? name = some m
  depends : dependent = g.dependsOnParent m
  kept : a.shared.lookup key = none
  enclosing : g.dependsOnParent m = true → a.enclosing? name expanded parentEnd = none
  key_eq : key = refKey g m name parentEnd expanded

theorem known_fresh {a : Arena} {g : Grammar} {name : String} {current : Nat}
    {parentEnd : Option String} {expanded : Bool} {m : Mode} {dependent : Bool} {key : RefKey}
    (h : a.known g name current parentEnd expanded = .fresh m dependent key) :
    a.Fresh g name parentEnd expanded m dependent key := by
  unfold Arena.known at h
  split at h
  · cases h
  · rename_i hself
    split at h
    · cases h
    · rename_i m' hlookup
      split at h
      · cases h
      · rename_i henclosing
        split at h
        · cases h
        · rename_i hkept
          cases h
          refine ⟨hself, hlookup, rfl, hkept, fun hdepends => ?_, rfl⟩
          rwa [if_pos hdepends] at henclosing

theorem Arena.Fresh.key_not_mem {a : Arena} {g : Grammar} {name : String}
    {parentEnd : Option String} {expanded : Bool} {m : Mode} {dependent : Bool} {key : RefKey}
    (h : a.Fresh g name parentEnd expanded m dependent key) : key ∉ a.shared.map (·.1) := by
  intro hmem
  obtain ⟨⟨k, ids⟩, hk, rfl⟩ := List.mem_map.mp hmem
  have := List.lookup_eq_none_iff.mp h.kept _ hk
  simp at this

theorem refKey_mem {g : Grammar} {m : Mode} {name : String} {parentEnd : Option String}
    {expanded : Bool} {n : Nat} (hm : g.lookup? name = some m)
    (hn : (parentEnd.getD "").length ≤ n) :
    refKey g m name parentEnd expanded ∈ keysWithin g n := by
  refine ⟨by simp [refKey, hm], ?_⟩
  unfold refKey
  simp only
  split
  · exact hn
  · rcases parentEnd with _ | e <;> simp

/-- Asking on takes a new key, or else leads to a smaller reference. -/
theorem asks_decreases {g : Grammar} {n : Nat} {q p : Call} (h : Asks g q p)
    (hn : q.inherited ≤ n) :
    Prod.Lex (· < ·) (· < ·) (unused g n p.arena, sizeOf p.reference)
      (unused g n q.arena, sizeOf q.reference) := by
  cases h with
  | inline hprepare hlinks =>
    rename_i m current parentEnd expanded a a' ids
    obtain ⟨ms, _, rfl, _⟩ := prepareAll_ok hprepare
    obtain ⟨⟨hshared, _, _⟩, t, ht, href⟩ := linksAsk_remembers hlinks
    have hsize : sizeOf p.reference < sizeOf (ModeRef.inline m) := by
      have := sizeOf_instance (List.of_mem_zip ht).2 href
      simp only [ModeRef.inline.sizeOf_spec]
      omega
    rcases (unused_le hshared : unused g n p.arena ≤ unused g n a).lt_or_eq with hlt | heq
    · exact .left _ _ hlt
    · simp only [heq]
      exact .right _ hsize
  | named hknown hprepare hlinks =>
    rename_i name m dependent key current parentEnd expanded a a' ids
    obtain ⟨ms, _, rfl, _⟩ := prepareAll_ok hprepare
    obtain ⟨⟨hshared, _, _⟩, _⟩ := linksAsk_remembers hlinks
    have hfresh := known_fresh hknown
    have hsuffix : a.shared <:+ p.arena.shared := (List.suffix_cons _ _).trans hshared
    have hwithin : key ∈ keysWithin g n := hfresh.key_eq ▸ refKey_mem hfresh.lookup hn
    exact .left _ _ (unused_lt hsuffix hwithin hfresh.key_not_mem
      ((hshared.map _).subset List.mem_cons_self))

theorem settles_of_bounded {g : Grammar} {n : Nat} (q : Call)
    (h : ∀ q', Relation.ReflTransGen (Asks g) q q' → q'.inherited ≤ n) : q.Settles g :=
  settles_of_asked fun p hp => settles_of_bounded p fun q' hq' => h q' (.head hp hq')
termination_by (unused g n q.arena, sizeOf q.reference)
decreasing_by exact asks_decreases hp (h q .refl)

/-! ## When compiling ends -/

theorem compileWithin_comesOut (g : Grammar) (depth : Nat) :
    compileWithin g depth ≠ .error .tooDeep ↔
      (rootCall g).resolved g (depth + 1) ≠ .error .tooDeep := by
  have hbuild : compileWithin g depth ≠ .error .tooDeep ↔
      ComesOut (prepareAll g [g.root.withoutVariants] none >>= fun ids =>
        linkAll g (resolve g depth) ids [g.root.withoutVariants] none) {} := by
    unfold compileWithin ComesOut
    rw [ne_eq, ne_eq, not_iff_not, bind_eq_error]
    constructor
    · rintro (h | ⟨_, _, h⟩)
      · exact h
      · cases h
    · exact .inl
  unfold Call.resolved
  rw [hbuild, resolve_succ, comesOut_bind]
  refine Iff.trans ?_ compileModes_comesOut.symm
  exact ⟨fun h => h.2, fun h => ⟨prepareAll_comesOut _ _ _ _, h⟩⟩

theorem compileWithin_of_settles {g : Grammar} (h : (rootCall g).Settles g) :
    ∃ depth, compileWithin g depth ≠ .error .tooDeep := by
  obtain ⟨depth, hout⟩ := h
  refine ⟨depth, (compileWithin_comesOut g depth).mpr ?_⟩
  unfold Call.resolved
  rw [resolve_refines_succ g depth _ _ _ _ _ hout]
  exact hout

/-- Compiling a grammar comes to an end, at some depth, if and only if there is a
bound on the ends that the references it comes to inherit. -/
theorem compiling_ends_iff_inherited_ends_are_bounded (g : Grammar) :
    (∃ depth, compileWithin g depth ≠ .error .tooDeep) ↔
      ∃ n, ∀ q, Reached g q → q.inherited ≤ n := by
  constructor
  · rintro ⟨depth, h⟩
    exact bounded_of_comesOut ((compileWithin_comesOut g depth).mp h)
  · rintro ⟨n, h⟩
    exact compileWithin_of_settles (settles_of_bounded (rootCall g) h)

/-! ## A definition in what follows it -/

/-- What follows the definition. It ends with what is around it, and the
definition stands in it. -/
def follower : Mode :=
  { begins := some "b", ends := some "y", endsWithParent := true, contains := [.named "a"] }

/-- A definition that ends with what is around it. -/
def followed : Mode :=
  { begins := some "a", ends := some "x", endsWithParent := true, starts := some (.inline follower) }

/-- Each copy of the definition is followed by a mode with a longer end, and in
that mode the next copy stands. -/
def growing : Grammar :=
  { definitions := [("a", followed)], root := { contains := [.named "a"] } }

theorem prepare_ok {m : Mode} {anyCase : Bool} {d : Dispatch} {b : Pattern} {p : Option Pattern}
    (hd : m.dispatch anyCase = .ok d) (hb : grammarPattern m.beginSource anyCase = .ok b)
    (hp : m.endSource.mapM (grammarPattern · anyCase) = .ok p) (e : String) :
    ∃ c, m.prepare anyCase (some e) = .ok c ∧ c.terminatorEnd = m.terminatorEnd e := by
  unfold Mode.prepare
  rw [hd]
  simp only [ok_bind_eq, hb, hp]
  exact ⟨_, rfl, rfl⟩

theorem prepareAll_single {g : Grammar} {m : Mode} {parentEnd : Option String} {c : CompiledMode}
    (h : m.prepare g.caseInsensitive parentEnd = .ok c) (a : Arena) :
    prepareAll g [m] parentEnd a = .ok ([a.modes.size], { a with modes := a.modes.push c }) := by
  unfold prepareAll
  rw [List.mapM_cons, List.mapM_nil]
  refine build_bind_eq_ok.mpr ⟨a.modes.size, { a with modes := a.modes.push c }, ?_, rfl⟩
  exact build_bind_eq_ok.mpr ⟨c, a, lift_eq_ok.mpr ⟨h, rfl⟩, rfl⟩

theorem terminatorEnd_followed (e : String) :
    followed.terminatorEnd e = if e.isEmpty then "x" else "x|" ++ e := by
  have hown : followed.endSource = some "x" := by decide +kernel
  unfold Mode.terminatorEnd
  rw [hown]
  by_cases h : e.isEmpty <;> simp [h, followed]

theorem terminatorEnd_follower (e : String) :
    follower.terminatorEnd e = if e.isEmpty then "y" else "y|" ++ e := by
  have hown : follower.endSource = some "y" := by decide +kernel
  unfold Mode.terminatorEnd
  rw [hown]
  by_cases h : e.isEmpty <;> simp [h, follower]

theorem prepare_followed (e : String) :
    ∃ c, followed.prepare false (some e) = .ok c ∧ 'x' ∈ c.terminatorEnd.toList := by
  obtain ⟨b, hb⟩ : ∃ b, grammarPattern followed.beginSource false = .ok b :=
    exists_of_isOk (by decide +kernel)
  obtain ⟨p, hp⟩ : ∃ p, followed.endSource.mapM (grammarPattern · false) = .ok p :=
    exists_of_isOk (by decide +kernel)
  obtain ⟨c, hc, hend⟩ := prepare_ok (d := .plain) rfl hb hp e
  refine ⟨c, hc, ?_⟩
  rw [hend, terminatorEnd_followed]
  split <;> simp

theorem prepare_follower (e : String) :
    ∃ c, follower.prepare false (some e) = .ok c ∧ c.terminatorEnd = follower.terminatorEnd e := by
  obtain ⟨b, hb⟩ : ∃ b, grammarPattern follower.beginSource false = .ok b :=
    exists_of_isOk (by decide +kernel)
  obtain ⟨p, hp⟩ : ∃ p, follower.endSource.mapM (grammarPattern · false) = .ok p :=
    exists_of_isOk (by decide +kernel)
  exact prepare_ok (d := .plain) rfl hb hp e

theorem extendsEnd_of_mem {e base : String} (he : 'x' ∉ e.toList) (hbase : 'x' ∈ base.toList) :
    extendsEnd e base = false := by
  rw [Bool.eq_false_iff]
  intro h
  unfold extendsEnd at h
  rw [Bool.or_eq_true, Bool.and_eq_true] at h
  rcases h with h | ⟨_, h⟩
  · rw [beq_iff_eq] at h
    exact he (h ▸ hbase)
  · have hmem : 'x' ∈ (("|" ++ base).toList.reverse) := by simp [hbase]
    have := (List.isPrefixOf_iff_prefix.mp h).subset hmem
    exact he (List.mem_reverse.mp this)

/-- A copy of the definition is asked for under an end that no copy was compiled
under and that no copy which is being linked is the end of. -/
structure Grows (q : Call) : Prop where
  reference : q.reference = .named "a"
  expanded : q.expanded = true
  parentEnd : ∃ e, q.parentEnd = some e ∧ 'x' ∉ e.toList ∧
    ∀ p ∈ q.arena.shared, ∀ s, p.1.parentEnd = some s → s.length < e.length
  linking : ∀ r ∈ q.arena.linking, ∀ id ∈ r.ids,
    ∃ m, q.arena.modes[id]? = some m ∧ 'x' ∈ m.terminatorEnd.toList

/-- The copy has to be compiled. -/
theorem Grows.known {current : Nat} {e : String} {a : Arena}
    (h : Grows ⟨.named "a", current, some e, true, a⟩) :
    a.known growing "a" current (some e) true = .fresh followed true ⟨"a", true, some e⟩ := by
  obtain ⟨e', he', hx, hshared⟩ := h.parentEnd
  cases he'
  have hdependent : growing.dependsOnParent followed = true := rfl
  have hlookup : growing.lookup? "a" = some followed := rfl
  have henclosing : a.enclosing? "a" true (some e) = none := by
    have hfind : (a.linking.find? fun r => r.name == "a" && r.expanded == true &&
        r.ids.any fun id => (a.modes[id]?).any fun m => extendsEnd e m.terminatorEnd) = none := by
      rw [List.find?_eq_none]
      intro r hr hcopy
      rw [Bool.and_eq_true, List.any_eq_true] at hcopy
      obtain ⟨_, id, hid, hends⟩ := hcopy
      obtain ⟨m, hm, hend⟩ := h.linking r hr id hid
      rw [hm, Option.any_some, extendsEnd_of_mem hx hend] at hends
      cases hends
    unfold Arena.enclosing?
    simp only [Option.bind_eq_bind, Option.bind_some, hfind, Option.bind_none]
  have hfresh : a.shared.lookup ⟨"a", true, some e⟩ = none := by
    rw [List.lookup_eq_none_iff]
    intro p hp
    rw [bne_iff_ne]
    intro heq
    exact absurd (hshared p hp e (by rw [← heq])) (Nat.lt_irrefl _)
  unfold Arena.known refKey
  simp only [hlookup, hdependent, if_true, henclosing, hfresh]
  rfl

theorem getElem?_push_of_some {modes : Array CompiledMode} {id : Nat} {m c : CompiledMode}
    (h : modes[id]? = some m) : (modes.push c)[id]? = some m := by
  have hlt : id < modes.size := (Array.getElem?_eq_some_iff.mp h).1
  rw [Array.getElem?_push_lt hlt, ← Array.getElem?_eq_getElem hlt, h]

/-- One copy leads to the next, two references further down. -/
theorem Grows.asks {q : Call} (h : Grows q) :
    ∃ p q', Asks growing q p ∧ Asks growing p q' ∧ Grows q' := by
  obtain ⟨reference, current, parentEnd, expanded, a⟩ := q
  obtain rfl : reference = .named "a" := h.reference
  obtain rfl : expanded = true := h.expanded
  obtain ⟨e, he, hx, hshared⟩ := h.parentEnd
  obtain rfl : parentEnd = some e := he
  obtain ⟨c, hc, hend⟩ := prepare_followed e
  obtain ⟨c', hc', hend'⟩ := prepare_follower e
  -- The arena with the copy in it, and then with what follows the copy.
  let a₁ : Arena := { a with modes := a.modes.push c }
  let a₂ : Arena := a₁.note "a" true true ⟨"a", true, some e⟩ [a.modes.size]
  let a₃ : Arena := { a₂ with modes := a₂.modes.push c' }
  have hprepare : prepareAll growing (followed.instances true) (some e) a =
      .ok ([a.modes.size], a₁) := prepareAll_single hc a
  have hprepare' : prepareAll growing (follower.instances false) (some e) a₂ =
      .ok ([a₂.modes.size], a₃) := prepareAll_single hc' a₂
  have hown : a₃.ownEnd a₂.modes.size = follower.terminatorEnd e := by
    unfold Arena.ownEnd
    rw [← hend']
    simp [a₃]
  refine ⟨⟨.inline follower, a.modes.size, some e, false, a₂⟩,
    ⟨.named "a", a₂.modes.size, some (a₃.ownEnd a₂.modes.size), true, a₃⟩, ?_, ?_, ?_⟩
  · have hchildren : linkChildren (resolve growing 0) a.modes.size followed.contains
        (a₂.ownEnd a.modes.size) a₂ = .ok ([], a₂) := rfl
    exact .named h.known hprepare (.starts hchildren rfl)
  · refine .inline hprepare' ?_
    exact .child (.here _ _ _)
  · refine ⟨rfl, rfl, ⟨_, rfl, ?_, ?_⟩, ?_⟩
    · rw [hown, terminatorEnd_follower]
      split
      · decide
      · simpa using hx
    · have hlonger : e.length < (a₃.ownEnd a₂.modes.size).length := by
        rw [hown, terminatorEnd_follower]
        split
        · rename_i hempty
          rw [String.isEmpty_iff.mp hempty]
          decide
        · rw [String.length_append]
          have : "y|".length = 2 := by decide
          omega
      intro p hp s hs
      rcases List.mem_cons.mp hp with rfl | hp
      · cases hs
        exact hlonger
      · exact (hshared p hp s hs).trans hlonger
    · intro r hr id hid
      rcases List.mem_cons.mp hr with rfl | hr
      · rw [List.mem_singleton] at hid
        subst hid
        exact ⟨c, getElem?_push_of_some Array.getElem?_push_size, hend⟩
      · obtain ⟨m, hm, hxm⟩ := h.linking r hr id hid
        exact ⟨m, getElem?_push_of_some (getElem?_push_of_some hm), hxm⟩

theorem Grows.tooDeep {q : Call} (h : Grows q) (depth : Nat) :
    q.resolved growing depth = .error .tooDeep := by
  induction depth using Nat.strongRecOn generalizing q with
  | ind depth ih =>
    obtain ⟨p, q', hp, hq', h'⟩ := h.asks
    by_contra hout
    rcases depth with _ | _ | depth
    · exact hout (resolve_zero growing _ _ _ _ _)
    · exact asked_comesOut hp hout (resolve_zero growing _ _ _ _ _)
    · exact asked_comesOut hq' (asked_comesOut hp hout) (ih depth (by omega) h')

/-- At no depth does the grammar compile, or turn out to be wrong. -/
theorem growing_never_compiles : ¬ ∃ depth, compileWithin growing depth ≠ .error .tooDeep := by
  rintro ⟨depth, hout⟩
  have hroot := (compileWithin_comesOut growing depth).mp hout
  obtain ⟨c, hc⟩ : ∃ c, growing.root.withoutVariants.prepare false none = .ok c := ⟨_, rfl⟩
  have hprepare : prepareAll growing (growing.root.instances false) none {} =
      .ok ([0], { modes := #[c] }) := prepareAll_single hc {}
  have hasks : Asks growing (rootCall growing)
      ⟨.named "a", 0, some (Arena.ownEnd { modes := #[c] } 0), true, { modes := #[c] }⟩ :=
    .inline hprepare (.child (.here _ _ _))
  have hend : Arena.ownEnd { modes := #[c] } 0 = "" := by
    cases hc
    rfl
  have hgrows : Grows
      ⟨.named "a", 0, some (Arena.ownEnd { modes := #[c] } 0), true, { modes := #[c] }⟩ := by
    refine ⟨rfl, rfl, ⟨_, rfl, ?_, ?_⟩, ?_⟩
    · rw [hend]
      decide
    · intro p hp
      cases hp
    · intro r hr
      cases hr
  exact asked_comesOut hasks hroot (hgrows.tooDeep depth)

end Highlighting
