-- Which grammars compile. Each reference has to name something, each lexeme, begin and
-- end has to be accepted as a pattern, and so has what is joined of a mode's patterns.
-- Patterns that are accepted alone are accepted joined if joining counts their groups as
-- the reader does. An illegal pattern is never read alone, so a text that is no pattern
-- can become part of one.
import Highlighting.Proofs.CompileEnds
import Highlighting.Proofs.WhichRule

namespace Highlighting

/-! ## Patterns on their own -/

/-- Whether the text is accepted as a pattern on its own. -/
def Pattern.isAccepted (source : String) (anyCase : Bool) : Bool :=
  (Pattern.ofSource source anyCase).isOk

theorem isAccepted_iff {source : String} {anyCase : Bool} :
    Pattern.isAccepted source anyCase = true ↔ ∃ p, grammarPattern source anyCase = .ok p := by
  unfold Pattern.isAccepted grammarPattern
  rcases Pattern.ofSource source anyCase with e | p
  · simp [Except.isOk, Except.toBool, Except.mapError]
  · simp [Except.isOk, Except.toBool, Except.mapError]

/-- The patterns of a mode are accepted, each on its own. Outside of any mode neither the
begin nor the end of a mode is used. -/
structure Mode.Accepted (m : Mode) (anyCase : Bool) (parentEnd : Option String) : Prop where
  lexemes : m.subLanguage = none → m.allKeywords ≠ none →
    Pattern.isAccepted (m.lexemes.getD defaultLexemes) anyCase = true
  begins : parentEnd ≠ none → Pattern.isAccepted m.beginSource anyCase = true
  ends : parentEnd ≠ none → ∀ source ∈ m.endSource, Pattern.isAccepted source anyCase = true

/-- Fewer patterns are used outside of any mode. -/
theorem Mode.Accepted.of_some {m : Mode} {anyCase : Bool} {e : String} (h : m.Accepted anyCase (some e))
    (parentEnd : Option String) : m.Accepted anyCase parentEnd where
  lexemes := h.lexemes
  begins _ := h.begins nofun
  ends _ := h.ends nofun

theorem dispatch_ok_iff (m : Mode) (anyCase : Bool) :
    (∃ d, m.dispatch anyCase = .ok d) ↔ (m.subLanguage = none → m.allKeywords ≠ none →
      Pattern.isAccepted (m.lexemes.getD defaultLexemes) anyCase = true) := by
  unfold Mode.dispatch
  rcases m.subLanguage with _ | language
  · rcases m.allKeywords with _ | ks
    · simp
    · simp only [bind_eq_ok, isAccepted_iff]
      constructor
      · rintro ⟨d, p, hp, _⟩ _ _
        exact ⟨p, hp⟩
      · intro h
        obtain ⟨p, hp⟩ := h trivial (by simp)
        exact ⟨_, p, hp, rfl⟩
  · simp

theorem mapM_endSource_ok_iff (m : Mode) (anyCase : Bool) :
    (∃ p, m.endSource.mapM (grammarPattern · anyCase) = .ok p) ↔
      ∀ source ∈ m.endSource, Pattern.isAccepted source anyCase = true := by
  rcases m.endSource with _ | source
  · simp only [Option.mapM_none, Option.not_mem_none, false_implies, implies_true, iff_true]
    exact ⟨none, rfl⟩
  · simp only [Option.mapM_some, Option.mem_some_iff, forall_eq', isAccepted_iff]
    rcases grammarPattern source anyCase with e | p
    · simp
    · exact ⟨fun _ => ⟨p, rfl⟩, fun _ => ⟨some p, rfl⟩⟩

/-- A mode is prepared exactly when its patterns are accepted. -/
theorem prepare_ok_iff (m : Mode) (anyCase : Bool) (parentEnd : Option String) :
    (∃ c, m.prepare anyCase parentEnd = .ok c) ↔ m.Accepted anyCase parentEnd := by
  constructor
  · rintro ⟨c, hc⟩
    unfold Mode.prepare at hc
    obtain ⟨d, hd, hc⟩ := bind_eq_ok.mp hc
    have hlexemes := (dispatch_ok_iff m anyCase).mp ⟨d, hd⟩
    rcases parentEnd with _ | e
    · exact ⟨hlexemes, fun h => absurd rfl h, fun h => absurd rfl h⟩
    · obtain ⟨b, hb, hc⟩ := bind_eq_ok.mp hc
      obtain ⟨p, hp, _⟩ := bind_eq_ok.mp hc
      exact ⟨hlexemes, fun _ => isAccepted_iff.mpr ⟨b, hb⟩,
        fun _ => (mapM_endSource_ok_iff m anyCase).mp ⟨p, hp⟩⟩
  · rintro ⟨hlexemes, hbegins, hends⟩
    obtain ⟨d, hd⟩ := (dispatch_ok_iff m anyCase).mpr hlexemes
    rcases parentEnd with _ | e
    · unfold Mode.prepare
      exact ⟨_, bind_eq_ok.mpr ⟨d, hd, rfl⟩⟩
    · obtain ⟨b, hb⟩ := isAccepted_iff.mp (hbegins (by simp))
      obtain ⟨p, hp⟩ := (mapM_endSource_ok_iff m anyCase).mpr (hends (by simp))
      obtain ⟨c, hc, _⟩ := prepare_ok hd hb hp e
      exact ⟨c, hc⟩

theorem prepareAll_ok_iff (g : Grammar) (modes : List Mode) (parentEnd : Option String)
    (a : Arena) : (∃ r, prepareAll g modes parentEnd a = .ok r) ↔
      ∀ m ∈ modes, m.Accepted g.caseInsensitive parentEnd := by
  unfold prepareAll
  induction modes generalizing a with
  | nil => exact ⟨fun _ _ hm => (nomatch hm), fun _ => ⟨_, rfl⟩⟩
  | cons m modes ih =>
    rw [List.mapM_cons, List.forall_mem_cons, ← prepare_ok_iff]
    constructor
    · rintro ⟨r, h⟩
      obtain ⟨id, a₁, hm, h⟩ := build_bind_eq_ok.mp h
      obtain ⟨ids, a₂, hms, _⟩ := build_bind_eq_ok.mp h
      obtain ⟨c, a₃, hc, _⟩ := build_bind_eq_ok.mp hm
      exact ⟨⟨c, (lift_eq_ok.mp hc).1⟩, (ih a₁).mp ⟨_, hms⟩⟩
    · rintro ⟨⟨c, hc⟩, hms⟩
      obtain ⟨⟨ids, a₂⟩, hms⟩ := (ih { a with modes := a.modes.push c }).mpr hms
      refine ⟨_, build_bind_eq_ok.mpr ⟨a.modes.size, _, ?_, build_bind_eq_ok.mpr ⟨ids, a₂, hms, rfl⟩⟩⟩
      exact build_bind_eq_ok.mpr ⟨c, a, lift_eq_ok.mpr ⟨hc, rfl⟩, rfl⟩

/-! ## What a reference has compiled -/

namespace Call

/-- The modes that the reference has compiled: none if it is known. -/
def modes (q : Call) (g : Grammar) : List Mode :=
  match q.reference with
  | .inline m => m.instances q.expanded
  | .named name =>
    match q.arena.known g name q.current q.parentEnd q.expanded with
    | .fresh m _ _ => m.instances q.expanded
    | .ids _ | .missing => []

/-- The arena in which these are linked, once they are prepared. -/
def noted (q : Call) (g : Grammar) (ids : List Nat) (a : Arena) : Arena :=
  match q.reference with
  | .inline _ => a
  | .named name =>
    match q.arena.known g name q.current q.parentEnd q.expanded with
    | .fresh _ dependent key => a.note name q.expanded dependent key ids
    | .ids _ | .missing => a

/-- A named reference names the mode it stands in, a definition or a common mode. -/
def Named (q : Call) (g : Grammar) : Prop :=
  ∀ name, q.reference = .named name →
    name = selfName ∨ name ∈ g.definitions.map (·.1) ∨ name ∈ CommonMode.names

/-- The reference is resolved at a depth. -/
def Resolves (q : Call) (g : Grammar) (depth : Nat) : Prop := ∃ r, q.resolved g depth = .ok r

end Call

theorem isSome_lookup_iff {α β : Type} [BEq α] [LawfulBEq α] {a : α} {l : List (α × β)} :
    (l.lookup a).isSome = true ↔ a ∈ l.map (·.1) := by
  rw [← not_iff_not, Bool.not_eq_true, Option.isSome_eq_false_iff, Option.isNone_iff_eq_none,
    List.lookup_eq_none_iff]
  simp only [List.mem_map, not_exists, not_and, bne_iff_ne]
  exact ⟨fun h p hp he => h p hp he.symm, fun h p hp he => h p hp he.symm⟩

theorem isSome_lookup?_iff (g : Grammar) (name : String) :
    (g.lookup? name).isSome = true ↔
      name ∈ g.definitions.map (·.1) ∨ name ∈ CommonMode.names := by
  have hcommon : name ∈ CommonMode.names ↔ (CommonMode.find? name).isSome = true :=
    isSome_lookup_iff.symm
  rw [← isSome_lookup_iff, hcommon]
  unfold Grammar.lookup?
  rcases g.definitions.lookup name with _ | m
  · simp
  · simp

/-- Nothing is known of a name, and there is nothing to compile for it, exactly when it
names nothing. -/
theorem known_missing_iff {a : Arena} {g : Grammar} {name : String} {current : Nat}
    {parentEnd : Option String} {expanded : Bool} :
    a.known g name current parentEnd expanded = .missing ↔
      ¬ (name = selfName ∨ name ∈ g.definitions.map (·.1) ∨ name ∈ CommonMode.names) := by
  rw [← isSome_lookup?_iff]
  unfold Arena.known
  by_cases hself : name = selfName
  · simp [hself]
  · rcases g.lookup? name with _ | m
    · simp [hself]
    · simp only [hself, if_false, Option.isSome_some, or_true, not_true, iff_false]
      split
      · exact nofun
      · split
        · exact nofun
        · exact nofun

theorem asks_iff {g : Grammar} {q p : Call} :
    Asks g q p ↔ ∃ ids a', prepareAll g (q.modes g) q.parentEnd q.arena = .ok (ids, a') ∧
      LinksAsk g q.parentEnd (ids.zip (q.modes g)) (q.noted g ids a') p := by
  obtain ⟨reference, current, parentEnd, expanded, a⟩ := q
  constructor
  · rintro (⟨hprepare, hlinks⟩ | ⟨hknown, hprepare, hlinks⟩)
    · exact ⟨_, _, hprepare, hlinks⟩
    · simp only [Call.modes, Call.noted, hknown]
      exact ⟨_, _, hprepare, hlinks⟩
  · rintro ⟨ids, a', hprepare, hlinks⟩
    cases reference with
    | inline m => exact .inline hprepare hlinks
    | named name =>
      rcases hknown : a.known g name current parentEnd expanded with found | _ | ⟨m, dependent, key⟩
      all_goals simp only [Call.modes, Call.noted, hknown] at hprepare hlinks
      · rw [List.zip_nil_right] at hlinks
        cases hlinks
      · rw [List.zip_nil_right] at hlinks
        cases hlinks
      · exact .named hknown hprepare hlinks

/-- A reference is resolved when it names something and its modes are prepared and linked. -/
theorem resolves_succ {g : Grammar} {q : Call} {depth : Nat} :
    q.Resolves g (depth + 1) ↔ q.Named g ∧ ∃ ids a',
      prepareAll g (q.modes g) q.parentEnd q.arena = .ok (ids, a') ∧
        ∃ r, linkTasks g (resolve g depth) q.parentEnd (ids.zip (q.modes g)) (q.noted g ids a') =
          .ok r := by
  obtain ⟨reference, current, parentEnd, expanded, a⟩ := q
  unfold Call.Resolves Call.resolved Call.Named
  simp only [resolve_succ]
  have hcompile : ∀ (modes : List Mode) (note : List Nat → Arena → Arena)
      (release : Arena → Arena),
      (∃ r, compileModes g (resolve g depth) modes parentEnd note release a = .ok r) ↔
        ∃ ids a', prepareAll g modes parentEnd a = .ok (ids, a') ∧
          ∃ r, linkTasks g (resolve g depth) parentEnd (ids.zip modes) (note ids a') = .ok r := by
    intro modes note release
    constructor
    · rintro ⟨⟨ids, a'⟩, h⟩
      obtain ⟨a₁, a₂, hprepare, hlink, _⟩ := compileModes_eq_ok.mp h
      exact ⟨ids, a₁, hprepare, _, hlink⟩
    · rintro ⟨ids, a₁, hprepare, ⟨u, a₂⟩, hlink⟩
      exact ⟨_, compileModes_eq_ok.mpr ⟨a₁, a₂, hprepare, hlink, rfl⟩⟩
  cases reference with
  | inline m =>
    refine (hcompile _ _ _).trans (iff_and_self.mpr fun _ name hname => ?_)
    cases hname
  | named name =>
    have hmissing := @known_missing_iff a g name current parentEnd expanded
    simp only [ModeRef.named.injEq, forall_eq']
    rcases hknown : a.known g name current parentEnd expanded with found | _ | ⟨m, dependent, key⟩
    all_goals simp only [resolveWith, Call.modes, Call.noted, hknown] at hmissing ⊢
    · have hnames := not_not.mp (mt hmissing.mpr (by simp))
      exact ⟨fun _ => ⟨hnames, [], a, rfl, _, rfl⟩, fun _ => ⟨_, rfl⟩⟩
    · constructor
      · rintro ⟨_, h⟩
        cases h
      · rintro ⟨h, _⟩
        exact absurd h (hmissing.mp trivial)
    · have hnames := not_not.mp (mt hmissing.mpr (by simp))
      rw [hcompile]
      exact (and_iff_right hnames).symm

/-! ## What is joined -/

/-- The rules that linking prepared modes joins: those of each mode, once the modes before
it are linked and its own references are resolved. -/
inductive LinksJoin (g : Grammar) (parentEnd : Option String) :
    List (Nat × Mode) → Arena → List (Rule × String) → Prop
  | here {id : Nat} {m : Mode} {tasks : List (Nat × Mode)} {a a₁ a₂ : Arena} {depth : Nat}
      {lists : List (List Nat)} {starts : Option Nat}
      (hchildren : linkChildren (resolve g depth) id m.contains (a.ownEnd id) a = .ok (lists, a₁))
      (hstarts : linkStarts (resolve g depth) id m.starts parentEnd a₁ = .ok (starts, a₂)) :
      LinksJoin g parentEnd ((id, m) :: tasks) a (a₂.rules lists.flatten (a.ownEnd id) m.illegal)
  | later {id : Nat} {m : Mode} {tasks : List (Nat × Mode)} {a : Arena} {depth : Nat}
      {linked : Unit × Arena} {rules : List (Rule × String)}
      (hlink : link g (resolve g depth) id m parentEnd a = .ok linked)
      (h : LinksJoin g parentEnd tasks linked.2 rules) :
      LinksJoin g parentEnd ((id, m) :: tasks) a rules

/-- The rules are joined for a mode that the reference has compiled. -/
def Call.Joins (q : Call) (g : Grammar) (rules : List (Rule × String)) : Prop :=
  ∃ ids a, prepareAll g (q.modes g) q.parentEnd q.arena = .ok (ids, a) ∧
    LinksJoin g q.parentEnd (ids.zip (q.modes g)) (q.noted g ids a) rules

theorem setLinks_ok_iff {g : Grammar} {id : Nat} {ownEnd : String} {illegal : Option String}
    {contains : List Nat} {starts : Option Nat} {a : Arena} :
    (∃ r, setLinks g id ownEnd illegal contains starts a = .ok r) ↔
      (Terminators.ofRules (a.rules contains ownEnd illegal) g.caseInsensitive).isOk = true := by
  have hget : ∀ f : Arena → Build Unit, (get >>= f) a = f a a := fun _ => rfl
  unfold setLinks
  rw [hget]
  rcases Terminators.ofRules (a.rules contains ownEnd illegal) g.caseInsensitive with e | ts
  · exact ⟨fun ⟨_, h⟩ => (nomatch h), fun h => (nomatch h)⟩
  · exact ⟨fun _ => rfl, fun _ => ⟨_, rfl⟩⟩

/-- A mode is linked when its children, what follows it and its rules are. -/
theorem link_ok_iff {g : Grammar} {next : Resolver} {id : Nat} {m : Mode}
    {parentEnd : Option String} {a : Arena} :
    (∃ r, link g next id m parentEnd a = .ok r) ↔ ∃ lists a₁ starts a₂,
      linkChildren next id m.contains (a.ownEnd id) a = .ok (lists, a₁) ∧
      linkStarts next id m.starts parentEnd a₁ = .ok (starts, a₂) ∧
      (Terminators.ofRules (a₂.rules lists.flatten (a.ownEnd id) m.illegal)
        g.caseInsensitive).isOk = true := by
  rw [link_eq]
  constructor
  · rintro ⟨r, h⟩
    obtain ⟨lists, a₁, hchildren, h⟩ := build_bind_eq_ok.mp h
    obtain ⟨starts, a₂, hstarts, h⟩ := build_bind_eq_ok.mp h
    exact ⟨lists, a₁, starts, a₂, hchildren, hstarts, setLinks_ok_iff.mp ⟨r, h⟩⟩
  · rintro ⟨lists, a₁, starts, a₂, hchildren, hstarts, hrules⟩
    obtain ⟨r, hr⟩ := setLinks_ok_iff.mpr hrules
    exact ⟨r, build_bind_eq_ok.mpr ⟨lists, a₁, hchildren,
      build_bind_eq_ok.mpr ⟨starts, a₂, hstarts, hr⟩⟩⟩

/-! ## Links and what they need -/

/-- Children are linked exactly when the references they ask for are resolved. -/
theorem linkChildren_ok_iff {g : Grammar} {id : Nat} {ownEnd : String} {refs : List ModeRef}
    {a : Arena} {depth : Nat} :
    (∃ r, linkChildren (resolve g depth) id refs ownEnd a = .ok r) ↔
      ∀ q, ChildrenAsk g id ownEnd refs a q → q.Resolves g depth := by
  induction refs generalizing a with
  | nil => exact ⟨fun _ _ hq => (nomatch hq), fun _ => ⟨_, rfl⟩⟩
  | cons r refs ih =>
    rw [linkChildren_cons]
    constructor
    · rintro ⟨_, h⟩
      obtain ⟨ids, a₁, hfirst, h⟩ := build_bind_eq_ok.mp h
      obtain ⟨lists, a₂, hrest, _⟩ := build_bind_eq_ok.mp h
      intro q hq
      cases hq with
      | here => exact ⟨_, hfirst⟩
      | later hr hq =>
        cases eq_of_oks (· r id (some ownEnd) true) (fun _ _ h => h r id (some ownEnd) true) hr hfirst
        exact ih.mp ⟨_, hrest⟩ q hq
    · intro h
      obtain ⟨⟨ids, a₁⟩, hfirst⟩ := h _ (.here r refs a)
      obtain ⟨⟨lists, a₂⟩, hrest⟩ := ih.mpr fun q hq => h q (.later hfirst hq)
      exact ⟨_, build_bind_eq_ok.mpr ⟨ids, a₁, hfirst, build_bind_eq_ok.mpr ⟨lists, a₂, hrest, rfl⟩⟩⟩

theorem linkStarts_ok_iff {g : Grammar} {id : Nat} {starts : Option ModeRef}
    {parentEnd : Option String} {a : Arena} {depth : Nat} :
    (∃ r, linkStarts (resolve g depth) id starts parentEnd a = .ok r) ↔
      ∀ r, starts = some r → Call.Resolves ⟨r, id, parentEnd, false, a⟩ g depth := by
  rcases starts with _ | r
  · exact ⟨fun _ _ h => (nomatch h), fun _ => ⟨_, rfl⟩⟩
  · simp only [Option.some.injEq, forall_eq']
    constructor
    · rintro ⟨_, h⟩
      obtain ⟨ids, a₁, hr, _⟩ := build_bind_eq_ok.mp h
      exact ⟨_, hr⟩
    · rintro ⟨⟨ids, a₁⟩, hr⟩
      exact ⟨_, build_bind_eq_ok.mpr ⟨ids, a₁, hr, rfl⟩⟩

/-- Prepared modes are linked exactly when the references they ask for are resolved and
what they join is accepted. -/
theorem linkTasks_ok_iff {g : Grammar} {parentEnd : Option String} {tasks : List (Nat × Mode)}
    {a : Arena} {depth : Nat} :
    (∃ r, linkTasks g (resolve g depth) parentEnd tasks a = .ok r) ↔
      (∀ q, LinksAsk g parentEnd tasks a q → q.Resolves g depth) ∧
      ∀ rules, LinksJoin g parentEnd tasks a rules →
        (Terminators.ofRules rules g.caseInsensitive).isOk = true := by
  induction tasks generalizing a with
  | nil => exact ⟨fun _ => ⟨fun _ hq => (nomatch hq), fun _ hr => (nomatch hr)⟩, fun _ => ⟨_, rfl⟩⟩
  | cons p tasks ih =>
    obtain ⟨id, m⟩ := p
    rw [linkTasks_cons]
    constructor
    · rintro ⟨_, h⟩
      obtain ⟨u, a', hlink, hrest⟩ := build_bind_eq_ok.mp h
      obtain ⟨lists, a₁, starts, a₂, hchildren, hstarts, hrules⟩ := link_ok_iff.mp ⟨_, hlink⟩
      obtain ⟨hasked, hjoined⟩ := ih.mp ⟨_, hrest⟩
      have hchildrenAt {depth' r} (hok : linkChildren (resolve g depth') id m.contains (a.ownEnd id) a =
          .ok r) : r = (lists, a₁) :=
        eq_of_oks (linkChildren · id m.contains (a.ownEnd id))
          (fun _ _ h => refines_linkChildren h id m.contains (a.ownEnd id)) hok hchildren
      have hstartsAt {depth' r} (hok : linkStarts (resolve g depth') id m.starts parentEnd a₁ = .ok r) :
          r = (starts, a₂) :=
        eq_of_oks (linkStarts · id m.starts parentEnd)
          (fun _ _ h => refines_linkStarts h id m.starts parentEnd) hok hstarts
      have hlinkAt {depth' r} (hok : link g (resolve g depth') id m parentEnd a = .ok r) : r = (u, a') :=
        eq_of_oks (link g · id m parentEnd) (fun _ _ h => refines_link h g id m parentEnd) hok hlink
      refine ⟨fun q hq => ?_, fun rules hr => ?_⟩
      · cases hq with
        | child hchild => exact linkChildren_ok_iff.mp ⟨_, hchildren⟩ q hchild
        | starts hok hr =>
          cases hchildrenAt hok
          exact linkStarts_ok_iff.mp ⟨_, hstarts⟩ _ hr
        | later hok hq =>
          cases hlinkAt hok
          exact hasked q hq
      · cases hr with
        | here hok hok' =>
          cases hchildrenAt hok
          cases hstartsAt hok'
          exact hrules
        | later hok hr =>
          cases hlinkAt hok
          exact hjoined rules hr
    · rintro ⟨hasked, hjoined⟩
      obtain ⟨⟨lists, a₁⟩, hchildren⟩ := linkChildren_ok_iff.mpr fun q hq => hasked q (.child hq)
      obtain ⟨⟨starts, a₂⟩, hstarts⟩ := linkStarts_ok_iff.mpr fun r hr =>
        hasked _ (.starts hchildren hr)
      obtain ⟨⟨u, a'⟩, hlink⟩ := link_ok_iff.mpr
        ⟨lists, a₁, starts, a₂, hchildren, hstarts, hjoined _ (.here hchildren hstarts)⟩
      obtain ⟨r, hrest⟩ := ih.mpr ⟨fun q hq => hasked q (.later hlink hq),
        fun rules hr => hjoined rules (.later hlink hr)⟩
      exact ⟨r, build_bind_eq_ok.mpr ⟨u, a', hlink, hrest⟩⟩

/-- What is illegal by a joined rule is illegal in one of the modes. -/
theorem LinksJoin.illegal {g : Grammar} {parentEnd : Option String} {tasks : List (Nat × Mode)}
    {a : Arena} {rules : List (Rule × String)} (h : LinksJoin g parentEnd tasks a rules)
    {source : String} (hsource : (Rule.illegal, source) ∈ rules) :
    ∃ t ∈ tasks, t.2.illegal = some source := by
  induction h with
  | here hchildren hstarts =>
    refine ⟨_, List.mem_cons_self, ?_⟩
    rcases List.mem_append.mp hsource with hsource | hsource
    · rcases List.mem_append.mp hsource with hbegins | hends
      · obtain ⟨id, _, hid⟩ := List.mem_filterMap.mp hbegins
        simp only [Option.bind_eq_bind, Option.bind_eq_some_iff] at hid
        obtain ⟨_, _, _, _, hrule⟩ := hid
        cases hrule
      · split at hends
        · cases hends
        · cases List.mem_singleton.mp hends
    · simpa using hsource
  | later _ _ ih =>
    obtain ⟨t, ht, hillegal⟩ := ih hsource
    exact ⟨t, List.mem_cons_of_mem _ ht, hillegal⟩

/-! ## Valid references -/

namespace Call

/-- What is checked of a reference before the modes that it has compiled are linked. -/
structure Checked (q : Call) (g : Grammar) : Prop where
  named : q.Named g
  parts : ∀ m ∈ q.modes g, m.Accepted g.caseInsensitive q.parentEnd

/-- What a reference needs to be resolved, apart from the references that it asks for. -/
structure Valid (q : Call) (g : Grammar) : Prop extends Checked q g where
  /-- The joined patterns of each mode are accepted. -/
  joined : ∀ rules, q.Joins g rules →
    (Terminators.ofRules rules g.caseInsensitive).isOk = true

/-- What is illegal in the modes that the reference has compiled is accepted alone. -/
def IllegalAccepted (q : Call) (g : Grammar) : Prop :=
  ∀ m ∈ q.modes g, ∀ source ∈ m.illegal, Pattern.isAccepted source g.caseInsensitive = true

/-- What a reference needs if all patterns are read alone, what is illegal too. -/
structure ValidAlone (q : Call) (g : Grammar) : Prop extends Checked q g where
  illegal : q.IllegalAccepted g

/-- In what is joined for the modes of a reference, joining counts groups as the reader
does, and begins and ends are accepted alone in the form in which they are joined: a begin
at keywords with a dot on either side, an end with the ends around it. -/
structure JoinsInStep (q : Call) (g : Grammar) : Prop where
  inStep : ∀ rules, q.Joins g rules → allInStep 0 (rules.map (·.2)) = true
  alone : ∀ rules, q.Joins g rules → ∀ r ∈ rules, r.1 ≠ .illegal →
    Pattern.isAccepted r.2 g.caseInsensitive = true

/-- A reference is resolved exactly when it is valid and those that it asks for are resolved. -/
theorem resolves_succ_iff {q : Call} {g : Grammar} {depth : Nat} :
    q.Resolves g (depth + 1) ↔ q.Valid g ∧ ∀ p, Asks g q p → p.Resolves g depth := by
  rw [resolves_succ]
  constructor
  · rintro ⟨hnamed, ids, a', hprepare, hlink⟩
    obtain ⟨hasked, hjoined⟩ := linkTasks_ok_iff.mp hlink
    refine ⟨⟨⟨hnamed, (prepareAll_ok_iff _ _ _ _).mp ⟨_, hprepare⟩⟩, ?_⟩, ?_⟩
    · rintro rules ⟨ids', a'', hprepare', hrules⟩
      cases hprepare.symm.trans hprepare'
      exact hjoined rules hrules
    · intro p hp
      obtain ⟨ids', a'', hprepare', hlinks⟩ := asks_iff.mp hp
      cases hprepare.symm.trans hprepare'
      exact hasked p hlinks
  · rintro ⟨⟨⟨hnamed, hparts⟩, hjoined⟩, hasked⟩
    obtain ⟨⟨ids, a'⟩, hprepare⟩ := (prepareAll_ok_iff _ _ _ q.arena).mpr hparts
    refine ⟨hnamed, ids, a', hprepare, linkTasks_ok_iff.mpr ⟨fun p hp => ?_, fun rules hrules => ?_⟩⟩
    · exact hasked p (asks_iff.mpr ⟨ids, a', hprepare, hp⟩)
    · exact hjoined rules ⟨ids, a', hprepare, hrules⟩

/-- All that a resolved reference leads to is valid. -/
theorem Resolves.valid {q q' : Call} {g : Grammar} {depth : Nat} (h : q.Resolves g depth)
    (hq' : Relation.ReflTransGen (Asks g) q q') : q'.Valid g := by
  induction depth generalizing q with
  | zero =>
    obtain ⟨_, hok⟩ := h
    cases hok
  | succ depth ih =>
    obtain ⟨hvalid, hasked⟩ := resolves_succ_iff.mp h
    rcases Relation.ReflTransGen.cases_head hq' with rfl | ⟨p, hp, hpq⟩
    · exact hvalid
    · exact ih (hasked p hp) hpq

/-- A reference that leads only to valid ones is resolved where it comes out. -/
theorem resolves_of_valid {q : Call} {g : Grammar} {depth : Nat}
    (hout : q.resolved g depth ≠ .error .tooDeep)
    (h : ∀ q', Relation.ReflTransGen (Asks g) q q' → q'.Valid g) : q.Resolves g depth := by
  induction depth generalizing q with
  | zero => exact absurd (resolve_zero g _ _ _ _ _) hout
  | succ depth ih =>
    refine resolves_succ_iff.mpr ⟨h q .refl, fun p hp => ?_⟩
    exact ih (asked_comesOut hp hout) fun q' hq' => h q' (.head hp hq')

theorem readAlone_of_accepted {rules : List (Rule × String)} {anyCase : Bool}
    (h : ∀ r ∈ rules, Pattern.isAccepted r.2 anyCase = true) :
    ∃ members, readAlone anyCase rules = .ok members := by
  rcases hread : readAlone anyCase rules with e | members
  · obtain ⟨⟨rule, source⟩, hr, he⟩ := mapM_eq_error hread
    obtain ⟨p, hp⟩ := exists_of_isOk (h _ hr)
    simp only [hp] at he
    cases he
  · exact ⟨members, rfl⟩

/-- Where joining is in step, what is accepted alone is accepted joined. -/
theorem ValidAlone.valid {q : Call} {g : Grammar} (h : q.ValidAlone g) (hstep : q.JoinsInStep g) :
    q.Valid g where
  toChecked := h.toChecked
  joined rules hrules := by
    have haccepted : ∀ r ∈ rules, Pattern.isAccepted r.2 g.caseInsensitive = true := by
      rintro ⟨rule, source⟩ hr
      by_cases hrule : rule = .illegal
      · obtain ⟨ids, a, _, hjoin⟩ := hrules
        obtain ⟨t, ht, hsource⟩ := hjoin.illegal (hrule ▸ hr)
        exact h.illegal t.2 (List.of_mem_zip ht).2 source hsource
      · exact hstep.alone rules hrules _ hr hrule
    obtain ⟨members, hread⟩ := readAlone_of_accepted haccepted
    obtain ⟨t, ht, _⟩ := find_of_inStep hread (hstep.inStep rules hrules)
    rw [ht]
    rfl

end Call

/-! ## Valid grammars -/

theorem compileWithin_ok_iff (g : Grammar) (depth : Nat) :
    (∃ l, compileWithin g depth = .ok l) ↔ (rootCall g).Resolves g (depth + 1) := by
  have hbuild : (∃ l, compileWithin g depth = .ok l) ↔ ∃ ids a,
      prepareAll g [g.root.withoutVariants] none {} = .ok (ids, a) ∧
        ∃ r, linkTasks g (resolve g depth) none (ids.zip [g.root.withoutVariants]) a = .ok r := by
    constructor
    · rintro ⟨l, h⟩
      obtain ⟨r, hrun, _⟩ := bind_eq_ok.mp h
      obtain ⟨ids, a, hprepare, hlink⟩ := build_bind_eq_ok.mp hrun
      exact ⟨ids, a, hprepare, r, hlink⟩
    · rintro ⟨ids, a, hprepare, r, hlink⟩
      exact ⟨_, bind_eq_ok.mpr ⟨r, build_bind_eq_ok.mpr ⟨ids, a, hprepare, hlink⟩, rfl⟩⟩
  rw [hbuild, resolves_succ]
  exact (and_iff_right fun _ hname => (nomatch hname)).symm

/-- Which grammars compile, of those for which compiling ends: those whose references name
something and whose lexemes, begins and ends are accepted as patterns, and so is what is
joined for each mode. Where joining is in step, a grammar whose patterns are all accepted
alone is one that compiles and in which what is illegal, which compiling does not read
alone, is accepted alone too. -/
theorem grammar_compiles_exactly_when_valid (g : Grammar)
    (hends : ∃ depth, compileWithin g depth ≠ .error .tooDeep) :
    ((∃ depth l, compileWithin g depth = .ok l) ↔ ∀ q, Reached g q → q.Valid g) ∧
    ((∀ q, Reached g q → q.JoinsInStep g) →
      ((∀ q, Reached g q → q.ValidAlone g) ↔
        (∃ depth l, compileWithin g depth = .ok l) ∧ ∀ q, Reached g q → q.IllegalAccepted g)) := by
  have hvalid : ∀ depth l, compileWithin g depth = .ok l → ∀ q, Reached g q → q.Valid g :=
    fun depth l h q hq => ((compileWithin_ok_iff g depth).mp ⟨l, h⟩).valid hq
  have hcompiles : (∀ q, Reached g q → q.Valid g) → ∃ depth l, compileWithin g depth = .ok l := by
    intro h
    obtain ⟨depth, hout⟩ := hends
    exact ⟨depth, (compileWithin_ok_iff g depth).mpr
      (Call.resolves_of_valid ((compileWithin_comesOut g depth).mp hout) h)⟩
  refine ⟨⟨fun ⟨depth, l, h⟩ => hvalid depth l h, hcompiles⟩, fun hstep => ⟨fun h => ⟨?_, ?_⟩, ?_⟩⟩
  · exact hcompiles fun q hq => (h q hq).valid (hstep q hq)
  · exact fun q hq => (h q hq).illegal
  · rintro ⟨⟨depth, l, h⟩, hillegal⟩ q hq
    exact ⟨(hvalid depth l h q hq).toChecked, hillegal q hq⟩

/-! ## Grammars of one mode -/

/-- A mode that refers to nothing. -/
structure Mode.Alone (m : Mode) : Prop where
  contains : m.contains = []
  starts : m.starts = none
  variants : m.variants = []

/-- A grammar in which nothing stands but the mode. -/
def Mode.inGrammar (m : Mode) (illegal : Option String) : Grammar :=
  { root := { contains := [.inline m], illegal } }

theorem instances_eq_singleton {m : Mode} (h : m.variants = []) (expanded : Bool) :
    m.instances expanded = [m] := by
  obtain ⟨_, _⟩ := m
  cases h
  cases expanded
  · rfl
  · rfl

/-- Everything that is asked for stands in a mode that the reference has compiled. -/
theorem reference_of_asks {g : Grammar} {q p : Call} (h : Asks g q p) :
    ∃ m ∈ q.modes g, p.reference ∈ m.contains ∨ m.starts = some p.reference := by
  obtain ⟨ids, a', _, hlinks⟩ := asks_iff.mp h
  obtain ⟨_, t, ht, href⟩ := linksAsk_remembers hlinks
  exact ⟨t.2, (List.of_mem_zip ht).2, href⟩

theorem reached_inGrammar {m : Mode} (hm : m.Alone) {illegal : Option String} {q : Call}
    (hq : Reached (m.inGrammar illegal) q) :
    q = rootCall (m.inGrammar illegal) ∨ q.reference = .inline m := by
  induction hq with
  | refl => exact .inl rfl
  | tail _ hasks ih =>
    rename_i q' p _
    obtain ⟨i, hi, href⟩ := reference_of_asks hasks
    rcases ih with rfl | hq'
    · obtain rfl : i = (m.inGrammar illegal).root := List.mem_singleton.mp hi
      rcases href with href | href
      · exact .inr (List.mem_singleton.mp href)
      · cases href
    · simp only [Call.modes, hq', instances_eq_singleton hm.variants, List.mem_singleton] at hi
      subst hi
      rw [hm.contains, hm.starts] at href
      rcases href with href | href
      · cases href
      · cases href

/-- Both references of the grammar are valid alone if the patterns of both modes are accepted. -/
theorem validAlone_inGrammar {m : Mode} (hm : m.Alone) {illegal : Option String}
    (hroot : ((m.inGrammar illegal).root.prepare false (some "")).isOk = true)
    (hmode : (m.prepare false (some "")).isOk = true)
    (hillegal : ∀ source ∈ illegal, Pattern.isAccepted source false = true)
    (hillegal' : ∀ source ∈ m.illegal, Pattern.isAccepted source false = true) {q : Call}
    (hq : Reached (m.inGrammar illegal) q) : q.ValidAlone (m.inGrammar illegal) := by
  rcases reached_inGrammar hm hq with rfl | hq'
  · refine ⟨⟨fun _ hname => (nomatch hname), fun i hi => ?_⟩, fun i hi => ?_⟩
    · obtain rfl : i = (m.inGrammar illegal).root := List.mem_singleton.mp hi
      exact ((prepare_ok_iff _ _ _).mp (exists_of_isOk hroot)).of_some _
    · obtain rfl : i = (m.inGrammar illegal).root := List.mem_singleton.mp hi
      exact hillegal
  · have hmodes : q.modes (m.inGrammar illegal) = [m] := by
      simp only [Call.modes, hq', instances_eq_singleton hm.variants]
    refine ⟨⟨fun _ hname => ?_, fun i hi => ?_⟩, fun i hi => ?_⟩
    · rw [hq'] at hname
      cases hname
    · obtain rfl : i = m := List.mem_singleton.mp (hmodes ▸ hi)
      exact ((prepare_ok_iff _ _ _).mp (exists_of_isOk hmode)).of_some _
    · obtain rfl : i = m := List.mem_singleton.mp (hmodes ▸ hi)
      exact hillegal'

/-- A mode that refers to nothing is linked with its end and what is illegal in it. -/
theorem joins_of_alone {m : Mode} (hm : m.Alone) (hends : m.endsWithParent = false) {g : Grammar} {q : Call}
    (hq : q.reference = .inline m) {rules : List (Rule × String)} (h : q.Joins g rules) :
    ∃ ownEnd, (ownEnd = "" ∨ m.endSource = some ownEnd) ∧
      rules = Arena.rules {} [] ownEnd m.illegal := by
  have hmodes : q.modes g = [m] := by
    simp only [Call.modes, hq, instances_eq_singleton hm.variants]
  obtain ⟨ids, a, hprepare, hjoin⟩ := h
  have hnoted : q.noted g ids a = a := by simp only [Call.noted, hq]
  rw [hmodes] at hprepare hjoin
  rw [hnoted] at hjoin
  obtain ⟨c, hc⟩ := (prepare_ok_iff m g.caseInsensitive q.parentEnd).mpr
    ((prepareAll_ok_iff g [m] q.parentEnd q.arena).mp ⟨_, hprepare⟩ m List.mem_cons_self)
  cases hprepare.symm.trans (prepareAll_single hc q.arena)
  cases hjoin with
  | later _ h => cases h
  | here hchildren hstarts =>
    rw [hm.contains] at hchildren
    cases hchildren
    rw [hm.starts] at hstarts
    cases hstarts
    refine ⟨_, ?_, rfl⟩
    have hend : Arena.ownEnd { q.arena with modes := q.arena.modes.push c } q.arena.modes.size =
        (q.parentEnd.map m.terminatorEnd).getD "" := by
      rw [← (prepare_prepared hc).terminatorEnd]
      simp [Arena.ownEnd]
    rw [hend]
    rcases q.parentEnd with _ | e
    · exact .inl rfl
    · simp only [Option.map_some, Option.getD_some, Mode.terminatorEnd, hends, Bool.false_and]
      rcases m.endSource with _ | source
      · exact .inl rfl
      · exact .inr rfl

/-- The rules of the root when nothing follows it. -/
def rootRules (g : Grammar) (depth : Nat) : Build (List (Rule × String)) := do
  let _ ← prepareAll g [g.root.withoutVariants] none
  let a ← get
  let lists ← linkChildren (resolve g depth) 0 g.root.contains (a.ownEnd 0)
  return (← get).rules lists.flatten (a.ownEnd 0) g.root.illegal

theorem joins_rootRules {g : Grammar} (hstarts : g.root.starts = none) {depth : Nat}
    {r : List (Rule × String) × Arena} (hr : rootRules g depth {} = .ok r)
    {rules : List (Rule × String)} (h : (rootCall g).Joins g rules) : rules = r.1 := by
  obtain ⟨ids, a, hprepare, hjoin⟩ := h
  obtain ⟨c, hc⟩ := (prepare_ok_iff g.root.withoutVariants g.caseInsensitive none).mpr
    ((prepareAll_ok_iff g [g.root.withoutVariants] none {}).mp ⟨_, hprepare⟩ _ List.mem_cons_self)
  cases hprepare.symm.trans (prepareAll_single hc {})
  obtain ⟨_, a', hprepare', hr⟩ := build_bind_eq_ok.mp hr
  cases hprepare.symm.trans hprepare'
  obtain ⟨_, _, hget, hr⟩ := build_bind_eq_ok.mp hr
  cases hget
  obtain ⟨lists, a₁, hchildren, hr⟩ := build_bind_eq_ok.mp hr
  cases hr
  cases hjoin with
  | later _ h => cases h
  | here hchildren' hstarts' =>
    cases eq_of_oks (linkChildren · 0 g.root.contains _)
      (fun _ _ h => refines_linkChildren h 0 g.root.contains _) hchildren' hchildren
    have hnone : g.root.withoutVariants.starts = none := hstarts
    rw [hnone] at hstarts'
    cases hstarts'
    rfl

/-- A note in brackets. -/
def note : Mode := { begins := some "(\\[)", ends := some "\\]" }

/-- Notes, outside of which no sign stands twice. -/
def notes : Grammar := note.inGrammar (some "([#!])\\1")

theorem notes_joinsInStep (q : Call) (hq : Reached notes q) : q.JoinsInStep notes := by
  -- In both modes all that is joined is accepted alone, and the rules are in step.
  have hrules : ∀ rules, q.Joins notes rules →
      (∀ r ∈ rules, Pattern.isAccepted r.2 false = true) ∧ allInStep 0 (rules.map (·.2)) = true := by
    have hnote : note.Alone := ⟨rfl, rfl, rfl⟩
    intro rules hjoins
    rcases reached_inGrammar hnote hq with rfl | hq'
    · have hroot : (rootRules notes 1 {}).toOption.any (fun r =>
          r.1.all (fun r => Pattern.isAccepted r.2 false) && allInStep 0 (r.1.map (·.2))) = true := by
        decide +kernel
      obtain ⟨r, hr, hgood⟩ := toOption_any_eq_true.mp hroot
      obtain rfl := joins_rootRules rfl hr hjoins
      rw [Bool.and_eq_true, List.all_eq_true] at hgood
      exact hgood
    · obtain ⟨ownEnd, hend, rfl⟩ := joins_of_alone hnote rfl hq' hjoins
      have hown : note.endSource = some "\\]" := by decide +kernel
      rcases hend with rfl | hend
      · decide +kernel
      · cases hown.symm.trans hend
        decide +kernel
  exact ⟨fun rules h => (hrules rules h).2, fun rules h r hr _ => (hrules rules h).1 r hr⟩

theorem notes_compiles :
    (∃ depth, compileWithin notes depth ≠ .error .tooDeep) ∧
      (∀ q, Reached notes q → q.JoinsInStep notes) ∧ (∀ q, Reached notes q → q.ValidAlone notes) ∧
      (∃ depth l, compileWithin notes depth = .ok l) ∧ ∀ q, Reached notes q → q.Valid notes := by
  have hends : compileWithin notes 1 ≠ .error .tooDeep := by
    obtain ⟨l, hl⟩ := exists_of_isOk (show (compileWithin notes 1).isOk = true by decide +kernel)
    rw [hl]
    exact nofun
  have hillegal : Pattern.isAccepted "([#!])\\1" false = true := by decide +kernel
  have hparts : ∀ q, Reached notes q → q.ValidAlone notes := fun q hq =>
    validAlone_inGrammar ⟨rfl, rfl, rfl⟩ (by decide +kernel) (by decide +kernel)
      (by simpa using hillegal) (by simp [note]) hq
  obtain ⟨hvalid, halone⟩ := grammar_compiles_exactly_when_valid notes ⟨1, hends⟩
  have hcompiles := ((halone notes_joinsInStep).mp hparts).1
  exact ⟨⟨1, hends⟩, notes_joinsInStep, hparts, hcompiles, hvalid.mp hcompiles⟩

/-- What is illegal closes a group that it has not opened. -/
def unbalanced : Grammar := { root := { illegal := some "a)|(b" } }

/-- A mode whose begin ends in a comment. -/
def commentedMode : Mode := { begins := some "(?x)a#" }

/-- A pattern of the grammar is refused. -/
def refusesPattern (x : Except GrammarError CompiledLanguage) : Bool :=
  match x with
  | .error (.invalidPattern _) => true
  | _ => false

theorem not_ok_of_refusesPattern {g : Grammar} {depth : Nat}
    (h : refusesPattern (compileWithin g depth) = true) :
    compileWithin g depth ≠ .error .tooDeep ∧ ¬ ∃ depth l, compileWithin g depth = .ok l := by
  have hends : compileWithin g depth ≠ .error .tooDeep := by
    intro hdeep
    rw [hdeep] at h
    cases h
  refine ⟨hends, fun ⟨depth', l, hl⟩ => ?_⟩
  have hends' : compileWithin g depth' ≠ .error .tooDeep := by
    rw [hl]
    exact nofun
  rw [compileWithin_eq_compileWithin hends hends', hl] at h
  cases h

/-- Patterns that are read alone decide nothing about the joined ones: a text that is
refused alone is accepted in a group, and one that is accepted alone is refused in it. -/
theorem parts_do_not_decide :
    ((∃ depth l, compileWithin unbalanced depth = .ok l) ∧
      ¬ ∀ q, Reached unbalanced q → q.ValidAlone unbalanced) ∧
    ((∃ depth, compileWithin (commentedMode.inGrammar none) depth ≠ .error .tooDeep) ∧
      (¬ ∃ depth l, compileWithin (commentedMode.inGrammar none) depth = .ok l) ∧
      ∀ q, Reached (commentedMode.inGrammar none) q → q.ValidAlone (commentedMode.inGrammar none)) := by
  have hrefused : refusesPattern (compileWithin (commentedMode.inGrammar none) 1) = true := by
    decide +kernel
  obtain ⟨hends, hnever⟩ := not_ok_of_refusesPattern hrefused
  refine ⟨⟨?_, ?_⟩, ⟨1, hends⟩, hnever, ?_⟩
  · obtain ⟨l, hl⟩ := exists_of_isOk (show (compileWithin unbalanced 1).isOk = true by decide +kernel)
    exact ⟨1, l, hl⟩
  · intro h
    have haccepted := (h _ .refl).illegal unbalanced.root List.mem_cons_self "a)|(b" rfl
    have hrefused : Pattern.isAccepted "a)|(b" false = false := by decide +kernel
    exact Bool.false_ne_true (hrefused.symm.trans haccepted)
  · exact fun q hq => validAlone_inGrammar ⟨rfl, rfl, rfl⟩ (by decide +kernel) (by decide +kernel)
      (by simp) (by simp [commentedMode]) hq

end Highlighting
