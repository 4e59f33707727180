-- Languages whose scans always end. A scan stays at one place while modes open that take no
-- character, while modes close that return the text at which they end, and while modes follow
-- that end at once. A language advances if none of these can go on for ever: it is a condition
-- on its modes and their patterns, and says nothing about texts or about what went before.
import Mathlib.Data.Fintype.Pigeonhole
import Mathlib.Data.Nat.SuccPred
import Mathlib.Order.SuccPred.Relation
import Highlighting.Proofs.CompleteModes
import Highlighting.Proofs.Progress
import Highlighting.Proofs.WhichRule

namespace Highlighting

/-! ## The conditions -/

namespace CompiledLanguage

variable (l : CompiledLanguage)

/-- The pattern at which a mode begins can match an empty text. -/
def BeginsEmpty (id : Nat) : Prop :=
  ∃ rule source p text start found, l.beginRule? id = some (rule, source) ∧
    Pattern.ofSource source l.caseInsensitive = .ok p ∧ p.search text start = some found ∧
    found.start = found.stop

/-- A mode can begin without taking a character. -/
def BeginsInPlace (id : Nat) : Prop :=
  (∃ m, l.mode? id = some m ∧ m.returnBegin = true) ∨ l.BeginsEmpty id

/-- In one mode another can begin without taking a character. -/
def OpensInPlace (outer inner : Nat) : Prop :=
  ∃ m, l.mode? outer = some m ∧ inner ∈ m.contains ∧ l.BeginsInPlace inner

/-- Where one mode ends another starts. -/
def StartsNext (id next : Nat) : Prop := ∃ m, l.mode? id = some m ∧ m.starts = some next

/-- No mode leads back to itself by opening modes in place, or by starting modes, and none
that can be opened in place returns the text at which it ends. -/
structure Advances : Prop where
  opening : ∀ id, ¬ Relation.TransGen l.OpensInPlace id id
  ending : ∀ outer id, l.OpensInPlace outer id → ∀ m, l.mode? id = some m → m.returnEnd = false
  starting : ∀ id, ¬ Relation.TransGen l.StartsNext id id

/-- The rules of a mode: where others begin in it, where it ends, and what may not occur in it. -/
def rulesOf (m : CompiledMode) (illegal : Option String) : List (Rule × String) :=
  m.contains.filterMap l.beginRule? ++ m.endRule?.toList ++
    (illegal.map fun source => (Rule.illegal, source)).toList

/-- The modes tell their rules apart: each finds what the first of its rules to match, read
alone, would find. -/
def TellsRules : Prop :=
  ∀ m ∈ l.modes, ∃ illegal members,
    readAlone l.caseInsensitive (l.rulesOf m illegal) = .ok members ∧
      ∀ text start, FirstToMatch members text start (m.terminators.find text start)

end CompiledLanguage

/-! ## The rule of an empty terminator -/

theorem mem_of_readAlone {anyCase : Bool} {rules : List (Rule × String)}
    {members : List (Rule × Pattern)} (h : readAlone anyCase rules = .ok members)
    {rule : Rule} {p : Pattern} (hp : (rule, p) ∈ members) :
    ∃ source, (rule, source) ∈ rules ∧ Pattern.ofSource source anyCase = .ok p := by
  induction rules generalizing members with
  | nil =>
    cases h
    cases hp
  | cons r rules ih =>
    obtain ⟨first, source⟩ := r
    obtain ⟨q, rest, hq, hrest, rfl⟩ := readAlone_cons h
    rcases List.mem_cons.mp hp with hp | hp
    · cases hp
      exact ⟨source, List.mem_cons_self, hq⟩
    · obtain ⟨source', hmem, hsource⟩ := ih hrest hp
      exact ⟨source', List.mem_cons_of_mem _ hmem, hsource⟩

/-- A rule by which a mode begins is that of a mode that is contained. -/
theorem beginRule?_of_mem {l : CompiledLanguage} {m : CompiledMode} {illegal : Option String}
    {id : Nat} {source : String} (h : (Rule.begins id, source) ∈ l.rulesOf m illegal) :
    id ∈ m.contains ∧ l.beginRule? id = some (.begins id, source) := by
  unfold CompiledLanguage.rulesOf at h
  rcases List.mem_append.mp h with h | h
  · rcases List.mem_append.mp h with h | h
    · obtain ⟨child, hchild, hrule⟩ := List.mem_filterMap.mp h
      have hid : child = id := by
        unfold CompiledLanguage.beginRule? at hrule
        obtain ⟨_, _, hrule⟩ := Option.bind_eq_some_iff.mp hrule
        obtain ⟨_, _, hrule⟩ := Option.bind_eq_some_iff.mp hrule
        cases hrule
        rfl
      subst hid
      exact ⟨hchild, hrule⟩
    · unfold CompiledMode.endRule? at h
      split at h <;> simp at h
  · cases illegal <;> simp at h

/-- Where modes tell their rules apart, a mode that begins is a child of the innermost one,
and if its lexeme is empty it can begin so. -/
theorem begins_of_tellsRules {l : CompiledLanguage} (hl : l.TellsRules) {m : CompiledMode}
    (hm : m ∈ l.modes) {text : Array Char} {start : Nat} {t : Terminator} {id : Nat}
    (h : m.terminators.find text start = some t) (hrule : t.rule = .begins id) :
    id ∈ m.contains ∧ (t.start = t.stop → l.BeginsEmpty id) := by
  obtain ⟨illegal, members, hread, hfinds⟩ := hl m hm
  have hfirst := hfinds text start
  rw [h] at hfirst
  obtain ⟨earlier, ⟨rule, p⟩, later, found, rfl, hfound, rfl, _, _⟩ := hfirst
  simp only at hrule
  subst hrule
  obtain ⟨source, hmem, hp⟩ :=
    mem_of_readAlone hread (List.mem_append_right earlier List.mem_cons_self)
  obtain ⟨hchild, hbegin⟩ := beginRule?_of_mem hmem
  exact ⟨hchild, fun hempty => ⟨_, source, p, text, start, found, hbegin, hp, hfound, hempty⟩⟩

/-! ## No endless chains -/

/-- Among finitely many indices a relation without cycles has no endless chain. -/
theorem not_endless_chain {R : Nat → Nat → Prop} (hR : ∀ a, ¬ Relation.TransGen R a a) {size : Nat}
    {f : Nat → Nat} (hf : ∀ k, f k < size) : ¬ ∀ k, R (f k) (f (k + 1)) := by
  intro hchain
  obtain ⟨i, j, hne, heq⟩ :=
    Finite.exists_ne_map_eq_of_infinite fun k => (⟨f k, hf k⟩ : Fin size)
  have hcycle : ∀ i j, i < j → f i = f j → False := by
    intro i j hij heq
    have hpath : Relation.TransGen (fun a b => R (f a) (f b)) i j :=
      transGen_of_succ_of_lt _ (fun k _ => hchain k) hij
    have hlift : Relation.TransGen R (f i) (f j) := hpath.lift f fun _ _ h => h
    rw [heq] at hlift
    exact hR _ hlift
  have heq : f i = f j := congrArg Fin.val heq
  rcases Nat.lt_or_gt_of_ne hne with hij | hij
  · exact hcycle i j hij heq
  · exact hcycle j i hij heq.symm

namespace Scan

/-! ## Steps in place -/

/-- What a step in an advancing language does that leaves the cursor at `pos`: it opens a mode
in place, or it closes modes. If a mode was opened there just before, it returns its end. -/
inductive InPlace (c : Context) (pos : Nat) (s s₁ : State) : Prop
  | opens (f g : Frame) (rest : List Frame) (t : Terminator) (hframes : s.frames = g :: rest)
      (hframes₁ : s₁.frames = f :: g :: rest) (hopens : c.language.OpensInPlace g.mode f.mode)
      (hlast : s₁.last = some t) (hstart : t.start = pos) (hrule : t.rule = .begins f.mode)
  | closes (n : Nat) (new : List Frame) (hpos : 0 < n) (hlt : n < s.frames.length)
      (hnew : new.map Frame.sight = ((s.lastClosed? n).bind (continuation? c)).toList)
      (hframes : s₁.frames = new ++ s.frames.drop n)
      (hend : (∃ m, s.top? c = some m ∧ m.returnEnd = true) ∨
        ∀ t id, s.last = some t → t.start = pos → t.rule ≠ .begins id)

theorem inPlace_of_stall {c : Context} (hc : c.Sound) (htells : c.language.TellsRules) {s s₁ : State}
    (h : s.step c = .ok (.next s₁)) (hcursor : s₁.cursor = s.cursor) : InPlace c s.cursor s s₁ := by
  obtain ⟨t, hnext, hstart, hdegenerate, hturn⟩ := turn_of_stall hc h hcursor
  obtain ⟨m, htop, hfind⟩ := nextTerminator?_some hnext
  have hbounds := nextTerminator?_bounds hc hnext
  cases hturn with
  | opens id child f hrule hchild hmode hbound hframes hcursor₁ hlast =>
    obtain ⟨g, hg, hgmode⟩ := Option.bind_eq_some_iff.mp htop
    obtain ⟨rest, hrest⟩ := List.head?_eq_some_iff.mp hg
    subst hmode
    obtain ⟨hcontained, hempty⟩ := begins_of_tellsRules htells (top?_mem htop) hfind hrule
    refine .opens f g rest t hrest (by rw [hframes, hrest]) ⟨m, hgmode, hcontained, ?_⟩ hlast
      hstart hrule
    by_cases hreturn : child.returnBegin = true
    · exact .inl ⟨child, hchild, hreturn⟩
    · rw [if_neg hreturn] at hcursor₁
      exact .inr (hempty (by omega))
  | closes n origin new hrule hclosed horigin hnew hframes hcursor₁ hlast =>
    obtain ⟨hpos, hlt⟩ := closedBy?_lt hclosed
    refine .closes n new hpos hlt hnew hframes ?_
    by_cases hreturn : origin.returnEnd = true
    · exact .inl ⟨origin, horigin, hreturn⟩
    · -- The end is empty, so that it would be degenerate behind a mode that began here.
      rw [if_neg hreturn] at hcursor₁
      refine .inr fun t' id hlast' hstart' hrule' => ?_
      simp only [State.isDegenerate, hlast', hrule', hrule, hstart', hstart, beq_self_eq_true,
        Bool.and_true, Bool.true_and, Bool.not_eq_false', decide_eq_true_eq] at hdegenerate
      omega

/-! ## Scans that stay at one place -/

namespace StalledRun

variable {c : Context} {pos : Nat} {run : Nat → State}

theorem inPlace (hc : c.Sound) (htells : c.language.TellsRules) (h : StalledRun c pos run) (k : Nat) :
    InPlace c pos (run k) (run (k + 1)) := by
  have hcursor : (run (k + 1)).cursor = (run k).cursor := (h.cursor _).trans (h.cursor _).symm
  have hstep := inPlace_of_stall hc htells (h.step k) hcursor
  rwa [h.cursor k] at hstep

/-- The innermost mode of a state was opened in place, at the last terminator. -/
def Opened (c : Context) (pos : Nat) (s : State) : Prop :=
  ∃ outer f rest t, s.frames = f :: rest ∧ c.language.OpensInPlace outer f.mode ∧
    s.last = some t ∧ t.start = pos ∧ t.rule = .begins f.mode

/-- Behind a mode that opened in place only another one can open in place. -/
theorem opens_of_opened (hc : c.Sound) (htells : c.language.TellsRules) (hl : c.language.Advances)
    (h : StalledRun c pos run) {k : Nat} (hopened : Opened c pos (run k)) :
    Opened c pos (run (k + 1)) ∧ ∃ f g rest rest', (run k).frames = g :: rest ∧
      (run (k + 1)).frames = f :: rest' ∧ c.language.OpensInPlace g.mode f.mode := by
  cases h.inPlace hc htells k with
  | opens f g rest t hframes hframes₁ hopens hlast hstart hrule =>
    exact ⟨⟨g.mode, f, g :: rest, t, hframes₁, hopens, hlast, hstart, hrule⟩,
      f, g, rest, g :: rest, hframes, hframes₁, hopens⟩
  | closes n new hpos hlt hnew hframes hend =>
    obtain ⟨outer, f, rest, t, htop, hopens, hlast, hstart, hrule⟩ := hopened
    rcases hend with ⟨m, hm, hreturn⟩ | hnone
    · have hmode : c.language.mode? f.mode = some m := by
        rw [State.top?, htop] at hm
        exact hm
      have hnot := hl.ending outer f.mode hopens m hmode
      rw [hreturn] at hnot
      cases hnot
    · exact absurd hrule (hnone t f.mode hlast hstart)

/-- No mode opens: it would be the first of an endless chain. -/
theorem not_opened (hc : c.Sound) (htells : c.language.TellsRules) (hl : c.language.Advances)
    (h : StalledRun c pos run) (k : Nat) : ¬ Opened c pos (run k) := by
  intro hopened
  have hall : ∀ j, Opened c pos (run (k + j)) := by
    intro j
    induction j with
    | zero => exact hopened
    | succ j ih => exact (h.opens_of_opened hc htells hl ih).1
  choose f rest hframes hlt using fun j => h.head hc (k + j)
  refine not_endless_chain hl.opening hlt fun j => ?_
  obtain ⟨f₁, g, _, _, hg, hf₁, hopens⟩ := (h.opens_of_opened hc htells hl (hall j)).2
  rw [hframes j] at hg
  rw [Nat.add_assoc, hframes (j + 1)] at hf₁
  cases hg
  cases hf₁
  exact hopens

/-- What follows a mode that closes alone is what the mode starts. -/
theorem startsNext_of_continuation {s : State} {f x : Frame} {rest : List Frame}
    (hframes : s.frames = f :: rest)
    (hnew : [x].map Frame.sight = ((s.lastClosed? 1).bind (continuation? c)).toList) :
    c.language.StartsNext f.mode x.mode := by
  have hlast : s.lastClosed? 1 = some f := by
    rw [State.lastClosed?, hframes]
    rfl
  rw [hlast, Option.bind_some] at hnew
  rcases hcont : continuation? c f with _ | ⟨next, bound⟩
  · rw [hcont] at hnew
    cases hnew
  · have hmode : x.mode = next := by
      rw [hcont] at hnew
      exact congrArg Prod.fst (List.cons.inj hnew).1
    obtain ⟨m, hm, hstarts⟩ := Option.bind_eq_some_iff.mp hcont
    obtain ⟨next', hnext', heq⟩ := Option.map_eq_some_iff.mp hstarts
    cases heq
    rw [hmode]
    exact ⟨m, hm, hnext'⟩

/-- Modes cannot close at one place for ever: in the end each closes alone and starts the next
one. -/
theorem absurd_of_advances (hc : c.Sound) (htells : c.language.TellsRules)
    (hl : c.language.Advances) (h : StalledRun c pos run) : False := by
  have hcloses : ∀ k, ∃ n new, 0 < n ∧ n < (run k).frames.length ∧
      new.map Frame.sight = (((run k).lastClosed? n).bind (continuation? c)).toList ∧
      (run (k + 1)).frames = new ++ (run k).frames.drop n := by
    intro k
    cases h.inPlace hc htells k with
    | opens f g rest t hframes hframes₁ hopens hlast hstart hrule =>
      exact absurd ⟨g.mode, f, g :: rest, t, hframes₁, hopens, hlast, hstart, hrule⟩
        (h.not_opened hc htells hl (k + 1))
    | closes n new hpos hlt hnew hframes hend => exact ⟨n, new, hpos, hlt, hnew, hframes⟩
  -- The stack does not grow, so from some step on it does not shrink either.
  obtain ⟨k, -, hleast⟩ := exists_least_onward (fun k => (run k).frames.length) 0
  have hheight : ∀ j, (run (k + j)).frames.length = (run k).frames.length := by
    intro j
    induction j with
    | zero => rfl
    | succ j ih =>
      obtain ⟨n, new, hpos, hlt, hnew, hframes⟩ := hcloses (k + j)
      have hone := length_of_sights hnew
      have hge := hleast (k + (j + 1)) (Nat.le_add_right _ _)
      have hlen := congrArg List.length hframes
      rw [List.length_append, List.length_drop] at hlen
      have : (run (k + (j + 1))).frames.length = (run (k + j + 1)).frames.length := rfl
      omega
  choose f rest hframes hlt using fun j => h.head hc (k + j)
  refine not_endless_chain hl.starting hlt fun j => ?_
  obtain ⟨n, new, hpos, hn, hnew, hclosed⟩ := hcloses (k + j)
  have hone := length_of_sights hnew
  have hlen := congrArg List.length hclosed
  rw [List.length_append, List.length_drop] at hlen
  have hsame : (run (k + j + 1)).frames.length = (run (k + j)).frames.length :=
    (hheight (j + 1)).trans (hheight j).symm
  obtain ⟨rfl, hnewlen⟩ : n = 1 ∧ new.length = 1 := by omega
  obtain ⟨x, rfl⟩ := List.length_eq_one_iff.mp hnewlen
  have hnext : f (j + 1) = x := by
    rw [Nat.add_assoc, hframes (j + 1)] at hclosed
    exact (List.cons.inj hclosed).1
  rw [hnext]
  exact startsNext_of_continuation (hframes j) hnew

end StalledRun

/-- A scan with an advancing language ends, whatever its host does and from wherever it goes
on, if the modes tell their rules apart. -/
theorem ends_of_advances {c : Context} (hc : c.Sound) (htells : c.language.TellsRules)
    (hl : c.language.Advances) {s : State} (hs : s.cursor ≤ c.text.size) : Ends c s := by
  by_contra hends
  obtain ⟨pos, run, n, hstalled, _⟩ := exists_stalledRun hc hs hends
  exact hstalled.absurd_of_advances hc htells hl

end Scan

/-! ## Read off a language -/

namespace CompiledLanguage

variable (l : CompiledLanguage)

/-- Whether it can be read off a mode that it takes a character where it begins. -/
def beginTakes (id : Nat) : Bool :=
  (l.beginRule? id).all fun (_, source) =>
    match Pattern.ofSource source l.caseInsensitive with
    | .ok p => !p.program.root.keeps && decide (0 < p.program.root.fewest)
    | .error _ => true

/-- Whether a mode may begin in place, as far as can be read off it. -/
def mayBeginInPlace (id : Nat) : Bool := (l.mode? id).any (·.returnBegin) || !l.beginTakes id

/-- Whether a rank rises where modes open in place and where they start another, and modes that
open in place take the text at which they end. -/
def rises (rank : Nat → Nat) : Bool :=
  (List.range l.modes.size).all fun id => (l.mode? id).all fun m =>
    (m.contains.all fun inner => !l.mayBeginInPlace inner ||
      decide (rank id < rank inner) && (l.mode? inner).all (!·.returnEnd)) &&
    m.starts.all fun next => decide (rank id < rank next)

/-- Whether the rules of every mode, with one of these patterns for illegal text, are counted in
joining as they are read alone. -/
def joinsInStep (illegals : List (Option String)) : Bool :=
  l.modes.all fun m => illegals.any fun illegal =>
    let rules := l.rulesOf m illegal
    (Terminators.ofRules rules l.caseInsensitive).toOption == some m.terminators &&
      (readAlone l.caseInsensitive rules).isOk && allInStep 0 (rules.map (·.2))

variable {l}

theorem mayBeginInPlace_of_beginsInPlace {id : Nat} (h : l.BeginsInPlace id) :
    l.mayBeginInPlace id = true := by
  unfold mayBeginInPlace
  rcases h with ⟨m, hm, hreturn⟩ | ⟨rule, source, p, text, start, found, hrule, hp, hfound, hempty⟩
  · simp [hm, hreturn]
  · have hbegin : l.beginTakes id =
        (!p.program.root.keeps && decide (0 < p.program.root.fewest)) := by
      unfold beginTakes
      rw [hrule, Option.all_some]
      simp only [hp]
    rw [hbegin, Bool.or_eq_true]
    refine .inr (Bool.not_eq_true' _ ▸ Bool.eq_false_iff.mpr fun htakes => ?_)
    simp only [Bool.and_eq_true, Bool.not_eq_true', decide_eq_true_eq] at htakes
    have := Pattern.search_bounds htakes.1 hfound
    omega

/-- A language advances if a rank rises. -/
theorem advances_of_rises {rank : Nat → Nat} (h : l.rises rank = true) : l.Advances := by
  have hmode : ∀ id m, l.mode? id = some m →
      (∀ inner ∈ m.contains, l.BeginsInPlace inner → rank id < rank inner ∧
        ∀ m', l.mode? inner = some m' → m'.returnEnd = false) ∧
      ∀ next, m.starts = some next → rank id < rank next := by
    intro id m hm
    have hid : id < l.modes.size := (Array.getElem?_eq_some_iff.mp hm).1
    have hall := List.all_eq_true.mp h id (List.mem_range.mpr hid)
    rw [hm, Option.all_some, Bool.and_eq_true] at hall
    refine ⟨fun inner hinner hplace => ?_, fun next hnext => ?_⟩
    · have hrises := List.all_eq_true.mp hall.1 inner hinner
      simp only [mayBeginInPlace_of_beginsInPlace hplace, Bool.not_true, Bool.false_or,
        Bool.and_eq_true, decide_eq_true_eq] at hrises
      refine ⟨hrises.1, fun m' hm' => ?_⟩
      simpa [hm'] using hrises.2
    · simpa [hnext] using hall.2
  have hacyclic : ∀ {R : Nat → Nat → Prop}, (∀ a b, R a b → rank a < rank b) →
      ∀ id, ¬ Relation.TransGen R id id := by
    intro R hR id hcycle
    have hlt : Relation.TransGen (· < ·) (rank id) (rank id) := hcycle.lift rank hR
    rw [Relation.transGen_eq_self] at hlt
    exact Nat.lt_irrefl _ hlt
  refine ⟨hacyclic ?_, ?_, hacyclic ?_⟩
  · rintro outer inner ⟨m, hm, hinner, hplace⟩
    exact ((hmode outer m hm).1 inner hinner hplace).1
  · rintro outer inner ⟨m, hm, hinner, hplace⟩
    exact ((hmode outer m hm).1 inner hinner hplace).2
  · rintro id next ⟨m, hm, hnext⟩
    exact (hmode id m hm).2 next hnext

/-- Modes tell their rules apart if these are joined in step. -/
theorem tellsRules_of_joinsInStep {illegals : List (Option String)}
    (h : l.joinsInStep illegals = true) : l.TellsRules := by
  intro m hm
  have hall := Array.all_eq_true_iff_forall_mem.mp h m hm
  obtain ⟨illegal, _, hstep⟩ := List.any_eq_true.mp hall
  simp only [Bool.and_eq_true, beq_iff_eq] at hstep
  obtain ⟨⟨hterminators, hread⟩, hstep⟩ := hstep
  obtain ⟨members, hread⟩ := exists_of_isOk hread
  obtain ⟨t, ht, hfinds⟩ := find_of_inStep hread hstep
  rw [ht] at hterminators
  cases hterminators
  exact ⟨illegal, members, hread, hfinds⟩

end CompiledLanguage

end Highlighting
