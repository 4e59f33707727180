-- What the joined terminators of a mode find. When the joined expression tries
-- the expressions of the rules in order, each in a group of its own, a search
-- finds what the first rule that matches leftmost would find alone, and its
-- group is the only one of them that takes part.
import Highlighting.Pattern.Terminators
import Highlighting.Proofs.GroupNumbers

namespace Highlighting

open Regex (Place Subject Mark)

/-! ## The joined expression -/

/-- The groups of patterns in a row, when `before` groups come before them. -/
def groupNumbers : Nat → List Pattern → List Nat
  | _, [] => []
  | before, p :: ps => (before + 1) :: groupNumbers (before + 1 + p.program.groups) ps

/-- The patterns as groups, with their own groups moved behind. -/
def wrapped : Nat → List Pattern → List Regex
  | _, [] => []
  | before, p :: ps =>
    .group (before + 1) (p.program.root.shift (before + 1)) ::
      wrapped (before + 1 + p.program.groups) ps

/-- The number of groups at the end. -/
def groupTotal : Nat → List Pattern → Nat
  | before, [] => before
  | before, p :: ps => groupTotal (before + 1 + p.program.groups) ps

theorem le_groupTotal (before : Nat) (ps : List Pattern) : before ≤ groupTotal before ps := by
  induction ps generalizing before with
  | nil => exact Nat.le_refl _
  | cons p ps ih =>
    have := ih (before + 1 + p.program.groups)
    rw [groupTotal]
    omega

theorem groupTotal_append (before : Nat) (ps ps' : List Pattern) :
    groupTotal before (ps ++ ps') = groupTotal (groupTotal before ps) ps' := by
  induction ps generalizing before with
  | nil => rfl
  | cons p ps ih => exact ih _

/-- The terminators try the patterns in order, each in its group. -/
structure Terminators.Joins (t : Terminators) (members : List (Rule × Pattern)) : Prop where
  pattern : ∃ p, t.pattern = some p ∧
    p.program.root = Regex.ofBranches (wrapped 0 (members.map (·.2))) ∧
    p.program.groups = groupTotal 0 (members.map (·.2))
  rules : t.rules = (groupNumbers 0 (members.map (·.2))).zip (members.map (·.1))

/-- The pattern has the groups that its expression names, and neither calls nor
keeps. -/
def Pattern.Tame (p : Pattern) : Prop := p.program.root.Tame 0 p.program.groups

/-! ## One place -/

/-- The final place of a match as the group `g`. -/
def inGroup (g : Nat) (q : Place) : Place :=
  { q with marks := .closed g q.start q.pos ::
      (q.marks.map (Mark.shift g) ++ [.opened g q.start]) }

/-- The first of the patterns that matches at a place. -/
def firstMatch (s : Subject) (pos : Nat) : Nat → List Pattern → Option Place
  | _, [] => none
  | before, p :: ps =>
    match p.matchFrom s pos with
    | some q => some (inGroup (before + 1) q)
    | none => firstMatch s pos (before + 1 + p.program.groups) ps

theorem firstMatch_eq_none {s : Subject} {pos before : Nat} {ps : List Pattern} :
    firstMatch s pos before ps = none ↔ ∀ p ∈ ps, p.matchFrom s pos = none := by
  induction ps generalizing before with
  | nil => simp [firstMatch]
  | cons p ps ih =>
    rw [firstMatch]
    rcases hp : p.matchFrom s pos with _ | q
    · simp [hp, ih]
    · simp [hp]

theorem firstMatch_eq_some {s : Subject} {pos before : Nat} {ps : List Pattern} {x : Place}
    (h : firstMatch s pos before ps = some x) :
    ∃ earlier p later q, ps = earlier ++ p :: later ∧
      (∀ p' ∈ earlier, p'.matchFrom s pos = none) ∧ p.matchFrom s pos = some q ∧
      x = inGroup (groupTotal before earlier + 1) q := by
  induction ps generalizing before with
  | nil => cases h
  | cons p ps ih =>
    rw [firstMatch] at h
    rcases hp : p.matchFrom s pos with _ | q
    · rw [hp] at h
      obtain ⟨earlier, p', later, q, rfl, hearlier, hq, hx⟩ := ih h
      refine ⟨p :: earlier, p', later, q, rfl, ?_, hq, hx⟩
      intro p₁ hp₁
      rcases List.mem_cons.mp hp₁ with rfl | hp₁
      · exact hp
      · exact hearlier p₁ hp₁
    · rw [hp] at h
      cases h
      exact ⟨[], p, ps, q, rfl, (by simp), hp, rfl⟩

/-- One pattern in its group matches where it does alone. -/
theorem matcher_wrapped (s : Subject) (call : Regex.GroupRef → Regex.Matcher) (g pos : Nat)
    (p : Pattern) (hp : p.Tame) (hpos : pos ≤ s.text.size) :
    Regex.matcher s call (.group g (p.program.root.shift g)) ⟨pos, pos, []⟩ some =
      (p.matchFrom s pos).map (inGroup g) := by
  have hbase : ∀ m ∈ [Mark.opened g pos], m.group ≤ g := by
    intro m hm
    rw [List.mem_singleton.mp hm]
    exact Nat.le_refl _
  have halike := Regex.movesAlike_matcher hbase s
    (Pattern.called s p.program ((s.text.size + 1) * (p.program.groups + 1) + 1)) call
    p.program.root hp.movable ⟨pos, pos, []⟩ some
    (fun q => some { q with marks := .closed g pos q.pos :: q.marks })
    (fun q => { q with
      marks := .closed g pos q.pos :: (q.marks.map (Mark.shift g) ++ [.opened g pos]) })
    fun q => rfl
  rw [Regex.matcher]
  refine halike.trans ?_
  -- What the group records is where the match starts.
  have hsame : ∀ q, p.matchFrom s pos = some q → q.start = pos := fun q hq =>
    (p.matchFrom_bounds hp.keeps s pos q hpos hq).1
  unfold Pattern.matchFrom at hsame ⊢
  rcases hq : Regex.matcher s
      (Pattern.called s p.program ((s.text.size + 1) * (p.program.groups + 1) + 1))
      p.program.root ⟨pos, pos, []⟩ some with _ | q
  · rfl
  · simp only [Option.map_some, inGroup, hsame q hq]

theorem matcher_ofBranches (s : Subject) (call : Regex.GroupRef → Regex.Matcher) (pos : Nat)
    (hpos : pos ≤ s.text.size) (before : Nat) {ps : List Pattern} (hne : ps ≠ [])
    (hps : ∀ p ∈ ps, p.Tame) :
    Regex.matcher s call (.ofBranches (wrapped before ps)) ⟨pos, pos, []⟩ some =
      firstMatch s pos before ps := by
  induction ps generalizing before with
  | nil => exact absurd rfl hne
  | cons p ps ih =>
    have hfirst := matcher_wrapped s call (before + 1) pos p (hps p List.mem_cons_self) hpos
    rcases ps with _ | ⟨p', ps⟩
    · rw [wrapped, wrapped, Regex.ofBranches, hfirst, firstMatch]
      rcases p.matchFrom s pos with _ | q
      · rfl
      · rfl
    · have hrest := ih (before + 1 + p.program.groups) (List.cons_ne_nil _ _)
        fun p₁ hp₁ => hps p₁ (List.mem_cons_of_mem _ hp₁)
      rw [wrapped, firstMatch, ← hrest, wrapped, Regex.ofBranches, Regex.matcher, hfirst]
      · rcases p.matchFrom s pos with _ | q
        · rfl
        · rfl
      · simp

theorem matchFrom_joined {joined : Pattern} {ps : List Pattern}
    (hroot : joined.program.root = .ofBranches (wrapped 0 ps)) (hne : ps ≠ [])
    (hps : ∀ p ∈ ps, p.Tame) (s : Subject) {pos : Nat} (hpos : pos ≤ s.text.size) :
    joined.matchFrom s pos = firstMatch s pos 0 ps := by
  unfold Pattern.matchFrom
  rw [hroot]
  exact matcher_ofBranches s _ pos hpos 0 hne hps

/-! ## One place after another -/

namespace Pattern

theorem scan_eq_none (p : Pattern) (s : Subject) (n pos : Nat) :
    p.scan s n pos = none ↔ ∀ i, pos ≤ i → i < pos + n → p.matchFrom s i = none := by
  constructor
  · intro h
    induction n generalizing pos with
    | zero =>
      intro i h1 h2
      omega
    | succ n ih =>
      intro i h1 h2
      rw [scan] at h
      rcases hp : p.matchFrom s pos with _ | q
      · rw [hp] at h
        by_cases hi : i = pos
        · rw [hi, hp]
        · exact ih (pos + 1) h i (by omega) (by omega)
      · rw [hp] at h
        cases h
  · intro h
    rcases hp : p.scan s n pos with _ | q
    · rfl
    · obtain ⟨i, h1, h2, hq, _⟩ := p.scan_some s n pos q hp
      rw [h i h1 h2] at hq
      cases hq

theorem scan_eq_some (p : Pattern) (s : Subject) {n pos i : Nat} {q : Place} (h1 : pos ≤ i)
    (h2 : i < pos + n) (hq : p.matchFrom s i = some q)
    (hbefore : ∀ j, pos ≤ j → j < i → p.matchFrom s j = none) : p.scan s n pos = some q := by
  rcases hp : p.scan s n pos with _ | q'
  · rw [(p.scan_eq_none s n pos).mp hp i h1 h2] at hq
    cases hq
  · obtain ⟨j, hj1, hj2, hq', hfirst⟩ := p.scan_some s n pos q' hp
    -- Each of the two places is the first one.
    rcases Nat.lt_trichotomy i j with hij | rfl | hij
    · rw [hfirst i h1 hij] at hq
      cases hq
    · rw [← hq', hq]
    · rw [hbefore j hj1 hij] at hq'
      cases hq'

end Pattern

/-- A search with the joined expression stops at the first place where one of the
patterns matches, with the first of them that does. -/
theorem scan_joined {joined : Pattern} {ps : List Pattern}
    (hroot : joined.program.root = .ofBranches (wrapped 0 ps)) (hne : ps ≠ [])
    (hps : ∀ p ∈ ps, p.Tame) (s : Subject) (n pos : Nat) (hn : pos + n ≤ s.text.size + 1)
    {x : Place} (h : joined.scan s n pos = some x) :
    ∃ earlier p later q, ps = earlier ++ p :: later ∧ p.scan s n pos = some q ∧
      x = inGroup (groupTotal 0 earlier + 1) q ∧
      (∀ p' ∈ earlier, ∀ q', p'.scan s n pos = some q' → q.start < q'.start) ∧
      (∀ p' ∈ later, ∀ q', p'.scan s n pos = some q' → q.start ≤ q'.start) := by
  obtain ⟨i, h1, h2, hx, hbefore⟩ := joined.scan_some s n pos x h
  rw [matchFrom_joined hroot hne hps s (by omega)] at hx
  obtain ⟨earlier, p, later, q, rfl, hearlier, hq, rfl⟩ := firstMatch_eq_some hx
  have hnone : ∀ p' ∈ earlier ++ p :: later, ∀ j, pos ≤ j → j < i → p'.matchFrom s j = none := by
    intro p' hp' j hj hji
    have hj' := hbefore j hj hji
    rw [matchFrom_joined hroot hne hps s (by omega)] at hj'
    exact firstMatch_eq_none.mp hj' p' hp'
  have hstart : ∀ p' ∈ earlier ++ p :: later, ∀ j q', j < pos + n → p'.matchFrom s j = some q' →
      q'.start = j := fun p' hp' j q' hj hq' =>
    (p'.matchFrom_bounds (hps p' hp').keeps s j q' (by omega) hq').1
  have hp : p ∈ earlier ++ p :: later := by simp
  -- What another pattern finds is not before the place.
  have hlater : ∀ p' ∈ earlier ++ p :: later, ∀ q', p'.scan s n pos = some q' →
      i ≤ q'.start ∧ p'.matchFrom s q'.start = some q' := by
    intro p' hp' q' hq'
    obtain ⟨j, hj1, hj2, hj, _⟩ := p'.scan_some s n pos q' hq'
    rw [hstart p' hp' j q' hj2 hj]
    refine ⟨Nat.le_of_not_lt fun hlt => ?_, hj⟩
    rw [hnone p' hp' j hj1 hlt] at hj
    cases hj
  refine ⟨earlier, p, later, q, rfl, p.scan_eq_some s h1 h2 hq (hnone p hp), rfl, ?_, ?_⟩
  · intro p' hp' q' hq'
    obtain ⟨hle, hmatch⟩ := hlater p' (List.mem_append_left _ hp') q' hq'
    rw [hstart p hp i q h2 hq]
    refine Nat.lt_of_le_of_ne hle ?_
    intro he
    rw [← he, hearlier p' hp'] at hmatch
    cases hmatch
  · intro p' hp' q' hq'
    rw [hstart p hp i q h2 hq]
    exact (hlater p' (List.mem_append_right _ (List.mem_cons_of_mem _ hp')) q' hq').1

/-! ## The groups of the joined expression -/

theorem tame_ofBranches_wrapped (before : Nat) {ps : List Pattern} (hps : ∀ p ∈ ps, p.Tame) :
    (Regex.ofBranches (wrapped before ps)).Tame before (groupTotal before ps) := by
  induction ps generalizing before with
  | nil => trivial
  | cons p ps ih =>
    have hrest := ih (before + 1 + p.program.groups) fun p' hp' => hps p' (List.mem_cons_of_mem _ hp')
    have hle := le_groupTotal (before + 1 + p.program.groups) ps
    have hfirst : (Regex.group (before + 1) (p.program.root.shift (before + 1))).Tame before
        (groupTotal before (p :: ps)) := by
      rw [groupTotal]
      refine ⟨⟨by omega, by omega⟩, ?_⟩
      exact ((hps p List.mem_cons_self).shift (before + 1)).mono (by omega) (by omega)
    rcases ps with _ | ⟨p', ps⟩
    · exact hfirst
    · exact ⟨hfirst, hrest.mono (by omega) (Nat.le_refl _)⟩

/-- The groups of `p` are groups of `joined`: the whole of `p` is the group `start`, and its
group `k` is the group `start + k`. -/
structure Pattern.HoldsAt (p joined : Pattern) (start : Nat) : Prop where
  whole : joined.program.root.groupBody? start = some (p.program.root.shift start)
  inside : ∀ k, 0 < k → k ≤ p.program.groups → joined.program.root.groupBody? (start + k) =
    (p.program.root.groupBody? k).map (Regex.shift start)

theorem ofBranches_wrapped_cons (before : Nat) (p : Pattern) {ps : List Pattern} (hne : ps ≠ []) :
    Regex.ofBranches (wrapped before (p :: ps)) =
      .alt (.group (before + 1) (p.program.root.shift (before + 1)))
        (.ofBranches (wrapped (before + 1 + p.program.groups) ps)) := by
  obtain ⟨p', ps, rfl⟩ := List.exists_cons_of_ne_nil hne
  rfl

/-- The first of the joined expressions has the groups up to the last one inside it. -/
theorem groupBody?_wrapped_cons (before : Nat) {p : Pattern} {ps : List Pattern}
    (hps : ∀ p' ∈ ps, p'.Tame) {k : Nat} (hk : k ≤ p.program.groups) :
    (Regex.ofBranches (wrapped before (p :: ps))).groupBody? (before + 1 + k) =
      (Regex.group (before + 1) (p.program.root.shift (before + 1))).groupBody? (before + 1 + k) := by
  by_cases hne : ps = []
  · subst hne
    rfl
  · have hrest := (tame_ofBranches_wrapped (before + 1 + p.program.groups) hps).groupBody?_eq_none
      (n := before + 1 + k) (.inl (by omega))
    rw [ofBranches_wrapped_cons before p hne]
    show (Regex.groupBody? _ (.group _ _) <|> _) = _
    rw [hrest, Option.orElse_eq_orElse, Option.orElse_eq_or, Option.or_none]

/-- The other expressions have no group in common with the first. -/
theorem groupBody?_wrapped_of_lt (before : Nat) {p : Pattern} {ps : List Pattern} (hp : p.Tame)
    (hne : ps ≠ []) {n : Nat} (hn : before + 1 + p.program.groups < n) :
    (Regex.ofBranches (wrapped before (p :: ps))).groupBody? n =
      (Regex.ofBranches (wrapped (before + 1 + p.program.groups) ps)).groupBody? n := by
  have hfirst := (hp.shift (before + 1)).groupBody?_eq_none (n := n) (.inr (by omega))
  rw [ofBranches_wrapped_cons before p hne, Regex.groupBody?, Regex.groupBody?, if_neg (by omega), hfirst]
  rfl

/-- Each of the joined expressions has the groups from its own number on. -/
theorem groupBody?_wrapped {before g : Nat} {earlier later : List Pattern} {p : Pattern}
    (hg : groupTotal before earlier + 1 = g) (htame : ∀ p' ∈ earlier ++ p :: later, p'.Tame)
    {k : Nat} (hk : k ≤ p.program.groups) :
    (Regex.ofBranches (wrapped before (earlier ++ p :: later))).groupBody? (g + k) =
      (Regex.group g (p.program.root.shift g)).groupBody? (g + k) := by
  induction earlier generalizing before with
  | nil =>
    subst hg
    exact groupBody?_wrapped_cons before (fun p' hp' => htame p' (List.mem_cons_of_mem _ hp')) hk
  | cons p' earlier ih =>
    rw [groupTotal] at hg
    have hle := le_groupTotal (before + 1 + p'.program.groups) earlier
    rw [List.cons_append, groupBody?_wrapped_of_lt before (htame p' List.mem_cons_self)
      (by simp) (by omega)]
    exact ih hg fun p'' hp'' => htame p'' (List.mem_cons_of_mem _ hp'')

/-- Each pattern keeps its groups where it is joined to others. -/
theorem holdsAt_of_joined {joined : Pattern} {earlier later : List Pattern} {p : Pattern} {g : Nat}
    (hroot : joined.program.root = .ofBranches (wrapped 0 (earlier ++ p :: later)))
    (htame : ∀ p' ∈ earlier ++ p :: later, p'.Tame) (hg : groupTotal 0 earlier + 1 = g) :
    p.HoldsAt joined g := by
  constructor
  · have hwhole := groupBody?_wrapped hg htame (Nat.zero_le p.program.groups)
    rw [Nat.add_zero, Regex.groupBody?, if_pos rfl] at hwhole
    rw [hroot]
    exact hwhole
  · intro k hk hle
    rw [hroot, groupBody?_wrapped hg htame hle, Regex.groupBody?, if_neg (by omega),
      Nat.add_comm g k, Regex.groupBody?_shift]

/-- A match is a match of one of the joined patterns. From the number `start` on, its groups
are the whole match and then the groups of that pattern alone. -/
structure Pattern.Found.Shows (found alone : Pattern.Found) (start : Nat) : Prop where
  begins : found.start = alone.start
  ends : found.stop = alone.stop
  groups : (found.groups.drop (start - 1)).take (alone.groups.length + 1) =
    some (alone.start, alone.stop) :: alone.groups

theorem span?_inGroup_add (g : Nat) {k : Nat} (hk : 0 < k) (q : Place) :
    Regex.span? (g + k) (inGroup g q).marks = Regex.span? k q.marks := by
  have hbase : ∀ m ∈ [Mark.opened g q.start], m.group ≤ g := by
    intro m hm
    rw [List.mem_singleton.mp hm]
    exact Nat.le_refl _
  show Regex.span? (g + k) (.closed g q.start q.pos :: _) = _
  rw [Regex.span?, if_neg (by omega), Nat.add_comm, Regex.span?_lift hbase hk]

theorem shows_inGroup {joined p : Pattern} {before : Nat} (q : Place)
    (hgroups : before + 1 + p.program.groups ≤ joined.program.groups) :
    (joined.found (inGroup (before + 1) q)).Shows (p.found q) (before + 1) := by
  refine ⟨rfl, rfl, ?_⟩
  apply List.ext_getElem?
  intro j
  simp only [Pattern.found, List.length_map, List.length_range, Nat.add_sub_cancel]
  by_cases hj : j < p.program.groups + 1
  · rw [List.getElem?_take_of_lt hj, List.getElem?_drop, List.getElem?_map,
      List.getElem?_range (by omega), Option.map_some]
    rcases j with _ | j
    · rw [Nat.add_zero, List.getElem?_cons_zero]
      exact congrArg some (if_pos rfl)
    · rw [List.getElem?_cons_succ, List.getElem?_map, List.getElem?_range (by omega), Option.map_some,
        Nat.add_right_comm before (j + 1) 1, span?_inGroup_add _ (by omega)]
  · rw [List.getElem?_take, if_neg hj, List.getElem?_eq_none]
    simp only [List.length_cons, List.length_map, List.length_range]
    omega

/-- Whatever a joined pattern finds is what one of the patterns finds alone. -/
theorem search_joined {joined : Pattern} {ps : List Pattern}
    (hroot : joined.program.root = .ofBranches (wrapped 0 ps))
    (hgroups : joined.program.groups = groupTotal 0 ps) (hne : ps ≠ []) (hps : ∀ p ∈ ps, p.Tame)
    {text : Array Char} {start : Nat} {found : Pattern.Found}
    (h : joined.search text start = some found) :
    ∃ earlier p later alone, ps = earlier ++ p :: later ∧ p.search text start = some alone ∧
      found.Shows alone (groupTotal 0 earlier + 1) := by
  unfold Pattern.search at h
  split at h
  · cases h
  · rename_i hstart
    obtain ⟨x, hscan, rfl⟩ := Option.map_eq_some_iff.mp h
    obtain ⟨earlier, p, later, q, rfl, hq, rfl, -, -⟩ :=
      scan_joined hroot hne hps ⟨text, start⟩ _ start (by simp only; omega) hscan
    refine ⟨earlier, p, later, p.found q, rfl, ?_, shows_inGroup q ?_⟩
    · rw [Pattern.search, if_neg hstart, hq]
      rfl
    · have hle := le_groupTotal (groupTotal 0 earlier + 1 + p.program.groups) later
      rw [hgroups, groupTotal_append]
      exact hle

/-! ## The rule that is met -/

theorem groupNumbers_append (before : Nat) (ps ps' : List Pattern) :
    groupNumbers before (ps ++ ps') =
      groupNumbers before ps ++ groupNumbers (groupTotal before ps) ps' := by
  induction ps generalizing before with
  | nil => rfl
  | cons p ps ih => simp only [List.cons_append, groupNumbers, groupTotal, ih]

theorem length_groupNumbers (before : Nat) (ps : List Pattern) :
    (groupNumbers before ps).length = ps.length := by
  induction ps generalizing before with
  | nil => rfl
  | cons p ps ih => simp only [groupNumbers, List.length_cons, ih]

theorem groupNumbers_bounds {before g : Nat} {ps : List Pattern} (h : g ∈ groupNumbers before ps) :
    0 < g ∧ g ≤ groupTotal before ps := by
  induction ps generalizing before with
  | nil => cases h
  | cons p ps ih =>
    rw [groupNumbers] at h
    rcases List.mem_cons.mp h with rfl | h
    · have := le_groupTotal (before + 1 + p.program.groups) ps
      rw [groupTotal]
      omega
    · exact ih h

/-- Of the groups up to its own, a match takes part in its own only. -/
theorem span?_inGroup {g g' : Nat} (q : Place) (h : g' ≤ g) :
    (Regex.span? g' (inGroup g q).marks).isSome ↔ g' = g := by
  by_cases he : g' = g
  · subst he
    simp [inGroup, Regex.span?]
  · have hnone : Regex.span? g' (inGroup g q).marks = none := by
      refine Regex.span?_of_groups fun m hm => ?_
      rcases List.mem_cons.mp hm with rfl | hm
      · exact fun hg => he hg.symm
      · rcases List.mem_append.mp hm with hm | hm
        · obtain ⟨m', _, rfl⟩ := List.mem_map.mp hm
          cases m' <;> simp only [Mark.shift, Mark.group] <;> omega
        · rw [List.mem_singleton.mp hm]
          exact fun hg => he hg.symm
    simp [hnone, he]

theorem find?_inGroup (earlier later : List (Rule × Pattern)) (m : Rule × Pattern) (q : Place)
    (total : Nat) (htotal : groupTotal 0 (earlier.map (·.2)) < total) :
    (((groupNumbers 0 ((earlier ++ m :: later).map (·.2))).zip
        ((earlier ++ m :: later).map (·.1))).find? fun (group, _) =>
          ((((List.range total).map fun i => Regex.span? (i + 1)
            (inGroup (groupTotal 0 (earlier.map (·.2)) + 1) q).marks)[group - 1]?).join).isSome) =
      some (groupTotal 0 (earlier.map (·.2)) + 1, m.1) := by
  have hlength : (groupNumbers 0 (earlier.map (·.2))).length = (earlier.map (·.1)).length := by
    rw [length_groupNumbers, List.length_map, List.length_map]
  rw [List.map_append, List.map_append, groupNumbers_append, List.zip_append hlength,
    List.find?_append]
  rw [List.find?_eq_none.mpr]
  · simp only [List.map_cons, groupNumbers, List.zip_cons_cons, Option.none_or]
    rw [List.find?_cons_of_pos]
    simp only [List.getElem?_map, Nat.add_sub_cancel, List.getElem?_range htotal, Option.map_some,
      Option.join_some]
    exact (span?_inGroup q (Nat.le_refl _)).mpr rfl
  · intro ⟨g, rule⟩ hmem
    obtain ⟨hpos, hle⟩ := groupNumbers_bounds (List.of_mem_zip hmem).1
    simp only [List.getElem?_map, List.getElem?_range (show g - 1 < total by omega),
      Option.map_some, Option.join_some, Nat.sub_add_cancel (show 1 ≤ g by omega)]
    rw [span?_inGroup q (by omega)]
    omega

/-! ## What the terminators find -/

/-- The terminator is what the first of the members finds that match leftmost,
and there is none only if no member finds anything. -/
def FirstToMatch (members : List (Rule × Pattern)) (text : Array Char) (start : Nat) :
    Option Terminator → Prop
  | none => ∀ m ∈ members, m.2.search text start = none
  | some t => ∃ earlier m later found, members = earlier ++ m :: later ∧
      m.2.search text start = some found ∧ t = ⟨found.start, found.stop, m.1⟩ ∧
      (∀ m' ∈ earlier, ∀ found', m'.2.search text start = some found' → t.start < found'.start) ∧
      (∀ m' ∈ later, ∀ found', m'.2.search text start = some found' → t.start ≤ found'.start)

/-- Joined terminators find what the first rule to match would find alone. -/
theorem Terminators.find_of_joins {t : Terminators} {members : List (Rule × Pattern)}
    (h : t.Joins members) (hne : members ≠ []) (htame : ∀ m ∈ members, m.2.Tame)
    (text : Array Char) (start : Nat) : FirstToMatch members text start (t.find text start) := by
  obtain ⟨joined, hpattern, hroot, hgroups⟩ := h.pattern
  have hps : ∀ p ∈ members.map (·.2), p.Tame := by
    intro p hp
    obtain ⟨m, hm, rfl⟩ := List.mem_map.mp hp
    exact htame m hm
  have hne' : members.map (·.2) ≠ [] := by simpa using hne
  by_cases hstart : text.size < start
  · simp [Terminators.find, hpattern, Pattern.search, hstart, FirstToMatch]
  simp only [Terminators.find, hpattern, Pattern.search, hstart, if_false, Option.bind_eq_bind,
    Option.bind_some]
  rcases hscan : joined.scan ⟨text, start⟩ (text.size + 1 - start) start with _ | x
  · intro m hm
    rw [Pattern.scan_eq_none] at hscan
    simp only [Pattern.search, hstart, if_false, Option.map_eq_none_iff, Pattern.scan_eq_none]
    intro i h1 h2
    have hi := hscan i h1 h2
    rw [matchFrom_joined hroot hne' hps _ (by simp only; omega)] at hi
    exact firstMatch_eq_none.mp hi m.2 (List.mem_map_of_mem hm)
  · obtain ⟨earlier, p, later, q, hsplit, hq, rfl, hbefore, hafter⟩ :=
      scan_joined hroot hne' hps ⟨text, start⟩ _ start (by simp only; omega) hscan
    obtain ⟨earlier', rest, rfl, rfl, hrest⟩ := List.map_eq_append_iff.mp hsplit
    obtain ⟨m, later', rfl, rfl, rfl⟩ := List.map_eq_cons_iff.mp hrest
    have htotal : groupTotal 0 (earlier'.map (·.2)) < joined.program.groups := by
      rw [hgroups, List.map_append, groupTotal_append]
      have := le_groupTotal (groupTotal 0 (earlier'.map (·.2)) + 1 + m.2.program.groups)
        (later'.map (·.2))
      simp only [List.map_cons, groupTotal]
      omega
    have hrule := find?_inGroup earlier' later' m q _ htotal
    simp only [h.rules, Option.map_some, Option.bind_some, Pattern.found, hrule]
    refine ⟨earlier', m, later', m.2.found q, rfl, ?_, rfl, ?_, ?_⟩
    · simp only [Pattern.search, hstart, if_false, hq, Option.map_some]
    · intro m' hm' found' hfound'
      simp only [Pattern.search, hstart, if_false] at hfound'
      obtain ⟨q', hq', rfl⟩ := Option.map_eq_some_iff.mp hfound'
      exact hbefore m'.2 (List.mem_map_of_mem hm') q' hq'
    · intro m' hm' found' hfound'
      simp only [Pattern.search, hstart, if_false] at hfound'
      obtain ⟨q', hq', rfl⟩ := Option.map_eq_some_iff.mp hfound'
      exact hafter m'.2 (List.mem_map_of_mem hm') q' hq'

end Highlighting
