-- Moving the numbers of groups. An expression whose groups are all numbered
-- higher by the same amount, and whose references follow them, matches as
-- before: only the numbers in its marks differ, and marks that were made
-- outside of it do not disturb it.
import Highlighting.Proofs.MatchBounds

namespace Highlighting.Regex

/-! ## Moved expressions -/

/-- The expression with all group numbers higher by `off`. -/
def shift (off : Nat) : Regex → Regex
  | group n a => group (n + off) (a.shift off)
  | backref ns anyCase => backref (ns.map (· + off)) anyCase
  | matched ns => matched (ns.map (· + off))
  | seq a b => seq (a.shift off) (b.shift off)
  | alt a b => alt (a.shift off) (b.shift off)
  | loop a min max greedy => loop (a.shift off) min max greedy
  | atomic a => atomic (a.shift off)
  | ahead negated a => ahead negated (a.shift off)
  | behind negated width a => behind negated width (a.shift off)
  | ifElse a b c => ifElse (a.shift off) (b.shift off) (c.shift off)
  | absent a => absent (a.shift off)
  | empty => empty
  | fail => fail
  | set s => set s
  | folded cs => folded cs
  | anchor a => anchor a
  | call t => call t
  | keep => keep

/-- The groups of the expression are numbered above `lo` and up to `hi`, its
references name groups by number, and it neither calls groups nor moves the start
of its match. -/
def Tame (lo hi : Nat) : Regex → Prop
  | group n a => (lo < n ∧ n ≤ hi) ∧ a.Tame lo hi
  | backref ns _ | matched ns => ∀ n ∈ ns, 0 < n
  | seq a b | alt a b => a.Tame lo hi ∧ b.Tame lo hi
  | loop a .. | atomic a | ahead _ a | behind _ _ a | absent a => a.Tame lo hi
  | ifElse a b c => a.Tame lo hi ∧ b.Tame lo hi ∧ c.Tame lo hi
  | call _ | keep => False
  | empty | fail | set _ | folded _ | anchor _ => True

theorem Tame.mono {lo hi lo' hi' : Nat} (hlo : lo' ≤ lo) (hhi : hi ≤ hi') {r : Regex}
    (h : r.Tame lo hi) : r.Tame lo' hi' := by
  induction r with
  | group n a ih =>
    obtain ⟨⟨h1, h2⟩, ha⟩ := h
    exact ⟨⟨by omega, by omega⟩, ih ha⟩
  | seq a b iha ihb | alt a b iha ihb => exact ⟨iha h.1, ihb h.2⟩
  | ifElse a b c iha ihb ihc => exact ⟨iha h.1, ihb h.2.1, ihc h.2.2⟩
  | loop a _ _ _ ih | atomic a ih | ahead _ a ih | behind _ _ a ih | absent a ih => exact ih h
  | backref ns _ | matched ns => exact h
  | call _ | keep => exact h
  | empty | fail | set _ | folded _ | anchor _ => trivial

theorem Tame.keeps {lo hi : Nat} {r : Regex} (h : r.Tame lo hi) : r.keeps = false := by
  induction r with
  | group n a ih => exact ih h.2
  | seq a b iha ihb | alt a b iha ihb => simp [Regex.keeps, iha h.1, ihb h.2]
  | ifElse a b c iha ihb ihc => simp [Regex.keeps, iha h.1, ihb h.2.1, ihc h.2.2]
  | loop a _ _ _ ih | atomic a ih | ahead _ a ih | behind _ _ a ih | absent a ih => exact ih h
  | keep => exact absurd h id
  | _ => rfl

theorem Tame.calls {lo hi : Nat} {r : Regex} (h : r.Tame lo hi) : r.calls = [] := by
  induction r with
  | group n a ih => exact ih h.2
  | seq a b iha ihb | alt a b iha ihb => simp [Regex.calls, iha h.1, ihb h.2]
  | ifElse a b c iha ihb ihc => simp [Regex.calls, iha h.1, ihb h.2.1, ihc h.2.2]
  | loop a _ _ _ ih | atomic a ih | ahead _ a ih | behind _ _ a ih | absent a ih => exact ih h
  | call _ => exact absurd h id
  | _ => rfl

/-- The references of the expression name groups by number, and it calls no group. -/
def Movable : Regex → Prop
  | backref ns _ | matched ns => ∀ n ∈ ns, 0 < n
  | seq a b | alt a b => a.Movable ∧ b.Movable
  | group _ a | loop a .. | atomic a | ahead _ a | behind _ _ a | absent a => a.Movable
  | ifElse a b c => a.Movable ∧ b.Movable ∧ c.Movable
  | call _ => False
  | empty | fail | set _ | folded _ | anchor _ | keep => True

theorem Tame.movable {lo hi : Nat} {r : Regex} (h : r.Tame lo hi) : r.Movable := by
  induction r with
  | group n a ih => exact ih h.2
  | seq a b iha ihb | alt a b iha ihb => exact ⟨iha h.1, ihb h.2⟩
  | ifElse a b c iha ihb ihc => exact ⟨iha h.1, ihb h.2.1, ihc h.2.2⟩
  | loop a _ _ _ ih | atomic a ih | ahead _ a ih | behind _ _ a ih | absent a ih => exact ih h
  | backref ns _ | matched ns => exact h
  | call _ | keep => exact absurd h id
  | empty | fail | set _ | folded _ | anchor _ => trivial

theorem Tame.shift {lo hi : Nat} (off : Nat) {r : Regex} (h : r.Tame lo hi) :
    (r.shift off).Tame (lo + off) (hi + off) := by
  induction r with
  | group n a ih =>
    obtain ⟨⟨h1, h2⟩, ha⟩ := h
    exact ⟨⟨by omega, by omega⟩, ih ha⟩
  | seq a b iha ihb | alt a b iha ihb => exact ⟨iha h.1, ihb h.2⟩
  | ifElse a b c iha ihb ihc => exact ⟨iha h.1, ihb h.2.1, ihc h.2.2⟩
  | loop a _ _ _ ih | atomic a ih | ahead _ a ih | behind _ _ a ih | absent a ih => exact ih h
  | backref ns _ | matched ns =>
    intro n hn
    obtain ⟨m, hm, rfl⟩ := List.mem_map.mp hn
    exact Nat.add_pos_left (h m hm) off
  | call _ | keep => exact absurd h id
  | empty | fail | set _ | folded _ | anchor _ => trivial

/-! ## The groups of an expression -/

/-- No group has a number outside of the bounds. -/
theorem Tame.groupBody?_eq_none {lo hi n : Nat} {r : Regex} (h : r.Tame lo hi)
    (hn : n ≤ lo ∨ hi < n) : r.groupBody? n = none := by
  induction r with
  | group m a ih =>
    obtain ⟨⟨h1, h2⟩, ha⟩ := h
    rw [groupBody?, if_neg (by omega), ih ha]
  | seq a b iha ihb | alt a b iha ihb => simp [groupBody?, iha h.1, ihb h.2]
  | ifElse a b c iha ihb ihc => simp [groupBody?, iha h.1, ihb h.2.1, ihc h.2.2]
  | loop a _ _ _ ih | atomic a ih | ahead _ a ih | behind _ _ a ih | absent a ih => exact ih h
  | _ => rfl

/-- The groups of a moved expression are its groups, moved. -/
theorem groupBody?_shift (off n : Nat) (r : Regex) :
    (r.shift off).groupBody? (n + off) = (r.groupBody? n).map (shift off) := by
  induction r with
  | group m a ih =>
    rw [shift, groupBody?, groupBody?, ih]
    by_cases h : m = n
    · rw [if_pos h, if_pos (by omega)]
      rfl
    · rw [if_neg h, if_neg (by omega)]
  | seq a b iha ihb | alt a b iha ihb => simp [shift, groupBody?, iha, ihb, Option.map_or]
  | ifElse a b c iha ihb ihc => simp [shift, groupBody?, iha, ihb, ihc, Option.map_or]
  | loop a _ _ _ ih | atomic a ih | ahead _ a ih | behind _ _ a ih | absent a ih => exact ih
  | _ => rfl

/-! ## Moved marks -/

/-- The group of a mark. -/
def Mark.group : Mark → Nat
  | opened n _ => n
  | closed n _ _ => n

/-- The mark with its group number higher by `off`. -/
def Mark.shift (off : Nat) : Mark → Mark
  | opened n pos => opened (n + off) pos
  | closed n start stop => closed (n + off) start stop

/-- The same place in an expression that is moved by `off`, after the marks
`base` were made. -/
def Place.lift (off : Nat) (base : List Mark) (p : Place) : Place :=
  { p with marks := p.marks.map (Mark.shift off) ++ base }

theorem span?_of_groups {n : Nat} {marks : List Mark} (h : ∀ m ∈ marks, m.group ≠ n) :
    span? n marks = none := by
  induction marks with
  | nil => rfl
  | cons m marks ih =>
    have hm := h m List.mem_cons_self
    have hms := ih fun m' hm' => h m' (List.mem_cons_of_mem _ hm')
    cases m with
    | opened g pos => exact hms
    | closed g start stop => rw [span?, if_neg (show g ≠ n from hm), hms]

theorem lastStart?_of_groups {n : Nat} {marks : List Mark} (h : ∀ m ∈ marks, m.group ≠ n) :
    lastStart? n marks = none := by
  induction marks with
  | nil => rfl
  | cons m marks ih =>
    have hm := h m List.mem_cons_self
    have hms := ih fun m' hm' => h m' (List.mem_cons_of_mem _ hm')
    cases m with
    | opened g pos => rw [lastStart?, if_neg (show g ≠ n from hm), hms]
    | closed g start stop => rw [lastStart?, if_neg (show g ≠ n from hm), hms]

section

variable {off : Nat} {base : List Mark} (hbase : ∀ m ∈ base, m.group ≤ off)

include hbase

theorem span?_lift {n : Nat} (hn : 0 < n) (marks : List Mark) :
    span? (n + off) (marks.map (Mark.shift off) ++ base) = span? n marks := by
  induction marks with
  | nil =>
    refine span?_of_groups fun m hm => ?_
    have := hbase m hm
    omega
  | cons m marks ih =>
    cases m with
    | opened g pos => exact ih
    | closed g start stop =>
      simp only [List.map_cons, Mark.shift, List.cons_append, span?, ih, Nat.add_right_cancel_iff]

theorem lastStart?_lift {n : Nat} (hn : 0 < n) (marks : List Mark) :
    lastStart? (n + off) (marks.map (Mark.shift off) ++ base) = lastStart? n marks := by
  induction marks with
  | nil =>
    refine lastStart?_of_groups fun m hm => ?_
    have := hbase m hm
    omega
  | cons m marks ih =>
    cases m <;>
      simp only [List.map_cons, Mark.shift, List.cons_append, lastStart?, ih,
        Nat.add_right_cancel_iff]

theorem repeatEnd?_lift (s : Subject) (p : Place) (anyCase : Bool) {n : Nat} (hn : 0 < n) :
    repeatEnd? s (p.lift off base) anyCase (n + off) = repeatEnd? s p anyCase n := by
  unfold repeatEnd? reference? Place.lift
  simp only [span?_lift hbase hn, lastStart?_lift hbase hn]

/-- The first group that can be repeated is the same one. -/
theorem findSome?_repeatEnd?_lift (s : Subject) (p : Place) (anyCase : Bool) {ns : List Nat}
    (hns : ∀ n ∈ ns, 0 < n) :
    (ns.map (· + off)).findSome? (repeatEnd? s (p.lift off base) anyCase) =
      ns.findSome? (repeatEnd? s p anyCase) := by
  induction ns with
  | nil => rfl
  | cons n ns ih =>
    rw [List.map_cons, List.findSome?_cons, List.findSome?_cons,
      repeatEnd?_lift hbase s p anyCase (hns n List.mem_cons_self),
      ih fun m hm => hns m (List.mem_cons_of_mem _ hm)]

/-- Whether one of some groups took part is the same. -/
theorem any_span?_lift (p : Place) {ns : List Nat} (hns : ∀ n ∈ ns, 0 < n) :
    ((ns.map (· + off)).any fun n => (span? n (p.lift off base).marks).isSome) =
      ns.any fun n => (span? n p.marks).isSome := by
  rw [List.any_map, Bool.eq_iff_iff, List.any_eq_true, List.any_eq_true]
  refine exists_congr fun n => and_congr_right fun hn => ?_
  simp only [Function.comp, Place.lift, span?_lift hbase (hns n hn)]

end

/-! ## Matching alike -/

/-- The second way to match does at a lifted place what the first does at the
place itself. `h` is what the rest of the match makes of the difference. -/
def MovesAlike (off : Nat) (base : List Mark) (m m' : Matcher) : Prop :=
  ∀ (p : Place) (k k' : Rest) (h : Place → Place),
    (∀ q, k' (q.lift off base) = (k q).map h) → m' (p.lift off base) k' = (m p k).map h

section

variable {off : Nat} {base : List Mark}

theorem first_map {x y : Option Place} {h : Place → Place} :
    (match x.map h with
      | some r => some r
      | none => y.map h) =
      (match x with
        | some r => some r
        | none => y).map h := by
  cases x <;> rfl

theorem movesAlike_times {m m' : Matcher} (hm : MovesAlike off base m m') (n : Nat) :
    MovesAlike off base (times m n) (times m' n) := by
  induction n with
  | zero =>
    intro p k k' h hk
    exact hk p
  | succ n ih =>
    intro p k k' h hk
    exact hm p _ _ h fun q => ih q k k' h hk

theorem movesAlike_upTo {m m' : Matcher} (hm : MovesAlike off base m m') (greedy : Bool) (n : Nat) :
    MovesAlike off base (upTo m greedy n) (upTo m' greedy n) := by
  induction n with
  | zero =>
    intro p k k' h hk
    exact hk p
  | succ n ih =>
    intro p k k' h hk
    have hround : m' (p.lift off base) (fun q =>
          if q.pos ≤ (p.lift off base).pos then k' q else upTo m' greedy n q k') =
        (m p fun q => if q.pos ≤ p.pos then k q else upTo m greedy n q k).map h := by
      refine hm p _ _ h fun q => ?_
      by_cases hpos : q.pos ≤ p.pos
      · simp only [Place.lift, hpos, if_true]
        exact hk q
      · simp only [Place.lift, hpos, if_false]
        exact ih q k k' h hk
    simp only [upTo, hround, hk p]
    cases greedy
    · exact first_map
    · exact first_map

theorem movesAlike_fromFarthest (p : Place) (k k' : Rest) (h : Place → Place)
    (hk : ∀ q, k' (q.lift off base) = (k q).map h) (n : Nat) :
    fromFarthest (p.lift off base) k' n = (fromFarthest p k n).map h := by
  induction n with
  | zero => exact hk p
  | succ n ih =>
    have hfar := hk { p with pos := p.pos + (n + 1) }
    simp only [Place.lift] at hfar ih
    simp only [fromFarthest, Place.lift, hfar, ih]
    exact first_map

theorem movesAlike_fromNearest (p : Place) (k k' : Rest) (h : Place → Place)
    (hk : ∀ q, k' (q.lift off base) = (k q).map h) (n : Nat) :
    fromNearest (p.lift off base) k' n = (fromNearest p k n).map h := by
  induction n generalizing p with
  | zero => exact hk p
  | succ n ih =>
    have hnext := ih { p with pos := p.pos + 1 }
    have hnear := hk p
    simp only [Place.lift] at hnext hnear
    simp only [fromNearest, Place.lift, hnext, hnear]
    exact first_map

theorem movesAlike_runOf (s : Subject) (set : CharSet) (min limit : Nat) (greedy : Bool) :
    MovesAlike off base (runOf s set min limit greedy) (runOf s set min limit greedy) := by
  intro p k k' h hk
  have hfar := movesAlike_fromFarthest { p with pos := p.pos + min } k k' h hk
  have hnear := movesAlike_fromNearest { p with pos := p.pos + min } k k' h hk
  simp only [Place.lift] at hfar hnear
  simp only [runOf, Place.lift]
  by_cases hmin : runLength s.text set limit p.pos < min
  · simp only [hmin, if_true, Option.map_none]
  · cases greedy
    · simp only [hmin, if_false, Bool.false_eq_true]
      exact hnear _
    · simp only [hmin, if_false, if_true]
      exact hfar _

theorem matchesWithin_lift {m m' : Matcher} (hm : MovesAlike off base m m') (p : Place)
    (stop n pos : Nat) :
    matchesWithin m' (p.lift off base) stop n pos = matchesWithin m p stop n pos := by
  induction n generalizing pos with
  | zero => rfl
  | succ n ih =>
    have hround := hm { p with pos := pos } (fun q => if q.pos ≤ stop then some q else none)
      (fun q => if q.pos ≤ stop then some q else none) (Place.lift off base) (fun q => by
        by_cases hq : q.pos ≤ stop <;> simp [Place.lift, hq])
    simp only [Place.lift] at hround ih
    simp only [matchesWithin, Place.lift, hround, ih, Option.isSome_map]

theorem absentLength_lift {m m' : Matcher} (hm : MovesAlike off base m m') (p : Place) (n : Nat) :
    absentLength m' (p.lift off base) n = absentLength m p n := by
  induction n with
  | zero =>
    have hzero := matchesWithin_lift hm p p.pos 1 p.pos
    simp only [Place.lift] at hzero
    simp only [absentLength, Place.lift, hzero]
  | succ n ih =>
    have hmore := matchesWithin_lift hm p (p.pos + (n + 1)) (n + 2) p.pos
    simp only [Place.lift] at hmore ih
    simp only [absentLength, Place.lift, hmore, ih]

/-! ### One kind of expression each -/

variable {s : Subject} {call call' : GroupRef → Matcher}

theorem movesAlike_set (cs : CharSet) :
    MovesAlike off base (matcher s call (.set cs)) (matcher s call' (.set cs)) := by
  intro p k k' h hk
  have hnext := hk { p with pos := p.pos + 1 }
  simp only [Place.lift] at hnext
  simp only [matcher, Place.lift]
  rcases s.text[p.pos]? with _ | c
  · rfl
  · by_cases hc : cs.contains c
    · simp only [hc, if_true, hnext]
    · simp only [hc, if_false, Bool.false_eq_true, Option.map_none]

theorem shift_eq_set {a : Regex} {cs : CharSet} (h : a.shift off = .set cs) : a = .set cs := by
  cases a <;> simp only [shift, reduceCtorEq] at h
  exact h

theorem movesAlike_loop {a : Regex}
    (ha : MovesAlike off base (matcher s call a) (matcher s call' (a.shift off))) (min : Nat)
    (max : Option Nat) (greedy : Bool) :
    MovesAlike off base (matcher s call (.loop a min max greedy))
      (matcher s call' ((loop a min max greedy).shift off)) := by
  intro p k k' h hk
  by_cases hset : ∃ cs, a = .set cs
  · obtain ⟨cs, rfl⟩ := hset
    simp only [shift, matcher]
    exact movesAlike_runOf s cs min _ greedy p k k' h hk
  · rw [shift, matcher_loop s call a min max greedy p k fun cs he => hset ⟨cs, he⟩,
      matcher_loop s call' (a.shift off) min max greedy _ k' fun cs he => hset ⟨cs, shift_eq_set he⟩]
    refine movesAlike_times ha min p _ _ h fun q => ?_
    exact movesAlike_upTo ha greedy _ q k k' h hk

theorem movesAlike_ahead {a : Regex}
    (ha : MovesAlike off base (matcher s call a) (matcher s call' (a.shift off))) (negated : Bool) :
    MovesAlike off base (matcher s call (.ahead negated a))
      (matcher s call' ((ahead negated a).shift off)) := by
  intro p k k' h hk
  simp only [shift, matcher]
  rw [ha p some some (Place.lift off base) fun q => rfl]
  rcases matcher s call a p some with _ | q
  · cases negated
    · rfl
    · exact hk p
  · cases negated
    · exact hk { q with pos := p.pos }
    · rfl

theorem movesAlike_behind {a : Regex}
    (ha : MovesAlike off base (matcher s call a) (matcher s call' (a.shift off))) (negated : Bool)
    (width : Nat) :
    MovesAlike off base (matcher s call (.behind negated width a))
      (matcher s call' ((behind negated width a).shift off)) := by
  intro p k k' h hk
  have hfound := ha { p with pos := p.pos - width }
    (fun q => if q.pos = p.pos then some q else none)
    (fun q => if q.pos = p.pos then some q else none) (Place.lift off base) fun q => by
      by_cases hq : q.pos = p.pos <;> simp [Place.lift, hq]
  simp only [Place.lift] at hfound
  simp only [shift, matcher, Place.lift]
  by_cases hwidth : width ≤ p.pos
  · simp only [hwidth, if_true, hfound]
    rcases matcher s call a { p with pos := p.pos - width }
        (fun q => if q.pos = p.pos then some q else none) with _ | q
    · cases negated
      · rfl
      · exact hk p
    · cases negated
      · exact hk q
      · rfl
  · simp only [hwidth, if_false]
    cases negated
    · rfl
    · exact hk p

theorem movesAlike_anchor (a : Anchor) :
    MovesAlike off base (matcher s call (.anchor a)) (matcher s call' (.anchor a)) := by
  intro p k k' h hk
  simp only [matcher, Place.lift]
  by_cases ha : a.holds s p.pos
  · simp only [ha, if_true]
    exact hk p
  · simp only [ha, if_false, Bool.false_eq_true, Option.map_none]

theorem movesAlike_absent {a : Regex}
    (ha : MovesAlike off base (matcher s call a) (matcher s call' (a.shift off))) :
    MovesAlike off base (matcher s call (.absent a)) (matcher s call' ((absent a).shift off)) := by
  intro p k k' h hk
  simp only [shift, matcher]
  rw [absentLength_lift ha p]
  simp only [Place.lift]
  rcases absentLength (matcher s call a) p (s.text.size - p.pos) with _ | n
  · rfl
  · exact movesAlike_fromFarthest p k k' h hk n

/-! ### All expressions -/

/-- An expression matches alike when its groups are moved, if its references follow. -/
theorem movesAlike_matcher (hbase : ∀ m ∈ base, m.group ≤ off) (s : Subject)
    (call call' : GroupRef → Matcher) (r : Regex) (hr : r.Movable) :
    MovesAlike off base (matcher s call r) (matcher s call' (r.shift off)) := by
  induction r with
  | call _ => exact absurd hr id
  | keep =>
    intro p k k' h hk
    exact hk { p with start := p.pos }
  | empty =>
    intro p k k' h hk
    exact hk p
  | fail =>
    intro p k k' h hk
    rfl
  | set cs => exact movesAlike_set cs
  | folded cs =>
    intro p k k' h hk
    simp only [shift, matcher, Place.lift]
    rcases foldedEnd? s.text (Unicode.foldAll cs).length (Unicode.foldAll cs) p.pos with _ | pos
    · rfl
    · exact hk { p with pos := pos }
  | seq a b iha ihb =>
    intro p k k' h hk
    simp only [shift, matcher]
    exact iha hr.1 p _ _ h fun q => ihb hr.2 q k k' h hk
  | alt a b iha ihb =>
    intro p k k' h hk
    simp only [shift, matcher]
    rw [iha hr.1 p k k' h hk, ihb hr.2 p k k' h hk]
    exact first_map
  | loop a min max greedy ih => exact movesAlike_loop (ih hr) min max greedy
  | group n a ih =>
    intro p k k' h hk
    simp only [shift, matcher]
    refine ih hr { p with marks := .opened n p.pos :: p.marks } _ _ h fun q => ?_
    exact hk { q with marks := .closed n p.pos q.pos :: q.marks }
  | atomic a ih =>
    intro p k k' h hk
    simp only [shift, matcher]
    rw [ih hr p some some (Place.lift off base) fun q => rfl]
    rcases matcher s call a p some with _ | q
    · rfl
    · exact hk q
  | ahead negated a ih => exact movesAlike_ahead (ih hr) negated
  | behind negated width a ih => exact movesAlike_behind (ih hr) negated width
  | anchor a => exact movesAlike_anchor a
  | backref ns anyCase =>
    intro p k k' h hk
    have hpos : ∀ n ∈ ns.reverse, 0 < n := fun n hn => hr n (List.mem_reverse.mp hn)
    simp only [shift, matcher]
    rw [← List.map_reverse, findSome?_repeatEnd?_lift hbase s p anyCase hpos]
    rcases ns.reverse.findSome? (repeatEnd? s p anyCase) with _ | pos
    · rfl
    · exact hk { p with pos := pos }
  | matched ns =>
    intro p k k' h hk
    simp only [shift, matcher]
    rw [any_span?_lift hbase p hr]
    by_cases hm : (ns.any fun n => (span? n p.marks).isSome) = true
    · simp only [hm, if_true]
      exact hk p
    · simp only [hm, if_false, Bool.false_eq_true, Option.map_none]
  | ifElse test yes no iht ihy ihn =>
    intro p k k' h hk
    simp only [shift, matcher]
    rw [iht hr.1 p some some (Place.lift off base) fun q => rfl]
    rcases matcher s call test p some with _ | q
    · exact ihn hr.2.2 p k k' h hk
    · exact ihy hr.2.1 q k k' h hk
  | absent a ih => exact movesAlike_absent (ih hr)

end

end Highlighting.Regex
