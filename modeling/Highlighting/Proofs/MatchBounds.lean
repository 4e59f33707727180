-- Where matches lie. A search goes forward: the match that it finds starts
-- no earlier than the search, stops no earlier than it starts, and stays in
-- the text. Only an expression that moves the start of its match can break
-- this, so the law is a property of a pattern, and every pattern without
-- that operator has it. Of many expressions it can be read off how many
-- characters their matches take at least.
import Highlighting.Pattern.Basic

namespace Highlighting

/-- Every match that the pattern reports lies in the text, from where the
search began. -/
def Pattern.StaysInText (p : Pattern) : Prop :=
  ∀ (text : Array Char) (start : Nat) (found : Pattern.Found),
    p.search text start = some found →
      start ≤ found.start ∧ found.start ≤ found.stop ∧ found.stop ≤ text.size

namespace Regex

/-- Whether an expression moves the start of its match. -/
def keeps : Regex → Bool
  | keep => true
  | seq a b | alt a b => a.keeps || b.keeps
  | group _ a | loop a .. | atomic a | ahead _ a | behind _ _ a | absent a => a.keeps
  | ifElse a b c => a.keeps || b.keeps || c.keeps
  | _ => false

/-- A way to match that goes forward within a text of so many characters and
leaves the start of the match alone. -/
def Forward (size : Nat) (m : Matcher) : Prop :=
  ∀ (p : Place) (k : Rest) (r : Place), p.pos ≤ size → m p k = some r →
    ∃ q : Place, k q = some r ∧ p.pos ≤ q.pos ∧ q.pos ≤ size ∧ q.start = p.start

/-- How many characters every match of an expression takes, as far as it can be read off. -/
def fewest : Regex → Nat
  | fail | set _ => 1
  | folded cs => if Unicode.foldAll cs = [] then 0 else 1
  | seq a b => a.fewest + b.fewest
  | alt a b => min a.fewest b.fewest
  | loop a n _ _ => n * a.fewest
  | group _ a | atomic a => a.fewest
  | ifElse test yes no => min (test.fewest + yes.fewest) no.fewest
  | _ => 0

/-- A way to match that goes forward by `n` characters at least. -/
def Taking (size n : Nat) (m : Matcher) : Prop :=
  ∀ (p : Place) (k : Rest) (r : Place), p.pos ≤ size → m p k = some r →
    ∃ q : Place, k q = some r ∧ p.pos + n ≤ q.pos ∧ q.pos ≤ size ∧ q.start = p.start

theorem Taking.mono {size n n' : Nat} {m : Matcher} (h : Taking size n m) (hle : n' ≤ n) :
    Taking size n' m := by
  intro p k r hp hr
  obtain ⟨q, hq, h1, h2, h3⟩ := h p k r hp hr
  exact ⟨q, hq, by omega, h2, h3⟩

theorem Taking.forward {size n : Nat} {m : Matcher} (h : Taking size n m) : Forward size m :=
  h.mono (Nat.zero_le n)

/-! ## Parts -/

theorem literalEnd?_bounds (text : Array Char) (cs : List Char) (pos stop : Nat)
    (hpos : pos ≤ text.size) (h : literalEnd? text cs pos = some stop) :
    pos ≤ stop ∧ stop ≤ text.size := by
  induction cs generalizing pos with
  | nil =>
    simp only [literalEnd?, Option.some.injEq] at h
    omega
  | cons c cs ih =>
    rw [literalEnd?] at h
    split at h
    · rename_i hc
      have hlt : pos < text.size := (Array.getElem?_eq_some_iff.mp hc).1
      have := ih (pos + 1) hlt h
      omega
    · cases h

theorem foldedEnd?_bounds (text : Array Char) (fuel : Nat) (want : List Char) (pos stop : Nat)
    (hpos : pos ≤ text.size) (h : foldedEnd? text fuel want pos = some stop) :
    pos ≤ stop ∧ stop ≤ text.size := by
  induction fuel generalizing want pos with
  | zero =>
    cases want with
    | nil => simp only [foldedEnd?, Option.some.injEq] at h; omega
    | cons c cs => simp [foldedEnd?] at h
  | succ fuel ih =>
    cases want with
    | nil => simp only [foldedEnd?, Option.some.injEq] at h; omega
    | cons c cs =>
      rw [foldedEnd?] at h
      · rcases hc : text[pos]? with _ | d
        · simp [hc] at h
        · have hlt : pos < text.size := (Array.getElem?_eq_some_iff.mp hc).1
          simp only [hc] at h
          split at h
          · have := ih _ (pos + 1) hlt h
            omega
          · cases h
      · simp

theorem foldedEnd?_lt {text : Array Char} {fuel : Nat} {want : List Char} {pos stop : Nat}
    (hwant : want ≠ []) (h : foldedEnd? text fuel want pos = some stop) :
    pos < stop := by
  rcases want with _ | ⟨c, cs⟩
  · exact absurd rfl hwant
  rcases fuel with _ | fuel
  · cases h
  rw [foldedEnd?] at h
  · rcases hc : text[pos]? with _ | d
    · simp [hc] at h
    · have hlt : pos < text.size := (Array.getElem?_eq_some_iff.mp hc).1
      simp only [hc] at h
      split at h
      · have := foldedEnd?_bounds _ _ _ (pos + 1) _ hlt h
        omega
      · cases h
  · simp

theorem repeatEnd?_bounds (s : Subject) (p : Place) (anyCase : Bool) (n stop : Nat)
    (hpos : p.pos ≤ s.text.size) (h : repeatEnd? s p anyCase n = some stop) :
    p.pos ≤ stop ∧ stop ≤ s.text.size := by
  unfold repeatEnd? at h
  rcases hr : reference? n p.marks with _ | ⟨start, last⟩
  · simp [hr] at h
  · simp only [hr, Option.bind_eq_bind, Option.bind_some] at h
    split at h
    · exact foldedEnd?_bounds _ _ _ _ _ hpos h
    · exact literalEnd?_bounds _ _ _ _ hpos h

/-! ## Repetition -/

theorem taking_times {size n : Nat} {m : Matcher} (hm : Taking size n m) (count : Nat) :
    Taking size (count * n) (times m count) := by
  induction count with
  | zero =>
    intro p k r hp h
    exact ⟨p, h, by omega, hp, rfl⟩
  | succ count ih =>
    intro p k r hp h
    obtain ⟨q, hq, hpq, hqs, hst⟩ := hm p _ r hp h
    obtain ⟨q', hq', hqq', hqs', hst'⟩ := ih q k r hqs hq
    rw [Nat.succ_mul]
    exact ⟨q', hq', by omega, hqs', hst'.trans hst⟩

theorem forward_upTo {size : Nat} {m : Matcher} (hm : Forward size m) (greedy : Bool) (n : Nat) :
    Forward size (upTo m greedy n) := by
  induction n with
  | zero =>
    intro p k r hp h
    exact ⟨p, h, Nat.le_refl _, hp, rfl⟩
  | succ n ih =>
    intro p k r hp h
    -- One round, then the rest from where the round stopped.
    have hround : ∀ r, m p (fun q => if q.pos ≤ p.pos then k q else upTo m greedy n q k) = some r →
        ∃ q : Place, k q = some r ∧ p.pos ≤ q.pos ∧ q.pos ≤ size ∧ q.start = p.start := by
      intro r hr
      obtain ⟨q, hq, hpq, hqs, hst⟩ := hm p _ r hp hr
      split at hq
      · exact ⟨q, hq, hpq, hqs, hst⟩
      · obtain ⟨q', hq', hqq', hqs', hst'⟩ := ih q k r hqs hq
        exact ⟨q', hq', by omega, hqs', hst'.trans hst⟩
    have hstop : ∀ r, k p = some r →
        ∃ q : Place, k q = some r ∧ p.pos ≤ q.pos ∧ q.pos ≤ size ∧ q.start = p.start :=
      fun r hr => ⟨p, hr, Nat.le_refl _, hp, rfl⟩
    rw [upTo] at h
    split at h
    · split at h
      · rename_i r' hr'
        cases h
        exact hround _ hr'
      · exact hstop r h
    · split at h
      · rename_i r' hr'
        cases h
        exact hstop _ hr'
      · exact hround r h

theorem runLength_bounds (text : Array Char) (set : CharSet) (n pos : Nat) (h : pos ≤ text.size) :
    pos + runLength text set n pos ≤ text.size := by
  induction n generalizing pos with
  | zero => exact h
  | succ n ih =>
    rw [runLength]
    rcases hc : text[pos]? with _ | c
    · exact h
    · have hlt : pos < text.size := (Array.getElem?_eq_some_iff.mp hc).1
      simp only
      split
      · have := ih (pos + 1) hlt
        omega
      · exact h

theorem fromFarthest_some (p : Place) (k : Rest) (n : Nat) (r : Place)
    (h : fromFarthest p k n = some r) :
    ∃ pos, k { p with pos := pos } = some r ∧ p.pos ≤ pos ∧ pos ≤ p.pos + n := by
  induction n with
  | zero => exact ⟨p.pos, h, Nat.le_refl _, Nat.le_refl _⟩
  | succ n ih =>
    rw [fromFarthest] at h
    split at h
    · rename_i r' hr'
      cases h
      exact ⟨_, hr', by omega, by omega⟩
    · obtain ⟨pos, hq, h1, h2⟩ := ih h
      exact ⟨pos, hq, h1, by omega⟩

theorem fromNearest_some (p : Place) (k : Rest) (n : Nat) (r : Place)
    (h : fromNearest p k n = some r) :
    ∃ pos, k { p with pos := pos } = some r ∧ p.pos ≤ pos ∧ pos ≤ p.pos + n := by
  induction n generalizing p with
  | zero => exact ⟨p.pos, h, Nat.le_refl _, Nat.le_refl _⟩
  | succ n ih =>
    rw [fromNearest] at h
    split at h
    · rename_i r' hr'
      cases h
      exact ⟨p.pos, hr', Nat.le_refl _, by omega⟩
    · obtain ⟨pos, hq, h1, h2⟩ := ih _ h
      simp only at h1 h2
      exact ⟨pos, hq, by omega, by omega⟩

/-- A run takes the characters that it has to take. -/
theorem runOf_some {s : Subject} {set : CharSet} {min limit : Nat} {greedy : Bool} {p : Place}
    {k : Rest} {r : Place} (hp : p.pos ≤ s.text.size) (h : runOf s set min limit greedy p k = some r) :
    ∃ pos, k { p with pos := pos } = some r ∧ p.pos + min ≤ pos ∧ pos ≤ s.text.size := by
  have hrun := runLength_bounds s.text set limit p.pos hp
  unfold runOf at h
  simp only at h
  split at h
  · cases h
  · rename_i hmin
    have hsome : ∃ pos, k { p with pos := pos } = some r ∧ p.pos + min ≤ pos ∧
        pos ≤ p.pos + min + (runLength s.text set limit p.pos - min) := by
      split at h
      · exact fromFarthest_some _ _ _ _ h
      · exact fromNearest_some _ _ _ _ h
    obtain ⟨pos, hq, h1, h2⟩ := hsome
    exact ⟨pos, hq, h1, by omega⟩

theorem absentLength_le (m : Matcher) (p : Place) (n l : Nat) (h : absentLength m p n = some l) :
    l ≤ n := by
  induction n generalizing l with
  | zero =>
    rw [absentLength] at h
    split at h
    · cases h
    · cases h; exact Nat.le_refl _
  | succ n ih =>
    rw [absentLength] at h
    rcases hn : absentLength m p n with _ | l'
    · simp [hn] at h
    · have := ih l' hn
      simp only [hn] at h
      split at h <;> cases h <;> omega

/-! ## Expressions -/

section

-- The equations of the definition, derived once for all the proofs that unfold it.
attribute [local simp] matcher

/-- A repetition that is not a run of one character goes round by round. -/
theorem matcher_loop (s : Subject) (call : GroupRef → Matcher) (a : Regex) (min : Nat)
    (max : Option Nat) (greedy : Bool) (p : Place) (k : Rest) (h : ∀ cs, a ≠ .set cs) :
    matcher s call (.loop a min max greedy) p k =
      times (matcher s call a) min p fun q =>
        upTo (matcher s call a) greedy
          (match max with
            | some m => m - min
            | none => s.text.size - q.pos + 1) q k := by
  rw [matcher]
  all_goals first | rfl | exact h

variable {s : Subject} {call : GroupRef → Matcher}

theorem taking_folded (cs : List Char) :
    Taking s.text.size (folded cs).fewest (matcher s call (.folded cs)) := by
  intro p k x hp h
  rw [matcher] at h
  split at h
  · rename_i pos hpos
    have hb := foldedEnd?_bounds _ _ _ _ _ hp hpos
    refine ⟨_, h, ?_, hb.2, rfl⟩
    by_cases hwant : Unicode.foldAll cs = []
    · rw [fewest, if_pos hwant]
      exact hb.1
    · rw [fewest, if_neg hwant]
      exact foldedEnd?_lt hwant hpos
  · cases h

/-- A repetition takes what its least number of rounds takes. -/
theorem taking_loop {a : Regex} (ha : Taking s.text.size a.fewest (matcher s call a)) (min : Nat)
    (max : Option Nat) (greedy : Bool) :
    Taking s.text.size (min * a.fewest) (matcher s call (.loop a min max greedy)) := by
  intro p k x hp h
  by_cases hset : ∃ cs, a = .set cs
  · obtain ⟨cs, rfl⟩ := hset
    rw [matcher] at h
    obtain ⟨pos, hq, h1, h2⟩ := runOf_some hp h
    exact ⟨{ p with pos := pos }, hq, by simp only [fewest]; omega, h2, rfl⟩
  · rw [matcher_loop s call a min max greedy p k (fun cs he => hset ⟨cs, he⟩)] at h
    obtain ⟨q, hq, h1, h2, h3⟩ := taking_times ha min p _ x hp h
    obtain ⟨q', hq', h1', h2', h3'⟩ := forward_upTo ha.forward greedy _ q k x h2 hq
    exact ⟨q', hq', by omega, h2', h3'.trans h3⟩

/-- A look ahead goes on where it began. -/
theorem forward_ahead {a : Regex} (ha : Forward s.text.size (matcher s call a)) (negated : Bool) :
    Forward s.text.size (matcher s call (.ahead negated a)) := by
  intro p k x hp h
  rw [matcher] at h
  split at h
  · rename_i q hq
    obtain ⟨q', hq', h1, h2, h3⟩ := ha p some q hp hq
    cases hq'
    split at h
    · cases h
    · exact ⟨_, h, Nat.le_refl _, hp, h3⟩
  · split at h
    · exact ⟨p, h, Nat.le_refl _, hp, rfl⟩
    · cases h

/-- A look behind goes back, and has to come up to where it began. -/
theorem forward_behind {a : Regex} (ha : Forward s.text.size (matcher s call a)) (negated : Bool)
    (width : Nat) : Forward s.text.size (matcher s call (.behind negated width a)) := by
  intro p k x hp h
  rw [matcher] at h
  split at h
  · rename_i q hq
    split at hq
    · obtain ⟨q', hq', h1, h2, h3⟩ :=
        ha { p with pos := p.pos - width } _ q (by simp only; omega) hq
      split at hq'
      · rename_i hpos
        cases hq'
        split at h
        · cases h
        · exact ⟨q, h, by omega, h2, h3⟩
      · cases hq'
    · cases hq
  · split at h
    · exact ⟨p, h, Nat.le_refl _, hp, rfl⟩
    · cases h

/-- Both ways through a choice take what the shorter one takes. -/
theorem taking_ifElse {test yes no : Regex}
    (htest : Taking s.text.size test.fewest (matcher s call test))
    (hyes : Taking s.text.size yes.fewest (matcher s call yes))
    (hno : Taking s.text.size no.fewest (matcher s call no)) :
    Taking s.text.size (ifElse test yes no).fewest (matcher s call (.ifElse test yes no)) := by
  intro p k x hp h
  rw [matcher] at h
  split at h
  · rename_i q hq
    obtain ⟨q', hq', h1, h2, h3⟩ := htest p some q hp hq
    cases hq'
    obtain ⟨q'', hq'', h1', h2', h3'⟩ := hyes q k x h2 h
    exact ⟨q'', hq'', by simp only [fewest]; omega, h2', h3'.trans h3⟩
  · exact hno.mono (Nat.min_le_right _ _) p k x hp h

theorem forward_absent (a : Regex) : Forward s.text.size (matcher s call (.absent a)) := by
  intro p k x hp h
  rw [matcher] at h
  split at h
  · rename_i n hn
    have hle := absentLength_le _ _ _ _ hn
    obtain ⟨pos, hq, h1, h2⟩ := fromFarthest_some _ _ _ _ h
    exact ⟨{ p with pos := pos }, hq, h1, by simp only; omega, rfl⟩
  · cases h

/-- Every match of an expression goes forward by as many characters as can be read off it. -/
theorem taking_matcher (s : Subject) (call : GroupRef → Matcher)
    (hcall : ∀ target, Forward s.text.size (call target)) (r : Regex) (hr : r.keeps = false) :
    Taking s.text.size r.fewest (matcher s call r) := by
  induction r with
  | keep => cases hr
  | empty =>
    intro p k x hp h
    exact ⟨p, h, Nat.le_refl _, hp, rfl⟩
  | fail =>
    intro p k x hp h
    cases h
  | set cs =>
    intro p k x hp h
    rw [matcher] at h
    rcases hc : s.text[p.pos]? with _ | c
    · simp [hc] at h
    · have hlt : p.pos < s.text.size := (Array.getElem?_eq_some_iff.mp hc).1
      simp only [hc] at h
      split at h
      · exact ⟨_, h, Nat.le_refl _, hlt, rfl⟩
      · cases h
  | folded cs => exact taking_folded cs
  | seq a b iha ihb =>
    simp only [keeps, Bool.or_eq_false_iff] at hr
    intro p k x hp h
    rw [matcher] at h
    obtain ⟨q, hq, h1, h2, h3⟩ := iha hr.1 p _ x hp h
    obtain ⟨q', hq', h1', h2', h3'⟩ := ihb hr.2 q k x h2 hq
    exact ⟨q', hq', by simp only [fewest]; omega, h2', h3'.trans h3⟩
  | alt a b iha ihb =>
    simp only [keeps, Bool.or_eq_false_iff] at hr
    intro p k x hp h
    rw [matcher] at h
    split at h
    · rename_i x' hx'
      cases h
      exact (iha hr.1).mono (Nat.min_le_left _ _) p k _ hp hx'
    · exact (ihb hr.2).mono (Nat.min_le_right _ _) p k x hp h
  | loop a min max greedy ih => exact taking_loop (ih hr) min max greedy
  | group n a ih =>
    intro p k x hp h
    rw [matcher] at h
    obtain ⟨q, hq, h1, h2, h3⟩ := ih hr { p with marks := .opened n p.pos :: p.marks } _ x hp h
    exact ⟨_, hq, h1, h2, h3⟩
  | atomic a ih =>
    intro p k x hp h
    rw [matcher] at h
    split at h
    · rename_i q hq
      obtain ⟨q', hq', h1, h2, h3⟩ := ih hr p some q hp hq
      cases hq'
      exact ⟨q, h, h1, h2, h3⟩
    · cases h
  | ahead negated a ih => exact forward_ahead (ih hr).forward negated
  | behind negated width a ih => exact forward_behind (ih hr).forward negated width
  | anchor a =>
    intro p k x hp h
    rw [matcher] at h
    split at h
    · exact ⟨p, h, Nat.le_refl _, hp, rfl⟩
    · cases h
  | backref groups anyCase =>
    intro p k x hp h
    rw [matcher] at h
    split at h
    · rename_i pos hpos
      obtain ⟨n, _, hn⟩ := List.exists_of_findSome?_eq_some hpos
      have hb := repeatEnd?_bounds s p anyCase n pos hp hn
      exact ⟨_, h, hb.1, hb.2, rfl⟩
    · cases h
  | matched groups =>
    intro p k x hp h
    rw [matcher] at h
    split at h
    · exact ⟨p, h, Nat.le_refl _, hp, rfl⟩
    · cases h
  | call target =>
    intro p k x hp h
    rw [matcher] at h
    exact hcall target p k x hp h
  | ifElse test yes no iht ihy ihn =>
    simp only [keeps, Bool.or_eq_false_iff] at hr
    exact taking_ifElse (iht hr.1.1) (ihy hr.1.2) (ihn hr.2)
  | absent a _ => exact forward_absent a

end

/-! ## Called groups -/

theorem keeps_groupBody? (n : Nat) (r body : Regex) (h : r.groupBody? n = some body)
    (hr : r.keeps = false) : body.keeps = false := by
  induction r with
  | group m a ih =>
    rw [groupBody?] at h
    split at h
    · cases h; exact hr
    · exact ih h hr
  | seq a b iha ihb | alt a b iha ihb =>
    simp only [keeps, Bool.or_eq_false_iff] at hr
    simp only [groupBody?, Option.orElse_eq_orElse, Option.orElse_eq_or, Option.or_eq_some_iff] at h
    rcases h with h | ⟨_, h⟩
    · exact iha h hr.1
    · exact ihb h hr.2
  | ifElse a b c iha ihb ihc =>
    simp only [keeps, Bool.or_eq_false_iff] at hr
    simp only [groupBody?, Option.orElse_eq_orElse, Option.orElse_eq_or, Option.or_eq_some_iff] at h
    rcases h with h | ⟨_, h | ⟨_, h⟩⟩
    · exact iha h hr.1.1
    · exact ihb h hr.1.2
    · exact ihc h hr.2
  | loop a _ _ _ ih | atomic a ih | ahead _ a ih | behind _ _ a ih | absent a ih => exact ih h hr
  | _ => cases h

end Regex

namespace Pattern

open Regex

theorem keeps_body? (p : Program) (target : GroupRef) (body : Regex)
    (h : body? p target = some body) (hp : p.root.keeps = false) : body.keeps = false := by
  unfold body? at h
  split at h
  · cases h; exact hp
  · exact keeps_groupBody? _ _ _ h hp
  · obtain ⟨n, _, hn⟩ := Option.bind_eq_some_iff.mp h
    exact keeps_groupBody? _ _ _ hn hp

theorem forward_called (s : Subject) (p : Program) (hp : p.root.keeps = false) (depth : Nat)
    (target : GroupRef) : Forward s.text.size (called s p depth target) := by
  induction depth generalizing target with
  | zero =>
    intro q k x hq h
    cases h
  | succ depth ih =>
    intro q k x hq h
    rw [called] at h
    rcases hb : body? p target with _ | body
    · simp [hb] at h
    · have hbody := keeps_body? p target body hb hp
      have hgroup : ∀ n, (Regex.group n body).keeps = false := fun n => hbody
      simp only [hb] at h
      split at h
      · exact (taking_matcher s _ ih body hbody).forward q k x hq h
      · exact (taking_matcher s _ ih _ (hgroup _)).forward q k x hq h
      · exact (taking_matcher s _ ih _ (hgroup _)).forward q k x hq h

/-! ## Patterns -/

theorem matchFrom_bounds (p : Pattern) (hp : p.program.root.keeps = false) (s : Subject)
    (pos : Nat) (q : Place) (hpos : pos ≤ s.text.size) (h : p.matchFrom s pos = some q) :
    q.start = pos ∧ pos + p.program.root.fewest ≤ q.pos ∧ q.pos ≤ s.text.size := by
  have hcalled := forward_called s p.program hp ((s.text.size + 1) * (p.program.groups + 1) + 1)
  obtain ⟨q', hq', h1, h2, h3⟩ :=
    taking_matcher s _ hcalled p.program.root hp ⟨pos, pos, []⟩ some q hpos h
  cases hq'
  exact ⟨h3, h1, h2⟩

/-- What a search finds is a match at some place that was tried. -/
theorem scan_some (p : Pattern) (s : Subject) (n pos : Nat) (q : Place)
    (h : p.scan s n pos = some q) :
    ∃ i, pos ≤ i ∧ i < pos + n ∧ p.matchFrom s i = some q ∧
      ∀ j, pos ≤ j → j < i → p.matchFrom s j = none := by
  induction n generalizing pos with
  | zero => cases h
  | succ n ih =>
    rw [scan] at h
    rcases hm : p.matchFrom s pos with _ | q'
    · simp only [hm] at h
      obtain ⟨i, h1, h2, h3, h4⟩ := ih _ h
      refine ⟨i, by omega, by omega, h3, ?_⟩
      intro j hj hji
      by_cases he : j = pos
      · rw [he, hm]
      · exact h4 j (by omega) hji
    · simp only [hm, Option.some.injEq] at h
      subst h
      exact ⟨pos, Nat.le_refl _, by omega, hm, fun j hj hji => by omega⟩

/-- What is found starts where the search does or later, takes as many characters as the
expression has to take, and stays in the text. -/
theorem search_bounds {p : Pattern} (hp : p.program.root.keeps = false) {text : Array Char}
    {start : Nat} {found : Found} (h : p.search text start = some found) :
    start ≤ found.start ∧ found.start + p.program.root.fewest ≤ found.stop ∧
      found.stop ≤ text.size := by
  unfold search at h
  split at h
  · cases h
  · obtain ⟨q, hq, rfl⟩ := Option.map_eq_some_iff.mp h
    obtain ⟨i, h1, h2, h3, _⟩ := scan_some p _ _ _ q hq
    obtain ⟨h4, h5, h6⟩ := matchFrom_bounds p hp ⟨text, start⟩ i q (by simp only; omega) h3
    simp only [found] at *
    exact ⟨by omega, by omega, h6⟩

/-- A pattern that does not move the start of its match stays in the text. -/
theorem staysInText_of_not_keeps (p : Pattern) (hp : p.program.root.keeps = false) :
    p.StaysInText := by
  intro text start found h
  obtain ⟨h1, h2, h3⟩ := search_bounds hp h
  exact ⟨h1, by omega, h3⟩

end Pattern

end Highlighting
