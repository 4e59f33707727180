-- Going on until there is a result. Nothing bounds the number of rounds: where a result never
-- comes there is none. An equation for one round would say nothing of rounds that never end, so
-- the loop hands on what its result is about.

namespace Highlighting

variable {α β : Type}

/-- What at most so many rounds come to. A round goes on, or gives a result. -/
def loopWithin (round : α → α ⊕ β) : (rounds : Nat) → α → Option β
  | 0, _ => none
  | n + 1, a =>
    match round a with
    | .inl next => loopWithin round n next
    | .inr b => some b

/-- The result is what the rounds come to, and it is none if they never come to one. -/
def LoopsTo (round : α → α ⊕ β) (a : α) (result : Option β) : Prop :=
  ∀ b, result = some b ↔ ∃ n, loopWithin round n a = some b

section

variable {round : α → α ⊕ β} {a next : α} {b : β} {result result' : Option β}

theorem loopWithin_of_le {n k : Nat} (hle : n ≤ k) (h : loopWithin round n a = some b) :
    loopWithin round k a = some b := by
  induction n generalizing a k with
  | zero => cases h
  | succ n ih =>
    obtain ⟨k, rfl⟩ := Nat.exists_eq_add_of_le' (Nat.lt_of_lt_of_le (Nat.succ_pos n) hle)
    rw [loopWithin] at h ⊢
    rcases hround : round a with next | b'
    · rw [hround] at h
      exact ih (Nat.le_of_succ_le_succ hle) h
    · rw [hround] at h
      exact h

theorem exists_loopsTo (round : α → α ⊕ β) (a : α) : ∃ result, LoopsTo round a result := by
  by_cases h : ∃ b n, loopWithin round n a = some b
  · obtain ⟨b, n, hn⟩ := h
    refine ⟨some b, fun b' => ⟨?_, ?_⟩⟩
    · rintro ⟨⟩
      exact ⟨n, hn⟩
    · -- The larger number of rounds comes to both.
      rintro ⟨k, hk⟩
      exact (loopWithin_of_le (Nat.le_max_left n k) hn).symm.trans
        (loopWithin_of_le (Nat.le_max_right n k) hk)
  · refine ⟨none, fun b => ⟨?_, fun hb => absurd ⟨b, hb⟩ h⟩⟩
    rintro ⟨⟩

instance : Nonempty { result : Option β // LoopsTo round a result } := by
  obtain ⟨result, h⟩ := exists_loopsTo round a
  exact ⟨⟨result, h⟩⟩

theorem LoopsTo.eq (h : LoopsTo round a result) (h' : LoopsTo round a result') :
    result = result' :=
  Option.ext fun b => (h b).trans (h' b).symm

theorem loopsTo_of_inr (h : round a = .inr b) : LoopsTo round a (some b) := by
  intro b'
  constructor
  · rintro ⟨⟩
    refine ⟨1, ?_⟩
    rw [loopWithin, h]
  · rintro ⟨n, hn⟩
    rcases n with _ | n
    · cases hn
    · rw [loopWithin, h] at hn
      exact hn

theorem LoopsTo.of_inl (h : round a = .inl next) (hnext : LoopsTo round next result) :
    LoopsTo round a result := by
  intro b
  rw [hnext b]
  constructor
  · rintro ⟨n, hn⟩
    refine ⟨n + 1, ?_⟩
    rw [loopWithin, h]
    exact hn
  · rintro ⟨n, hn⟩
    rcases n with _ | n
    · cases hn
    · rw [loopWithin, h] at hn
      exact ⟨n, hn⟩

end

/-- Goes on from `a`, with the reason why what comes out is what the rounds from `a` on come to. -/
def loopFrom (round : α → α ⊕ β) (a : α) : { result : Option β // LoopsTo round a result } :=
  repeatM (m := Id)
    (fun (here : { b : α // ∀ result, LoopsTo round b result → LoopsTo round a result }) =>
      match h : round here.1 with
      | .inl next => .inl ⟨next, fun result hnext => here.2 result (hnext.of_inl h)⟩
      | .inr b => .inr ⟨some b, here.2 (some b) (loopsTo_of_inr h)⟩)
    ⟨a, fun _ h => h⟩

/-- What the rounds come to, however many there are; `none` if they never end. -/
def loop? (round : α → α ⊕ β) (a : α) : Option β := (loopFrom round a).1

section

variable {round : α → α ⊕ β} {a next : α} {b : β}

theorem loop?_eq_some : loop? round a = some b ↔ ∃ n, loopWithin round n a = some b :=
  (loopFrom round a).2 b

theorem loop?_of_inl (h : round a = .inl next) : loop? round a = loop? round next :=
  (loopFrom round a).2.eq ((loopFrom round next).2.of_inl h)

theorem loop?_of_inr (h : round a = .inr b) : loop? round a = some b :=
  (loopFrom round a).2.eq (loopsTo_of_inr h)

end

end Highlighting
