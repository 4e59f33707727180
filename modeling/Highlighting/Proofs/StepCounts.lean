-- How many steps a scan takes. A scan is the sequence of the states that its steps lead to. A
-- bound on the steps either cuts it off, or is large enough and makes no difference; so a scan
-- without a bound is what all bounds agree on that are large enough. A scan that takes steps for
-- ever is cut off by every bound.
import Highlighting.Proofs.ScanStep

namespace Highlighting.Scan

/-! ## The states of a scan -/

/-- The state in which a scan starts. -/
def startState (lead : String) (resume : Option Continuation) : State :=
  { frames := startFrames resume, tree := .start lead }

/-- The state after one more step, if there is one. -/
def State.next? (c : Context) (s : State) : Option State :=
  match s.step c with
  | .ok (.next s') => some s'
  | _ => none

/-- The state after so many steps. There is none once the scan is over. -/
def State.after (c : Context) (s : State) : Nat → Option State
  | 0 => some s
  | n + 1 => (s.after c n).bind (State.next? c)

/-- The scan takes finitely many steps. -/
def Ends (c : Context) (s : State) : Prop := ∃ n, s.after c n = none

theorem next?_eq_some {c : Context} {s s' : State} :
    s.next? c = some s' ↔ s.step c = .ok (.next s') := by
  unfold State.next?
  split
  · rename_i h
    simp [h]
  · rename_i h
    constructor
    · intro h'; cases h'
    · intro h'; exact absurd h' (h s')

theorem after_succ_eq_some {c : Context} {s s'' : State} {n : Nat} :
    s.after c (n + 1) = some s'' ↔
      ∃ s', s.after c n = some s' ∧ s'.step c = .ok (.next s'') := by
  rw [State.after, Option.bind_eq_some_iff]
  constructor
  · rintro ⟨s', h, h'⟩
    exact ⟨s', h, next?_eq_some.mp h'⟩
  · rintro ⟨s', h, h'⟩
    exact ⟨s', h, next?_eq_some.mpr h'⟩

theorem after_add (c : Context) (s : State) (n k : Nat) :
    s.after c (n + k) = (s.after c n).bind fun s' => s'.after c k := by
  induction k with
  | zero =>
    rcases s.after c n with _ | s'
    · rfl
    · rfl
  | succ k ih =>
    rw [← Nat.add_assoc, State.after, ih, Option.bind_assoc]
    rfl

theorem after_of_step {c : Context} {s s₁ : State} (h : s.step c = .ok (.next s₁)) (k : Nat) :
    s.after c (k + 1) = s₁.after c k := by
  rw [Nat.add_comm, after_add]
  simp [State.after, next?_eq_some.mpr h]

theorem after_of_le {c : Context} {s s' : State} {n k : Nat} (hk : k ≤ n)
    (h : s.after c n = some s') : ∃ sₖ, s.after c k = some sₖ := by
  obtain ⟨d, rfl⟩ := Nat.exists_eq_add_of_le hk
  rw [after_add] at h
  obtain ⟨sₖ, hsₖ, _⟩ := Option.bind_eq_some_iff.mp h
  exact ⟨sₖ, hsₖ⟩

theorem ends_of_step {c : Context} {s s₁ : State} (h : s.step c = .ok (.next s₁))
    (hends : Ends c s₁) : Ends c s := by
  obtain ⟨n, hn⟩ := hends
  exact ⟨n + 1, (after_of_step h n).trans hn⟩

/-! ## Bounded runs -/

/-- A run fails at one of its steps, or is cut off before the scan is over. -/
theorem run_eq_error {c : Context} {n : Nat} {s : State} {e : HighlightError}
    (h : State.run c n s = .error e) :
    (∃ k s₁, s.after c k = some s₁ ∧ s₁.step c = .error e) ∨
      e = .stepLimit ∧ ∃ s₁, s.after c n = some s₁ := by
  induction n generalizing s with
  | zero =>
    cases h
    exact .inr ⟨rfl, s, rfl⟩
  | succ n ih =>
    rw [State.run] at h
    rcases bind_eq_error.mp h with h | ⟨o, ho, h⟩
    · exact .inl ⟨0, s, rfl, h⟩
    · rcases o with s₁ | s₁
      · rcases ih h with ⟨k, s₂, hs₂, hstep⟩ | ⟨he, s₂, hs₂⟩
        · exact .inl ⟨k + 1, s₂, (after_of_step ho k).trans hs₂, hstep⟩
        · exact .inr ⟨he, s₂, (after_of_step ho n).trans hs₂⟩
      · cases h

/-- A run is cut off where the scan has not ended. -/
theorem run_stepLimit_of_after {c : Context} {n : Nat} {s s' : State} (h : s.after c n = some s') :
    State.run c n s = .error .stepLimit := by
  induction n generalizing s with
  | zero => rfl
  | succ n ih =>
    obtain ⟨s₁, hs₁⟩ := after_of_le (Nat.succ_le_succ (Nat.zero_le n)) h
    obtain ⟨s₀, hs₀, hstep⟩ := after_succ_eq_some.mp hs₁
    cases hs₀
    rw [State.run, hstep]
    exact ih ((after_of_step hstep n).symm.trans h)

/-- Once a scan is over, a larger bound on its steps makes no difference. -/
theorem run_settles {c : Context} {s : State} {n : Nat} (h : s.after c n = none) (k : Nat) :
    State.run c (n + k) s = State.run c n s := by
  induction n generalizing s with
  | zero => cases h
  | succ n ih =>
    rw [Nat.add_right_comm, State.run, State.run]
    rcases hstep : s.step c with e | s' | s'
    · rfl
    · refine ih ?_
      rw [← after_of_step hstep]
      exact h
    · rfl

/-! ## Unbounded runs -/

section

variable {c : Context} {s s' : State} {e : HighlightError}

theorem round_of_next (h : s.step c = .ok (.next s')) : s.round c = .inl s' := by
  rw [State.round, h]

theorem round_of_done (h : s.step c = .ok (.done s')) : s.round c = .inr (.ok s') := by
  rw [State.round, h]

theorem round_of_error (h : s.step c = .error e) : s.round c = .inr (.error e) := by
  rw [State.round, h]

end

/-- A scan that ends comes out as it does with a bound that it keeps. -/
theorem runAll_of_ends {c : Context} {s : State} {n : Nat} (h : s.after c n = none) :
    s.runAll c = State.run c n s := by
  induction n generalizing s with
  | zero => cases h
  | succ n ih =>
    unfold State.runAll State.outcome?
    rw [State.run]
    rcases hstep : s.step c with e | s' | s'
    · rw [loop?_of_inr (round_of_error hstep)]
      rfl
    · rw [loop?_of_inl (round_of_next hstep)]
      rw [after_of_step hstep] at h
      exact ih h
    · rw [loop?_of_inr (round_of_done hstep)]
      rfl

/-- Only a scan that ends comes out. -/
theorem ends_of_outcome? {c : Context} {s : State} {x : Except HighlightError State}
    (h : s.outcome? c = some x) : Ends c s := by
  rw [State.outcome?, loop?_eq_some] at h
  obtain ⟨n, hn⟩ := h
  induction n generalizing s with
  | zero => cases hn
  | succ n ih =>
    rw [loopWithin] at hn
    rcases hstep : s.step c with e | s' | s'
    · exact ⟨1, by simp [State.after, State.next?, hstep]⟩
    · rw [round_of_next hstep] at hn
      exact ends_of_step hstep (ih hn)
    · exact ⟨1, by simp [State.after, State.next?, hstep]⟩

theorem runAll_of_not_ends {c : Context} {s : State} (h : ¬ Ends c s) :
    s.runAll c = .error .stepLimit := by
  unfold State.runAll
  rcases hout : s.outcome? c with _ | x
  · rfl
  · exact absurd (ends_of_outcome? hout) h

/-- An unbounded run is what all large enough bounds agree on. -/
theorem exists_run_eq_runAll (c : Context) (s : State) :
    ∃ n, ∀ k, n ≤ k → State.run c k s = s.runAll c := by
  by_cases hends : Ends c s
  · obtain ⟨n, hn⟩ := hends
    refine ⟨n, fun k hk => ?_⟩
    obtain ⟨d, rfl⟩ := Nat.exists_eq_add_of_le hk
    rw [run_settles hn, runAll_of_ends hn]
  · refine ⟨0, fun k _ => ?_⟩
    rw [runAll_of_not_ends hends]
    rcases hk : s.after c k with _ | s'
    · exact absurd ⟨k, hk⟩ hends
    · exact run_stepLimit_of_after hk

/-! ## Whole scans -/

/-- A scan of an empty text gives nothing, and that of any other finishes what its run gives. -/
theorem scanWithin_eq_ok {n : Nat} {c : Context} {lead : String} {resume : Option Continuation}
    {r : Scanned} : scanWithin n c lead resume = .ok r ↔
      c.text.isEmpty = true ∧ ⟨[], 0, ⟨startFrames resume⟩⟩ = r ∨
        c.text.isEmpty = false ∧
          ∃ s, State.run c n (startState lead resume) = .ok s ∧ s.finish c = .ok r := by
  unfold scanWithin scanBy startState
  rcases c.text.isEmpty with _ | _
  · simp only [Bool.false_eq_true, if_false, false_and, true_and, false_or]
    exact bind_eq_ok
  · simp

/-- Scans depend on the way in which steps are taken only from the start on. -/
theorem scanBy_congr {run run' : State → Except HighlightError State} {lead : String}
    {resume : Option Continuation}
    (h : run (startState lead resume) = run' (startState lead resume)) (c : Context) :
    scanBy run c lead resume = scanBy run' c lead resume := by
  unfold startState at h
  unfold scanBy
  simp only [h]

/-- A scan is what all large enough bounds on its steps agree on. -/
theorem exists_scanWithin_eq_scan (c : Context) (lead : String) (resume : Option Continuation) :
    ∃ n, ∀ k, n ≤ k → scanWithin k c lead resume = scan c lead resume := by
  obtain ⟨n, hn⟩ := exists_run_eq_runAll c (startState lead resume)
  exact ⟨n, fun k hk => scanBy_congr (hn k hk) c⟩

/-- A scan that ends comes out as it does with a bound that it keeps. -/
theorem scan_of_ends {c : Context} {n : Nat} {lead : String} {resume : Option Continuation}
    (h : (startState lead resume).after c n = none) :
    scan c lead resume = scanWithin n c lead resume :=
  scanBy_congr (runAll_of_ends h) c

/-- A bound on the steps of a scan cuts it off, or makes no difference. -/
theorem scanWithin_stepLimit_or_eq (n : Nat) (c : Context) (lead : String)
    (resume : Option Continuation) :
    scanWithin n c lead resume = .error .stepLimit ∨
      scanWithin n c lead resume = scan c lead resume := by
  rcases hn : (startState lead resume).after c n with _ | s
  · exact .inr (scan_of_ends hn).symm
  · unfold scanWithin scan scanBy
    rcases c.text.isEmpty with _ | _
    · refine .inl ?_
      have hrun := run_stepLimit_of_after hn
      unfold startState at hrun
      simp only [hrun, Bool.false_eq_true, if_false]
      rfl
    · exact .inr rfl

end Highlighting.Scan
