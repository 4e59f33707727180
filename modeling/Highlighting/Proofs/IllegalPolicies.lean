-- The three policies for illegal text. A scan takes the same steps under each
-- of them up to the first illegal text that it meets itself. Embedded languages
-- are never scanned strictly, so what is illegal in them does not come out. Limits,
-- or a scan that never ends, stop all three alike.
import Highlighting.Proofs.Failures

namespace Highlighting

namespace Scan

/-! ## What the policy leaves alone -/

/-- The context with another policy. -/
def Context.under (c : Context) (p : Illegals) : Context := { c with illegals := p }

section

variable (c : Context) (p : Illegals)

theorem closedBy?_under (pos : Nat) (frames : List Frame) :
    closedBy? (c.under p) pos frames = closedBy? c pos frames :=
  closedBy?_congr (show (c.under p).language = c.language from rfl) rfl pos frames

theorem leaveAll_under (s : State) (n : Nat) : s.leaveAll (c.under p) n = s.leaveAll c n := by
  induction n generalizing s with
  | zero => rfl
  | succ n ih =>
    rw [State.leaveAll, ih]
    rfl

theorem beginMode_under (s : State) (id : Nat) (t : Terminator) :
    s.beginMode (c.under p) id t = s.beginMode c id t := by
  rcases hm : c.language.mode? id with _ | m
  · have hm' : (c.under p).language.mode? id = none := hm
    unfold State.beginMode
    rw [hm, hm']
  · have hcase : (c.under p).language.caseInsensitive = c.language.caseInsensitive := rfl
    have hbound := boundEnd_congr hcase m
    have htake : ∀ lexeme, s.takeBegin (c.under p) m lexeme = s.takeBegin c m lexeme := fun _ => rfl
    have henter : ∀ (s₁ : State) bound, s₁.enter (c.under p) id bound = s₁.enter c id bound :=
      fun _ _ => rfl
    have hslice : (c.under p).slice = c.slice := rfl
    rw [beginMode_eq s c id t m hm, beginMode_eq s (c.under p) id t m hm]
    simp only [hbound, htake, henter, hslice]

theorem endModes_under (s : State) (n : Nat) (t : Terminator) :
    s.endModes (c.under p) n t = s.endModes c n t := by
  rcases hm : s.top? c with _ | m
  · have hm' : s.top? (c.under p) = none := hm
    unfold State.endModes
    rw [hm, hm']
  · rw [endModes_eq s c n t m hm, endModes_eq s (c.under p) n t m hm]
    simp only [leaveAll_under]
    rfl

theorem finish_under (s : State) : s.finish (c.under p) = s.finish c := by
  unfold State.finish
  simp only [leaveAll_under]
  rfl

end

/-! ## Meeting illegal text -/

/-- The illegal text at which a scan stands. -/
def State.illegal? (s : State) (c : Context) : Option Terminator :=
  (s.nextTerminator? c).filter fun t => t.rule == .illegal

/-- How the scan fails there if it is strict. -/
def illegalError (c : Context) (t : Terminator) (m : CompiledMode) : HighlightError :=
  .illegal (c.slice t.start t.stop) m.displayName

theorem illegal?_eq_some {s : State} {c : Context} {t : Terminator} :
    s.illegal? c = some t ↔ s.nextTerminator? c = some t ∧ t.rule = .illegal := by
  unfold State.illegal?
  rw [Option.filter_eq_some_iff, beq_iff_eq]

/-- Without illegal text the policy makes no difference. -/
theorem step_under {s : State} {c : Context} (h : s.illegal? c = none) (p q : Illegals) :
    s.step (c.under p) = s.step (c.under q) := by
  have hnext : ∀ p, s.nextTerminator? (c.under p) = s.nextTerminator? c := fun _ => rfl
  unfold State.step
  rw [hnext p, hnext q]
  rcases ht : s.nextTerminator? c with _ | t
  · rfl
  · have hrule : t.rule ≠ .illegal := by
      intro hrule
      rw [illegal?_eq_some.mpr ⟨ht, hrule⟩] at h
      cases h
    unfold State.handle
    simp only [beginMode_under, endModes_under, closedBy?_under]
    rcases hr : t.rule with id | _ | _
    · rfl
    · rfl
    · exact absurd hr hrule

theorem not_degenerate_of_illegal {s : State} {t : Terminator} (h : t.rule = .illegal) :
    s.isDegenerate t = false := by
  unfold State.isDegenerate
  rcases s.last with _ | last
  · rfl
  · simp [h]

/-- Illegal text ends a strict scan. -/
theorem step_strict {s : State} {c : Context} {t : Terminator} (h : s.illegal? c = some t)
    {p : Illegals} (hp : p ≠ .ignore) :
    ∃ m, s.top? c = some m ∧ s.step (c.under p) = .error (illegalError c t m) := by
  obtain ⟨ht, hrule⟩ := illegal?_eq_some.mp h
  obtain ⟨m, hm, _⟩ := nextTerminator?_some ht
  have ht' : s.nextTerminator? (c.under p) = some t := ht
  have hfails : s.step (c.under p) = .error (.illegal (c.slice t.start t.stop)
      (((s.top? c).map CompiledMode.displayName).getD "")) := by
    unfold State.step
    rw [ht']
    unfold State.handle
    simp only [not_degenerate_of_illegal hrule, hrule, Bool.false_eq_true, if_false]
    cases p with
    | ignore => exact absurd rfl hp
    | fallback => rfl
    | raise => rfl
  rw [hm] at hfails
  exact ⟨m, hm, hfails⟩

/-! ## Whole scans -/

/-- After `k` steps that pass over no illegal text, a scan that ignores such text
stands at the illegal text `t`. -/
structure FirstIllegal (c : Context) (s : State) (k : Nat) (sₖ : State) (t : Terminator) : Prop where
  reached : s.after (c.under .ignore) k = some sₖ
  met : sₖ.illegal? c = some t
  quiet : ∀ j sⱼ, j < k → s.after (c.under .ignore) j = some sⱼ → sⱼ.illegal? c = none

/-- No illegal text is met in the first `n` steps. -/
def Quiet (c : Context) (s : State) (n : Nat) : Prop :=
  ∀ k sₖ, k < n → s.after (c.under .ignore) k = some sₖ → sₖ.illegal? c = none

theorem quiet_or_firstIllegal (c : Context) (s : State) (n : Nat) :
    Quiet c s n ∨ ∃ k sₖ t, k < n ∧ FirstIllegal c s k sₖ t := by
  induction n with
  | zero => exact .inl fun k sₖ hk => absurd hk (Nat.not_lt_zero k)
  | succ n ih =>
    rcases ih with hquiet | ⟨k, sₖ, t, hk, hfirst⟩
    · rcases hn : s.after (c.under .ignore) n with _ | sₙ
      · refine .inl fun k sₖ hk hsₖ => ?_
        rcases Nat.lt_succ_iff_lt_or_eq.mp hk with hk | rfl
        · exact hquiet k sₖ hk hsₖ
        · rw [hn] at hsₖ
          cases hsₖ
      · rcases ht : sₙ.illegal? c with _ | t
        · refine .inl fun k sₖ hk hsₖ => ?_
          rcases Nat.lt_succ_iff_lt_or_eq.mp hk with hk | rfl
          · exact hquiet k sₖ hk hsₖ
          · rw [hn] at hsₖ
            cases hsₖ
            exact ht
        · exact .inr ⟨n, sₙ, t, Nat.lt_succ_self n, hn, ht, fun j sⱼ hj => hquiet j sⱼ hj⟩
    · exact .inr ⟨k, sₖ, t, Nat.lt_succ_of_lt hk, hfirst⟩

/-- As long as no illegal text is met, the policy makes no difference. -/
theorem run_under {c : Context} {n : Nat} {s : State} (h : Quiet c s n) (p : Illegals) :
    State.run (c.under p) n s = State.run (c.under .ignore) n s := by
  induction n generalizing s with
  | zero => rfl
  | succ n ih =>
    rw [State.run, State.run, step_under (h 0 s (Nat.succ_pos n) rfl) p .ignore]
    rcases hstep : s.step (c.under .ignore) with e | s₁ | s₁
    · rfl
    · refine ih fun k sₖ hk hsₖ => h (k + 1) sₖ (Nat.succ_lt_succ hk) ?_
      rw [after_of_step hstep]
      exact hsₖ
    · rfl

/-- A strict scan fails at the first illegal text. -/
theorem run_strict {c : Context} {k n : Nat} {s sₖ : State} {t : Terminator}
    (h : FirstIllegal c s k sₖ t) (hk : k < n) {p : Illegals} (hp : p ≠ .ignore) :
    ∃ m, sₖ.top? c = some m ∧ State.run (c.under p) n s = .error (illegalError c t m) := by
  induction k generalizing s n with
  | zero =>
    have hs : s = sₖ := Option.some.inj h.reached
    subst hs
    obtain ⟨m, hm, hstep⟩ := step_strict h.met hp
    obtain ⟨n, rfl⟩ := Nat.exists_eq_succ_of_ne_zero (Nat.ne_zero_of_lt hk)
    exact ⟨m, hm, by rw [State.run, hstep]; rfl⟩
  | succ k ih =>
    obtain ⟨n, rfl⟩ := Nat.exists_eq_succ_of_ne_zero (Nat.ne_zero_of_lt hk)
    have hquiet := h.quiet 0 s (Nat.succ_pos k) rfl
    obtain ⟨s₁, hs₁⟩ := after_of_le (Nat.succ_le_succ (Nat.zero_le k)) h.reached
    obtain ⟨s₀, hs₀, hstep⟩ := after_succ_eq_some.mp hs₁
    cases hs₀
    have hafter := after_of_step hstep
    have hfirst : FirstIllegal c s₁ k sₖ t :=
      ⟨(hafter k).symm.trans h.reached, h.met, fun j sⱼ hj hsⱼ =>
        h.quiet (j + 1) sⱼ (Nat.succ_lt_succ hj) ((hafter j).trans hsⱼ)⟩
    obtain ⟨m, hm, hrun⟩ := ih hfirst (Nat.lt_of_succ_lt_succ hk)
    refine ⟨m, hm, ?_⟩
    rw [State.run, step_under hquiet p .ignore, hstep]
    exact hrun

/-- The first illegal text of a run stops a strict scan. -/
theorem scanWithin_strict {c : Context} {lead : String} {k n : Nat} {s : State} {t : Terminator}
    (hempty : c.text.isEmpty = false) (h : FirstIllegal c (startState lead none) k s t) (hk : k < n)
    {p : Illegals} (hp : p ≠ .ignore) :
    ∃ m, s.top? c = some m ∧ scanWithin n (c.under p) lead none = .error (illegalError c t m) := by
  obtain ⟨m, hm, hrun⟩ := run_strict h hk hp
  have hempty' : (c.under p).text.isEmpty = false := hempty
  refine ⟨m, hm, ?_⟩
  unfold startState at hrun
  unfold scanWithin scanBy
  simp only [hempty', hrun, Bool.false_eq_true, if_false]
  rfl

/-- A scan that meets no illegal text does not depend on the policy. -/
theorem scanWithin_under {c : Context} {lead : String} {n : Nat}
    (h : Quiet c (startState lead none) n) (p : Illegals) :
    scanWithin n (c.under p) lead none = scanWithin n (c.under .ignore) lead none := by
  have hrun := run_under h p
  have htext : ∀ p, (c.under p).text = c.text := fun _ => rfl
  unfold startState at hrun
  unfold scanWithin scanBy
  simp only [htext, finish_under, hrun]

/-- A fresh scan that ignores illegal text meets `t` in the mode `m`, and nothing
illegal before, if it may take the steps that lead there. An empty text is not scanned
at all. -/
def MeetsIllegal (steps : Option Nat) (c : Context) (lead : String) (t : Terminator)
    (m : CompiledMode) : Prop :=
  c.text.isEmpty = false ∧ ∃ k s, (∀ n, steps = some n → k < n) ∧
    FirstIllegal c (startState lead none) k s t ∧ s.top? c = some m

section

variable {steps : Option Nat} {c : Context} {lead : String}

/-- A strict scan fails at the illegal text that is met first. -/
theorem scanUnder_strict {t : Terminator} {m : CompiledMode} (h : MeetsIllegal steps c lead t m)
    {p : Illegals} (hp : p ≠ .ignore) :
    scanUnder steps (c.under p) lead none = .error (illegalError c t m) := by
  obtain ⟨hempty, k, s, hk, hfirst, hm⟩ := h
  obtain ⟨n, hn⟩ := exists_scanWithin_from steps (c.under p) lead none
  have hlt : k < steps.getD (max n (k + 1)) := by
    rcases steps with _ | limit
    · exact Nat.lt_of_lt_of_le (Nat.lt_succ_self k) (Nat.le_max_right _ _)
    · exact hk limit rfl
  obtain ⟨m', hm', hscan⟩ := scanWithin_strict hempty hfirst hlt hp
  cases hm.symm.trans hm'
  rw [hn _ (Nat.le_max_left _ _), hscan]

theorem illegalError_unique {t t' : Terminator} {m m' : CompiledMode}
    (h : MeetsIllegal steps c lead t m) (h' : MeetsIllegal steps c lead t' m') :
    illegalError c t m = illegalError c t' m' := by
  have hstrict := scanUnder_strict h (show Illegals.raise ≠ .ignore by decide)
  rw [scanUnder_strict h' (show Illegals.raise ≠ .ignore by decide)] at hstrict
  exact (Except.error.inj hstrict).symm

theorem scanUnder_under (h : ∀ t m, ¬ MeetsIllegal steps c lead t m) (p : Illegals) :
    scanUnder steps (c.under p) lead none = scanUnder steps (c.under .ignore) lead none := by
  obtain ⟨n, hn⟩ := exists_scanWithin_from steps (c.under p) lead none
  obtain ⟨n', hn'⟩ := exists_scanWithin_from steps (c.under .ignore) lead none
  rw [hn _ (Nat.le_max_left n n'), hn' _ (Nat.le_max_right n n')]
  by_cases hempty : c.text.isEmpty = true
  · have hempty' : ∀ p, (c.under p).text.isEmpty = true := fun _ => hempty
    unfold scanWithin scanBy
    simp only [hempty', if_true]
  · rcases quiet_or_firstIllegal c (startState lead none) (steps.getD (max n n')) with
      hquiet | ⟨k, s, t, hk, hfirst⟩
    · exact scanWithin_under hquiet p
    · obtain ⟨m, hm, _⟩ := nextTerminator?_some (illegal?_eq_some.mp hfirst.met).1
      refine absurd ⟨Bool.not_eq_true _ ▸ hempty, k, s, ?_, hfirst, hm⟩ (h t m)
      rintro limit rfl
      exact hk

end

end Scan

/-! ## Errors from embedded languages -/

/-- The error is that illegal text was met. -/
def HighlightError.IsIllegal (e : HighlightError) : Prop :=
  ∃ lexeme mode, e = .illegal lexeme mode

/-- At every depth, what is embedded is not scanned strictly. -/
theorem hostWithin_tolerant (limits : Option Limits) (r : Registry) (lead : String) (n : Nat) :
    ∀ h, hostWithin limits r lead n = some h → h.FailsBy fun e => ¬ e.IsIllegal := by
  refine hostWithin_failsBy ?_ lead n
  intro name p e _ hp hfailure
  cases hfailure with
  | embedded he => exact he
  | illegal hraise => exact absurd hraise hp
  | unknownLanguage _ | grammar _ _ | stepLimit =>
    rintro ⟨_, _, he⟩
    cases he

/-- A scan that ignores illegal text does not fail there. -/
theorem Scan.not_isIllegal_of_scan {c : Scan.Context}
    (hhost : ∀ h, c.host = some h → h.FailsBy fun e => ¬ e.IsIllegal) (hignore : c.illegals = .ignore)
    {steps : Option Nat} {lead : String} {resume : Option Scan.Continuation} {e : HighlightError}
    (h : Scan.scanUnder steps c lead resume = .error e) : ¬ e.IsIllegal := by
  cases Scan.scanUnder_fails hhost h with
  | host he => exact he
  | illegal hp => exact absurd hignore hp
  | stepLimit =>
    rintro ⟨_, _, he⟩
    cases he

/-! ## The three policies -/

/-- The scan of a text with a language that is not embedded itself. -/
def Registry.outerScan (r : Registry) (limits : Option Limits) (lead : String) (l : CompiledLanguage)
    (text : String) : Scan.Context :=
  { host := hostWithin limits r lead embeddingLimit, language := l, text := text.toList.toArray,
    illegals := .ignore }

/-- The scan of a text with a language, if it ignores illegal text, meets the lexeme as the first
such text, in a mode that is displayed so. -/
def Registry.MeetsIllegal (r : Registry) (limits : Option Limits) (lead : String) (g : Grammar)
    (text lexeme mode : String) : Prop :=
  ∃ l t m, compileUnder limits g = .ok l ∧
    Scan.MeetsIllegal (limits.map (·.steps text.toList.toArray.size)) (r.outerScan limits lead l text)
      lead t m ∧
    lexeme = (r.outerScan limits lead l text).slice t.start t.stop ∧ mode = m.displayName

/-- What comes out under the three policies agrees up to the first illegal text that is met.
There raising fails, and falling back gives the text as it is. -/
structure PoliciesAgree (text : String) (outcome : Illegals → Except HighlightError Highlighted)
    (meets : String → String → Prop) : Prop where
  ok : ∀ h, outcome .raise = .ok h →
    outcome .ignore = .ok h ∧ outcome .fallback = .ok h ∧ ∀ lexeme mode, ¬ meets lexeme mode
  illegal : ∀ lexeme mode, outcome .raise = .error (.illegal lexeme mode) ↔ meets lexeme mode
  fallback : ∀ lexeme mode, meets lexeme mode → outcome .fallback = .ok {
    language := none, relevance := 0, illegal := true
    nodes := if text.isEmpty then [] else [.text text] }
  other : ∀ e, ¬ e.IsIllegal → ¬ e.OfLimits → outcome .raise = .error e →
    outcome .ignore = .error e ∧ outcome .fallback = .error e
  /-- What is stopped, or never ends, is or does so under each of them. -/
  stopped : ∀ e, e.OfLimits → outcome .raise = .error e →
    outcome .ignore = .error e ∧ outcome .fallback = .error e

theorem plain_eq (text : String) :
    Node.plain text = if text.isEmpty then [] else [.text text] := by
  unfold Node.plain Node.appendText Node.pushText
  split <;> simp

theorem resultOf_of_not_isIllegal {name text : String} {p : Illegals} {e : HighlightError}
    (he : ¬ e.IsIllegal) : resultOf name text p (.error e) = .error e := by
  cases e with
  | illegal lexeme mode => exact absurd ⟨lexeme, mode, rfl⟩ he
  | unknownLanguage _ | grammar _ | stepLimit => rfl

section

variable {limits : Option Limits} {r : Registry} {name : String} {language : Language}
  (hname : r.resolve? name = some language)

include hname

theorem highlightWithin_outer {l : CompiledLanguage}
    (hl : compileUnder limits language.grammar = .ok l) (text lead : String) (p : Illegals) :
    r.highlightWithin limits name text ⟨lead, p⟩ =
      (resultOf name text p (Scan.scanUnder (limits.map (·.steps text.toList.toArray.size))
        ((r.outerScan limits lead l text).under p) lead none)).map (·.1) := by
  unfold Registry.highlightWithin
  simp only [highlightWithin_eq hname hl]
  rfl

/-- If illegal text is met, raising fails at the first of it and falling back
gives up. If none is met, the three policies do the same. -/
theorem outcomes_cases (limits : Option Limits) (text lead : String) :
    (∃ lexeme mode, r.MeetsIllegal limits lead language.grammar text lexeme mode ∧
      r.highlightWithin limits name text ⟨lead, .raise⟩ = .error (.illegal lexeme mode) ∧
      r.highlightWithin limits name text ⟨lead, .fallback⟩ =
        .ok { Highlighted.plain text with illegal := true }) ∨
    (∀ lexeme mode, ¬ r.MeetsIllegal limits lead language.grammar text lexeme mode) ∧
      ((∃ h, ∀ p, r.highlightWithin limits name text ⟨lead, p⟩ = .ok h) ∨
        ∃ e, ¬ e.IsIllegal ∧ ∀ p, r.highlightWithin limits name text ⟨lead, p⟩ = .error e) := by
  rcases hl : compileUnder limits language.grammar with cause | l
  · refine .inr ⟨?_, .inr ⟨.grammar cause, (fun ⟨_, _, he⟩ => nomatch he), fun p => ?_⟩⟩
    · rintro lexeme mode ⟨l, _, _, hl', _⟩
      rw [hl] at hl'
      cases hl'
    · unfold Registry.highlightWithin highlightWithin
      simp only [hname, hl]
      rfl
  let c := r.outerScan limits lead l text
  let steps := limits.map (·.steps text.toList.toArray.size)
  have houtcome := highlightWithin_outer hname hl text lead
  by_cases hmeets : ∃ t m, Scan.MeetsIllegal steps c lead t m
  · obtain ⟨t, m, hmeets⟩ := hmeets
    refine .inl ⟨c.slice t.start t.stop, m.displayName, ⟨l, t, m, hl, hmeets, rfl, rfl⟩, ?_, ?_⟩
    · rw [houtcome, Scan.scanUnder_strict hmeets (by decide)]
      rfl
    · rw [houtcome, Scan.scanUnder_strict hmeets (by decide)]
      rfl
  · have hsame := Scan.scanUnder_under fun t m h => hmeets ⟨t, m, h⟩
    refine .inr ⟨?_, ?_⟩
    · rintro lexeme mode ⟨l', t, m, hl', hmeets', _⟩
      cases hl.symm.trans hl'
      exact hmeets ⟨t, m, hmeets'⟩
    rcases hscan : Scan.scanUnder steps (c.under .ignore) lead none with e | s
    · have hother : ¬ e.IsIllegal :=
        Scan.not_isIllegal_of_scan (hostWithin_tolerant limits r lead _) rfl hscan
      refine .inr ⟨e, hother, fun p => ?_⟩
      rw [houtcome, hsame p, hscan, resultOf_of_not_isIllegal hother]
      rfl
    · refine .inl ⟨{ language := some name, relevance := s.relevance, nodes := s.nodes }, fun p => ?_⟩
      rw [houtcome, hsame p, hscan]
      rfl

theorem policiesAgree_within (limits : Option Limits) (text lead : String) :
    PoliciesAgree text (fun p => r.highlightWithin limits name text ⟨lead, p⟩)
      (r.MeetsIllegal limits lead language.grammar text) := by
  rcases outcomes_cases hname limits text lead with
    ⟨lexeme, mode, hmeets, hraise, hfallback⟩ | ⟨hnone, ⟨h, hok⟩ | ⟨e, hother, herror⟩⟩
  · have hunique : ∀ lexeme' mode', r.MeetsIllegal limits lead language.grammar text lexeme' mode' →
        lexeme = lexeme' ∧ mode = mode' := by
      obtain ⟨l, t, m, hl, hmeets, rfl, rfl⟩ := hmeets
      rintro lexeme' mode' ⟨l', t', m', hl', hmeets', rfl, rfl⟩
      cases hl.symm.trans hl'
      exact HighlightError.illegal.inj (Scan.illegalError_unique hmeets hmeets')
    constructor <;> simp only [hraise, hfallback]
    · exact fun h hh => nomatch hh
    · intro lexeme' mode'
      constructor
      · intro hh
        cases hh
        exact hmeets
      · intro hmeets'
        obtain ⟨rfl, rfl⟩ := hunique lexeme' mode' hmeets'
        rfl
    · intro _ _ _
      rw [← plain_eq]
      rfl
    · intro e he _ hh
      cases hh
      exact absurd ⟨lexeme, mode, rfl⟩ he
    · intro e he hh
      cases hh
      exact absurd he (not_ofLimits_illegal lexeme mode)
  · constructor <;> simp only [hok]
    · exact fun h' hh => ⟨hh, hh, hnone⟩
    · exact fun lexeme mode => ⟨(fun hh => nomatch hh), fun hmeets => absurd hmeets (hnone _ _)⟩
    · exact fun lexeme mode hmeets => absurd hmeets (hnone _ _)
    · exact fun _ _ _ hh => nomatch hh
    · exact fun _ _ hh => nomatch hh
  · constructor <;> simp only [herror]
    · exact fun h hh => nomatch hh
    · refine fun lexeme mode => ⟨fun hh => ?_, fun hmeets => absurd hmeets (hnone _ _)⟩
      cases hh
      exact absurd ⟨lexeme, mode, rfl⟩ hother
    · exact fun lexeme mode hmeets => absurd hmeets (hnone _ _)
    · exact fun _ _ _ hh => ⟨hh, hh⟩
    · exact fun _ _ hh => ⟨hh, hh⟩

end

/-- Raising, falling back and ignoring agree up to the first illegal text that the
language itself meets. There raising fails with that text and its mode, and falling
back gives the whole text as it is. Every other failure is the same under all three. So it is
within all limits, and without. -/
theorem illegal_policies_agree (r : Registry) (name text lead : String) (language : Language)
    (hname : r.resolve? name = some language) :
    PoliciesAgree text (fun p => r.highlight name text ⟨lead, p⟩)
      (r.MeetsIllegal none lead language.grammar text) ∧
    ∀ limits, PoliciesAgree text (fun p => r.highlightWithin limits name text ⟨lead, p⟩)
      (r.MeetsIllegal limits lead language.grammar text) := by
  have hwithin := fun limits => policiesAgree_within hname limits text lead
  refine ⟨?_, hwithin⟩
  simp only [← r.highlightWithin_none]
  exact hwithin none

/-- A language in which no bang may stand between angle brackets. -/
def quotingStrictly : Grammar :=
  { root := { contains := [.inline {
      className := some "s", begins := some "<", ends := some ">", illegal := some "!" }] } }

theorem bang_is_illegal_between_brackets :
    ∃ r : Registry, ∃ language, r.resolve? "q" = some language ∧
      r.highlight "q" "a<!>" ⟨"", .raise⟩ = .error (.illegal "!" "s") ∧
      r.highlight "q" "a<!>" ⟨"", .fallback⟩ =
        .ok { nodes := [.text "a<!>"], illegal := true } ∧
      r.MeetsIllegal none "" language.grammar "a<!>" "!" "s" := by
  let r : Registry := ({} : Registry).register "q" quotingStrictly
  obtain ⟨language, hname⟩ : ∃ language, r.resolve? "q" = some language :=
    Option.isSome_iff_exists.mp (by decide +kernel)
  have hraise : r.highlightWithin (some .few) "q" "a<!>" ⟨"", .raise⟩ =
      .error (.illegal "!" "s") := failure?_eq_some (by decide +kernel)
  have hraise' : r.highlight "q" "a<!>" ⟨"", .raise⟩ = .error (.illegal "!" "s") := by
    refine highlight_of_within hraise fun e he => ?_
    cases he
    exact not_ofLimits_illegal _ _
  obtain ⟨hagree, _⟩ := illegal_policies_agree r "q" "a<!>" "" language hname
  have hmeets := (hagree.illegal "!" "s").mp hraise'
  exact ⟨r, language, hname, hraise', hagree.fallback "!" "s" hmeets, hmeets⟩

end Highlighting
