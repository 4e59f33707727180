-- Whether each lexeme is taken once. A mode may return a lexeme, so that it is
-- found again, and it may take it: push it to the buffer, where it skips, or
-- leave it to the mode around it. A mode that does both doubles the lexeme, and
-- that is all that can go wrong with the text of a scan. A text that was doubled
-- stays so: the text of a scan only grows, so a scan gives its text back exactly
-- if no step of it takes a lexeme twice.
import Highlighting.Proofs.EndChains

namespace Highlighting.Scan

section

variable {c : Context} {s s' : State}

/-! ## One step -/

theorem length_account_step (hc : c.PutsOut) {o : Outcome} (h : s.step c = .ok o) :
    (o.state.account c).length = (s.account c).length + (s.takenTwice c).length := by
  rw [account_step hc h, ← account_ahead hc.toSound]
  simp only [String.length_append]
  omega

/-- A step leaves all the text as it is exactly if it takes no lexeme twice. -/
theorem account_step_eq_iff (hc : c.PutsOut) {o : Outcome} (h : s.step c = .ok o) :
    o.state.account c = s.account c ↔ s.takenTwice c = "" := by
  constructor
  · intro heq
    have hlength := length_account_step hc h
    rw [heq] at hlength
    exact String.length_eq_zero_iff.mp (by omega)
  · intro hnone
    rw [account_step hc h, hnone, String.append_empty, account_ahead hc.toSound]

/-! ## A run -/

theorem length_account_run (hc : c.PutsOut) {n : Nat} (h : State.run c n s = .ok s') :
    (s.account c).length ≤ (s'.account c).length := by
  induction n generalizing s with
  | zero => cases h
  | succ n ih =>
    rw [State.run] at h
    obtain ⟨o, ho, h⟩ := bind_eq_ok.mp h
    have hstep := length_account_step hc ho
    rcases o with s₁ | s₁
    · have hrest := ih h
      simp only [Outcome.state] at hstep
      omega
    · cases h
      simp only [Outcome.state] at hstep
      omega

/-- The states of a run are the first one and those of the run from the next one. -/
theorem forall_after_iff {P : State → Prop} {s₁ : State} (h : s.step c = .ok (.next s₁)) :
    (∀ n sₙ, s.after c n = some sₙ → P sₙ) ↔
      P s ∧ ∀ n sₙ, s₁.after c n = some sₙ → P sₙ := by
  constructor
  · intro hall
    exact ⟨hall 0 s rfl, fun n sₙ hn => hall (n + 1) sₙ ((after_of_step h n).trans hn)⟩
  · rintro ⟨hfirst, hrest⟩ n sₙ hn
    cases n with
    | zero =>
      cases hn
      exact hfirst
    | succ n => exact hrest n sₙ ((after_of_step h n).symm.trans hn)

theorem forall_after_iff_of_done {P : State → Prop} {s₁ : State}
    (h : s.step c = .ok (.done s₁)) : (∀ n sₙ, s.after c n = some sₙ → P sₙ) ↔ P s := by
  constructor
  · intro hall
    exact hall 0 s rfl
  · intro hfirst n sₙ hn
    cases n with
    | zero =>
      cases hn
      exact hfirst
    | succ n =>
      rw [Nat.add_comm, after_add] at hn
      simp [State.after, State.next?, h] at hn

/-- A run leaves all the text as it is exactly if none of its steps takes a lexeme
twice. -/
theorem account_run_eq_iff (hc : c.PutsOut) {n : Nat} (h : State.run c n s = .ok s') :
    s'.account c = s.account c ↔
      ∀ k sₖ, s.after c k = some sₖ → sₖ.takenTwice c = "" := by
  induction n generalizing s with
  | zero => cases h
  | succ n ih =>
    rw [State.run] at h
    obtain ⟨o, ho, h⟩ := bind_eq_ok.mp h
    have hstep := account_step_eq_iff hc ho
    rcases o with s₁ | s₁
    · rw [forall_after_iff ho, ← ih h, ← hstep]
      constructor
      · -- Nothing is lost again, so all the text is the same in between.
        intro heq
        have hlength := length_account_step hc ho
        have hrest := length_account_run hc h
        rw [heq] at hrest
        have hnone : s.takenTwice c = "" := by
          apply String.length_eq_zero_iff.mp
          simp only [Outcome.state] at hlength
          omega
        have hfirst := hstep.mpr hnone
        exact ⟨hfirst, heq.trans hfirst.symm⟩
      · rintro ⟨hfirst, hrest⟩
        exact hrest.trans hfirst
    · cases h
      rw [forall_after_iff_of_done ho]
      exact hstep

/-- A scan gives its text back exactly if no step of it takes a lexeme twice. -/
theorem scanWithin_text_iff (hc : c.PutsOut) {steps : Nat} {lead : String}
    {resume : Option Continuation} {r : Scanned} (h : scanWithin steps c lead resume = .ok r) :
    Node.textOfAll r.nodes = c.slice 0 c.text.size ↔
      ∀ n s, (startState lead resume).after c n = some s → s.takenTwice c = "" := by
  rcases scanWithin_eq_ok.mp h with ⟨hempty, rfl⟩ | ⟨_, s, hrun, hfinish⟩
  · have htext : c.text = #[] := Array.isEmpty_iff.mp hempty
    have hslice : ∀ i j, c.slice i j = "" := by simp [Context.slice, Regex.slice, htext]
    have hnone : ∀ s : State, s.takenTwice c = "" := by
      intro s
      unfold State.takenTwice
      split
      · rfl
      · split
        · rfl
        · split <;> simp [hslice]
    simp [hslice, hnone]
  · rw [finish_account hc hfinish, ← account_run_eq_iff hc hrun]
    have hstart : (startState lead resume).account c = c.slice 0 c.text.size := by
      simp [State.account, State.written, startState]
    rw [hstart]

theorem scanUnder_text_iff (hc : c.PutsOut) {steps : Option Nat} {lead : String}
    {resume : Option Continuation} {r : Scanned} (h : scanUnder steps c lead resume = .ok r) :
    Node.textOfAll r.nodes = c.slice 0 c.text.size ↔
      ∀ n s, (startState lead resume).after c n = some s → s.takenTwice c = "" := by
  obtain ⟨n, hn⟩ := exists_scanWithin steps c lead resume
  exact scanWithin_text_iff hc (hn.symm.trans h)

end

/-! ## Where lexemes are doubled -/

/-- In every state of a scan, and whatever the flags of the modes, a step keeps all the
text and doubles no more than the lexeme of its terminator, which it does exactly if a
mode that begins there, or the innermost mode where one ends, returns the lexeme and
takes it too. A scan gives its text back exactly if no step of it does so. -/
theorem lexemes_are_doubled_where_returned_and_taken (r : Registry) (g : Grammar) (c : Context)
    (hg : g.CompilesTo c.language) (hpatterns : ∀ m ∈ c.language.modes, m.StaysInText)
    (limits : Option Limits) (lead : String) (n : Nat) (hhost : c.host = hostWithin limits r lead n)
    (hembedded : ∀ l, r.Embeds c.language l → r.KeepsTextFrom l) :
    (∀ (s : State) (o : Outcome), s.step c = .ok o →
      s.account c =
        s.written ++ c.slice s.cursor (s.ahead c) ++ c.slice (s.ahead c) c.text.size ∧
      o.state.account c =
        s.written ++ c.slice s.cursor (s.ahead c) ++ s.takenTwice c ++
          c.slice (s.ahead c) c.text.size ∧
      (o.state.account c = s.account c ↔ s.takenTwice c = "")) ∧
    (∀ steps resume scanned, scanUnder steps c lead resume = .ok scanned →
      (Node.textOfAll scanned.nodes = c.slice 0 c.text.size ↔
        ∀ n s, (startState lead resume).after c n = some s → s.takenTwice c = "")) := by
  have hc : c.PutsOut := putsOut_of_compile hg hpatterns hhost hembedded
  refine ⟨?_, ?_⟩
  · intro s o h
    exact ⟨(account_ahead hc.toSound).symm, account_step hc h, account_step_eq_iff hc h⟩
  · intro steps resume scanned h
    exact scanUnder_text_iff hc h

/-- A language with a mode from `a` to `b`. -/
def between (m : Mode) : Grammar where
  root := { contains := [.inline { m with begins := some "a", ends := some "b" }] }

/-- A mode that returns the `a` at which it begins, and that leaves it to the text in
front of it. The scan finds an `a` and a `b`, and puts out two of the one. -/
theorem returned_and_excluded_is_doubled :
    ∃ l o r, compile (between { returnBegin := true, excludeBegin := true }) = .ok l ∧
      (startState "" none).step (scanOf l "ab") = .ok o ∧
      (startState "" none).takenTwice (scanOf l "ab") = "a" ∧
      (startState "" none).account (scanOf l "ab") = "ab" ∧
      o.state.account (scanOf l "ab") = "aab" ∧
      scanWithin 9 (scanOf l "ab") "" none = .ok r ∧ Node.textOfAll r.nodes ≠ "ab" := by
  have hrun : ((compileWithin (between { returnBegin := true, excludeBegin := true }) 9).toOption.any
      fun l =>
      l.modes.all (fun m => !m.keeps) && ((startState "" none).step (scanOf l "ab")).isOk &&
        (startState "" none).takenTwice (scanOf l "ab") == "a" &&
        (startState "" none).ahead (scanOf l "ab") == 0 &&
        (scanWithin 9 (scanOf l "ab") "" none).isOk) = true := by
    decide +kernel
  obtain ⟨l, hl, hrun⟩ := compile_of_any hrun
  simp only [Bool.and_eq_true, beq_iff_eq] at hrun
  obtain ⟨⟨⟨⟨hkeeps, hstep⟩, htwice⟩, hahead⟩, hscan⟩ := hrun
  obtain ⟨o, ho⟩ := exists_of_isOk hstep
  obtain ⟨r, hr⟩ := exists_of_isOk hscan
  obtain ⟨hsteps, hscans⟩ := lexemes_are_doubled_where_returned_and_taken {} _ (scanOf l "ab")
    (compilesTo_iff.mpr hl) (CompiledMode.staysInText_of_all hkeeps) none "" 0 rfl
    fun _ h => absurd h not_embeds_empty
  obtain ⟨haccount, haccount', _⟩ := hsteps _ o ho
  have hwritten : (startState "" none).written = "" := by decide +kernel
  have hcursor : (startState "" none).cursor = 0 := rfl
  have htext : (scanOf l "ab").slice 0 (scanOf l "ab").text.size = "ab" := slice_toArray _ rfl
  rw [hahead, hwritten, hcursor, Context.slice_self, htext] at haccount haccount'
  rw [htwice] at haccount'
  refine ⟨l, o, r, hl, ho, htwice, by simpa using haccount, by simpa using haccount', hr, ?_⟩
  intro hback
  have hnone := (hscans (some 9) none r hr).mp (hback.trans htext.symm) 0 _ rfl
  rw [htwice] at hnone
  exact absurd hnone (by decide)

/-- A step of the scan of the text does not keep all the text. -/
def Doubles (g : Grammar) (text : String) : Prop :=
  ∃ l n s o, compile g = .ok l ∧ (startState "" none).after (scanOf l text) n = some s ∧
    s.step (scanOf l text) = .ok o ∧ o.state.account (scanOf l text) ≠ s.account (scanOf l text)

/-- Whether step `n` does not keep all the text. -/
def doubles (g : Grammar) (text : String) (n : Nat) : Bool :=
  (compileWithin g 9).toOption.any fun l => ((startState "" none).after (scanOf l text) n).any fun s =>
    (s.step (scanOf l text)).toOption.any fun o =>
      o.state.account (scanOf l text) != s.account (scanOf l text)

theorem doubles_of_eq_true {g : Grammar} {text : String} (n : Nat) (h : doubles g text n = true) :
    Doubles g text := by
  obtain ⟨l, hl, h⟩ := compile_of_any h
  obtain ⟨s, hs, h⟩ := (Option.any_eq_true _ _).mp h
  obtain ⟨o, ho, h⟩ := toOption_any_eq_true.mp h
  exact ⟨l, n, s, o, hl, hs, ho, by simpa using h⟩

/-- Each way to return a lexeme and to take it doubles the lexeme. -/
theorem lexemes_that_are_doubled :
    Doubles (between { returnBegin := true, skip := true }) "ab" ∧
    Doubles (between { returnBegin := true, excludeBegin := true }) "ab" ∧
    Doubles (between { returnEnd := true, skip := true }) "ab" ∧
    Doubles (between { returnEnd := true, excludeEnd := true }) "ab" := by
  refine ⟨doubles_of_eq_true 0 ?_, doubles_of_eq_true 0 ?_, doubles_of_eq_true 1 ?_,
    doubles_of_eq_true 1 ?_⟩
  all_goals decide +kernel

end Highlighting.Scan
