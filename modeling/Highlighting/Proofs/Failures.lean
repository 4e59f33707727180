-- How highlighting can fail. A scan makes no pattern that cannot be read, and
-- asks for no language that is not there. Where every grammar compiles, only
-- illegal text that is to be raised is left, and steps that run out or never end.
import Highlighting.Proofs.LiteralPatterns
import Highlighting.Proofs.RoundTrip

namespace Highlighting

namespace Scan

/-! ## How a scan can fail -/

/-- All failures of the host are among `P`, as long as it is asked for names that it
knows. -/
structure Host.FailsBy (h : Host) (P : HighlightError → Prop) : Prop where
  embed : ∀ name text resume e, h.isRegistered name = true →
    h.embed name text resume = .error e → P e
  detect : ∀ names text e, h.detect names text = .error e → P e

/-- How a scan can fail whose host fails by `P`. -/
inductive Failure (P : HighlightError → Prop) (p : Illegals) : HighlightError → Prop
  | host {e : HighlightError} (he : P e) : Failure P p e
  | illegal (hp : p ≠ .ignore) (lexeme mode : String) : Failure P p (.illegal lexeme mode)
  | stepLimit : Failure P p .stepLimit

/-- The end of a mode that ends as it began is always found. -/
theorem boundEnd_ok (c : Context) (m : CompiledMode) (lexeme : String) :
    ∃ bound, boundEnd c m lexeme = .ok bound := by
  unfold boundEnd
  split
  · rw [literal_eq_ok]
    exact ⟨_, rfl⟩
  · exact ⟨none, rfl⟩

/-- A scan fails in its run, or where what is left of the text is put out. -/
theorem scanWithin_eq_error {c : Context} {steps : Nat} {lead : String}
    {resume : Option Continuation} {e : HighlightError}
    (h : scanWithin steps c lead resume = .error e) :
    State.run c steps (startState lead resume) = .error e ∨ ∃ s : State, s.flush c = .error e := by
  unfold scanWithin scanBy at h
  simp only at h
  split at h
  · cases h
  · rcases bind_eq_error.mp h with h | ⟨s, _, h⟩
    · exact .inl h
    · unfold State.finish at h
      rcases bind_eq_error.mp h with h | ⟨_, _, h⟩
      · exact .inr ⟨_, h⟩
      · cases h

section

variable {c : Context} {P : HighlightError → Prop} (hhost : ∀ h, c.host = some h → h.FailsBy P)

include hhost

/-- Only the host makes embedding fail. -/
theorem flushEmbedded_fails {s : State} {language : SubLanguage} {weight : Nat} {text : String}
    {e : HighlightError} (h : s.flushEmbedded c language weight text = .error e) : P e := by
  unfold State.flushEmbedded at h
  simp only at h
  split at h
  · cases h
  · rename_i host hc
    split at h
    · split at h
      · rename_i hname
        rcases bind_eq_error.mp h with h | ⟨_, _, h⟩
        · exact (hhost host hc).embed _ _ _ _ hname h
        · cases h
      · cases h
    · rcases bind_eq_error.mp h with h | ⟨o, _, h⟩
      · exact (hhost host hc).detect _ _ _ h
      · rcases o with _ | ⟨name, found⟩
        · cases h
        · cases h

theorem flush_fails {s : State} {e : HighlightError} (h : s.flush c = .error e) : P e := by
  unfold State.flush at h
  simp only at h
  split at h
  · cases h
  · split at h
    · cases h
    · cases h
    · split at h
      · cases h
      · exact flushEmbedded_fails hhost h

theorem takeBegin_fails {s : State} {m : CompiledMode} {lexeme : String} {e : HighlightError}
    (h : s.takeBegin c m lexeme = .error e) : P e := by
  unfold State.takeBegin at h
  split at h
  · cases h
  · rcases bind_eq_error.mp h with h | ⟨_, _, h⟩
    · exact flush_fails hhost h
    · cases h

theorem takeEnd_fails {s : State} {m : CompiledMode} {lexeme : String} {e : HighlightError}
    (h : s.takeEnd c m lexeme = .error e) : P e := by
  unfold State.takeEnd at h
  split at h
  · cases h
  · rcases bind_eq_error.mp h with h | ⟨_, _, h⟩
    · exact flush_fails hhost h
    · cases h

theorem beginMode_fails {s : State} {id : Nat} {t : Terminator} {e : HighlightError}
    (h : s.beginMode c id t = .error e) : P e := by
  rcases hm : c.language.mode? id with _ | m
  · unfold State.beginMode at h
    rw [hm] at h
    cases h
  · obtain ⟨bound, hbound⟩ := boundEnd_ok c m (c.slice t.start t.stop)
    rw [beginMode_eq s c id t m hm, hbound, ok_bind_eq] at h
    rcases bind_eq_error.mp h with h | ⟨_, _, h⟩
    · exact takeBegin_fails hhost h
    · cases h

theorem endModes_fails {s : State} {n : Nat} {t : Terminator} {e : HighlightError}
    (h : s.endModes c n t = .error e) : P e := by
  rcases hm : s.top? c with _ | m
  · unfold State.endModes at h
    rw [hm] at h
    cases h
  · rw [endModes_eq s c n t m hm] at h
    rcases bind_eq_error.mp h with h | ⟨_, _, h⟩
    · exact takeEnd_fails hhost h
    · cases h

/-- A step fails by the host or at illegal text. -/
theorem step_fails {s : State} {e : HighlightError} (h : s.step c = .error e) :
    P e ∨ c.illegals ≠ .ignore ∧ ∃ lexeme mode, e = .illegal lexeme mode := by
  unfold State.step at h
  split at h
  · rw [handle_eq] at h
    split at h
    · cases h
    · split at h
      · rcases bind_eq_error.mp h with h | ⟨_, _, h⟩
        · exact .inl (beginMode_fails hhost h)
        · cases h
      · split at h
        · rcases bind_eq_error.mp h with h | ⟨_, _, h⟩
          · exact .inl (endModes_fails hhost h)
          · cases h
        · cases h
      · split at h
        · cases h
        · rename_i hstrict
          cases h
          exact .inr ⟨hstrict, _, _, rfl⟩
  · cases h

theorem run_fails {n : Nat} {s : State} {e : HighlightError} (h : State.run c n s = .error e) :
    Failure P c.illegals e := by
  rcases run_eq_error h with ⟨_, _, _, hstep⟩ | ⟨rfl, _⟩
  · rcases step_fails hhost hstep with he | ⟨hp, lexeme, mode, rfl⟩
    · exact .host he
    · exact .illegal hp lexeme mode
  · exact .stepLimit

/-- A scan fails by its host, at illegal text, or when its steps run out. -/
theorem scanWithin_fails {steps : Nat} {lead : String} {resume : Option Continuation}
    {e : HighlightError} (h : scanWithin steps c lead resume = .error e) :
    Failure P c.illegals e := by
  rcases scanWithin_eq_error h with h | ⟨s, h⟩
  · exact run_fails hhost h
  · exact .host (flush_fails hhost h)

theorem scanUnder_fails {steps : Option Nat} {lead : String} {resume : Option Continuation}
    {e : HighlightError} (h : scanUnder steps c lead resume = .error e) :
    Failure P c.illegals e := by
  obtain ⟨n, hn⟩ := exists_scanWithin steps c lead resume
  exact scanWithin_fails hhost (hn.symm.trans h)

end

end Scan

/-! ## How highlighting can fail -/

/-- How highlighting as a language can fail whose embedded languages fail by `P`. -/
inductive Failure (limits : Option Limits) (r : Registry) (P : HighlightError → Prop) (name : String)
    (p : Illegals) : HighlightError → Prop
  | unknownLanguage (hname : r.resolve? name = none) : Failure limits r P name p (.unknownLanguage name)
  | grammar {language : Language} {cause : GrammarError} (hname : r.resolve? name = some language)
      (hcompile : compileUnder limits language.grammar = .error cause) :
      Failure limits r P name p (.grammar cause)
  | embedded {e : HighlightError} (he : P e) : Failure limits r P name p e
  | illegal (hp : p = .raise) (lexeme mode : String) : Failure limits r P name p (.illegal lexeme mode)
  | stepLimit : Failure limits r P name p .stepLimit

section

variable {limits : Option Limits} {r : Registry} {P : HighlightError → Prop} {lead text : String}
  {host : Option Scan.Host} (hhost : ∀ h, host = some h → h.FailsBy P)

include hhost

theorem highlightWithin_fails {name : String} {p : Illegals} {resume : Option Scan.Continuation}
    {e : HighlightError} (h : highlightWithin limits r lead host name text p resume = .error e) :
    Failure limits r P name p e := by
  unfold highlightWithin at h
  split at h
  · rename_i hname
    cases h
    exact .unknownLanguage hname
  · rename_i language hname
    split at h
    · rename_i cause hcompile
      cases h
      exact .grammar hname hcompile
    · simp only at h
      split at h
      · cases h
      · rename_i lexeme mode hscan
        split at h
        · cases h
        · rename_i hfallback
          cases h
          cases Scan.scanUnder_fails hhost hscan with
          | host he => exact .embedded he
          | illegal hp =>
            refine .illegal ?_ lexeme mode
            cases p with
            | ignore => exact absurd rfl hp
            | fallback => exact absurd rfl hfallback
            | raise => rfl
      · rename_i hother hscan
        cases h
        cases Scan.scanUnder_fails hhost hscan with
        | host he => exact .embedded he
        | illegal hp lexeme mode => exact absurd rfl (hother lexeme mode)
        | stepLimit => exact .stepLimit

/-- Detection fails as one of the candidates does. -/
theorem detectWithin_fails {candidates : Option (List String)} {e : HighlightError}
    (h : detectWithin limits r lead host text candidates = .error e) :
    ∃ name, r.isRegistered name = true ∧ Failure limits r P name .fallback e := by
  unfold detectWithin at h
  simp only at h
  rcases bind_eq_error.mp h with h | ⟨_, _, h⟩
  · have hnames : ∀ name ∈ (candidates.getD r.names).filter r.isRegistered,
        r.isRegistered name = true := fun name hname => (List.mem_filter.mp hname).2
    generalize (candidates.getD r.names).filter r.isRegistered = names at h hnames
    generalize ({ best := .plain text } : Ranking) = start at h
    induction names generalizing start with
    | nil => cases h
    | cons name names ih =>
      rw [List.foldlM_cons] at h
      rcases bind_eq_error.mp h with h | ⟨k, _, h⟩
      · rcases bind_eq_error.mp h with h | ⟨_, _, h⟩
        · exact ⟨name, hnames name List.mem_cons_self, highlightWithin_fails hhost h⟩
        · cases h
      · exact ih (fun name' hname' => hnames name' (List.mem_cons_of_mem name hname')) k h
  · cases h

end

/-- What is embedded, at whatever depth, fails by `P` if every failure of a language
that is not scanned strictly is one: a scan embeds registered names only, and none of
them strictly. -/
theorem hostWithin_failsBy {limits : Option Limits} {r : Registry} {P : HighlightError → Prop}
    (hP : ∀ name p e, r.isRegistered name = true → p ≠ .raise → Failure limits r P name p e → P e)
    (lead : String) (n : Nat) : ∀ h, hostWithin limits r lead n = some h → h.FailsBy P := by
  induction n with
  | zero =>
    intro h hh
    cases hh
  | succ n ih =>
    intro h hh
    cases hh
    refine ⟨?_, ?_⟩
    · intro name text resume e hname he
      rcases bind_eq_error.mp he with he | ⟨_, _, he⟩
      · exact hP name .ignore e hname (by decide) (highlightWithin_fails ih he)
      · cases he
    · intro names text e he
      rcases bind_eq_error.mp he with he | ⟨_, _, he⟩
      · obtain ⟨name, hname, hfailure⟩ := detectWithin_fails ih he
        exact hP name .fallback e hname (by decide) hfailure
      · cases he

/-! ## Registries whose grammars compile -/

/-- Every grammar compiles within the limits. -/
def Registry.Compiles (r : Registry) (limits : Option Limits) : Prop :=
  ∀ p ∈ r.languages, ∃ l, compileUnder limits p.2.grammar = .ok l

/-- Some scan was stopped by the limit on its steps, or without one never ends. -/
def isStopped {α : Type} : Except HighlightError α → Bool
  | .error .stepLimit => true
  | _ => false

theorem ne_stepLimit {α : Type} {x : Except HighlightError α} {e : HighlightError}
    (h : isStopped x = false) (hx : x = .error e) : e ≠ .stepLimit := by
  rintro rfl
  rw [hx] at h
  cases h

section

variable {limits : Option Limits} {r : Registry} (hr : r.Compiles limits)

include hr

/-- Under a name that is registered, a language is found and it compiles. -/
theorem Failure.of_compiles {name : String} {p : Illegals} {e : HighlightError}
    (hname : r.isRegistered name = true) (h : Failure limits r (· = .stepLimit) name p e) :
    e = .stepLimit ∨ p = .raise ∧ ∃ lexeme mode, e = .illegal lexeme mode := by
  cases h with
  | unknownLanguage hnone =>
    rw [Registry.isRegistered, hnone] at hname
    cases hname
  | grammar hsome hcompile =>
    obtain ⟨q, hq, rfl⟩ := resolve?_mem hsome
    obtain ⟨l, hl⟩ := hr q hq
    rw [hl] at hcompile
    cases hcompile
  | embedded he => exact .inl he
  | illegal hp lexeme mode => exact .inr ⟨hp, lexeme, mode, rfl⟩
  | stepLimit => exact .inl rfl

/-- Only raising fails for another reason than its steps. -/
theorem Failure.eq_stepLimit {name : String} {p : Illegals} {e : HighlightError}
    (hname : r.isRegistered name = true) (hp : p ≠ .raise)
    (h : Failure limits r (· = .stepLimit) name p e) : e = .stepLimit := by
  rcases h.of_compiles hr hname with he | ⟨hraise, _⟩
  · exact he
  · exact absurd hraise hp

theorem hostWithin_stops (lead : String) (n : Nat) :
    ∀ h, hostWithin limits r lead n = some h → h.FailsBy (· = .stepLimit) :=
  hostWithin_failsBy (fun _ _ _ hname hp hfailure => hfailure.eq_stepLimit hr hname hp) lead n

end

/-- Where every grammar compiles, an operation that is not stopped gives a result:
highlighting as a registered language, except that raising may fail at illegal text,
and detection among any candidates. A scan within them, at whatever depth and from
wherever it goes on, fails at illegal text only, and only if it is strict. -/
theorem only_illegal_text_fails (limits : Option Limits) (r : Registry) (hr : r.Compiles limits) :
    (∀ name text o, r.isRegistered name = true →
      isStopped (r.highlightWithin limits name text o) = false →
      (∃ h, r.highlightWithin limits name text o = .ok h) ∨
      o.illegals = .raise ∧ ∃ lexeme mode,
        r.highlightWithin limits name text o = .error (.illegal lexeme mode)) ∧
    (∀ text o, isStopped (r.detectWithin limits text o) = false →
      ∃ h, r.detectWithin limits text o = .ok h) ∧
    (∀ steps lead n language text illegals resume,
      let scanned := Scan.scanUnder steps
        { host := hostWithin limits r lead n, language, text, illegals } lead resume
      isStopped scanned = false → (∃ s, scanned = .ok s) ∨
        illegals ≠ .ignore ∧ ∃ lexeme mode, scanned = .error (.illegal lexeme mode)) ∧
    (∀ name text o, r.highlightWithin none name text o = r.highlight name text o) ∧
    (∀ text o, r.detectWithin none text o = r.detect text o) ∧
    (∀ lead depth language text illegals resume,
      r.scan lead depth language text illegals resume = Scan.scanUnder none
        { host := hostWithin none r lead (embeddingLimit - depth), language,
          text := text.toList.toArray, illegals } lead resume) := by
  refine ⟨?_, ?_, ?_, r.highlightWithin_none, r.detectWithin_none, r.scan_eq⟩
  · intro name text o hname hstopped
    rcases h : r.highlightWithin limits name text o with e | found
    · have hfailure := highlightWithin_fails (hostWithin_stops hr _ _) (map_eq_error.mp h)
      rcases hfailure.of_compiles hr hname with he | ⟨hp, lexeme, mode, rfl⟩
      · exact absurd he (ne_stepLimit hstopped h)
      · exact .inr ⟨hp, lexeme, mode, rfl⟩
    · exact .inl ⟨found, rfl⟩
  · intro text o hstopped
    rcases h : r.detectWithin limits text o with e | found
    · obtain ⟨name, hname, hfailure⟩ := detectWithin_fails (hostWithin_stops hr _ _) h
      exact absurd (hfailure.eq_stepLimit hr hname (by decide)) (ne_stepLimit hstopped h)
    · exact ⟨found, rfl⟩
  · intro steps lead n language text illegals resume scanned hstopped
    rcases h : scanned with e | s
    · have hne := ne_stepLimit hstopped h
      cases Scan.scanUnder_fails (hostWithin_stops hr lead n) h with
      | host he => exact absurd he hne
      | illegal hp lexeme mode => exact .inr ⟨hp, lexeme, mode, rfl⟩
      | stepLimit => exact absurd rfl hne
    · exact .inl ⟨s, rfl⟩

/-- A language whose quotes end as they began, and hold other languages. -/
def quotingAlike : Grammar :=
  { root := { contains := [.inline {
      className := some "s", begins := some "[(*]+", endSameAsBegin := true, illegal := some "!",
      subLanguage := some (.candidates ["missing", "q"]) }] } }

/-- The languages that quote, in both ways. -/
def quotingBothWays : Registry := quotingTwice.register "f" quotingAlike

theorem quotingBothWays_compiles : quotingBothWays.Compiles none := by
  have hall : (quotingBothWays.languages.all fun p =>
      (compileWithin p.2.grammar Limits.few.depth).isOk) = true := by decide +kernel
  intro p hp
  obtain ⟨l, hl⟩ := exists_of_isOk (List.all_eq_true.mp hall p hp)
  exact ⟨l, compile_of_compileWithin hl⟩

theorem quoting_both_ways_fails_at_bangs_only :
    quotingBothWays.Compiles none ∧
    (∃ h, quotingBothWays.highlight "f" "((<b>((" ⟨"", .fallback⟩ = .ok h) ∧
    (∃ lexeme mode, quotingBothWays.highlight "f" "((!((" ⟨"", .raise⟩ =
      .error (.illegal lexeme mode)) ∧
    (∃ h, quotingBothWays.detect "((<b>((" ⟨"", some ["missing", "f"]⟩ = .ok h) := by
  have hname : quotingBothWays.isRegistered "f" = true := by decide +kernel
  have hok : (quotingBothWays.highlightWithin (some .few) "f" "((<b>((" ⟨"", .fallback⟩).isOk = true := by
    decide +kernel
  have hraise : quotingBothWays.highlightWithin (some .few) "f" "((!((" ⟨"", .raise⟩ =
      .error (.illegal "!" "s") := failure?_eq_some (by decide +kernel)
  have hfound : (quotingBothWays.detectWithin (some .few) "((<b>((" ⟨"", some ["missing", "f"]⟩).isOk =
      true := by decide +kernel
  obtain ⟨h, hh⟩ := exists_of_isOk hok
  obtain ⟨found, hd⟩ := exists_of_isOk hfound
  have hh' := highlight_of_within hh not_ofLimits_of_ok
  have hraise' := highlight_of_within hraise fun _ he => by
    cases he
    exact not_ofLimits_illegal _ _
  have hd' := detect_of_within hd not_ofLimits_of_ok
  obtain ⟨hhighlight, hdetect, _, hsame, hsame', _⟩ :=
    only_illegal_text_fails none quotingBothWays quotingBothWays_compiles
  simp only [hsame, hsame'] at hhighlight hdetect
  refine ⟨quotingBothWays_compiles, ?_, ?_, hdetect _ _ (by rw [hd']; rfl)⟩
  · rcases hhighlight "f" "((<b>((" ⟨"", .fallback⟩ hname (by rw [hh']; rfl) with h | ⟨hp, _⟩
    · exact h
    · cases hp
  · rcases hhighlight "f" "((!((" ⟨"", .raise⟩ hname (by rw [hraise']; rfl) with ⟨h, hh⟩ | ⟨_, h⟩
    · rw [hraise'] at hh
      cases hh
    · exact h

end Highlighting
