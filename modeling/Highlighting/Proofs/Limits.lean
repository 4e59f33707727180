-- Highlighting within limits. Neither the depth of references nor the number of steps is bounded
-- when a text is highlighted, so there are grammars and texts for which nothing comes out. What
-- is said here holds with limits on both and without: `none` stands for no limits, and is
-- highlighting itself. Any one scan is the scan with some bound on its steps, and any one
-- grammar is compiled as at some depth.
import Highlighting.Highlighter
import Highlighting.Proofs.CompileDepths
import Highlighting.Proofs.StepCounts

namespace Highlighting

/-! ## Limits -/

/-- How deep compiling may go, and how many steps a scan of so many characters may
take. -/
structure Limits where
  depth : Nat
  steps : Nat → Nat

/-- Limits that small examples keep to. -/
def Limits.few : Limits := ⟨9, fun _ => 99⟩

/-- The failure is that of a limit. -/
def HighlightError.OfLimits (e : HighlightError) : Prop := e = .stepLimit ∨ e = .grammar .tooDeep

theorem not_ofLimits_illegal (lexeme mode : String) :
    ¬ (HighlightError.illegal lexeme mode).OfLimits := by
  rintro (h | h) <;> cases h

theorem not_ofLimits_unknownLanguage (name : String) :
    ¬ (HighlightError.unknownLanguage name).OfLimits := by
  rintro (h | h) <;> cases h

/-- What comes out was not stopped. -/
theorem not_ofLimits_of_ok {α : Type} {a : α} (e : HighlightError)
    (h : (Except.ok a : Except HighlightError α) = .error e) : ¬ e.OfLimits := by
  cases h

/-- Compiles a grammar within limits, if there are any. -/
def compileUnder : Option Limits → Grammar → Except GrammarError CompiledLanguage
  | none, g => compile g
  | some k, g => compileWithin g k.depth

/-- Scans with at most so many steps, if they are limited. -/
def Scan.scanUnder : Option Nat → Context → String → Option Continuation →
    Except HighlightError Scanned
  | none => scan
  | some n => scanWithin n

section

variable {limits : Option Limits} {g : Grammar}

theorem exists_compileWithin (limits : Option Limits) (g : Grammar) :
    ∃ depth, compileUnder limits g = compileWithin g depth := by
  rcases limits with _ | k
  · obtain ⟨depth, hdepth⟩ := exists_compileWithin_eq_compile g
    exact ⟨depth, (hdepth depth (Nat.le_refl _)).symm⟩
  · exact ⟨k.depth, rfl⟩

theorem compilesTo_of_under {l : CompiledLanguage} (h : compileUnder limits g = .ok l) :
    g.CompilesTo l := by
  obtain ⟨depth, hdepth⟩ := exists_compileWithin limits g
  exact ⟨depth, hdepth.symm.trans h⟩

/-- A limit on the depth of references is too small, or makes no difference. -/
theorem compileUnder_tooDeep_or_eq (limits : Option Limits) (g : Grammar) :
    compileUnder limits g = .error .tooDeep ∨ compileUnder limits g = compile g := by
  rcases limits with _ | k
  · exact .inr rfl
  · by_cases hdeep : compileWithin g k.depth = .error .tooDeep
    · exact .inl hdeep
    · exact .inr (compile_of_within hdeep).symm

end

namespace Scan

/-- From some number on, any number of steps gives what a scan gives without a limit; within
one there is nothing to choose. -/
theorem exists_scanWithin_from (steps : Option Nat) (c : Context) (lead : String)
    (resume : Option Continuation) :
    ∃ n, ∀ k, n ≤ k → scanUnder steps c lead resume = scanWithin (steps.getD k) c lead resume := by
  rcases steps with _ | m
  · obtain ⟨n, hn⟩ := exists_scanWithin_eq_scan c lead resume
    exact ⟨n, fun k hk => (hn k hk).symm⟩
  · exact ⟨0, fun _ _ => rfl⟩

theorem exists_scanWithin (steps : Option Nat) (c : Context) (lead : String)
    (resume : Option Continuation) :
    ∃ n, scanUnder steps c lead resume = scanWithin n c lead resume := by
  obtain ⟨n, hn⟩ := exists_scanWithin_from steps c lead resume
  exact ⟨_, hn n (Nat.le_refl _)⟩

end Scan

/-! ## Highlighting and detecting -/

/-- Highlights as `highlightWith` does, within limits. -/
def highlightWithin (limits : Option Limits) (r : Registry) (lead : String)
    (host : Option Scan.Host) (name text : String) (illegals : Illegals)
    (resume : Option Scan.Continuation) :
    Except HighlightError (Highlighted × Option Scan.Continuation) :=
  match r.resolve? name with
  | none => .error (.unknownLanguage name)
  | some language =>
    match compileUnder limits language.grammar with
    | .error e => .error (.grammar e)
    | .ok compiled =>
      let context : Scan.Context := { host, language := compiled, text := text.toList.toArray, illegals }
      match Scan.scanUnder (limits.map (·.steps context.text.size)) context lead resume with
      | .ok scanned =>
        .ok ({ language := some name, relevance := scanned.relevance, nodes := scanned.nodes },
          some scanned.continuation)
      | .error (.illegal lexeme mode) =>
        if illegals = .fallback then .ok ({ Highlighted.plain text with illegal := true }, none)
        else .error (.illegal lexeme mode)
      | .error e => .error e

/-- Detects as `detectWith` does, within limits. -/
def detectWithin (limits : Option Limits) (r : Registry) (lead : String) (host : Option Scan.Host)
    (text : String) (candidates : Option (List String)) : Except HighlightError Highlighted := do
  let names := (candidates.getD r.names).filter r.isRegistered
  let ranking ← names.foldlM (fun (k : Ranking) name => do
    let (h, _) ← highlightWithin limits r lead host name text .fallback none
    return k.add { h with language := some name }) { best := .plain text }
  return ranking.result

/-- The host of a scan that may still embed so many levels, within limits. -/
def hostWithin (limits : Option Limits) (r : Registry) (lead : String) : Nat → Option Scan.Host
  | 0 => none
  | n + 1 => some {
      isRegistered := r.isRegistered
      embed := fun name text resume => do
        let (h, continuation) ←
          highlightWithin limits r lead (hostWithin limits r lead n) name text .ignore resume
        return { relevance := h.relevance, nodes := h.nodes, continuation }
      detect := fun candidates text => do
        let subset := if candidates.isEmpty then none else some candidates
        let h ← detectWithin limits r lead (hostWithin limits r lead n) text subset
        return h.language.map fun name =>
          (name, { relevance := h.relevance, nodes := h.nodes, continuation := none }) }

theorem highlightWithin_none (r : Registry) (lead : String) (host : Option Scan.Host)
    (name text : String) (illegals : Illegals) (resume : Option Scan.Continuation) :
    highlightWithin none r lead host name text illegals resume =
      highlightWith r lead host name text illegals resume := by
  unfold highlightWithin highlightWith
  rcases r.resolve? name with _ | language
  · rfl
  · simp only [Language.compiled_eq]
    rfl

theorem detectWithin_none (r : Registry) (lead : String) (host : Option Scan.Host)
    (text : String) (candidates : Option (List String)) :
    detectWithin none r lead host text candidates = detectWith r lead host text candidates := by
  unfold detectWithin detectWith
  simp only [highlightWithin_none]

theorem hostWithin_none (r : Registry) (lead : String) (n : Nat) :
    hostWithin none r lead n = hostFor r lead n := by
  induction n with
  | zero => rfl
  | succ n ih =>
    unfold hostWithin hostFor
    simp only [highlightWithin_none, detectWithin_none, ih]

namespace Registry

/-- Highlights as `Registry.highlight` does, within limits. -/
def highlightWithin (r : Registry) (limits : Option Limits) (name text : String)
    (o : HighlightOptions) : Except HighlightError Highlighted :=
  (Highlighting.highlightWithin limits r o.lead (hostWithin limits r o.lead embeddingLimit) name text
    o.illegals none).map (·.1)

/-- Detects as `Registry.detect` does, within limits. -/
def detectWithin (r : Registry) (limits : Option Limits) (text : String) (o : DetectOptions) :
    Except HighlightError Highlighted :=
  Highlighting.detectWithin limits r o.lead (hostWithin limits r o.lead embeddingLimit) text o.subset

variable (r : Registry)

theorem highlightWithin_none (name text : String) (o : HighlightOptions) :
    r.highlightWithin none name text o = r.highlight name text o := by
  unfold Registry.highlightWithin Registry.highlight hostAt
  rw [Highlighting.highlightWithin_none, hostWithin_none, Nat.sub_zero]

theorem detectWithin_none (text : String) (o : DetectOptions) :
    r.detectWithin none text o = r.detect text o := by
  unfold Registry.detectWithin Registry.detect hostAt
  rw [Highlighting.detectWithin_none, hostWithin_none, Nat.sub_zero]

theorem scan_eq (lead : String) (depth : Nat) (l : CompiledLanguage) (text : String)
    (illegals : Illegals) (resume : Option Scan.Continuation) :
    r.scan lead depth l text illegals resume = Scan.scanUnder none
      { host := hostWithin none r lead (embeddingLimit - depth), language := l,
        text := text.toList.toArray, illegals } lead resume := by
  rw [hostWithin_none]
  rfl

end Registry

/-! ## What highlighting makes of a scan -/

/-- What highlighting makes of a scan. -/
def resultOf (name text : String) (illegals : Illegals) :
    Except HighlightError Scan.Scanned →
      Except HighlightError (Highlighted × Option Scan.Continuation)
  | .ok scanned =>
    .ok ({ language := some name, relevance := scanned.relevance, nodes := scanned.nodes },
      some scanned.continuation)
  | .error (.illegal lexeme mode) =>
    if illegals = .fallback then .ok ({ Highlighted.plain text with illegal := true }, none)
    else .error (.illegal lexeme mode)
  | .error e => .error e

theorem resultOf_eq_error {name text : String} {illegals : Illegals}
    {x : Except HighlightError Scan.Scanned} {e : HighlightError}
    (h : resultOf name text illegals x = .error e) : x = .error e := by
  unfold resultOf at h
  split at h
  · cases h
  · split at h
    · cases h
    · rw [Except.error.inj h]
  · rw [Except.error.inj h]

theorem highlightWithin_eq {limits : Option Limits} {r : Registry} {name : String}
    {language : Language} {l : CompiledLanguage} (hlanguage : r.resolve? name = some language)
    (hl : compileUnder limits language.grammar = .ok l) (lead : String) (host : Option Scan.Host)
    (text : String) (illegals : Illegals) (resume : Option Scan.Continuation) :
    highlightWithin limits r lead host name text illegals resume =
      resultOf name text illegals (Scan.scanUnder (limits.map (·.steps text.toList.toArray.size))
        { host, language := l, text := text.toList.toArray, illegals } lead resume) := by
  rcases hscan : Scan.scanUnder (limits.map (·.steps text.toList.toArray.size))
      { host, language := l, text := text.toList.toArray, illegals } lead resume with e | scanned
  · cases e <;> simp only [highlightWithin, resultOf, hlanguage, hl, hscan]
  · simp only [highlightWithin, resultOf, hlanguage, hl, hscan]

/-! ## Computations that go the same way -/

namespace Scan

/-- Two computations go the same way: they fail with the same error, or their
results are related. -/
inductive SameWay {α β : Type} (S : α → β → Prop) :
    Except HighlightError α → Except HighlightError β → Prop
  | error (e : HighlightError) : SameWay S (.error e) (.error e)
  | ok {a : α} {b : β} (h : S a b) : SameWay S (.ok a) (.ok b)

theorem SameWay.bind {α β α' β' : Type} {S : α → β → Prop} {T : α' → β' → Prop}
    {x : Except HighlightError α} {y : Except HighlightError β} {f : α → Except HighlightError α'}
    {f' : β → Except HighlightError β'} (h : SameWay S x y)
    (hf : ∀ a b, S a b → SameWay T (f a) (f' b)) : SameWay T (x >>= f) (y >>= f') := by
  cases h with
  | error e => exact .error e
  | ok h => exact hf _ _ h

theorem SameWay.mono {α β : Type} {S T : α → β → Prop} {x : Except HighlightError α}
    {y : Except HighlightError β} (h : SameWay S x y) (hST : ∀ a b, S a b → T a b) :
    SameWay T x y := by
  cases h with
  | error e => exact .error e
  | ok h => exact .ok (hST _ _ h)

theorem SameWay.eq {α : Type} {x y : Except HighlightError α} (h : SameWay Eq x y) : x = y := by
  cases h with
  | error e => rfl
  | ok h => rw [h]

theorem SameWay.refl {α : Type} (x : Except HighlightError α) : SameWay Eq x x := by
  rcases x with e | a
  · exact .error e
  · exact .ok rfl

end Scan

/-! ## Registered languages -/

theorem named?_mem {r : Registry} {key : String} {language : Language}
    (h : r.named? key = some language) : ∃ p ∈ r.languages, p.2 = language := by
  obtain ⟨before, after, heq, _⟩ := List.lookup_eq_some_iff.mp h
  exact ⟨(key, language), heq ▸ List.mem_append_right before List.mem_cons_self, rfl⟩

theorem resolve?_mem {r : Registry} {name : String} {language : Language}
    (h : r.resolve? name = some language) : ∃ p ∈ r.languages, p.2 = language := by
  unfold Registry.resolve? at h
  simp only at h
  rcases hn : r.named? (Unicode.lower name) with _ | l
  · rw [hn] at h
    obtain ⟨key, _, hkey⟩ := Option.bind_eq_some_iff.mp h
    exact named?_mem hkey
  · rw [hn] at h
    cases h
    exact named?_mem hn

theorem addAliases_languages (r : Registry) (name : String) (aliases : List String) :
    (r.addAliases name aliases).languages = r.languages := by
  unfold Registry.addAliases
  induction aliases generalizing r with
  | nil => rfl
  | cons other aliases ih =>
    rw [List.foldl_cons, ih]
    unfold Registry.bind
    split <;> rfl

/-- The names under which a mode looks for an embedded language. -/
def Registry.namesOf (r : Registry) : SubLanguage → List String
  | .name name => [name]
  | .candidates names => if names.isEmpty then r.names else names

end Highlighting
