-- Results that last. Where the languages advance, limits on how deep references are followed and
-- on how many steps a scan takes do not matter once they are large enough: a scan, with all that
-- it embeds and detects, comes to one result, which is not that of a limit. So it does without
-- limits.
import Mathlib.Order.Filter.AtTopBot.Basic
import Highlighting.Proofs.AdvancingLanguages
import Highlighting.Proofs.Failures

namespace Highlighting

open Filter

/-! ## Limits that grow -/

instance : Preorder Limits where
  le k k' := k.depth ≤ k'.depth ∧ ∀ size, k.steps size ≤ k'.steps size
  le_refl k := ⟨Nat.le_refl _, fun _ => Nat.le_refl _⟩
  le_trans _ _ _ h h' := ⟨h.1.trans h'.1, fun size => (h.2 size).trans (h'.2 size)⟩

instance : IsDirectedOrder Limits where
  directed k k' :=
    ⟨⟨max k.depth k'.depth, fun size => max (k.steps size) (k'.steps size)⟩,
      ⟨Nat.le_max_left _ _, fun _ => Nat.le_max_left _ _⟩,
      ⟨Nat.le_max_right _ _, fun _ => Nat.le_max_right _ _⟩⟩

instance : Inhabited Limits := ⟨.few⟩

theorem eventually_depth (n : Nat) : ∀ᶠ k : Limits in atTop, n ≤ k.depth :=
  (eventually_ge_atTop ⟨n, fun _ => 0⟩).mono fun _ h => h.1

theorem eventually_steps (n size : Nat) : ∀ᶠ k : Limits in atTop, n ≤ k.steps size :=
  (eventually_ge_atTop ⟨0, fun _ => n⟩).mono fun _ h => h.2 size

/-- With limits large enough the result is always the same, and not that of a limit. -/
structure Lasts {α : Type} (f : Limits → Except HighlightError α) (x : Except HighlightError α) :
    Prop where
  eventually : ∀ᶠ k in atTop, f k = x
  notOfLimits : ∀ e, x = .error e → ¬ e.OfLimits

section

variable {α β : Type} {f : Limits → Except HighlightError α}

theorem lasts_ok (a : α) : Lasts (fun _ => .ok a) (.ok a) :=
  ⟨.of_forall fun _ => rfl, fun _ h => nomatch h⟩

theorem Lasts.bind {x : Except HighlightError α} {g : Limits → α → Except HighlightError β}
    (hf : Lasts f x) (hg : ∀ a, x = .ok a → ∃ y, Lasts (fun k => g k a) y) :
    ∃ y, Lasts (fun k => f k >>= g k) y := by
  rcases x with e | a
  · refine ⟨.error e, hf.eventually.mono fun k hk => ?_, fun e' he' => ?_⟩
    · rw [hk]
      rfl
    · cases he'
      exact hf.notOfLimits e rfl
  · obtain ⟨y, hy⟩ := hg a rfl
    refine ⟨y, ?_, hy.notOfLimits⟩
    filter_upwards [hf.eventually, hy.eventually] with k hk hk'
    rw [hk]
    exact hk'

theorem lasts_foldlM {γ : Type} {f : Limits → α → γ → Except HighlightError α} {names : List γ}
    (hf : ∀ name ∈ names, ∀ a, ∃ x, Lasts (fun k => f k a name) x) (a : α) :
    ∃ x, Lasts (fun k => names.foldlM (f k) a) x := by
  induction names generalizing a with
  | nil => exact ⟨.ok a, lasts_ok a⟩
  | cons name names ih =>
    simp only [List.foldlM_cons]
    obtain ⟨x, hx⟩ := hf name List.mem_cons_self a
    refine hx.bind fun b _ => ?_
    exact ih (fun name' hname' => hf name' (List.mem_cons_of_mem name hname')) b

open Classical in
/-- The result that lasts, if there is one. -/
noncomputable def lasting (f : Limits → Except HighlightError α) : Except HighlightError α :=
  if h : ∃ x, Lasts f x then h.choose else .error (.unknownLanguage "")

theorem lasting_notOfLimits {e : HighlightError} (h : lasting f = .error e) : ¬ e.OfLimits := by
  unfold lasting at h
  split at h
  · rename_i hf
    exact hf.choose_spec.notOfLimits e h
  · cases h
    exact not_ofLimits_unknownLanguage ""

theorem eventually_lasting (h : ∃ x, Lasts f x) : ∀ᶠ k in atTop, f k = lasting f := by
  unfold lasting
  rw [dif_pos h]
  exact h.choose_spec.eventually

end

/-! ## A scan under growing limits -/

namespace Scan

/-- A scan that ends in so many steps fails by its host or at illegal text. -/
theorem scanWithin_fails_of_ends {c : Context} {P : HighlightError → Prop}
    (hhost : ∀ h, c.host = some h → h.FailsBy P) {n : Nat} {lead : String}
    {resume : Option Continuation} (hends : (startState lead resume).after c n = none)
    {e : HighlightError} (h : scanWithin n c lead resume = .error e) :
    P e ∨ ∃ lexeme mode, e = .illegal lexeme mode := by
  rcases scanWithin_eq_error h with h | ⟨s, h⟩
  · rcases run_eq_error h with ⟨_, _, _, hstep⟩ | ⟨_, s, hs⟩
    · exact (step_fails hhost hstep).imp id fun hillegal => hillegal.2
    · rw [hends] at hs
      cases hs
  · exact .inl (flush_fails hhost h)

/-- A scan that ends with one host comes to a lasting result with hosts that come to answer as
that one does. -/
theorem lasts_scanWithin {c : Context} {lead : String} {hosts : Limits → Option Host}
    (hhosts : (Likeness.same lead).Hosts atTop c.language hosts c.host)
    (hhost : ∀ h, c.host = some h → h.FailsBy (¬ ·.OfLimits)) {resume : Option Continuation}
    (hends : Ends c (startState lead resume)) :
    ∃ x, Lasts (fun k => scanWithin (k.steps c.text.size) (c.hostedBy (hosts k)) lead resume) x := by
  obtain ⟨n, hn⟩ := hends
  refine ⟨scanWithin n c lead resume, ?_, ?_⟩
  · have hsteps : ∀ᶠ k : Limits in atTop,
        (Likeness.same lead).Bounds c (startState lead resume) (k.steps c.text.size) n :=
      (eventually_steps n c.text.size).mono fun k hk => .inr (.inl ⟨hk, hn⟩)
    refine (scanWithin_alike hhosts n resume _ hsteps).mono fun k hk => ?_
    exact ((hk.sameWay not_false).mono fun _ _ h => h.eq fun _ _ hns => hns).eq
  · intro e he
    rcases scanWithin_fails_of_ends hhost hn he with hnot | ⟨lexeme, mode, rfl⟩
    · exact hnot
    · exact not_ofLimits_illegal lexeme mode

end Scan

/-! ## Languages that advance with all that they embed -/

/-- The language comes from a grammar, and its scans end: its patterns stay in the text, its
modes tell their rules apart, and it advances. -/
structure CompiledLanguage.Proceeds (l : CompiledLanguage) : Prop where
  compiled : ∃ g : Grammar, g.CompilesTo l
  staysInText : ∀ m ∈ l.modes, m.StaysInText
  tellsRules : l.TellsRules
  advances : l.Advances

/-- The scans of a language and of all that can be embedded in it end, and compiling comes to an
end for every grammar that is asked for. -/
structure Registry.ProceedsFrom (r : Registry) (l : CompiledLanguage) : Prop where
  scans : ∀ l', r.Reaches l l' → l'.Proceeds
  compiling : ∀ l', r.Reaches l l' → ∀ sub ∈ l'.asks, ∀ name ∈ r.namesOf sub, ∀ language,
    r.resolve? name = some language → ∃ depth, compileWithin language.grammar depth ≠ .error .tooDeep

theorem Registry.ProceedsFrom.embedded {r : Registry} {l l' : CompiledLanguage}
    (h : r.ProceedsFrom l) (hembeds : r.MayEmbed l l') : r.ProceedsFrom l' :=
  ⟨fun l'' h'' => h.scans l'' (.head hembeds h''), fun l'' h'' => h.compiling l'' (.head hembeds h'')⟩

theorem CompiledLanguage.Proceeds.sound {c : Scan.Context} (h : c.language.Proceeds) : c.Sound := by
  obtain ⟨g, depth, hg⟩ := h.compiled
  exact ⟨h.staysInText, compileWithin_refersTo hg⟩

/-! ## Highlighting and detecting under growing limits -/

section

variable {r : Registry} {lead : String} {hosts : Limits → Option Scan.Host} {host : Option Scan.Host}

/-- The hosts come to answer as one that does not fail by limits, in all languages whose scans
end with what they embed. -/
structure HostsLast (r : Registry) (lead : String) (hosts : Limits → Option Scan.Host)
    (host : Option Scan.Host) : Prop where
  answers : ∀ l, r.ProceedsFrom l → (Scan.Likeness.same lead).Hosts atTop l hosts host
  failsBy : ∀ h, host = some h → h.FailsBy (¬ ·.OfLimits)

theorem lasts_scan (hlast : HostsLast r lead hosts host) {l : CompiledLanguage}
    (hl : r.ProceedsFrom l) (text : Array Char) (illegals : Illegals)
    (resume : Option Scan.Continuation) :
    ∃ x, Lasts (fun k => Scan.scanWithin (k.steps text.size)
      { host := hosts k, language := l, text, illegals } lead resume) x := by
  have hscans : l.Proceeds := hl.scans l .refl
  let c : Scan.Context := { host, language := l, text, illegals }
  have hends : Scan.Ends c (Scan.startState lead resume) :=
    Scan.ends_of_advances (CompiledLanguage.Proceeds.sound hscans) hscans.tellsRules hscans.advances
      (Nat.zero_le _)
  exact Scan.lasts_scanWithin (c := c) (hlast.answers l hl) hlast.failsBy hends

/-- Highlighting as a language comes to a lasting result if what the name stands for scans to an
end, or does not compile. -/
theorem lasts_highlightWithin (hlast : HostsLast r lead hosts host) {name : String}
    (hname : ∀ language, r.resolve? name = some language →
      (∃ depth, compileWithin language.grammar depth ≠ .error .tooDeep) ∧
        ∀ l, language.grammar.CompilesTo l → r.ProceedsFrom l)
    (text : String) (illegals : Illegals) (resume : Option Scan.Continuation) :
    ∃ x, Lasts (fun k => highlightWithin (some k) r lead (hosts k) name text illegals resume) x := by
  rcases hlanguage : r.resolve? name with _ | language
  · refine ⟨.error (.unknownLanguage name), .of_forall fun k => ?_, ?_⟩
    · unfold highlightWithin
      rw [hlanguage]
    · rintro e ⟨⟩
      exact not_ofLimits_unknownLanguage name
  · obtain ⟨⟨depth, hdepth⟩, hscans⟩ := hname language hlanguage
    have hcompiled : ∀ᶠ k : Limits in atTop,
        compileWithin language.grammar k.depth = compileWithin language.grammar depth :=
      (eventually_depth depth).mono fun k hk => compileWithin_of_le hk hdepth
    rcases hl : compileWithin language.grammar depth with e | l
    · refine ⟨.error (.grammar e), hcompiled.mono fun k hk => ?_, ?_⟩
      · unfold highlightWithin compileUnder
        simp only [hlanguage, hk, hl]
      · rintro e' ⟨⟩ (h | h)
        · cases h
        · exact hdepth (by rw [hl, HighlightError.grammar.inj h])
    · obtain ⟨x, hx⟩ :=
        lasts_scan hlast (hscans l ⟨depth, hl⟩) text.toList.toArray illegals resume
      refine ⟨resultOf name text illegals x, ?_, ?_⟩
      · filter_upwards [hcompiled, hx.eventually] with k hk hscan
        have hcompile : compileUnder (some k) language.grammar = .ok l := hk.trans hl
        rw [highlightWithin_eq hlanguage hcompile]
        exact congrArg _ hscan
      · exact fun e he => hx.notOfLimits e (resultOf_eq_error he)

/-- Detection comes to a lasting result if highlighting as each candidate does. -/
theorem lasts_detectWithin {text : String} {candidates : Option (List String)}
    (h : ∀ name ∈ candidates.getD r.names,
      ∃ x, Lasts (fun k => highlightWithin (some k) r lead (hosts k) name text .fallback none) x) :
    ∃ x, Lasts (fun k => detectWithin (some k) r lead (hosts k) text candidates) x := by
  have hranking : ∀ ranking : Ranking, ∃ x, Lasts (fun k =>
      ((candidates.getD r.names).filter r.isRegistered).foldlM (fun (ranked : Ranking) name => do
        let found ← highlightWithin (some k) r lead (hosts k) name text .fallback none
        return ranked.add { found.1 with language := some name }) ranking) x := by
    refine lasts_foldlM fun name hname ranking => ?_
    obtain ⟨x, hx⟩ := h name (List.mem_filter.mp hname).1
    exact hx.bind fun found _ => ⟨_, lasts_ok _⟩
  obtain ⟨x, hx⟩ := hranking { best := .plain text }
  exact hx.bind fun ranking _ => ⟨_, lasts_ok _⟩

end

/-! ## Hosts under growing limits -/

/-- The host whose answers are those that last. -/
noncomputable def lastingHost (r : Registry) (hosts : Limits → Scan.Host) : Scan.Host where
  isRegistered := r.isRegistered
  embed name text resume := lasting fun k => (hosts k).embed name text resume
  detect names text := lasting fun k => (hosts k).detect names text

theorem lastingHost_failsBy (r : Registry) (hosts : Limits → Scan.Host) :
    (lastingHost r hosts).FailsBy (¬ ·.OfLimits) :=
  ⟨fun _ _ _ _ _ h => lasting_notOfLimits h, fun _ _ _ h => lasting_notOfLimits h⟩

/-- Where the answers to a question last, almost all hosts give them. -/
theorem lastingHost_answers {r : Registry} (lead : String) {hosts : Limits → Scan.Host}
    (hregistered : ∀ k, (hosts k).isRegistered = r.isRegistered) {sub : SubLanguage}
    (hembed : ∀ name text resume, sub = .name name →
      ∃ x, Lasts (fun k => (hosts k).embed name text resume) x)
    (hdetect : ∀ names text, sub = .candidates names →
      ∃ x, Lasts (fun k => (hosts k).detect names text) x) :
    (Scan.Likeness.same lead).Answers atTop hosts (lastingHost r hosts) sub := by
  have hparts : ∀ e : Scan.Embedded, (Scan.Likeness.same lead).Parts e e := fun _ => ⟨rfl, rfl, rfl⟩
  cases sub with
  | name name =>
    refine ⟨.of_forall fun k => congrFun (hregistered k) name, fun _ => ⟨trivial, ?_⟩⟩
    exact fun text resume =>
      (eventually_lasting (hembed name text resume rfl)).mono fun k hk => hk ▸ .refl hparts _
  | candidates names =>
    refine fun text => (eventually_lasting (hdetect names text rfl)).mono fun k hk => ?_
    refine hk ▸ .refl (fun o => ?_) _
    cases o with
    | none => exact .none
    | some p => exact .some ⟨rfl, trivial, hparts p.2⟩

/-- The hosts of a registry come to answer as one host does, at whatever depth. -/
theorem hostWithin_lasts (r : Registry) (lead : String) (n : Nat) :
    ∃ host, HostsLast r lead (fun k => hostWithin (some k) r lead n) host := by
  induction n with
  | zero => exact ⟨none, fun l _ => .none, fun h hh => nomatch hh⟩
  | succ n ih =>
    obtain ⟨host, hlast⟩ := ih
    let hosts : Limits → Scan.Host := fun k => (hostWithin (some k) r lead (n + 1)).get rfl
    refine ⟨some (lastingHost r hosts), fun l hl => ?_, ?_⟩
    · refine .some fun m hm sub hsub => ?_
      have hmem : sub ∈ l.asks := mem_asks hm hsub
      have hname : ∀ name ∈ r.namesOf sub, ∀ language, r.resolve? name = some language →
          (∃ depth, compileWithin language.grammar depth ≠ .error .tooDeep) ∧
            ∀ l', language.grammar.CompilesTo l' → r.ProceedsFrom l' :=
        fun name hname language hlanguage =>
          ⟨hl.compiling l .refl sub hmem name hname language hlanguage,
            fun l' hl' => hl.embedded ⟨sub, hmem, name, hname, language, hlanguage, hl'⟩⟩
      refine lastingHost_answers lead (fun _ => rfl) ?_ ?_
      · rintro name text resume rfl
        obtain ⟨x, hx⟩ := lasts_highlightWithin hlast (hname name (List.mem_singleton_self name))
          text .ignore resume
        exact hx.bind fun p _ => ⟨_, lasts_ok _⟩
      · rintro names text rfl
        have hcandidates : ∀ name ∈ (if names.isEmpty then none else some names).getD r.names,
            ∃ x, Lasts (fun k => highlightWithin (some k) r lead (hostWithin (some k) r lead n) name text
              .fallback none) x := by
          rw [namesOf_candidates]
          exact fun name hmem => lasts_highlightWithin hlast (hname name hmem) text .fallback none
        obtain ⟨x, hx⟩ := lasts_detectWithin hcandidates
        exact hx.bind fun h _ => ⟨_, lasts_ok _⟩
    · rintro h ⟨⟩
      exact lastingHost_failsBy r hosts

/-- Scanning ends where languages advance. Whatever the text, the policy and the part that went
before, a scan with such a language takes finitely many steps, and its cursor never goes back
and never leaves the text. If all that it can embed advances too, be it the language itself
again, the scan with its embedded scans comes to one result, which is not that of a limit: to the
same within all limits that are large enough, and without limits. -/
theorem scanning_ends_where_languages_advance (r : Registry) (l : CompiledLanguage)
    (hl : r.ProceedsFrom l) (lead text : String) (illegals : Illegals)
    (resume : Option Scan.Continuation) :
    (∀ host, let c : Scan.Context := { host, language := l, text := text.toList.toArray, illegals }
      Scan.Ends c (Scan.startState lead resume) ∧
      ∀ n s s', (Scan.startState lead resume).after c n = some s → s.step c = .ok (.next s') →
        s.cursor ≤ s'.cursor ∧ s'.cursor ≤ c.text.size) ∧
    ∀ level, ∃ result, (∀ e, result = .error e → e ≠ .stepLimit ∧ e ≠ .grammar .tooDeep) ∧
      Scan.scan { host := hostFor r lead level, language := l, text := text.toList.toArray, illegals }
        lead resume = result ∧
      ∃ k₀ : Limits, ∀ k, k₀ ≤ k → Scan.scanWithin (k.steps text.length)
        { host := hostWithin (some k) r lead level, language := l, text := text.toList.toArray, illegals }
        lead resume = result := by
  have hscans : l.Proceeds := hl.scans l .refl
  refine ⟨fun host => ?_, fun level => ?_⟩
  · have hc : Scan.Context.Sound
        { host, language := l, text := text.toList.toArray, illegals } :=
      CompiledLanguage.Proceeds.sound hscans
    exact ⟨Scan.ends_of_advances hc hscans.tellsRules hscans.advances (Nat.zero_le _),
      fun n s s' _ hstep => Scan.step_cursor hc hstep⟩
  · obtain ⟨host, hlast⟩ := hostWithin_lasts r lead level
    obtain ⟨result, hresult⟩ := lasts_scan hlast hl text.toList.toArray illegals resume
    obtain ⟨k₀, hk₀⟩ := eventually_atTop.mp hresult.eventually
    refine ⟨result, fun e he => ?_, ?_, ?_⟩
    · have hnot := hresult.notOfLimits e he
      exact ⟨fun h => hnot (.inl h), fun h => hnot (.inr h)⟩
    · have hwithin : Scan.scanUnder (some _)
          { host := hostWithin (some k₀) r lead level, language := l, text := text.toList.toArray, illegals }
          lead resume = result := hk₀ k₀ (le_refl k₀)
      exact scan_of_within hwithin hresult.notOfLimits
    · refine ⟨k₀, fun k hk => ?_⟩
      have hsize : text.length = text.toList.toArray.size := String.length_toList.symm
      rw [hsize]
      exact hk₀ k hk

/-- Brackets in brackets, with a mark that begins before its sign. The text behind a bracket is
highlighted as one of two languages. -/
def bracketed : Grammar where
  definitions := [
    ("bracket", {
      className := some "b", begins := some "<", ends := some ">", illegal := some "%"
      contains := [.named "bracket", .named "mark"]
      starts := some (.inline {
        ends := some ";", returnEnd := true, subLanguage := some (.candidates ["quotes", "brackets"]) }) }),
    ("mark", { className := some "m", begins := some "(?=!)", ends := some "!" })]
  root := { contains := [.named "bracket", .named "mark"] }

/-- Quotes around the other language. -/
def quotingBrackets : Grammar :=
  { root := { contains := [.inline {
      className := some "q", begins := some "'", ends := some "'",
      subLanguage := some (.name "brackets") }, .inline { className := some "w", begins := some "w" }] } }

/-- Two languages that embed each other and themselves. -/
def bracketsAndQuotes : Registry :=
  (({} : Registry).register "brackets" bracketed).register "quotes" quotingBrackets

theorem brackets_and_quotes_come_to_a_result :
    ∃ l result, compile bracketed = .ok l ∧ bracketsAndQuotes.ProceedsFrom l ∧
      (∀ e, result = .error e → e ≠ .stepLimit ∧ e ≠ .grammar .tooDeep) ∧
      Scan.scan { host := hostFor bracketsAndQuotes "" embeddingLimit, language := l,
                  text := "!<a!>ww'!';".toList.toArray, illegals := .raise } ""
        (some ⟨[{ mode := 1 }, Scan.rootFrame]⟩) = result ∧
      ∃ k₀ : Limits, ∀ k, k₀ ≤ k → Scan.scanWithin (k.steps "!<a!>ww'!';".length)
        { host := hostWithin (some k) bracketsAndQuotes "" embeddingLimit, language := l,
          text := "!<a!>ww'!';".toList.toArray, illegals := .raise } ""
        (some ⟨[{ mode := 1 }, Scan.rootFrame]⟩) = result := by
  have hall : (bracketsAndQuotes.allPass 9 fun l =>
      l.rises id && l.joinsInStep [none, some "%"] && l.modes.all (!·.keeps)) = true := by
    decide +kernel
  have hproceeds : ∀ p ∈ bracketsAndQuotes.languages, ∀ l, p.2.grammar.CompilesTo l → l.Proceeds := by
    intro p hp l hl
    have h := check_of_allPass hall p hp l hl
    simp only [Bool.and_eq_true] at h
    exact ⟨⟨p.2.grammar, hl⟩, CompiledMode.staysInText_of_all h.2,
      CompiledLanguage.tellsRules_of_joinsInStep h.1.2, CompiledLanguage.advances_of_rises h.1.1⟩
  have hbracketed : (compileWithin bracketed 9).isOk = true := by decide +kernel
  obtain ⟨l, hl⟩ := exists_of_isOk hbracketed
  obtain ⟨p, hp, hgrammar⟩ : ∃ p ∈ bracketsAndQuotes.languages, p.2.grammar = bracketed :=
    ⟨_, List.mem_cons_of_mem _ List.mem_cons_self, rfl⟩
  have hfrom : bracketsAndQuotes.ProceedsFrom l := by
    refine ⟨fun l' h => of_reaches hproceeds ?_ h, ?_⟩
    · exact hproceeds p hp l (hgrammar ▸ ⟨9, hl⟩)
    · intro l' _ sub _ name _ language hlanguage
      obtain ⟨q, hq, rfl⟩ := resolve?_mem hlanguage
      exact ⟨9, not_tooDeep_of_allPass hall q hq⟩
  obtain ⟨result, hresult, hscan, hlasts⟩ := (scanning_ends_where_languages_advance bracketsAndQuotes l
    hfrom "" "!<a!>ww'!';" .raise (some ⟨[{ mode := 1 }, Scan.rootFrame]⟩)).2 embeddingLimit
  exact ⟨l, result, compile_of_compileWithin hl, hfrom, hresult, hscan, hlasts⟩

/-- A pattern with a named group, one that takes nothing, and a mode that returns its end. -/
def misnumbered : Grammar :=
  { root := { contains := [
      .inline { begins := some "(?<n>x)|y" },
      .inline { begins := some "()" },
      .inline { begins := some "q", ends := some "a", returnEnd := true }] } }

/-- The scan of one letter. -/
def misnumberedScan : Scan.Context where
  host := none
  language := (compileWithin misnumbered 9).toOption.getD ⟨false, #[]⟩
  text := #['a']
  illegals := .ignore

/-- Where modes do not tell their rules apart an advancing language may not suffice: joining
does not count the named group, so that the third mode begins where the second one matches. -/
theorem misnumbered_never_ends :
    compile misnumbered = .ok misnumberedScan.language ∧ misnumberedScan.language.Advances ∧
      (∀ m ∈ misnumberedScan.language.modes, m.StaysInText) ∧ misnumberedScan.language.asks = [] ∧
      ¬ Scan.Ends misnumberedScan (Scan.startState "" none) := by
  have hcompiled : compileWithin misnumbered 9 = .ok misnumberedScan.language := by decide +kernel
  have hmodes : misnumberedScan.language.modes.all (fun m =>
      !m.keeps && decide (m.dispatch = .plain ∧ m.endSameAsBegin = false)) = true := by
    decide +kernel
  have hstays : ∀ m ∈ misnumberedScan.language.modes, m.StaysInText := by
    intro m hm
    have hm' := Array.all_eq_true_iff_forall_mem.mp hmodes m hm
    simp only [Bool.and_eq_true, Bool.not_eq_true'] at hm'
    exact CompiledMode.staysInText_of_not_keeps hm'.1
  have hplain : misnumberedScan.Plain := by
    refine ⟨rfl, fun m hm => ?_⟩
    have hm' := Array.all_eq_true_iff_forall_mem.mp hmodes m hm
    simp only [Bool.and_eq_true, decide_eq_true_eq] at hm'
    exact hm'.2
  have hc : misnumberedScan.Sound :=
    ⟨hstays, compileWithin_refersTo hcompiled⟩
  have hrecurs : Scan.Recurs misnumberedScan (Scan.startState "" none) :=
    Scan.recurs_of_control 0 Scan.rootFrame [] (some ⟨0, 1, .ends⟩) 2 (show 0 < 2 by decide)
      (by decide +kernel)
  have hadvances : misnumberedScan.language.rises id = true := by decide +kernel
  exact ⟨compile_of_compileWithin hcompiled, CompiledLanguage.advances_of_rises hadvances, hstays,
    by decide +kernel, Scan.not_ends_of_recurs hc (Nat.zero_le _) (Scan.not_fails_of_plain hplain _) hrecurs⟩

end Highlighting
