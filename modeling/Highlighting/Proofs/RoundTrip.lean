-- Highlighting gives its text back. Whatever the language, the policy for
-- illegal text and the depth of embedding, the text of the nodes is the text
-- that was asked for, and so is that of the runner-up of a detection.
import Highlighting.Proofs.AlikeHosts
import Highlighting.Proofs.ScanText

namespace Highlighting

/-! ## What is asked of the languages -/

/-- No mode takes a lexeme twice, and the patterns of all modes stay in the
text. -/
structure CompiledLanguage.KeepsText (l : CompiledLanguage) : Prop where
  takesOnce : ∀ m ∈ l.modes, m.TakesOnce
  staysInText : ∀ m ∈ l.modes, m.StaysInText

/-- A language keeps its text if a look at each of its modes says so. -/
theorem CompiledLanguage.keepsText_of_all {l : CompiledLanguage}
    (h : l.modes.all (fun m => decide m.TakesOnce && !m.keeps) = true) : l.KeepsText := by
  have hmode : ∀ m ∈ l.modes, m.TakesOnce ∧ m.keeps = false := by
    intro m hm
    simpa using Array.all_eq_true_iff_forall_mem.mp h m hm
  exact ⟨fun m hm => (hmode m hm).1, fun m hm => CompiledMode.staysInText_of_not_keeps (hmode m hm).2⟩

/-- Every language that compiles keeps its text. -/
def Registry.KeepsText (r : Registry) : Prop :=
  ∀ p ∈ r.languages, ∀ l, p.2.grammar.CompilesTo l → l.KeepsText

/-- A grammar that keeps its text may be registered. -/
theorem register_keepsText {r : Registry} (hr : r.KeepsText) (name : String) {g : Grammar}
    (hg : ∀ l, g.CompilesTo l → l.KeepsText) : (r.register name g).KeepsText := by
  intro p hp l hl
  unfold Registry.register at hp
  simp only at hp
  rw [addAliases_languages] at hp
  rcases List.mem_cons.mp hp with rfl | hp
  · exact hg l hl
  · exact hr p (List.mem_filter.mp hp).1 l hl

/-! ## One scan -/

theorem slice_toArray (c : Scan.Context) {text : String} (h : c.text = text.toList.toArray) :
    c.slice 0 c.text.size = text := by
  simp [Scan.Context.slice, Regex.slice, h]

/-- A language that compiled and a host that gives texts back are all that a
scan needs. -/
theorem context_keepsText {g : Grammar} {l : CompiledLanguage} (hg : g.CompilesTo l)
    (hl : l.KeepsText) {host : Option Scan.Host}
    (hhost : ∀ h, host = some h → ∀ m ∈ l.modes, ∀ language,
      m.dispatch = .embedded language → h.KeepsTextAs language)
    (text : Array Char) (illegals : Illegals) :
    Scan.Context.KeepsText { host, language := l, text, illegals } where
  host := hhost
  takesOnce := hl.takesOnce
  staysInText := hl.staysInText
  refersTo := let ⟨_, h⟩ := hg; compileWithin_refersTo h

/-- With or without a limit on its steps. -/
theorem scanUnder_text {c : Scan.Context} (hc : c.KeepsText) {steps : Option Nat} {lead : String}
    {resume : Option Scan.Continuation} {s : Scan.Scanned}
    (h : Scan.scanUnder steps c lead resume = .ok s) :
    Node.textOfAll s.nodes = c.slice 0 c.text.size := by
  obtain ⟨n, hn⟩ := Scan.exists_scanWithin steps c lead resume
  exact Scan.scanWithin_text hc (hn.symm.trans h)

theorem scan_text {g : Grammar} {l : CompiledLanguage} (hg : g.CompilesTo l)
    (hl : l.KeepsText) {host : Option Scan.Host} (hhost : ∀ h, host = some h → h.KeepsText)
    {steps : Option Nat} {text lead : String} {illegals : Illegals}
    {resume : Option Scan.Continuation} {s : Scan.Scanned}
    (h : Scan.scanUnder steps { host, language := l, text := text.toList.toArray, illegals } lead
      resume = .ok s) :
    Node.textOfAll s.nodes = text := by
  have hmodes : ∀ h, host = some h → ∀ m ∈ l.modes, ∀ language,
      m.dispatch = .embedded language → h.KeepsTextAs language :=
    fun h hh _ _ language _ => (hhost h hh).as language
  rw [scanUnder_text (context_keepsText hg hl hmodes _ _) h]
  exact slice_toArray _ rfl

/-! ## One language -/

/-- The nodes give back a text, and so do those of the runner-up. -/
structure Highlighted.GivesBack (h : Highlighted) (text : String) : Prop where
  first : h.text = text
  second : ∀ second, h.secondBest = some second → second.text = text

section

variable {limits : Option Limits} {r : Registry} {host : Option Scan.Host}

/-- Highlighting gives its text back if the scan of the language does. -/
theorem highlightWithin_text_of_scan {lead name text : String} {illegals : Illegals}
    {resume : Option Scan.Continuation} {res : Highlighted × Option Scan.Continuation}
    (hscan : ∀ language l steps s, r.resolve? name = some language →
      language.grammar.CompilesTo l → Scan.scanUnder steps
        { host, language := l, text := text.toList.toArray, illegals } lead resume = .ok s →
      Node.textOfAll s.nodes = text)
    (h : highlightWithin limits r lead host name text illegals resume = .ok res) :
    res.1.text = text ∧ res.1.secondBest = none := by
  unfold highlightWithin at h
  split at h
  · cases h
  · rename_i language hlanguage
    split at h
    · cases h
    · rename_i compiled hcompiled
      simp only at h
      split at h
      · rename_i scanned hscanned
        cases h
        exact ⟨hscan language compiled _ scanned hlanguage (compilesTo_of_under hcompiled) hscanned, rfl⟩
      · split at h
        · cases h
          exact ⟨by simp [Highlighted.text, Highlighted.plain], rfl⟩
        · cases h
      · cases h

theorem highlightWithin_text (hr : r.KeepsText) (hhost : ∀ h, host = some h → h.KeepsText)
    {lead name text : String} {illegals : Illegals} {resume : Option Scan.Continuation}
    {res : Highlighted × Option Scan.Continuation}
    (h : highlightWithin limits r lead host name text illegals resume = .ok res) :
    res.1.text = text ∧ res.1.secondBest = none := by
  refine highlightWithin_text_of_scan ?_ h
  intro language l steps s hlanguage hcompiled hscanned
  obtain ⟨p, hp, rfl⟩ := resolve?_mem hlanguage
  exact scan_text hcompiled (hr p hp l hcompiled) hhost hscanned

end

/-! ## Detection -/

/-- The ranked results give the text back. The runner-up counts once it has a
language. -/
structure Ranking.GivesBack (k : Ranking) (text : String) : Prop where
  best : k.best.text = text
  single : k.best.secondBest = none
  second : k.second.language.isSome → k.second.text = text

theorem add_givesBack {k : Ranking} {h : Highlighted} {text : String} (hk : k.GivesBack text)
    (ht : h.text = text) (hs : h.secondBest = none) : (k.add h).GivesBack text := by
  unfold Ranking.add
  split
  · exact ⟨ht, hs, fun _ => hk.best⟩
  · split
    · exact ⟨hk.best, hk.single, fun _ => ht⟩
    · exact hk

theorem result_givesBack {k : Ranking} {text : String} (hk : k.GivesBack text) :
    k.result.GivesBack text := by
  unfold Ranking.result
  split
  · rename_i hsome
    refine ⟨hk.best, ?_⟩
    intro second hsecond
    cases hsecond
    exact hk.second hsome
  · refine ⟨hk.best, ?_⟩
    intro second hsecond
    rw [hk.single] at hsecond
    cases hsecond

section

variable {limits : Option Limits} {r : Registry} {host : Option Scan.Host}

/-- A detection gives its text back if each candidate does. -/
theorem detectWithin_text_of_candidates {lead text : String} {candidates : Option (List String)}
    {res : Highlighted}
    (hcandidate : ∀ name ∈ candidates.getD r.names, ∀ res,
      highlightWithin limits r lead host name text .fallback none = .ok res →
      res.1.text = text ∧ res.1.secondBest = none)
    (h : detectWithin limits r lead host text candidates = .ok res) : res.GivesBack text := by
  unfold detectWithin at h
  simp only at h
  obtain ⟨ranking, hfold, h⟩ := bind_eq_ok.mp h
  cases h
  apply result_givesBack
  have hplain : Ranking.GivesBack { best := .plain text } text :=
    ⟨by simp [Highlighted.text, Highlighted.plain], rfl, fun h => by cases h⟩
  have hnames : ∀ name ∈ (candidates.getD r.names).filter r.isRegistered,
      name ∈ candidates.getD r.names := fun name hname => (List.mem_filter.mp hname).1
  -- Each candidate is put in its rank, and the ranking gives the text back all along.
  generalize (candidates.getD r.names).filter r.isRegistered = names at hfold hnames
  generalize ({ best := .plain text } : Ranking) = start at hfold hplain
  induction names generalizing start with
  | nil =>
    cases hfold
    exact hplain
  | cons name names ih =>
    rw [List.foldlM_cons] at hfold
    obtain ⟨k, hk, hfold⟩ := bind_eq_ok.mp hfold
    obtain ⟨⟨found, continuation⟩, hname, hk⟩ := bind_eq_ok.mp hk
    cases hk
    obtain ⟨ht, hs⟩ := hcandidate name (hnames name List.mem_cons_self) _ hname
    exact ih (fun other hother => hnames other (List.mem_cons_of_mem _ hother)) _ hfold
      (add_givesBack hplain ht hs)

theorem detectWithin_text (hr : r.KeepsText) (hhost : ∀ h, host = some h → h.KeepsText)
    {lead text : String} {candidates : Option (List String)} {res : Highlighted}
    (h : detectWithin limits r lead host text candidates = .ok res) : res.GivesBack text :=
  detectWithin_text_of_candidates (fun _ _ _ hname => highlightWithin_text hr hhost hname) h

end

/-! ## Embedding -/

/-- At every depth, what is embedded gives its text back. -/
theorem hostWithin_keepsText {r : Registry} (hr : r.KeepsText) (limits : Option Limits)
    (lead : String) (n : Nat) : ∀ h, hostWithin limits r lead n = some h → h.KeepsText := by
  induction n with
  | zero =>
    intro h hh
    cases hh
  | succ n ih =>
    intro h hh
    cases hh
    refine ⟨?_, ?_⟩
    · intro name text resume e he
      obtain ⟨res, hres, he⟩ := bind_eq_ok.mp he
      cases he
      exact (highlightWithin_text hr ih hres).1
    · intro names text name e he
      obtain ⟨res, hres, he⟩ := bind_eq_ok.mp he
      rw [pure_eq_ok, Option.map_eq_some_iff] at he
      obtain ⟨found, _, he⟩ := he
      cases he
      exact (detectWithin_text hr ih hres).first

/-! ## The three operations -/

section

variable {limits : Option Limits} {r : Registry} (hr : r.KeepsText) {text : String}

include hr

theorem highlightWithin_givesBack {name : String} {o : HighlightOptions} {h : Highlighted}
    (hh : r.highlightWithin limits name text o = .ok h) : h.GivesBack text := by
  obtain ⟨res, hres, rfl⟩ := map_eq_ok.mp hh
  obtain ⟨ht, hs⟩ := highlightWithin_text hr (hostWithin_keepsText hr _ _ _) hres
  refine ⟨ht, ?_⟩
  intro second hsecond
  rw [hs] at hsecond
  cases hsecond

theorem detectWithin_givesBack {o : DetectOptions} {h : Highlighted}
    (hh : r.detectWithin limits text o = .ok h) : h.GivesBack text :=
  detectWithin_text hr (hostWithin_keepsText hr _ _ _) hh

end

/-- Highlighting as a language, detection, and a scan, fresh or resumed, all
give back the text that they were asked for, within any limits and without. -/
theorem highlighting_gives_the_text_back (r : Registry) (hr : r.KeepsText) (text : String) :
    (∀ limits name o h, r.highlightWithin limits name text o = .ok h → h.GivesBack text) ∧
    (∀ limits o h, r.detectWithin limits text o = .ok h → h.GivesBack text) ∧
    (∀ limits steps lead n g l illegals resume s, compile g = .ok l → l.KeepsText →
      Scan.scanUnder steps
        { host := hostWithin limits r lead n, language := l, text := text.toList.toArray, illegals }
        lead resume = .ok s → Node.textOfAll s.nodes = text) ∧
    (∀ name o h, r.highlight name text o = .ok h → h.GivesBack text) ∧
    (∀ o h, r.detect text o = .ok h → h.GivesBack text) ∧
    (∀ lead depth g l illegals resume s, compile g = .ok l → l.KeepsText →
      r.scan lead depth l text illegals resume = .ok s → Node.textOfAll s.nodes = text) := by
  refine ⟨fun _ _ _ _ => highlightWithin_givesBack hr, fun _ _ _ => detectWithin_givesBack hr,
    fun _ _ _ _ _ _ _ _ _ hg hl =>
      scan_text (compilesTo_iff.mpr hg) hl (hostWithin_keepsText hr _ _ _), ?_, ?_, ?_⟩
  · intro name o h hh
    rw [← r.highlightWithin_none] at hh
    exact highlightWithin_givesBack hr hh
  · intro o h hh
    rw [← r.detectWithin_none] at hh
    exact detectWithin_givesBack hr hh
  · intro lead depth g l illegals resume s hg hl hs
    rw [r.scan_eq] at hs
    exact scan_text (compilesTo_iff.mpr hg) hl (hostWithin_keepsText hr _ _ _) hs

/-- A language in which angle brackets quote. -/
def quoting : Grammar :=
  { root := { contains := [.inline { className := some "s", begins := some "<", ends := some ">" }] } }

theorem quoting_compiles : ∃ l, compileWithin quoting Limits.few.depth = .ok l ∧ l.KeepsText := by
  have hall : (compileWithin quoting Limits.few.depth).toOption.any
      (fun l => l.modes.all fun m => decide m.TakesOnce && !m.keeps) = true := by decide +kernel
  obtain ⟨l, hl, hmodes⟩ := toOption_any_eq_true.mp hall
  exact ⟨l, hl, CompiledLanguage.keepsText_of_all hmodes⟩

theorem quoting_keepsText (l : CompiledLanguage) (h : quoting.CompilesTo l) : l.KeepsText := by
  obtain ⟨l', hl', hkeeps⟩ := quoting_compiles
  rw [compilesTo_iff, compile_of_compileWithin hl'] at h
  cases h
  exact hkeeps

/-- Two languages that quote alike. -/
def quotingTwice : Registry := (({} : Registry).register "q" quoting).register "p" quoting

theorem quotingTwice_keepsText : quotingTwice.KeepsText := by
  have hempty : Registry.KeepsText {} := fun p hp => absurd hp (by simp)
  exact register_keepsText (register_keepsText hempty "q" quoting_keepsText) "p" quoting_keepsText

theorem quoting_gives_the_text_back :
    (∃ h, quotingTwice.highlight "q" "a<b>" {} = .ok h ∧ h.GivesBack "a<b>") ∧
    (∃ h second, quotingTwice.detect "a<b>" {} = .ok h ∧ h.secondBest = some second ∧
      h.text = "a<b>" ∧ second.text = "a<b>") ∧
    (∃ l s, compile quoting = .ok l ∧ quotingTwice.scan "" 0 l "a<b>" .ignore none = .ok s ∧
      Node.textOfAll s.nodes = "a<b>") := by
  obtain ⟨_, _, _, hhighlight, hdetect, hscan⟩ :=
    highlighting_gives_the_text_back quotingTwice quotingTwice_keepsText "a<b>"
  refine ⟨?_, ?_, ?_⟩
  · have hok : (quotingTwice.highlightWithin (some .few) "q" "a<b>" {}).isOk = true := by
      decide +kernel
    obtain ⟨h, hq⟩ := exists_of_isOk hok
    have hq' := highlight_of_within hq not_ofLimits_of_ok
    exact ⟨h, hq', hhighlight "q" {} h hq'⟩
  · have hok : ((quotingTwice.detectWithin (some .few) "a<b>" {}).toOption.any
        (·.secondBest.isSome)) = true := by decide +kernel
    obtain ⟨h, hd, hsome⟩ := toOption_any_eq_true.mp hok
    obtain ⟨second, hsecond⟩ := Option.isSome_iff_exists.mp hsome
    have hd' := detect_of_within hd not_ofLimits_of_ok
    have hgives := hdetect {} h hd'
    exact ⟨h, second, hd', hsecond, hgives.first, hgives.second second hsecond⟩
  · have hok : ((compileWithin quoting Limits.few.depth).toOption.any fun l =>
        (Scan.scanUnder (some 9) { host := hostWithin (some .few) quotingTwice "" embeddingLimit
                                   language := l, text := "a<b>".toList.toArray
                                   illegals := .ignore } "" none).isOk) = true := by decide +kernel
    obtain ⟨l, hl, hok⟩ := toOption_any_eq_true.mp hok
    obtain ⟨s, hs⟩ := exists_of_isOk hok
    have hs' : quotingTwice.scan "" 0 l "a<b>" .ignore none = .ok s :=
      scan_of_within hs not_ofLimits_of_ok
    have hl' := compile_of_compileWithin hl
    exact ⟨l, s, hl', hs', hscan "" 0 quoting l .ignore none s hl' (quoting_keepsText l ⟨_, hl⟩) hs'⟩

end Highlighting
