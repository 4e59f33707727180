-- Which candidates a detection prefers. Its loop keeps the best two results that it has met
-- so far, and its places are filled with other things at first. All the same it gives the
-- first two of a stable sort: the more relevant result stands first, among equals the one of
-- the earlier candidate, and a result without relevance is worth nothing.
import Mathlib.Data.List.Induction
import Mathlib.Data.List.Sort
import Highlighting.Proofs.Failures

namespace Highlighting

/-! ## The ranks -/

/-- The result is at least as relevant as the other one. -/
def Highlighted.Leads (a b : Highlighted) : Prop := b.relevance ≤ a.relevance

/-- The result is more relevant than the other one. -/
def Highlighted.Beats (a b : Highlighted) : Prop := b.relevance < a.relevance

instance : DecidableRel Highlighted.Leads := fun a b =>
  inferInstanceAs (Decidable (b.relevance ≤ a.relevance))

instance : DecidableRel Highlighted.Beats := fun a b =>
  inferInstanceAs (Decidable (b.relevance < a.relevance))

open Highlighted (Leads Beats)

/-- The results that are worth anything, the most relevant first. The sort is stable: equals
stay in their order. -/
def ranked (results : List Highlighted) : List Highlighted :=
  (results.filter fun h => decide (0 < h.relevance)).mergeSort fun a b => decide (Leads a b)

/-- The first of the ranked results, with the second as its runner-up. Without any, the text
stays as it is. -/
def firstTwo (text : String) : List Highlighted → Highlighted
  | [] => .plain text
  | best :: rest => { best with secondBest := rest.head? }

/-! ## A stable sort, one result at a time -/

/-- In a sorted list, what comes first goes in front of its equals. -/
theorem orderedInsert_leads {a : Highlighted} {before after : List Highlighted}
    (hbefore : ∀ b ∈ before, ¬ Leads a b) (hafter : ∀ b ∈ after, Leads a b) :
    (before ++ after).orderedInsert Leads a = before ++ a :: after := by
  induction before with
  | nil =>
    cases after with
    | nil => rfl
    | cons b after => exact List.orderedInsert_cons_of_le _ _ (hafter b List.mem_cons_self)
  | cons b before ih =>
    rw [List.cons_append, List.orderedInsert_of_not_le _ _ (hbefore b List.mem_cons_self),
      ih fun c hc => hbefore c (List.mem_cons_of_mem _ hc), List.cons_append]

/-- The stable sort is that by insertion from the end. The results have no order of their
own, so that equals may differ. -/
theorem mergeSort_leads (results : List Highlighted) :
    (results.mergeSort fun a b => decide (Leads a b)) = results.insertionSort Leads := by
  have htrans : ∀ a b c : Highlighted, decide (Leads a b) = true → decide (Leads b c) = true →
      decide (Leads a c) = true := by
    simp only [decide_eq_true_eq]
    exact fun a b c hab hbc => Nat.le_trans hbc hab
  have htotal : ∀ a b : Highlighted, (decide (Leads a b) || decide (Leads b a)) = true := by
    simp only [Bool.or_eq_true, decide_eq_true_eq]
    exact fun a b => Nat.le_total _ _
  induction results with
  | nil => simp
  | cons a results ih =>
    obtain ⟨before, after, hsort, hrest, hbefore⟩ := List.mergeSort_cons htrans htotal a results
    have hsorted := List.pairwise_mergeSort htrans htotal (a :: results)
    rw [hsort, List.pairwise_append, List.pairwise_cons] at hsorted
    rw [List.insertionSort_cons, ← ih, hsort, hrest, orderedInsert_leads]
    · simpa using hbefore
    · simpa using hsorted.2.1.1

/-- It makes no difference whether the first or the last result is put in its place first. -/
theorem orderedInsert_comm (a h : Highlighted) (sorted : List Highlighted) :
    (sorted.orderedInsert Leads a).orderedInsert Beats h =
      (sorted.orderedInsert Beats h).orderedInsert Leads a := by
  induction sorted with
  | nil =>
    by_cases hbeats : Beats h a
    · have hleads : ¬ Leads a h := Nat.not_le_of_lt hbeats
      simp [hbeats, hleads]
    · have hleads : Leads a h := Nat.le_of_not_lt hbeats
      simp [hbeats, hleads]
  | cons b sorted ih =>
    by_cases hfirst : Leads a b <;> by_cases hlast : Beats h b
    · by_cases hbeats : Beats h a
      · have hleads : ¬ Leads a h := Nat.not_le_of_lt hbeats
        simp [hfirst, hlast, hbeats, hleads]
      · have hleads : Leads a h := Nat.le_of_not_lt hbeats
        simp [hfirst, hlast, hbeats, hleads]
    · have hbeats : ¬ Beats h a := fun hbeats => hlast (Nat.lt_of_le_of_lt hfirst hbeats)
      simp [hfirst, hlast, hbeats]
    · have hleads : ¬ Leads a h := fun hleads => hfirst (Nat.le_of_lt (Nat.lt_of_lt_of_le hlast hleads))
      simp [hfirst, hlast, hleads]
    · simp [hfirst, hlast, ih]

/-- One more result goes behind all that it does not beat. -/
theorem ranked_append_singleton (results : List Highlighted) (h : Highlighted) :
    ranked (results ++ [h]) =
      if 0 < h.relevance then (ranked results).orderedInsert Beats h else ranked results := by
  have hsort : ∀ results : List Highlighted, (results ++ [h]).insertionSort Leads =
      (results.insertionSort Leads).orderedInsert Beats h := by
    intro results
    induction results with
    | nil => rfl
    | cons a results ih =>
      rw [List.cons_append, List.insertionSort_cons, ih, List.insertionSort_cons, orderedInsert_comm]
  unfold ranked
  simp only [mergeSort_leads, List.filter_append]
  by_cases hpos : 0 < h.relevance
  · simp [hpos, hsort]
  · simp [hpos]

theorem ranked_nil : ranked [] = [] := by
  unfold ranked
  rw [List.filter_nil, mergeSort_leads]
  rfl

theorem mem_ranked {results : List Highlighted} {h : Highlighted} (hh : h ∈ ranked results) :
    h ∈ results ∧ 0 < h.relevance := by
  unfold ranked at hh
  simpa using hh

/-- The ranked results are in their order. -/
theorem ranked_pairwise (results : List Highlighted) : (ranked results).Pairwise Leads := by
  unfold ranked
  rw [mergeSort_leads]
  have htotal : Std.Total Leads := ⟨fun a b => Nat.le_total _ _⟩
  have htrans : IsTrans Highlighted Leads := ⟨fun a b c hab hbc => Nat.le_trans hbc hab⟩
  exact List.pairwise_insertionSort Leads _

/-! ## The two places -/

/-- The ranking holds the first two of the sorted results. What fills the second place when
there is no second result has no relevance and no language. -/
structure Ranking.Holds (k : Ranking) (text : String) (sorted : List Highlighted) : Prop where
  best : k.best = sorted[0]?.getD (.plain text)
  second : ∀ h, sorted[1]? = some h → k.second = h
  vacant : sorted[1]? = none → k.second.relevance = 0 ∧ k.second.language = none

theorem holds_start (text : String) : Ranking.Holds { best := .plain text } text [] :=
  ⟨rfl, fun _ h => (nomatch h), fun _ => ⟨rfl, rfl⟩⟩

/-- A result that is worth something takes its place among the first two, or none of them. -/
theorem Ranking.Holds.add {k : Ranking} {text : String} {sorted : List Highlighted}
    (hk : k.Holds text sorted) {h : Highlighted} (hpos : 0 < h.relevance) :
    (k.add h).Holds text (sorted.orderedInsert Beats h) := by
  obtain ⟨hbest, hsecond, hvacant⟩ := hk
  unfold Ranking.add
  match sorted with
  | [] =>
    -- the text itself moves to the second place, and is worth nothing there
    have hplain : k.best = .plain text := hbest
    have hless : k.best.relevance < h.relevance := by
      rw [hplain]
      exact hpos
    rw [if_pos hless, hplain]
    exact ⟨rfl, fun _ hh => (nomatch hh), fun _ => ⟨rfl, rfl⟩⟩
  | [b] =>
    have hb : k.best = b := hbest
    obtain ⟨hzero, hnone⟩ := hvacant rfl
    by_cases hbeats : Beats h b
    · rw [if_pos (by rw [hb]; exact hbeats), List.orderedInsert_cons_of_le _ _ hbeats]
      exact ⟨rfl, fun _ hh => hb.trans (Option.some.inj hh), fun hh => (nomatch hh)⟩
    · rw [if_neg (by rw [hb]; exact hbeats), if_pos (by rw [hzero]; exact hpos),
        List.orderedInsert_of_not_le _ _ hbeats]
      exact ⟨hb, fun _ hh => Option.some.inj hh, fun hh => (nomatch hh)⟩
  | b :: c :: rest =>
    have hb : k.best = b := hbest
    have hc : k.second = c := hsecond c rfl
    by_cases hbeats : Beats h b
    · rw [if_pos (by rw [hb]; exact hbeats), List.orderedInsert_cons_of_le _ _ hbeats]
      exact ⟨rfl, fun _ hh => hb.trans (Option.some.inj hh), fun hh => (nomatch hh)⟩
    · rw [if_neg (by rw [hb]; exact hbeats), List.orderedInsert_of_not_le _ _ hbeats]
      by_cases hsecond' : Beats h c
      · rw [if_pos (by rw [hc]; exact hsecond'), List.orderedInsert_cons_of_le _ _ hsecond']
        exact ⟨hb, fun _ hh => Option.some.inj hh, fun hh => (nomatch hh)⟩
      · rw [if_neg (by rw [hc]; exact hsecond'), List.orderedInsert_of_not_le _ _ hsecond']
        exact ⟨hb, fun _ hh => hc.trans (Option.some.inj hh), fun hh => (nomatch hh)⟩

theorem add_of_not_pos (k : Ranking) {h : Highlighted} (hzero : ¬ 0 < h.relevance) : k.add h = k := by
  unfold Ranking.add
  rw [if_neg (by omega), if_neg (by omega)]

/-- However many results there are, the ranking holds the first two of them. -/
theorem holds_foldl (text : String) (results : List Highlighted) :
    (results.foldl Ranking.add { best := .plain text }).Holds text (ranked results) := by
  induction results using List.reverseRecOn with
  | nil =>
    rw [ranked_nil]
    exact holds_start text
  | append_singleton results h ih =>
    rw [List.foldl_append, List.foldl_cons, List.foldl_nil, ranked_append_singleton]
    by_cases hpos : 0 < h.relevance
    · rw [if_pos hpos]
      exact ih.add hpos
    · rw [if_neg hpos, add_of_not_pos _ hpos]
      exact ih

/-- The result of a ranking that holds the first two, each of which has a language. -/
theorem Ranking.Holds.result {k : Ranking} {text : String} {sorted : List Highlighted}
    (hk : k.Holds text sorted)
    (hsorted : ∀ h ∈ sorted, h.language.isSome = true ∧ h.secondBest = none) :
    k.result = firstTwo text sorted := by
  obtain ⟨hbest, hsecond, hvacant⟩ := hk
  unfold Ranking.result
  match sorted with
  | [] =>
    rw [(hvacant rfl).2, hbest]
    rfl
  | [b] =>
    obtain ⟨language, relevance, nodes, illegal, secondBest⟩ := b
    obtain rfl : secondBest = none := (hsorted _ List.mem_cons_self).2
    rw [(hvacant rfl).2, hbest]
    rfl
  | b :: c :: rest =>
    have hb : k.best = b := hbest
    have hc : k.second = c := hsecond c rfl
    have hlanguage := (hsorted c (List.mem_cons_of_mem _ List.mem_cons_self)).1
    rw [hb, hc, if_pos hlanguage]
    rfl

/-! ## The candidates -/

/-- What highlighting as a language gives has no runner-up, and is worth nothing if it is
illegal. -/
theorem highlightWithin_alone {limits : Option Limits} {r : Registry} {lead name text : String}
    {host : Option Scan.Host} {illegals : Illegals} {resume : Option Scan.Continuation}
    {res : Highlighted × Option Scan.Continuation}
    (h : highlightWithin limits r lead host name text illegals resume = .ok res) :
    res.1.secondBest = none ∧ (res.1.illegal = true → res.1.relevance = 0) := by
  unfold highlightWithin at h
  split at h
  · cases h
  · split at h
    · cases h
    · simp only at h
      split at h
      · cases h
        exact ⟨rfl, fun h => (nomatch h)⟩
      · split at h
        · cases h
          exact ⟨rfl, fun _ => rfl⟩
        · cases h
      · cases h

/-- A candidate: the text is highlighted as it, illegal text makes it worth nothing, and it
has its name as it was given. -/
def candidateWithin (limits : Option Limits) (r : Registry) (lead : String) (host : Option Scan.Host)
    (text name : String) : Except HighlightError Highlighted :=
  (highlightWithin limits r lead host name text .fallback none).map fun found =>
    { found.1 with language := some name }

section

variable {limits : Option Limits} {r : Registry} {lead text : String} {host : Option Scan.Host}

theorem candidateWithin_ok {name : String} {h : Highlighted}
    (hh : candidateWithin limits r lead host text name = .ok h) :
    h.language = some name ∧ h.secondBest = none ∧ (h.illegal = true → h.relevance = 0) := by
  unfold candidateWithin at hh
  obtain ⟨found, hfound, rfl⟩ := map_eq_ok.mp hh
  exact ⟨rfl, highlightWithin_alone hfound⟩

/-- Every result in a row of results is that of a candidate. -/
theorem candidates_ok {names : List String} {results : List Highlighted}
    (hresults : names.mapM (candidateWithin limits r lead host text) = .ok results) :
    ∀ h ∈ results, h.language.isSome = true ∧ h.secondBest = none ∧
      (h.illegal = true → h.relevance = 0) := by
  intro h hh
  obtain ⟨name, _, hname⟩ := mapM_mem hresults hh
  obtain ⟨hlanguage, hrest⟩ := candidateWithin_ok hname
  exact ⟨by rw [hlanguage]; rfl, hrest⟩

/-- The loop of a detection ranks the results of the candidates as they come. -/
theorem foldlM_candidates (names : List String) (start : Ranking) :
    (names.foldlM (fun (ranking : Ranking) name => do
        let (h, _) ← highlightWithin limits r lead host name text .fallback none
        return ranking.add { h with language := some name }) start) =
      (names.mapM (candidateWithin limits r lead host text)).map (·.foldl Ranking.add start) := by
  induction names generalizing start with
  | nil => rfl
  | cons name names ih =>
    rw [List.foldlM_cons, List.mapM_cons]
    unfold candidateWithin at ih ⊢
    rcases highlightWithin limits r lead host name text .fallback none with e | found
    · rfl
    · have hrest := ih (start.add { found.1 with language := some name })
      simp only [Except.map, ok_bind_eq] at hrest ⊢
      rw [show (pure (start.add { found.1 with language := some name }) :
        Except HighlightError Ranking) = .ok _ from rfl, ok_bind_eq, hrest]
      rcases names.mapM _ with e | results
      · rfl
      · rfl

/-- Detection highlights the text as each registered candidate in turn, and gives the first
two of the results. The first candidate that fails makes it fail. -/
theorem detectWithin_eq (candidates : Option (List String)) :
    detectWithin limits r lead host text candidates =
      (((candidates.getD r.names).filter r.isRegistered).mapM
        (candidateWithin limits r lead host text)).map fun results => firstTwo text (ranked results) := by
  unfold detectWithin
  simp only [foldlM_candidates]
  generalize (candidates.getD r.names).filter r.isRegistered = names
  rcases hresults : names.mapM (candidateWithin limits r lead host text) with e | results
  · rfl
  · simp only [Except.map, ok_bind_eq]
    refine congrArg Except.ok ((holds_foldl text results).result fun h hh => ?_)
    obtain ⟨hlanguage, halone, _⟩ := candidates_ok hresults h (mem_ranked hh).1
    exact ⟨hlanguage, halone⟩

end


/-! ## The consequences of the order -/

/-- What the first of the ranked results is. -/
theorem firstTwo_ranked (text : String) {results : List Highlighted}
    (hresults : ∀ h ∈ results, h.language.isSome = true ∧ h.secondBest = none ∧
      (h.illegal = true → h.relevance = 0)) :
    let best := firstTwo text (ranked results)
    (best.secondBest.isSome = true ↔ 2 ≤ results.countP fun h => decide (0 < h.relevance)) ∧
    (∀ second, best.secondBest = some second → second.relevance ≤ best.relevance) ∧
    (best.language.isSome = true ↔ 0 < best.relevance) ∧ best.illegal = false := by
  have hcount : (ranked results).length = results.countP fun h => decide (0 < h.relevance) := by
    unfold ranked
    rw [List.length_mergeSort, List.countP_eq_length_filter]
  have hpairwise := ranked_pairwise results
  have hmem : ∀ h ∈ ranked results, h.language.isSome = true ∧ 0 < h.relevance ∧
      h.illegal = false := by
    intro h hh
    obtain ⟨hin, hpos⟩ := mem_ranked hh
    obtain ⟨hlanguage, _, hillegal⟩ := hresults h hin
    refine ⟨hlanguage, hpos, ?_⟩
    by_contra hne
    have := hillegal (by simpa using hne)
    omega
  rw [← hcount]
  generalize ranked results = sorted at hpairwise hmem ⊢
  match sorted with
  | [] => simp [firstTwo, Highlighted.plain]
  | [b] =>
    obtain ⟨hlanguage, hpos, hillegal⟩ := hmem b List.mem_cons_self
    simp [firstTwo, hlanguage, hpos, hillegal]
  | b :: c :: rest =>
    obtain ⟨hlanguage, hpos, hillegal⟩ := hmem b List.mem_cons_self
    have hle : c.relevance ≤ b.relevance :=
      (List.pairwise_cons.mp hpairwise).1 c List.mem_cons_self
    simp [firstTwo, hlanguage, hpos, hillegal, hle]

/-! ## Detection -/

/-- A candidate that is registered fails only if its steps run out, where every grammar
compiles. -/
theorem candidateWithin_fails {limits : Option Limits} {r : Registry} (hr : r.Compiles limits)
    {lead text name : String} {n : Nat} (hname : r.isRegistered name = true) {e : HighlightError}
    (h : candidateWithin limits r lead (hostWithin limits r lead n) text name = .error e) :
    e = .stepLimit :=
  (highlightWithin_fails (hostWithin_stops hr lead n) (map_eq_error.mp h)).eq_stepLimit hr hname
    (by decide)

/-- Detection ranks its candidates by a stable order. It gives the first of the results that
are worth anything, sorted by relevance with the earlier candidate first among equals, and
the second as the runner-up. Where every grammar compiles there are such results, unless the
steps of a candidate run out. There is a runner-up if two candidates are worth anything, and
it is not more relevant. There is a language if the relevance is not zero, and no language
that is given was given up at illegal text. -/
theorem detection_ranks_candidates_stably (limits : Option Limits) (r : Registry) (lead : String)
    (n : Nat) (text : String) (candidates : Option (List String)) :
    let host := hostWithin limits r lead n
    let names := (candidates.getD r.names).filter r.isRegistered
    let candidate := candidateWithin limits r lead host text
    detectWithin limits r lead host text candidates =
      (names.mapM candidate).map (fun results => firstTwo text (ranked results)) ∧
    (r.Compiles limits → (∀ name ∈ names, isStopped (candidate name) = false) →
      ∃ results, names.mapM candidate = .ok results) ∧
    (∀ results, names.mapM candidate = .ok results →
      let best := firstTwo text (ranked results)
      (best.secondBest.isSome = true ↔ 2 ≤ results.countP fun h => decide (0 < h.relevance)) ∧
      (∀ second, best.secondBest = some second → second.relevance ≤ best.relevance) ∧
      (best.language.isSome = true ↔ 0 < best.relevance) ∧ best.illegal = false) ∧
    (r.detect text ⟨lead, candidates⟩ =
      detectWithin none r lead (hostWithin none r lead embeddingLimit) text candidates) ∧
    (∀ name, candidateWithin none r lead (hostWithin none r lead embeddingLimit) text name =
      (r.highlight name text ⟨lead, .fallback⟩).map fun h => { h with language := some name }) := by
  intro host names candidate
  refine ⟨detectWithin_eq candidates, ?_, ?_, ?_, ?_⟩
  · intro hr hends
    rcases hresults : names.mapM candidate with e | results
    · obtain ⟨name, hname, he⟩ := mapM_eq_error hresults
      have hstopped := hends name hname
      rw [he, candidateWithin_fails hr (List.mem_filter.mp hname).2 he] at hstopped
      cases hstopped
    · exact ⟨results, rfl⟩
  · intro results hresults
    exact firstTwo_ranked text (candidates_ok hresults)
  · rw [← r.detectWithin_none]
    rfl
  · intro name
    rw [← r.highlightWithin_none]
    unfold candidateWithin Registry.highlightWithin
    rcases highlightWithin _ r lead _ name text .fallback none with e | found
    · rfl
    · rfl

/-- Three languages of a few words each. In the last one an exclamation mark is illegal. -/
def wordLists : Registry :=
  ((({} : Registry).register "ab" { root := { keywords := some (.words "a b") } }).register "bcd"
    { root := { keywords := some (.words "b c d") } }).register "a"
    { root := { keywords := some (.words "a"), illegal := some "!" } }

/-- Two candidates with the word score the same, and the one named first wins. The list named
before them does not know the word, and nothing is registered under the last name. -/
theorem earlier_word_list_wins :
    wordLists.Compiles (some .few) ∧
    ∃ h second, wordLists.detect "a" ⟨"", some ["bcd", "A", "ab", "none"]⟩ = .ok h ∧
      h.language = some "A" ∧ h.secondBest = some second ∧ second.language = some "ab" ∧
      second.relevance ≤ h.relevance ∧ h.illegal = false := by
  have hall : (wordLists.languages.all fun p =>
      (compileWithin p.2.grammar Limits.few.depth).isOk) = true := by decide +kernel
  have hr : wordLists.Compiles (some .few) :=
    fun p hp => exists_of_isOk (List.all_eq_true.mp hall p hp)
  have hstops : ((["bcd", "A", "ab", "none"].filter wordLists.isRegistered).all fun name =>
      !isStopped (candidateWithin (some .few) wordLists ""
        (hostWithin (some .few) wordLists "" embeddingLimit) "a" name)) = true := by decide +kernel
  have hlanguages : ((wordLists.detectWithin (some .few) "a"
      ⟨"", some ["bcd", "A", "ab", "none"]⟩).toOption.map
        fun h => (h.language, h.secondBest.map Highlighted.language)) =
          some (some "A", some (some "ab")) := by decide +kernel
  obtain ⟨heq, hends, hbest, _, _⟩ := detection_ranks_candidates_stably (some .few) wordLists ""
    embeddingLimit "a" (some ["bcd", "A", "ab", "none"])
  obtain ⟨results, hresults⟩ := hends hr fun name hname => by
    simpa using List.all_eq_true.mp hstops name hname
  obtain ⟨_, hsecond, _, hillegal⟩ := hbest results hresults
  have hfound : wordLists.detectWithin (some .few) "a" ⟨"", some ["bcd", "A", "ab", "none"]⟩ =
      .ok (firstTwo "a" (ranked results)) := by
    rw [Registry.detectWithin, heq, hresults]
    rfl
  rw [hfound] at hlanguages
  simp only [Except.toOption, Option.map_some, Option.some.injEq, Prod.mk.injEq,
    Option.map_eq_some_iff] at hlanguages
  obtain ⟨hlanguage, second, hrunnerUp, hother⟩ := hlanguages
  have hdetect := detect_of_within hfound not_ofLimits_of_ok
  exact ⟨hr, firstTwo "a" (ranked results), second, hdetect, hlanguage, hrunnerUp, hother,
    hsecond second hrunnerUp, hillegal⟩

end Highlighting
