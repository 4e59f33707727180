-- Registering a language that is not asked for. Highlighting as a language depends on what can
-- be embedded in it, at whatever depth, and on what the names of these languages stand for.
-- A language with other names changes none of it, not even if its grammar does not compile.
import Highlighting.Proofs.AlikeHosts

namespace Highlighting

/-! ## Names that stand for the same -/

/-- The keys that registering a grammar binds. -/
def boundKeys (name : String) (g : Grammar) : List String := (name :: g.aliases).map Unicode.lower

/-- Nothing is registered under a key, and no alias points to it. -/
structure Registry.Lacks (r : Registry) (key : String) : Prop where
  languages : ∀ p ∈ r.languages, p.1 ≠ key
  aliases : ∀ p ∈ r.aliases, p.1 ≠ key
  targets : ∀ p ∈ r.aliases, p.2 ≠ key

section

variable {r : Registry} {name : String} {g : Grammar}

theorem bind_lookup {other key : String} (h : key ≠ Unicode.lower other) :
    (r.bind name other).aliases.lookup key = r.aliases.lookup key := by
  unfold Registry.bind
  split
  · rfl
  · rw [List.lookup_cons, beq_false_of_ne h]

theorem addAliases_lookup {aliases : List String} {key : String}
    (h : key ∉ aliases.map Unicode.lower) :
    (r.addAliases name aliases).aliases.lookup key = r.aliases.lookup key := by
  unfold Registry.addAliases
  induction aliases generalizing r with
  | nil => rfl
  | cons other aliases ih =>
    rw [List.map_cons, List.mem_cons, not_or] at h
    rw [List.foldl_cons, ih h.2, bind_lookup h.1]

theorem named?_register {key : String} (h : key ≠ Unicode.lower name) :
    (r.register name g).named? key = r.named? key := by
  unfold Registry.named? Registry.register
  simp only [addAliases_languages]
  rw [List.lookup_cons, beq_false_of_ne h, lookup_without, if_neg h]

/-- A name stands for the same language as before if its key is not bound anew and no alias
points to the new language. -/
theorem resolve?_register {other : String} (hkey : Unicode.lower other ∉ boundKeys name g)
    (htargets : ∀ p ∈ r.aliases, p.2 ≠ Unicode.lower name) :
    (r.register name g).resolve? other = r.resolve? other := by
  unfold boundKeys at hkey
  rw [List.map_cons, List.mem_cons, not_or] at hkey
  unfold Registry.resolve?
  have haliases : (r.register name g).aliases.lookup (Unicode.lower other) =
      r.aliases.lookup (Unicode.lower other) := addAliases_lookup hkey.2
  simp only [named?_register hkey.1, haliases]
  rcases htarget : r.aliases.lookup (Unicode.lower other) with _ | target
  · rfl
  · obtain ⟨before, after, heq, _⟩ := List.lookup_eq_some_iff.mp htarget
    have hne : target ≠ Unicode.lower name :=
      htargets (Unicode.lower other, target) (heq ▸ List.mem_append_right before List.mem_cons_self)
    rw [Option.bind_some, Option.bind_some, named?_register hne]

/-- The key of a name that stands for a language is not one that the registry lacks. -/
theorem not_lacks_of_resolve? {other : String} {language : Language}
    (h : r.resolve? other = some language) : ¬ r.Lacks (Unicode.lower other) := by
  intro hlacks
  unfold Registry.resolve? Registry.named? at h
  have hlanguages : r.languages.lookup (Unicode.lower other) = none := by
    refine List.lookup_eq_none_iff.mpr fun p hp => ?_
    simpa using (hlacks.languages p hp).symm
  have haliases : r.aliases.lookup (Unicode.lower other) = none := by
    refine List.lookup_eq_none_iff.mpr fun p hp => ?_
    simpa using (hlacks.aliases p hp).symm
  simp [hlanguages, haliases] at h

end

/-! ## Languages that do not ask for it -/

/-- The names that are written down for what is embedded. -/
def SubLanguage.names : SubLanguage → List String
  | .name asked => [asked]
  | .candidates asked => asked

theorem namesOf_eq_names (r : Registry) {sub : SubLanguage} (h : sub ≠ .candidates []) :
    r.namesOf sub = sub.names := by
  cases sub with
  | name name => rfl
  | candidates names =>
    rcases names with _ | ⟨name, names⟩
    · exact absurd rfl h
    · rfl

/-- The languages that highlighting under a name can come to: the one that the name stands for,
and those that can be embedded. -/
def Registry.ReachedFrom (r : Registry) (name : String) (l : CompiledLanguage) : Prop :=
  ∃ language l₀, r.resolve? name = some language ∧ language.grammar.CompilesTo l₀ ∧ r.Reaches l₀ l

/-- What every registered language is that compiles, is so of all that highlighting comes to. -/
theorem of_reachedFrom {r : Registry} {P : CompiledLanguage → Prop}
    (hr : ∀ p ∈ r.languages, ∀ l, p.2.grammar.CompilesTo l → P l) {name : String}
    {l : CompiledLanguage} (h : r.ReachedFrom name l) : P l := by
  obtain ⟨language, l₀, hlanguage, hl₀, hreaches⟩ := h
  obtain ⟨p, hp, rfl⟩ := resolve?_mem hlanguage
  exact of_reaches hr (hr p hp l₀ hl₀) hreaches

/-- Where two registries know the same of all that is reached, highlighting is the same. -/
theorem highlightWithin_congr {k : Option Limits} {r r' : Registry} {name : String}
    (hname : r.resolve? name = r'.resolve? name)
    (hasks : ∀ l, r'.ReachedFrom name l → ∀ sub ∈ l.asks, r.namesOf sub = r'.namesOf sub ∧
      ∀ asked ∈ r'.namesOf sub, r.resolve? asked = r'.resolve? asked)
    (text : String) (o : HighlightOptions) :
    r.highlightWithin k name text o = r'.highlightWithin k name text o := by
  have hhosts : ∀ l, r'.ReachedFrom name l → (Scan.Likeness.same o.lead).HostsMatch l
      (hostWithin k r o.lead embeddingLimit) (hostWithin k r' o.lead embeddingLimit) := by
    refine hostWithin_alike (.inl rfl) (fun l hl m hm sub hsub => ?_) embeddingLimit
    have hmem : sub ∈ l.asks := mem_asks hm hsub
    obtain ⟨hnames, hresolve⟩ := hasks l hl sub hmem
    refine ⟨hnames, hresolve, fun _ _ _ => trivial, fun asked hasked language l' hlanguage hl' => ?_⟩
    obtain ⟨first, l₀, hfirst, hl₀, hreaches⟩ := hl
    have hembeds : r'.MayEmbed l l' :=
      ⟨sub, hmem, asked, hasked, language, hlanguage, compilesTo_of_under hl'⟩
    exact ⟨first, l₀, hfirst, hl₀, hreaches.tail hembeds⟩
  have hway : (Scan.Likeness.same o.lead).Way (Scan.Likeness.same o.lead).Highlights
      (highlightWithin k r o.lead (hostWithin k r o.lead embeddingLimit) name text o.illegals none)
      (highlightWithin k r' o.lead (hostWithin k r' o.lead embeddingLimit) name text o.illegals none) :=
    highlightWithin_alike (.inl rfl) hname (fun _ => trivial)
      (fun language l hlanguage hl => hhosts l ⟨language, l, hlanguage, compilesTo_of_under hl, .refl⟩)
      text o.illegals none
  exact ((hway.map fun _ _ h => h.1.eq fun _ _ hns => hns).sameWay not_false).eq

/-- Languages that have nothing to do with each other do not interfere. A grammar is registered
under a name that, as its aliases, is new to the registry. Then what is highlighted as another
language comes out as before, if that language and all that can be embedded in it write down
what they embed, and never a name of the new language. -/
theorem register_changes_no_other_language (r : Registry) (name : String)
    (hname : r.isRegistered name = true) (other : String) (g : Grammar)
    (hasks : ∀ l, r.ReachedFrom name l → .candidates [] ∉ l.asks)
    (hnew : ∀ key ∈ boundKeys other g, r.Lacks key ∧ ∀ l, r.ReachedFrom name l →
      ∀ sub ∈ l.asks, ∀ asked ∈ sub.names, Unicode.lower asked ≠ key) :
    (∀ k text o, (r.register other g).highlightWithin k name text o = r.highlightWithin k name text o) ∧
    ∀ text o, (r.register other g).highlight name text o = r.highlight name text o := by
  have htargets : ∀ p ∈ r.aliases, p.2 ≠ Unicode.lower other :=
    (hnew (Unicode.lower other) List.mem_cons_self).1.targets
  obtain ⟨language, hlanguage⟩ := Option.isSome_iff_exists.mp hname
  have hown : (r.register other g).resolve? name = r.resolve? name := by
    refine resolve?_register (fun hkey => ?_) htargets
    exact not_lacks_of_resolve? hlanguage (hnew _ hkey).1
  have hasked : ∀ l, r.ReachedFrom name l → ∀ sub ∈ l.asks,
      (r.register other g).namesOf sub = r.namesOf sub ∧
      ∀ asked ∈ r.namesOf sub, (r.register other g).resolve? asked = r.resolve? asked := by
    intro l hl sub hsub
    have hsub' : sub ≠ .candidates [] := fun h => hasks l hl (h ▸ hsub)
    rw [namesOf_eq_names _ hsub', namesOf_eq_names _ hsub']
    refine ⟨rfl, fun asked hasked => resolve?_register (fun hkey => ?_) htargets⟩
    exact (hnew _ hkey).2 l hl sub hsub asked hasked rfl
  refine ⟨fun k text o => highlightWithin_congr hown hasked text o, fun text o => ?_⟩
  rw [← Registry.highlightWithin_none, ← Registry.highlightWithin_none]
  exact highlightWithin_congr hown hasked text o

/-- Text with styles in angle brackets. -/
def page : Grammar where
  aliases := ["text"]
  root := { contains := [.inline {
    className := some "s", begins := some "<", ends := some ">",
    subLanguage := some (.candidates ["missing", "Style"]) }] }

/-- Styles with text in quotes. -/
def style : Grammar where
  root := { contains := [
    .inline { className := some "w", begins := some "[a-z]+" },
    .inline {
      className := some "t", begins := some "'", ends := some "'",
      subLanguage := some (.name "TEXT") }] }

/-- Two languages that embed each other. -/
def pages : Registry := (({} : Registry).register "Page" page).register "style" style

/-- A grammar that does not compile. -/
def unfinished : Grammar where
  aliases := ["New", "other"]
  root := { contains := [.inline { begins := some "(" }] }

theorem pages_are_unchanged_by_an_unfinished_language :
    pages.isRegistered "page" = true ∧
    (∀ l, pages.ReachedFrom "page" l → .candidates [] ∉ l.asks) ∧
    (∀ key ∈ boundKeys "Unfinished" unfinished, pages.Lacks key ∧
      ∀ l, pages.ReachedFrom "page" l → ∀ sub ∈ l.asks, ∀ asked ∈ sub.names,
        Unicode.lower asked ≠ key) ∧
    (compile unfinished).isOk = false ∧
    (∃ h, pages.highlight "page" "a<b'c'>" {} = .ok h ∧ h.relevance = 1) ∧
    (pages.register "Unfinished" unfinished).highlight "page" "a<b'c'>" {} =
      pages.highlight "page" "a<b'c'>" {} := by
  have hname : pages.isRegistered "page" = true := by decide +kernel
  have hlacks : ∀ key ∈ boundKeys "Unfinished" unfinished, pages.Lacks key := by
    have hall : ((boundKeys "Unfinished" unfinished).all fun key =>
        pages.languages.all (·.1 != key) && pages.aliases.all (·.1 != key) &&
          pages.aliases.all (·.2 != key)) = true := by decide +kernel
    intro key hkey
    have h := List.all_eq_true.mp hall key hkey
    simp only [Bool.and_eq_true, List.all_eq_true, bne_iff_ne] at h
    exact ⟨h.1.1, h.1.2, h.2⟩
  -- Both languages are asked, so that it does not matter which are reached.
  have hall : (pages.allPass 9 fun l =>
      l.asks.all fun sub => sub != .candidates [] && sub.names.all fun asked =>
        (boundKeys "Unfinished" unfinished).all (Unicode.lower asked != ·)) = true := by
    decide +kernel
  have hreached : ∀ l, pages.ReachedFrom "page" l → ∀ sub ∈ l.asks, sub ≠ .candidates [] ∧
      ∀ asked ∈ sub.names, ∀ key ∈ boundKeys "Unfinished" unfinished, Unicode.lower asked ≠ key := by
    intro l hl sub hsub
    have h := List.all_eq_true.mp (of_reachedFrom (check_of_allPass hall) hl) sub hsub
    simpa only [Bool.and_eq_true, List.all_eq_true, bne_iff_ne] using h
  have hasks : ∀ l, pages.ReachedFrom "page" l → .candidates [] ∉ l.asks :=
    fun l hl hmem => (hreached l hl _ hmem).1 rfl
  have hnew : ∀ key ∈ boundKeys "Unfinished" unfinished, pages.Lacks key ∧
      ∀ l, pages.ReachedFrom "page" l → ∀ sub ∈ l.asks, ∀ asked ∈ sub.names,
        Unicode.lower asked ≠ key :=
    fun key hkey => ⟨hlacks key hkey,
      fun l hl sub hsub asked hasked => (hreached l hl sub hsub).2 asked hasked key hkey⟩
  have hrelevance : ((pages.highlightWithin (some .few) "page" "a<b'c'>" {}).toOption.any
      (·.relevance == 1)) = true := by
    decide +kernel
  refine ⟨hname, hasks, hnew, ?_, ?_, ?_⟩
  · rw [compile_of_within (show compileWithin unfinished 9 ≠ .error .tooDeep by decide +kernel)]
    decide +kernel
  · obtain ⟨h, hh, hrelevance⟩ := toOption_any_eq_true.mp hrelevance
    exact ⟨h, highlight_of_within hh not_ofLimits_of_ok, eq_of_beq hrelevance⟩
  · exact (register_changes_no_other_language pages "page" hname "Unfinished" unfinished
      hasks hnew).2 _ _

end Highlighting
