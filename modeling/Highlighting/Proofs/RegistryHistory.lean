-- What a registry answers after any calls. A call registers a grammar or points aliases to
-- names. The registry keeps no record of the calls, so each law here says what of them is still
-- to be seen: the last language of a name, the last target of an alias, and the first spelling
-- of each name.
import Mathlib.Data.List.Induction
import Highlighting.Proofs.UnrelatedLanguages

namespace Highlighting

/-! ## Calls -/

/-- A call that changes a registry. -/
inductive Registration where
  /-- Registers a grammar under a name. -/
  | grammar (name : String) (g : Grammar)
  /-- Points aliases to a name. -/
  | aliases (name : String) (others : List String)
  /-- Points aliases to several names. -/
  | allAliases (map : List (String × List String))

/-- The registry after a call. -/
def Registry.apply (r : Registry) : Registration → Registry
  | .grammar name g => r.register name g
  | .aliases name others => r.addAliases name others
  | .allAliases map => r.addAllAliases map

/-- The registry after calls on an empty one. -/
def Registry.after (calls : List Registration) : Registry := calls.foldl Registry.apply {}

/-- Each alias that is not empty, with the name that it is pointed to. -/
def aliasPairs (name : String) (others : List String) : List (String × String) :=
  (others.filter (!·.isEmpty)).map (·, name)

namespace Registration

/-- The language that a call registers, if it does. -/
def languages : Registration → List Language
  | .grammar name g => [Language.ofGrammar name g]
  | .aliases _ _ => []
  | .allAliases _ => []

/-- The aliases that a call binds, in order. A grammar binds those that it declares. -/
def bindings : Registration → List (String × String)
  | .grammar name g => aliasPairs name g.aliases
  | .aliases name others => aliasPairs name others
  | .allAliases map => map.flatMap fun (name, others) => aliasPairs name others

/-- The last language that calls registered under a name with the key. -/
def lastNamed? (calls : List Registration) (key : String) : Option Language :=
  (calls.flatMap languages).reverse.find? (Unicode.lower ·.name == key)

/-- What the last binding of an alias with the key points to, in lower case. -/
def lastTarget? (calls : List Registration) (key : String) : Option String :=
  ((calls.flatMap bindings).reverse.find? (Unicode.lower ·.1 == key)).map (Unicode.lower ·.2)

/-- The names that calls registered, each as first written. -/
def firstNames (calls : List Registration) : List String :=
  ((calls.flatMap languages).map (·.name)).eraseDupsBy fun a b => Unicode.lower a == Unicode.lower b

end Registration

/-! ## Aliases -/

section

variable (r : Registry) (name : String) (others : List String)

/-- A binding as the registry keeps it. -/
def loweredPair (p : String × String) : String × String := (Unicode.lower p.1, Unicode.lower p.2)

theorem addAliases_names : (r.addAliases name others).names = r.names := by
  unfold Registry.addAliases
  induction others generalizing r with
  | nil => rfl
  | cons other others ih =>
    rw [List.foldl_cons, ih]
    unfold Registry.bind
    split <;> rfl

/-- New bindings come first, the last one in front. -/
theorem addAliases_aliases : (r.addAliases name others).aliases =
    ((aliasPairs name others).map loweredPair).reverse ++ r.aliases := by
  unfold Registry.addAliases aliasPairs
  induction others generalizing r with
  | nil => rfl
  | cons other others ih =>
    rw [List.foldl_cons, ih]
    unfold Registry.bind
    by_cases hempty : other.isEmpty
    · rw [if_pos hempty, List.filter_cons_of_neg (by simp [hempty])]
    · rw [if_neg hempty, List.filter_cons_of_pos (by simp [hempty])]
      simp [loweredPair]

theorem addAllAliases_languages (map : List (String × List String)) :
    (r.addAllAliases map).languages = r.languages := by
  unfold Registry.addAllAliases
  induction map generalizing r with
  | nil => rfl
  | cons p map ih => rw [List.foldl_cons, ih, addAliases_languages]

theorem addAllAliases_names (map : List (String × List String)) :
    (r.addAllAliases map).names = r.names := by
  unfold Registry.addAllAliases
  induction map generalizing r with
  | nil => rfl
  | cons p map ih => rw [List.foldl_cons, ih, addAliases_names]

theorem addAllAliases_aliases (map : List (String × List String)) :
    (r.addAllAliases map).aliases =
      ((map.flatMap fun (name, others) => aliasPairs name others).map loweredPair).reverse ++
        r.aliases := by
  unfold Registry.addAllAliases
  induction map generalizing r with
  | nil => rfl
  | cons p map ih =>
    rw [List.foldl_cons, ih, addAliases_aliases, List.flatMap_cons, List.map_append,
      List.reverse_append, List.append_assoc]

/-- No call drops a binding or looks at one. -/
theorem apply_aliases (call : Registration) :
    (r.apply call).aliases = (call.bindings.map loweredPair).reverse ++ r.aliases := by
  cases call with
  | grammar name g => exact addAliases_aliases _ name g.aliases
  | aliases name others => exact addAliases_aliases r name others
  | allAliases map => exact addAllAliases_aliases r map

end

theorem after_append (calls : List Registration) (call : Registration) :
    Registry.after (calls ++ [call]) = (Registry.after calls).apply call := by
  unfold Registry.after
  rw [List.foldl_append]
  rfl

/-- The bindings of a registry are those of all calls so far, the last one first. -/
theorem after_aliases (calls : List Registration) : (Registry.after calls).aliases =
    ((calls.flatMap Registration.bindings).map loweredPair).reverse := by
  induction calls using List.reverseRecOn with
  | nil => rfl
  | append_singleton calls call ih => rw [after_append, apply_aliases, ih]; simp

theorem lookup_lowered (pairs : List (String × String)) (key : String) :
    (pairs.map loweredPair).lookup key =
      (pairs.find? (Unicode.lower ·.1 == key)).map (Unicode.lower ·.2) := by
  induction pairs with
  | nil => rfl
  | cons p pairs ih =>
    rw [List.map_cons, List.find?_cons]
    by_cases hkey : Unicode.lower p.1 = key
    · simp [loweredPair, hkey]
    · rw [beq_false_of_ne hkey, ← ih]
      unfold loweredPair
      rw [List.lookup_cons, beq_false_of_ne (Ne.symm hkey)]

/-- An alias points to where it was pointed last. -/
theorem after_lookup (calls : List Registration) (key : String) :
    (Registry.after calls).aliases.lookup key = Registration.lastTarget? calls key := by
  unfold Registration.lastTarget?
  rw [after_aliases, ← List.map_reverse, lookup_lowered]

/-! ## Names -/

section

variable {r : Registry} {name key : String} {g : Grammar}

theorem named?_register_self :
    (r.register name g).named? (Unicode.lower name) = some (Language.ofGrammar name g) := by
  unfold Registry.named? Registry.register
  simp only [addAliases_languages]
  exact List.lookup_cons_self

theorem register_names : (r.register name g).names =
    if (r.named? (Unicode.lower name)).isSome then r.names else r.names ++ [name] := by
  unfold Registry.register
  rw [addAliases_names]

/-- A call that registers no language leaves the languages and their names alone. -/
theorem apply_of_no_language {call : Registration} (h : call.languages = []) :
    (r.apply call).languages = r.languages ∧ (r.apply call).names = r.names := by
  cases call with
  | grammar name g => cases h
  | aliases name others => exact ⟨addAliases_languages r name others, addAliases_names r name others⟩
  | allAliases map => exact ⟨addAllAliases_languages r map, addAllAliases_names r map⟩

end

/-- One more element is kept if it is like none that is kept already. -/
theorem eraseDupsBy_append_singleton {α : Type} (alike : α → α → Bool) (as : List α) (a : α) :
    (as ++ [a]).eraseDupsBy alike =
      if (as.eraseDupsBy alike).any (alike a) then as.eraseDupsBy alike
      else as.eraseDupsBy alike ++ [a] := by
  have hloop : ∀ kept, List.eraseDupsBy.loop alike (as ++ [a]) kept =
      if (List.eraseDupsBy.loop alike as kept).any (alike a) then
        List.eraseDupsBy.loop alike as kept
      else List.eraseDupsBy.loop alike as kept ++ [a] := by
    induction as with
    | nil =>
      intro kept
      by_cases ha : kept.any (alike a) <;> simp [List.eraseDupsBy.loop, ha]
    | cons b as ih =>
      intro kept
      rw [List.cons_append]
      unfold List.eraseDupsBy.loop
      split
      · exact ih kept
      · exact ih (b :: kept)
  exact hloop []

namespace Registration

variable {calls : List Registration} {call : Registration} {key : String}

theorem lastNamed?_append : lastNamed? (calls ++ [call]) key =
    (call.languages.reverse.find? (Unicode.lower ·.name == key)).or (lastNamed? calls key) := by
  unfold lastNamed?
  simp

theorem lastNamed?_append_of_no_language (h : call.languages = []) :
    lastNamed? (calls ++ [call]) key = lastNamed? calls key := by
  rw [lastNamed?_append, h]
  rfl

theorem firstNames_append_of_no_language (h : call.languages = []) :
    firstNames (calls ++ [call]) = firstNames calls := by
  unfold firstNames
  simp [h]

theorem firstNames_append_grammar {name : String} {g : Grammar} :
    firstNames (calls ++ [.grammar name g]) =
      if (firstNames calls).any (Unicode.lower name == Unicode.lower ·) then firstNames calls
      else firstNames calls ++ [name] := by
  unfold firstNames
  rw [← eraseDupsBy_append_singleton]
  simp [languages, Language.ofGrammar]

end Registration

/-! ## Histories -/

/-- A registry answers what the calls so far ask it to. -/
structure Registry.Follows (r : Registry) (calls : List Registration) : Prop where
  named : ∀ key, r.named? key = Registration.lastNamed? calls key
  names : r.names = Registration.firstNames calls
  /-- A key has a language if a name with this key is listed. -/
  listed : ∀ key, (r.named? key).isSome = r.names.any (Unicode.lower · == key)
  distinct : r.names.Pairwise fun a b => Unicode.lower a ≠ Unicode.lower b

namespace Registry.Follows

variable {r : Registry} {calls : List Registration}

theorem of_no_language {call : Registration} (hr : r.Follows calls) (h : call.languages = []) :
    (r.apply call).Follows (calls ++ [call]) := by
  obtain ⟨hlanguages, hnames⟩ := apply_of_no_language (r := r) h
  have hnamed : ∀ key, (r.apply call).named? key = r.named? key := by
    intro key
    unfold Registry.named?
    rw [hlanguages]
  constructor
  · intro key
    rw [hnamed, hr.named, Registration.lastNamed?_append_of_no_language h]
  · rw [hnames, hr.names, Registration.firstNames_append_of_no_language h]
  · intro key
    rw [hnamed, hnames, hr.listed]
  · rw [hnames]
    exact hr.distinct

theorem register (hr : r.Follows calls) (name : String) (g : Grammar) :
    (r.register name g).Follows (calls ++ [.grammar name g]) := by
  have hlisted := hr.listed (Unicode.lower name)
  constructor
  · intro key
    rw [Registration.lastNamed?_append]
    by_cases hkey : key = Unicode.lower name
    · subst hkey
      rw [named?_register_self]
      simp [Registration.languages, Language.ofGrammar]
    · rw [named?_register hkey, hr.named]
      simp [Registration.languages, Language.ofGrammar, Ne.symm hkey]
  · rw [register_names, Registration.firstNames_append_grammar, hlisted, ← hr.names]
    simp only [BEq.comm]
  · intro key
    rw [register_names]
    by_cases hkey : key = Unicode.lower name
    · subst hkey
      rw [named?_register_self]
      split
      · rename_i hsome
        rw [← hlisted, hsome]
        rfl
      · simp
    · rw [named?_register hkey, hr.listed]
      split
      · rfl
      · simp [Ne.symm hkey]
  · rw [register_names]
    split
    · exact hr.distinct
    · rename_i hnone
      rw [hlisted] at hnone
      refine List.pairwise_append.mpr ⟨hr.distinct, List.pairwise_singleton _ _, ?_⟩
      intro a ha b hb heq
      rw [List.mem_singleton.mp hb] at heq
      exact hnone (List.any_eq_true.mpr ⟨a, ha, beq_of_eq heq⟩)

theorem apply (hr : r.Follows calls) (call : Registration) :
    (r.apply call).Follows (calls ++ [call]) := by
  cases call with
  | grammar name g => exact hr.register name g
  | aliases name others => exact hr.of_no_language rfl
  | allAliases map => exact hr.of_no_language rfl

end Registry.Follows

theorem after_follows (calls : List Registration) : (Registry.after calls).Follows calls := by
  induction calls using List.reverseRecOn with
  | nil => exact ⟨fun _ => rfl, rfl, fun _ => rfl, List.Pairwise.nil⟩
  | append_singleton calls call ih =>
    rw [after_append]
    exact ih.apply call

/-- Lookups follow the history. A name stands for the language that was last registered under
it. If there is none, it stands, as an alias, for the language that was last registered under
the name that the alias was last pointed to. The names are listed in the order of their first
registration and as written there, no two of them alike, and each stands for a language. Case
matters in none of this. -/
theorem lookups_follow_the_history (calls : List Registration) :
    (∀ name, (Registry.after calls).resolve? name =
      (Registration.lastNamed? calls (Unicode.lower name) <|>
        (Registration.lastTarget? calls (Unicode.lower name)).bind
          (Registration.lastNamed? calls))) ∧
    (Registry.after calls).names = Registration.firstNames calls ∧
    (Registry.after calls).names.Pairwise (fun a b => Unicode.lower a ≠ Unicode.lower b) ∧
    ∀ name ∈ (Registry.after calls).names, (Registry.after calls).isRegistered name = true := by
  have hfollows := after_follows calls
  have hnamed : (Registry.after calls).named? = Registration.lastNamed? calls :=
    funext hfollows.named
  refine ⟨?_, hfollows.names, hfollows.distinct, ?_⟩
  · intro name
    unfold Registry.resolve?
    simp only [after_lookup, hnamed]
  · intro name hname
    have hsome : ((Registry.after calls).named? (Unicode.lower name)).isSome = true := by
      rw [hfollows.listed]
      exact List.any_eq_true.mpr ⟨name, hname, beq_self_eq_true _⟩
    obtain ⟨language, hlanguage⟩ := Option.isSome_iff_exists.mp hsome
    unfold Registry.isRegistered Registry.resolve?
    simp [hlanguage]

/-- An alias may come before its language, a name wins over an alias, an alias of an alias
stands for nothing, and a second spelling of a name is not listed. -/
example :
    let r := Registry.after [
      .aliases "Later" ["L8r", "", "early"],
      .allAliases [("l8r", ["again"]), ("Page", ["STYLE"])],
      .grammar "later" { root := {} },
      .grammar "Style" { root := {} },
      .grammar "LATER" { root := {} },
      .grammar "Page" { aliases := ["text"], root := {} }]
    ["l8R", "Early", "again", "style", "text", ""].map (fun q => (r.resolve? q).map (·.name)) =
        [some "LATER", some "LATER", none, some "Style", some "Page", none] ∧
      r.names = ["later", "Style", "Page"] := by
  decide +kernel

end Highlighting
