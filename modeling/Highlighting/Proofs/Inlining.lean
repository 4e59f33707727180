-- Grammars in which every reference is written out. A reference to a definition
-- or to a common mode is replaced by a copy of the mode, and so on inside the
-- copy, until the only names left are those by which a mode refers to itself and
-- those that name nothing. In a grammar without recursive definitions this comes
-- to an end.
--
-- A mode and its copy are alike. That is a relation between modes of any two
-- grammars, and it treats both alike.
import Highlighting.Proofs.CompileEnds
import Highlighting.Proofs.Nonrecursive
import Mathlib.Order.WellFoundedSet

namespace Highlighting

/-! ## Writing references out -/

namespace Grammar

/-- A reference with the mode that it stands for written out. One that stands for
no other mode stays. -/
def writeOut? (g : Grammar) (write : Mode → Option Mode) (r : ModeRef) : Option ModeRef :=
  match g.target? r with
  | some d => (write d).map .inline
  | none => some r

/-- The mode with all references in it written out. The fuel bounds how deep they
are nested. -/
def inlineMode? (g : Grammar) : (fuel : Nat) → Mode → Option Mode
  | 0, _ => none
  | n + 1, m => do
    let contains ← m.contains.mapM (g.writeOut? (g.inlineMode? n))
    let variants ← m.variants.mapM (g.inlineMode? n)
    let starts ← m.starts.mapM (g.writeOut? (g.inlineMode? n))
    return { m with contains, variants, starts }

/-- The definition with all references in it written out. -/
def inlineDefinition? (g : Grammar) (fuel : Nat) (p : String × Mode) : Option (String × Mode) :=
  (g.inlineMode? fuel p.2).map fun m => (p.1, m)

/-- The grammar with all references written out. -/
def inlined? (g : Grammar) (fuel : Nat) : Option Grammar := do
  let definitions ← g.definitions.mapM (g.inlineDefinition? fuel)
  let root ← g.inlineMode? fuel g.root
  return { g with definitions, root }

end Grammar

/-- The mode without what it refers to. -/
def Mode.bare (m : Mode) : Mode := { m with contains := [], variants := [], starts := none }

/-! ### One step -/

theorem forall₂_of_mapM_option {α β : Type} {f : α → Option β} {xs : List α} {ys : List β}
    (h : xs.mapM f = some ys) : List.Forall₂ (fun x y => f x = some y) xs ys := by
  induction xs generalizing ys with
  | nil =>
    cases h
    exact .nil
  | cons x xs ih =>
    rw [List.mapM_cons] at h
    obtain ⟨y, hy, h⟩ := Option.bind_eq_some_iff.mp h
    obtain ⟨ys', hys, h⟩ := Option.bind_eq_some_iff.mp h
    cases h
    exact .cons hy (ih hys)

theorem mapM_some_eq {α β : Type} (f : α → Option β) (x : α) :
    (some x).mapM f = (f x).map some := rfl

theorem mapM_option_isSome {α β : Type} {f : α → Option β} {xs : List α}
    (h : ∀ x ∈ xs, (f x).isSome) : (xs.mapM f).isSome := by
  induction xs with
  | nil => rfl
  | cons x xs ih =>
    obtain ⟨y, hy⟩ := Option.isSome_iff_exists.mp (h x List.mem_cons_self)
    obtain ⟨ys, hys⟩ := Option.isSome_iff_exists.mp (ih fun z hz => h z (List.mem_cons_of_mem _ hz))
    simp [List.mapM_cons, hy, hys]

section

variable {g : Grammar} {n : Nat} {m t : Mode}

/-- What a mode is written out to. -/
structure WrittenOut (g : Grammar) (n : Nat) (m t : Mode) : Prop where
  bare : t.bare = m.bare
  contains : List.Forall₂ (fun r r' => g.writeOut? (g.inlineMode? n) r = some r')
    m.contains t.contains
  variants : List.Forall₂ (fun v v' => g.inlineMode? n v = some v') m.variants t.variants
  starts : Option.Rel (fun r r' => g.writeOut? (g.inlineMode? n) r = some r') m.starts t.starts

theorem writtenOut_of_eq_some (h : g.inlineMode? (n + 1) m = some t) : WrittenOut g n m t := by
  unfold Grammar.inlineMode? at h
  obtain ⟨contains, hcontains, h⟩ := Option.bind_eq_some_iff.mp h
  obtain ⟨variants, hvariants, h⟩ := Option.bind_eq_some_iff.mp h
  obtain ⟨starts, hstarts, h⟩ := Option.bind_eq_some_iff.mp h
  cases h
  refine ⟨rfl, forall₂_of_mapM_option hcontains, forall₂_of_mapM_option hvariants, ?_⟩
  rcases hs : m.starts with _ | r
  · rw [hs] at hstarts
    cases hstarts
    exact .none
  · rw [hs] at hstarts
    rw [mapM_some_eq] at hstarts
    obtain ⟨r', hr', rfl⟩ := Option.map_eq_some_iff.mp hstarts
    exact .some hr'

/-- A reference is written out, or it names no other mode and stays. -/
theorem writeOut?_cases {write : Mode → Option Mode} {r r' : ModeRef}
    (h : g.writeOut? write r = some r') :
    (∃ d t, g.target? r = some d ∧ write d = some t ∧ r' = .inline t) ∨
      ∃ name, r = .named name ∧ g.target? r = none ∧ r' = r := by
  unfold Grammar.writeOut? at h
  rcases hd : g.target? r with _ | d
  · rw [hd] at h
    cases h
    cases r with
    | inline m => cases hd
    | named name => exact .inr ⟨name, rfl, rfl, rfl⟩
  · rw [hd] at h
    obtain ⟨t, ht, rfl⟩ := Option.map_eq_some_iff.mp h
    exact .inl ⟨d, t, rfl, ht, rfl⟩

/-- The names that are left stand for no other mode. -/
theorem names_written_out (h : g.inlineMode? n m = some t) {k : String} (hk : k ∈ t.names) :
    g.target? (.named k) = none := by
  induction n generalizing m t with
  | zero => cases h
  | succ n ih =>
    have hwritten := writtenOut_of_eq_some h
    have href : ∀ r r', g.writeOut? (g.inlineMode? n) r = some r' → k ∈ r'.names →
        g.target? (.named k) = none := by
      intro r r' hr hk
      rcases writeOut?_cases hr with ⟨d, t', _, ht', rfl⟩ | ⟨name, rfl, hnone, rfl⟩
      · exact ih ht' hk
      · obtain rfl : k = name := by simpa [ModeRef.names] using hk
        exact hnone
    rcases mem_names.mp hk with ⟨r', hr', hk⟩ | ⟨v', hv', hk⟩ | ⟨r', hr', hk⟩
    · obtain ⟨r, _, hr⟩ := exists_of_mem_right hwritten.contains hr'
      exact href r r' hr hk
    · obtain ⟨v, _, hv⟩ := exists_of_mem_right hwritten.variants hv'
      exact ih hv hk
    · have hstarts := hwritten.starts
      rw [hr'] at hstarts
      generalize m.starts = starts at hstarts
      cases hstarts with
      | some hr => exact href _ r' hr hk

end

/-! ### The grammar -/

/-- The root is written out, and the case stays. -/
theorem inlined?_root {g g' : Grammar} {n : Nat} (h : g.inlined? n = some g') :
    g.inlineMode? n g.root = some g'.root ∧ g'.caseInsensitive = g.caseInsensitive := by
  unfold Grammar.inlined? at h
  obtain ⟨definitions, _, h⟩ := Option.bind_eq_some_iff.mp h
  obtain ⟨root, hroot, h⟩ := Option.bind_eq_some_iff.mp h
  cases h
  exact ⟨hroot, rfl⟩

/-- A name that stands for no other mode still does so when references are written
out. -/
theorem target?_inlined {g g' : Grammar} {n : Nat} (h : g.inlined? n = some g') {name : String}
    (hname : g.target? (.named name) = none) : g'.target? (.named name) = none := by
  unfold Grammar.inlined? at h
  obtain ⟨definitions, hdefinitions, h⟩ := Option.bind_eq_some_iff.mp h
  obtain ⟨root, _, h⟩ := Option.bind_eq_some_iff.mp h
  cases h
  unfold Grammar.target? at hname ⊢
  by_cases hself : name = selfName
  · simp [hself]
  · simp only [hself, if_false, Grammar.lookup?, Option.orElse_eq_orElse, Option.orElse_eq_or,
      Option.or_eq_none_iff] at hname ⊢
    refine ⟨?_, hname.2⟩
    rw [List.lookup_eq_none_iff] at hname ⊢
    intro p' hp'
    obtain ⟨p, hp, hwritten⟩ := exists_of_mem_right (forall₂_of_mapM_option hdefinitions) hp'
    obtain ⟨m, _, rfl⟩ := Option.map_eq_some_iff.mp hwritten
    exact hname.1 p hp

/-- Where all references are written out, nothing is shared. -/
theorem inlined_faithful {g g' : Grammar} {n : Nat} (h : g.inlined? n = some g')
    {fits : Origin → Option String → Prop} : g'.Faithful fits := by
  have hnone : ∀ o name expanded under, g'.Meets o → o.Refers (.named name) expanded under →
      g'.target? (.named name) = none := by
    intro o name expanded under hmeets hrefers
    apply target?_inlined h
    have hmem : name ∈ o.mode.names := hrefers.names name (by simp [ModeRef.names])
    have hnames := names_of_meets hmeets hmem
    unfold Grammar.inlined? at h
    obtain ⟨definitions, hdefinitions, h⟩ := Option.bind_eq_some_iff.mp h
    obtain ⟨root, hroot, h⟩ := Option.bind_eq_some_iff.mp h
    cases h
    rcases hnames with hmem | ⟨p', hp', hmem⟩
    · exact names_written_out hroot hmem
    · obtain ⟨p, _, hwritten⟩ := exists_of_mem_right (forall₂_of_mapM_option hdefinitions) hp'
      obtain ⟨m, hm, rfl⟩ := Option.map_eq_some_iff.mp hwritten
      exact names_written_out hm hmem
  refine ⟨?_, ?_⟩
  · intro o name expanded under d i hmeets hrefers htarget
    rw [hnone o name expanded under hmeets hrefers] at htarget
    cases htarget
  · intro copy o name expanded under d hmeets hpath hrefers htarget
    rw [hnone o name expanded _ (Relation.ReflTransGen.trans hmeets hpath) hrefers] at htarget
    cases htarget

/-! ## Grammars that can be written out -/

namespace Grammar

/-- The modes that are written out for a mode: those that it refers to, and its
variants. -/
def below (g : Grammar) (m : Mode) : List Mode :=
  m.contains.filterMap g.target? ++ m.variants ++ (g.next? m).toList

end Grammar

section

variable {g : Grammar}

theorem isSome_writeOut? {write : Mode → Option Mode} {r : ModeRef}
    (h : ∀ d, g.target? r = some d → (write d).isSome) : (g.writeOut? write r).isSome := by
  unfold Grammar.writeOut?
  rcases hd : g.target? r with _ | d
  · rfl
  · simpa using h d hd

theorem isSome_inlineMode?_succ {n : Nat} {m : Mode}
    (h : ∀ d ∈ g.below m, (g.inlineMode? n d).isSome) : (g.inlineMode? (n + 1) m).isSome := by
  unfold Grammar.below at h
  simp only [List.mem_append, List.mem_filterMap, Option.mem_toList, Grammar.next?] at h
  have hcontains : (m.contains.mapM (g.writeOut? (g.inlineMode? n))).isSome := by
    apply mapM_option_isSome
    intro r hr
    exact isSome_writeOut? fun d hd => h d (.inl (.inl ⟨r, hr, hd⟩))
  have hvariants : (m.variants.mapM (g.inlineMode? n)).isSome := by
    apply mapM_option_isSome
    intro v hv
    exact h v (.inl (.inr hv))
  have hstarts : (m.starts.mapM (g.writeOut? (g.inlineMode? n))).isSome := by
    rcases hs : m.starts with _ | r
    · rfl
    · have hr : (g.writeOut? (g.inlineMode? n) r).isSome := by
        apply isSome_writeOut?
        intro d hd
        exact h d (.inr (by rw [hs]; exact hd))
      obtain ⟨r', hr'⟩ := Option.isSome_iff_exists.mp hr
      rw [mapM_some_eq, hr']
      rfl
  obtain ⟨contains, hcontains⟩ := Option.isSome_iff_exists.mp hcontains
  obtain ⟨variants, hvariants⟩ := Option.isSome_iff_exists.mp hvariants
  obtain ⟨starts, hstarts⟩ := Option.isSome_iff_exists.mp hstarts
  simp [Grammar.inlineMode?, hcontains, hvariants, hstarts]

/-- From some fuel on, the mode is written out. -/
def Grammar.WritesOut (g : Grammar) (m : Mode) : Prop :=
  ∃ n, ∀ n', n ≤ n' → (g.inlineMode? n' m).isSome

theorem exists_fuel {ms : List Mode} (h : ∀ m ∈ ms, g.WritesOut m) :
    ∃ n, ∀ m ∈ ms, ∀ n', n ≤ n' → (g.inlineMode? n' m).isSome := by
  induction ms with
  | nil =>
    refine ⟨0, ?_⟩
    intro m hm
    cases hm
  | cons m ms ih =>
    obtain ⟨n₁, hn₁⟩ := h m List.mem_cons_self
    obtain ⟨n₂, hn₂⟩ := ih fun m' hm' => h m' (List.mem_cons_of_mem _ hm')
    refine ⟨max n₁ n₂, ?_⟩
    intro m' hm' n' hn'
    rcases List.mem_cons.mp hm' with rfl | hm'
    · exact hn₁ n' (by omega)
    · exact hn₂ m' hm' n' (by omega)

theorem writesOut_of_below {m : Mode} (h : ∀ d ∈ g.below m, g.WritesOut d) : g.WritesOut m := by
  obtain ⟨n, hn⟩ := exists_fuel h
  refine ⟨n + 1, ?_⟩
  intro n' hn'
  obtain ⟨k, rfl⟩ := Nat.exists_eq_add_of_le' hn'
  exact isSome_inlineMode?_succ fun d hd => hn d hd (k + n) (by omega)

/-- What stands below a mode is smaller, or it is what a name in the mode stands
for. -/
theorem below_cases {m d : Mode} (h : d ∈ g.below m) :
    (sizeOf d < sizeOf m ∧ ∀ k ∈ d.names, k ∈ m.names) ∨
      ∃ k ∈ m.names, k ≠ selfName ∧ g.lookup? k = some d := by
  have href : ∀ r, g.target? r = some d → sizeOf r < sizeOf m → (∀ k ∈ r.names, k ∈ m.names) →
      (sizeOf d < sizeOf m ∧ ∀ k ∈ d.names, k ∈ m.names) ∨
        ∃ k ∈ m.names, k ≠ selfName ∧ g.lookup? k = some d := by
    intro r hr hsize hnames
    cases r with
    | inline d' =>
      cases hr
      rw [ModeRef.inline.sizeOf_spec] at hsize
      exact .inl ⟨by omega, hnames⟩
    | named k =>
      obtain ⟨hself, hlookup⟩ := lookup?_of_target? hr
      exact .inr ⟨k, hnames k (by simp [ModeRef.names]), hself, hlookup⟩
  unfold Grammar.below Grammar.next? at h
  simp only [List.mem_append, List.mem_filterMap, Option.mem_toList,
    Option.bind_eq_some_iff] at h
  rcases h with (⟨r, hr, hd⟩ | hv) | ⟨r, hr, hd⟩
  · exact href r hd (sizeOf_contains m hr) fun k hk => mem_names.mpr (.inl ⟨r, hr, hk⟩)
  · exact .inl ⟨sizeOf_variant m hv, fun k hk => mem_names.mpr (.inr (.inl ⟨d, hv, hk⟩))⟩
  · exact href r hd (sizeOf_starts m hr) fun k hk => mem_names.mpr (.inr (.inr ⟨r, hr, hk⟩))

/-- A mode is written out if what its names stand for is. -/
theorem writesOut_of_names {m : Mode}
    (h : ∀ k ∈ m.names, k ≠ selfName → ∀ d, g.lookup? k = some d → g.WritesOut d) :
    g.WritesOut m := by
  induction hsize : sizeOf m using Nat.strongRecOn generalizing m with
  | ind size ih =>
    apply writesOut_of_below
    intro d hd
    rcases below_cases hd with ⟨hlt, hnames⟩ | ⟨k, hk, hself, hlookup⟩
    · exact ih (sizeOf d) (hsize ▸ hlt) (fun k hk => h k (hnames k hk)) rfl
    · exact h k hk hself d hlookup

/-- What a common mode stands for is written out: it has no names. -/
theorem writesOut_commonMode {name : String} {d : Mode} (h : CommonMode.find? name = some d) :
    g.WritesOut d := by
  apply writesOut_of_names
  intro k hk
  rw [(commonMode_alone h).1] at hk
  cases hk

/-- In a grammar without recursive definitions, what a name stands for is written
out. -/
theorem writesOut_of_lookup (hg : g.Nonrecursive) {name : String} {d : Mode}
    (h : g.lookup? name = some d) : g.WritesOut d := by
  -- The names of the definitions are ordered by where they lead, and there are finitely many.
  let before : String → String → Prop := fun a b => Relation.TransGen g.Leads b a
  have horder : IsStrictOrder String before :=
    { irrefl := fun a => not_leads_back hg a
      trans := fun _ _ _ hab hbc => Relation.TransGen.trans hbc hab }
  have hfinite : {k | k ∈ g.definitions.map (·.1)}.Finite := List.finite_toSet _
  have hdefinition : ∀ k ∈ {k | k ∈ g.definitions.map (·.1)}, ∀ d, g.lookup? k = some d →
      g.WritesOut d := by
    intro k hk
    have hwell : {k | k ∈ g.definitions.map (·.1)}.WellFoundedOn before := hfinite.wellFoundedOn
    refine hwell.induction (P := fun k => ∀ d, g.lookup? k = some d → g.WritesOut d) hk ?_
    intro k _ ih d hd
    apply writesOut_of_names
    intro k' hk' hself d' hd'
    rcases lookup?_cases hd' with hmem | hcommon
    · exact ih k' (List.mem_map.mpr ⟨_, hmem, rfl⟩) (.single ⟨d, hd, hk', hself⟩) d' hd'
    · exact writesOut_commonMode hcommon
  rcases lookup?_cases h with hmem | hcommon
  · exact hdefinition name (List.mem_map.mpr ⟨_, hmem, rfl⟩) d h
  · exact writesOut_commonMode hcommon

/-- A grammar without recursive definitions can be written out. -/
theorem Grammar.Nonrecursive.exists_inlined (hg : g.Nonrecursive) :
    ∃ n g', g.inlined? n = some g' := by
  have hmodes : ∀ m ∈ g.root :: g.definitions.map (·.2), g.WritesOut m := fun m _ =>
    writesOut_of_names fun _ _ _ _ hd => writesOut_of_lookup hg hd
  obtain ⟨n, hn⟩ := exists_fuel hmodes
  have hdefinitions : (g.definitions.mapM (g.inlineDefinition? n)).isSome := by
    apply mapM_option_isSome
    intro p hp
    have hp' := hn p.2 (List.mem_cons_of_mem _ (List.mem_map_of_mem hp)) n (Nat.le_refl n)
    simpa [Grammar.inlineDefinition?] using hp'
  obtain ⟨definitions, hdefinitions⟩ := Option.isSome_iff_exists.mp hdefinitions
  obtain ⟨root, hroot⟩ :=
    Option.isSome_iff_exists.mp (hn g.root List.mem_cons_self n (Nat.le_refl n))
  refine ⟨n, { g with definitions, root }, ?_⟩
  simp [Grammar.inlined?, hdefinitions, hroot]

end

end Highlighting
