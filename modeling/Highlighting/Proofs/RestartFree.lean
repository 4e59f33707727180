-- Grammars in which no definition restarts itself: none is reached again from
-- what follows it. Compiling such a grammar ends, also when modes that end with
-- their parent stand in each other in cycles.
--
-- Along a chain of references the inherited end grows until a mode does not take
-- it over. On such a stretch a name is compiled in few ways: what follows it
-- does not lead back to it, and a copy in which the chain goes on is met again
-- as the copy that is being linked, whose end the inherited one extends. So the
-- ways that are still open bound how much further the end can grow.
import Highlighting.Proofs.CompileEnds
import Highlighting.Proofs.Nonrecursive

namespace Highlighting

/-! ## Where a reference leads -/

namespace Grammar

/-- A reference leads to a name that stands in it, or to which such a name leads. -/
def LeadsTo (g : Grammar) (r : ModeRef) (name : String) : Prop :=
  ∃ k ∈ r.names, k ≠ selfName ∧ Relation.ReflTransGen g.Leads k name

/-- What follows a definition, or one of its variants, does not lead back to it. -/
def RestartFree (g : Grammar) : Prop :=
  ∀ name d, g.lookup? name = some d → ∀ m, m = d ∨ m ∈ d.variants →
    ∀ r, m.starts = some r → ¬ g.LeadsTo r name

end Grammar

theorem leadsTo_self {g : Grammar} {name : String} (h : name ≠ selfName) :
    g.LeadsTo (.named name) name :=
  ⟨name, by simp [ModeRef.names], h, .refl⟩

/-- What an instance refers to leads no further than the mode. -/
theorem leadsTo_of_instance {g : Grammar} {d i : Mode} {expanded : Bool}
    (hi : i ∈ d.instances expanded) {r : ModeRef} (hr : r ∈ i.contains ∨ i.starts = some r)
    {name : String} (h : g.LeadsTo r name) : g.LeadsTo (.inline d) name := by
  obtain ⟨k, hk, hself, hleads⟩ := h
  refine ⟨k, names_instance hi (mem_names.mpr ?_), hself, hleads⟩
  rcases hr with hr | hr
  · exact .inl ⟨r, hr, hk⟩
  · exact .inr (.inr ⟨r, hr, hk⟩)

theorem leadsTo_of_lookup {g : Grammar} {name other : String} {d : Mode} (hself : name ≠ selfName)
    (hd : g.lookup? name = some d) (h : g.LeadsTo (.inline d) other) :
    g.LeadsTo (.named name) other := by
  obtain ⟨k, hk, hkself, hleads⟩ := h
  exact ⟨name, by simp [ModeRef.names], hself, .head ⟨d, hd, hk, hkself⟩ hleads⟩

/-- What follows an instance follows the mode or one of its variants. -/
theorem instance_starts {d i : Mode} {expanded : Bool} (hi : i ∈ d.instances expanded)
    {r : ModeRef} (h : i.starts = some r) : ∃ m, (m = d ∨ m ∈ d.variants) ∧ m.starts = some r := by
  unfold Mode.instances at hi
  split at hi
  · unfold Mode.expand at hi
    split at hi
    · rw [List.mem_singleton] at hi
      subst hi
      exact ⟨i, .inl rfl, h⟩
    · obtain ⟨v, hv, rfl⟩ := List.mem_map.mp hi
      simp only [Mode.inherit] at h
      rcases hs : v.starts with _ | r'
      · rw [hs] at h
        exact ⟨d, .inl rfl, h⟩
      · rw [hs] at h
        cases h
        exact ⟨v, .inr hv, hs⟩
  · rw [List.mem_singleton] at hi
    subst hi
    exact ⟨d, .inl rfl, h⟩

/-! ## The ends of a chain -/

theorem extendsEnd_iff {source base : String} :
    extendsEnd source base = true ↔
      source = base ∨ base ≠ "" ∧ ("|" ++ base).toList <:+ source.toList := by
  unfold extendsEnd
  rw [Bool.or_eq_true, Bool.and_eq_true, beq_iff_eq, List.isPrefixOf_iff_prefix,
    List.reverse_prefix]
  simp

theorem extendsEnd_self (s : String) : extendsEnd s s = true := extendsEnd_iff.mpr (.inl rfl)

theorem extendsEnd_ne_empty {source base : String} (hbase : base ≠ "")
    (h : extendsEnd source base = true) : source ≠ "" := by
  rintro rfl
  rcases extendsEnd_iff.mp h with rfl | ⟨_, hsuffix⟩
  · exact hbase rfl
  · have := hsuffix.length_le
    simp at this

/-- The end of a mode that takes over the end around it. -/
theorem terminatorEnd_taken {m : Mode} (hm : m.endsWithParent = true) {e : String} (he : e ≠ "") :
    m.terminatorEnd e = (m.endSource.map (· ++ "|")).getD "" ++ e := by
  unfold Mode.terminatorEnd
  rw [hm, Bool.true_and, if_pos (by simpa using he)]
  rcases m.endSource with _ | s
  · rfl
  · rfl

/-- A mode that takes over an end keeps the ends that this one extends. -/
theorem extendsEnd_taken {m : Mode} (hm : m.endsWithParent = true) {e base : String}
    (hbase : base ≠ "") (h : extendsEnd e base = true) :
    extendsEnd (m.terminatorEnd e) base = true := by
  rw [terminatorEnd_taken hm (extendsEnd_ne_empty hbase h)]
  rcases m.endSource with _ | s
  · simpa using h
  · refine extendsEnd_iff.mpr (.inr ⟨hbase, ?_⟩)
    rcases extendsEnd_iff.mp h with rfl | ⟨_, hsuffix⟩
    · exact ⟨s.toList, by simp⟩
    · exact hsuffix.trans ⟨s.toList ++ ['|'], by simp⟩

theorem eq_empty_of_terminatorEnd {m : Mode} (hm : m.endsWithParent = true) {e : String}
    (h : m.terminatorEnd e = "") : e = "" := by
  by_contra he
  rw [terminatorEnd_taken hm he, String.append_eq_empty_iff] at h
  exact he h.2

/-- How long the end is that a mode has of its own. -/
def Mode.ownEndLength (m : Mode) : Nat := (m.endSource.getD "").length

theorem length_terminatorEnd_le (m : Mode) (e : String) :
    (m.terminatorEnd e).length ≤ e.length + m.ownEndLength + 1 := by
  unfold Mode.terminatorEnd Mode.ownEndLength
  split
  · rw [String.length_append]
    split
    · rw [String.length_append]
      have : "|".length = 1 := by decide
      omega
    · omega
  · simp only
    omega

theorem terminatorEnd_own {m : Mode} (hm : m.endsWithParent = false) (e : String) :
    m.terminatorEnd e = m.endSource.getD "" := by
  unfold Mode.terminatorEnd
  rw [hm, Bool.false_and, if_neg (by simp)]

/-! ## One reference asking for another -/

theorem Origin.Refers.under {o : Origin} {r : ModeRef} {expanded : Bool} {under : Option String}
    (h : o.Refers r expanded under) :
    (r ∈ o.mode.contains ∧ under = some o.ownEnd) ∨
      (o.mode.starts = some r ∧ under = o.parentEnd) := by
  cases h with
  | contains hr => exact .inl ⟨hr, rfl⟩
  | starts hr => exact .inr ⟨hr, rfl⟩

theorem Origin.Refers.mode {o : Origin} {r : ModeRef} {expanded : Bool} {under : Option String}
    (h : o.Refers r expanded under) : r ∈ o.mode.contains ∨ o.mode.starts = some r :=
  h.under.imp And.left And.left

theorem prepareAll_ends {g : Grammar} {modes : List Mode} {parentEnd : Option String}
    {a a' : Arena} {ids : List Nat} (h : prepareAll g modes parentEnd a = .ok (ids, a')) :
    ∀ t ∈ ids.zip modes, ∃ c, a'.modes[t.1]? = some c ∧
      c.terminatorEnd = (Origin.mk t.2 parentEnd).ownEnd := by
  obtain ⟨ms, hms, rfl, rfl⟩ := prepareAll_ok h
  intro t ht
  obtain ⟨k, hk⟩ := List.mem_iff_getElem?.mp ht
  rw [List.getElem?_zip_eq_some] at hk
  obtain ⟨hid, hmode⟩ := hk
  obtain ⟨hlt, hid⟩ := List.getElem?_eq_some_iff.mp hid
  rw [List.length_range'] at hlt
  rw [List.getElem_range', Nat.one_mul] at hid
  have hc : ms[k]? = some ms[k] := List.getElem?_eq_getElem hlt
  refine ⟨ms[k], ?_, ?_⟩
  · rw [← hid, Array.getElem?_append_right (Nat.le_add_right _ _)]
    simp
  · have hprepared := of_forall₂_getElem? (forall₂_of_mapM hms) hmode hc
    exact prepare_terminatorEnd (o := ⟨t.2, parentEnd⟩) hprepared

theorem childrenAsk_under {g : Grammar} {id : Nat} {ownEnd : String} {refs : List ModeRef}
    {a : Arena} {q : Call} (h : ChildrenAsk g id ownEnd refs a q) :
    q.expanded = true ∧ q.parentEnd = some ownEnd := by
  induction h with
  | here r refs a => exact ⟨rfl, rfl⟩
  | later _ _ ih => exact ih

/-- Links ask for what the linked modes refer to. -/
theorem linksAsk_refers {g : Grammar} {parentEnd : Option String} {tasks : List (Nat × Mode)}
    {a : Arena} {q : Call} (h : LinksAsk g parentEnd tasks a q)
    (hends : ∀ t ∈ tasks, ∃ c, a.modes[t.1]? = some c ∧
      c.terminatorEnd = (Origin.mk t.2 parentEnd).ownEnd) :
    ∃ t ∈ tasks, (Origin.mk t.2 parentEnd).Refers q.reference q.expanded q.parentEnd := by
  induction h with
  | @child id m tasks a q hchild =>
    obtain ⟨c, hc, hend⟩ := hends (id, m) List.mem_cons_self
    have hown : a.ownEnd id = (Origin.mk m parentEnd).ownEnd := by
      unfold Arena.ownEnd
      rw [hc, ← hend]
      rfl
    obtain ⟨hexpanded, hunder⟩ := childrenAsk_under hchild
    refine ⟨(id, m), List.mem_cons_self, ?_⟩
    rw [hexpanded, hunder, hown]
    exact .contains (childrenAsk_remembers hchild).2
  | @starts id m tasks a a' depth lists r _ hr => exact ⟨(id, m), List.mem_cons_self, .starts hr⟩
  | later hlink _ ih =>
    have hknown := link_remembers (resolve_remembers g _) hlink
    obtain ⟨t, ht, hrefers⟩ := ih fun t ht => by
      obtain ⟨c, hc, hend⟩ := hends t (List.mem_cons_of_mem _ ht)
      obtain ⟨c', hc', hend'⟩ := hknown.ends t.1 c hc
      exact ⟨c', hc', hend'.trans hend⟩
    exact ⟨t, List.mem_cons_of_mem _ ht, hrefers⟩

/-- A copy of a name is being linked, and one of its modes ends in `base`. -/
def Arena.HasOpen (a : Arena) (name : String) (expanded : Bool) (base : String) : Prop :=
  ∃ r ∈ a.linking, r.name = name ∧ r.expanded = expanded ∧
    ∃ id ∈ r.ids, ∃ m, a.modes[id]? = some m ∧ m.terminatorEnd = base

namespace Arena.HasOpen

variable {a a' : Arena} {name : String} {expanded : Bool} {base : String}

theorem remembered (h : a.HasOpen name expanded base) (ha : a'.Remembers a) :
    a'.HasOpen name expanded base := by
  obtain ⟨r, hr, hname, hexpanded, id, hid, m, hm, hend⟩ := h
  obtain ⟨m', hm', hend'⟩ := ha.ends id m hm
  exact ⟨r, ha.linking ▸ hr, hname, hexpanded, id, hid, m', hm', hend'.trans hend⟩

theorem noted (h : a.HasOpen name expanded base) (name' : String) (expanded' dependent : Bool)
    (key : RefKey) (ids : List Nat) :
    (a.note name' expanded' dependent key ids).HasOpen name expanded base := by
  obtain ⟨r, hr, hrest⟩ := h
  refine ⟨r, ?_, hrest⟩
  unfold Arena.note
  cases dependent with
  | false => exact hr
  | true => exact List.mem_cons_of_mem _ hr

/-- An open copy is found from under every end that extends its own. -/
theorem found (h : a.HasOpen name expanded base) {e : String} (he : extendsEnd e base = true) :
    a.enclosing? name expanded (some e) ≠ none := by
  obtain ⟨r, hr, hname, hexpanded, id, hid, m, hm, hend⟩ := h
  intro hnone
  unfold Arena.enclosing? at hnone
  simp only [Option.bind_eq_bind, Option.bind_some, Option.bind_eq_none_iff] at hnone
  have hmatch : (a.linking.find? fun r => r.name == name && r.expanded == expanded &&
      r.ids.any fun id => (a.modes[id]?).any fun m => extendsEnd e m.terminatorEnd).isSome := by
    refine List.find?_isSome.mpr ⟨r, hr, ?_⟩
    simp only [Bool.and_eq_true, beq_iff_eq, List.any_eq_true]
    exact ⟨⟨hname, hexpanded⟩, id, hid, by rw [hm, Option.any_some, hend]; exact he⟩
  obtain ⟨r', hr'⟩ := Option.isSome_iff_exists.mp hmatch
  exact absurd (hnone r' hr') (by simp)

end Arena.HasOpen

/-- What is known where a reference is met is known to those that it asks for. -/
structure Arena.GoesOn (a' a : Arena) : Prop where
  shared : a.shared <:+ a'.shared
  hasOpen : ∀ name expanded base, a.HasOpen name expanded base → a'.HasOpen name expanded base

/-- What a reference stands for before it asks: a mode that is written out, or one that it
names. That one is kept, and open if it depends on its parent, when it asks. -/
inductive Call.Opens (g : Grammar) (q p : Call) (d : Mode) (base : String) : Prop
  | inline (h : q.reference = .inline d)
  | named {name : String} {dependent : Bool} {key : RefKey} (h : q.reference = .named name)
      (hfresh : q.arena.Fresh g name q.parentEnd q.expanded d dependent key)
      (hkept : key ∈ p.arena.shared.map (·.1))
      (hopen : dependent = true → p.arena.HasOpen name q.expanded base)

/-- A reference asks for what an instance of its mode refers to. -/
theorem asks_cases {g : Grammar} {q p : Call} (h : Asks g q p) :
    ∃ d, ∃ i ∈ d.instances q.expanded,
      (Origin.mk i q.parentEnd).Refers p.reference p.expanded p.parentEnd ∧
      p.arena.GoesOn q.arena ∧ q.Opens g p d (Origin.mk i q.parentEnd).ownEnd := by
  cases h with
  | @inline m current parentEnd expanded a a' ids p hprepare hlinks =>
    have hends := prepareAll_ends hprepare
    obtain ⟨ms, _, rfl, _⟩ := prepareAll_ok hprepare
    obtain ⟨t, ht, hrefers⟩ := linksAsk_refers hlinks hends
    have hknown := (Arena.Remembers.prepared a ms).trans (linksAsk_remembers hlinks).1
    exact ⟨m, t.2, (List.of_mem_zip ht).2, hrefers,
      ⟨hknown.shared, fun _ _ _ hopen => hopen.remembered hknown⟩, .inline rfl⟩
  | @named name m dependent key current parentEnd expanded a a' ids p hfresh hprepare hlinks =>
    have hends := prepareAll_ends hprepare
    obtain ⟨ms, _, rfl, _⟩ := prepareAll_ok hprepare
    obtain ⟨t, ht, hrefers⟩ := linksAsk_refers hlinks hends
    obtain ⟨c, hc, hend⟩ := hends t ht
    have hprepared := Arena.Remembers.prepared a ms
    have hknown := (linksAsk_remembers hlinks).1
    refine ⟨m, t.2, (List.of_mem_zip ht).2, hrefers, ⟨?_, ?_⟩, ?_⟩
    · exact (List.suffix_cons _ _).trans hknown.shared
    · intro name' expanded' base hopen
      exact ((hopen.remembered hprepared).noted name expanded dependent key ids).remembered hknown
    · refine .named rfl (known_fresh hfresh) ?_ ?_
      · exact (hknown.shared.map _).subset List.mem_cons_self
      · rintro rfl
        refine Arena.HasOpen.remembered ?_ hknown
        exact ⟨⟨name, expanded, ids⟩, List.mem_cons_self, rfl, rfl, t.1, (List.of_mem_zip ht).1,
          c, hc, hend⟩

/-! ## Ways to compile a name -/

/-- A way in which a name is compiled on a stretch along which inherited ends are taken over:
with its variants or without, and in a mode that has no end or in one that has. -/
structure Way where
  name : String
  expanded : Bool
  endless : Bool

namespace Call

/-- A way that is closed at a reference: the reference does not lead to the name, or it finds
a copy that is open or kept. -/
def Closed (g : Grammar) (q : Call) (w : Way) : Prop :=
  ¬ g.LeadsTo q.reference w.name ∨
    ∃ e d, q.parentEnd = some e ∧ g.lookup? w.name = some d ∧
      if g.dependsOnParent d then
        ∃ base, q.arena.HasOpen w.name w.expanded base ∧ base.isEmpty = w.endless ∧
          (base = "" ∨ extendsEnd e base = true)
      else ⟨w.name, w.expanded, some ""⟩ ∈ q.arena.shared.map (·.1)

/-- The ways that are closed at a reference. -/
def closedWays (g : Grammar) (q : Call) : Set Way :=
  {w | (g.lookup? w.name).isSome ∧ q.Closed g w}

end Call

/-- The end around the second reference takes over the one around the first. -/
inductive TakesOver (i : Mode) : (before after : Option String) → Prop
  | same (e : Option String) : TakesOver i e e
  | joined {e : String} (hends : i.endsWithParent = true) :
      TakesOver i (some e) (some (i.terminatorEnd e))

/-- A reference that asks for another passes the end around it on, or else the other inherits
no more than the own end of a mode. -/
theorem takesOver_or_own {i : Mode} {before after : Option String} {r : ModeRef} {expanded : Bool}
    (h : (Origin.mk i before).Refers r expanded after) :
    TakesOver i before after ∨ (after.getD "").length ≤ i.ownEndLength := by
  cases h with
  | starts h => exact .inl (.same _)
  | contains h =>
    rcases before with _ | e
    · exact .inr (Nat.zero_le _)
    · rcases hends : i.endsWithParent with _ | _
      · refine .inr ?_
        unfold Origin.ownEnd
        simp only [Option.map_some, Option.getD_some, terminatorEnd_own hends]
        exact Nat.le_refl _
      · exact .inl (.joined hends)

theorem length_takesOver {i : Mode} {before after : Option String} (h : TakesOver i before after) :
    (after.getD "").length ≤ (before.getD "").length + i.ownEndLength + 1 := by
  cases h with
  | same e => omega
  | joined hends => exact length_terminatorEnd_le i _

theorem takesOver_some {i : Mode} {before : Option String} {after : String}
    (h : TakesOver i before (some after)) :
    ∃ e, before = some e ∧ (after = "" → e = "") := by
  cases h with
  | same => exact ⟨after, rfl, id⟩
  | joined hends => exact ⟨_, rfl, eq_empty_of_terminatorEnd hends⟩

section

variable {g : Grammar} {q p : Call} {d i : Mode}

/-- What an asked reference leads to the asking one leads to. -/
theorem leadsTo_of_asked (hi : i ∈ d.instances q.expanded)
    (hrefers : (Origin.mk i q.parentEnd).Refers p.reference p.expanded p.parentEnd)
    {base : String} (hopens : q.Opens g p d base) {name : String}
    (h : g.LeadsTo p.reference name) : g.LeadsTo q.reference name := by
  have hd : g.LeadsTo (.inline d) name := leadsTo_of_instance hi hrefers.mode h
  cases hopens with
  | inline href => rw [href]; exact hd
  | named href hfresh => rw [href]; exact leadsTo_of_lookup hfresh.name_ne hfresh.lookup hd

/-- As long as ends are taken over a closed way stays closed. -/
theorem closed_of_asked (hi : i ∈ d.instances q.expanded)
    (hrefers : (Origin.mk i q.parentEnd).Refers p.reference p.expanded p.parentEnd)
    (hon : p.arena.GoesOn q.arena) {base : String} (hopens : q.Opens g p d base)
    (htakes : TakesOver i q.parentEnd p.parentEnd) {w : Way} (h : q.Closed g w) :
    p.Closed g w := by
  rcases h with hfar | ⟨e, d', he, hd', hclosed⟩
  · exact .inl fun hleads => hfar (leadsTo_of_asked hi hrefers hopens hleads)
  · obtain ⟨e', he', hextends⟩ : ∃ e', p.parentEnd = some e' ∧
        ∀ base, base ≠ "" → extendsEnd e base = true → extendsEnd e' base = true := by
      rw [he] at htakes
      cases hp : p.parentEnd with
      | none => rw [hp] at htakes; cases htakes
      | some e' =>
        rw [hp] at htakes
        refine ⟨e', rfl, ?_⟩
        cases htakes with
        | same => exact fun _ _ h => h
        | joined hends => exact fun _ hbase h => extendsEnd_taken hends hbase h
    refine .inr ⟨e', d', he', hd', ?_⟩
    split at hclosed
    · rename_i hdepends
      rw [if_pos hdepends]
      obtain ⟨base, hopen, hempty, hbase⟩ := hclosed
      refine ⟨base, hon.hasOpen _ _ _ hopen, hempty, ?_⟩
      by_cases hne : base = ""
      · exact .inl hne
      · exact .inr (hextends base hne (hbase.resolve_left hne))
    · rename_i hdepends
      rw [if_neg hdepends]
      exact (hon.shared.map _).subset hclosed

/-- A way in which a name is compiled was not closed before. -/
theorem not_closed_of_fresh {name : String} {dependent : Bool} {key : RefKey}
    (href : q.reference = .named name)
    (hfresh : q.arena.Fresh g name q.parentEnd q.expanded d dependent key) {endless : Bool}
    (hendless : endless = true → q.parentEnd.getD "" = "") :
    ¬ q.Closed g ⟨name, q.expanded, endless⟩ := by
  rintro (hfar | ⟨e, d', he, hd', hclosed⟩)
  · exact hfar (href ▸ leadsTo_self hfresh.name_ne)
  · cases hd'.symm.trans hfresh.lookup
    split at hclosed
    · rename_i hdepends
      obtain ⟨base, hopen, hempty, hbase⟩ := hclosed
      have hextends : extendsEnd e base = true := by
        rcases hbase with rfl | hextends
        · have hnone := hendless hempty.symm
          rw [he, Option.getD_some] at hnone
          rw [hnone]
          exact extendsEnd_self ""
        · exact hextends
      exact hopen.found hextends (he ▸ hfresh.enclosing hdepends)
    · rename_i hdepends
      refine hfresh.key_not_mem ?_
      rw [hfresh.key_eq]
      unfold refKey
      rw [if_neg hdepends, he]
      exact hclosed

/-- Compiling a name closes a way as long as ends are taken over. -/
theorem exists_closed_of_fresh (hg : g.RestartFree) (hi : i ∈ d.instances q.expanded)
    (hrefers : (Origin.mk i q.parentEnd).Refers p.reference p.expanded p.parentEnd)
    {name : String} {dependent : Bool} {key : RefKey} (href : q.reference = .named name)
    (hfresh : q.arena.Fresh g name q.parentEnd q.expanded d dependent key)
    (hkept : key ∈ p.arena.shared.map (·.1))
    (hopen : dependent = true →
      p.arena.HasOpen name q.expanded (Origin.mk i q.parentEnd).ownEnd)
    (htakes : TakesOver i q.parentEnd p.parentEnd) :
    ∃ endless, ¬ q.Closed g ⟨name, q.expanded, endless⟩ ∧
      p.Closed g ⟨name, q.expanded, endless⟩ := by
  rcases hrefers.under with ⟨_, hunder⟩ | ⟨hstarts, _⟩
  · -- The copy is open, and its end is the one around the reference.
    rw [hunder] at htakes
    obtain ⟨e, he, hempty⟩ := takesOver_some htakes
    refine ⟨(Origin.mk i q.parentEnd).ownEnd.isEmpty, ?_, .inr ⟨_, d, hunder, hfresh.lookup, ?_⟩⟩
    · refine not_closed_of_fresh href hfresh fun hendless => ?_
      rw [he, Option.getD_some]
      exact hempty (String.isEmpty_iff.mp hendless)
    · split
      · rename_i hdepends
        exact ⟨_, hopen (hfresh.depends.trans hdepends), rfl, .inr (extendsEnd_self _)⟩
      · rename_i hdepends
        rw [hfresh.key_eq] at hkept
        unfold refKey at hkept
        rwa [if_neg hdepends, he] at hkept
  · -- What follows the copy does not lead back to it.
    obtain ⟨m, hm, hr⟩ := instance_starts hi hstarts
    refine ⟨false, not_closed_of_fresh href hfresh (fun h => nomatch h), .inl ?_⟩
    exact hg name d hfresh.lookup m hm _ hr

end

/-! ## How far inherited ends grow -/

/-- A mode is written out in a reference, at any depth. -/
inductive ModeRef.Has : ModeRef → Mode → Prop
  | self (m : Mode) : Has (.inline m) m
  | inside {m i d : Mode} {expanded : Bool} {r : ModeRef} (hi : i ∈ m.instances expanded)
      (hr : r ∈ i.contains ∨ i.starts = some r) (h : Has r d) : Has (.inline m) d

theorem has_finite (r : ModeRef) : {d | r.Has d}.Finite := by
  match r with
  | .named name =>
    refine Set.finite_empty.subset ?_
    intro d hd
    cases hd
  | .inline m =>
    have hrefs : {r | ∃ expanded, ∃ i ∈ m.instances expanded,
        r ∈ i.contains ∨ i.starts = some r}.Finite := by
      refine (List.finite_toSet ((m.instances true ++ m.instances false).flatMap fun i =>
        i.contains ++ i.starts.toList)).subset ?_
      rintro r ⟨expanded, i, hi, hr⟩
      refine List.mem_flatMap.mpr ⟨i, ?_, by simpa using hr⟩
      cases expanded with
      | false => exact List.mem_append_right _ hi
      | true => exact List.mem_append_left _ hi
    have hinside := hrefs.biUnion fun r hr => has_finite r
    refine ((Set.finite_singleton m).union hinside).subset ?_
    intro d hd
    cases hd with
    | self => exact .inl rfl
    | inside hi hr h => exact .inr (Set.mem_biUnion ⟨_, _, hi, hr⟩ h)
termination_by sizeOf r
decreasing_by
  obtain ⟨expanded, i, hi, hr⟩ := hr
  have := sizeOf_instance hi hr
  simp only [ModeRef.inline.sizeOf_spec]
  omega

/-- The modes that a grammar may compile: its root, and what a name stands for. -/
def Grammar.toplevel (g : Grammar) : List Mode :=
  g.root :: (g.definitions ++ CommonMode.all).map (·.2)

/-- A mode is written out in a grammar. -/
def Grammar.Has (g : Grammar) (d : Mode) : Prop := ∃ m ∈ g.toplevel, (ModeRef.inline m).Has d

theorem toplevel_of_lookup {g : Grammar} {name : String} {d : Mode} (h : g.lookup? name = some d) :
    d ∈ g.toplevel := by
  refine List.mem_cons_of_mem _ (List.mem_map.mpr ⟨(name, d), ?_, rfl⟩)
  rcases lookup?_cases h with hmem | hcommon
  · exact List.mem_append_left _ hmem
  · unfold CommonMode.find? at hcommon
    obtain ⟨before, after, heq, _⟩ := List.lookup_eq_some_iff.mp hcommon
    exact List.mem_append_right _ (heq ▸ List.mem_append_right before List.mem_cons_self)

/-- The modes of a grammar are of bounded size, and so are the ends of their instances. -/
theorem exists_bound (g : Grammar) :
    ∃ n, ∀ d, g.Has d → sizeOf d ≤ n ∧
      ∀ expanded, ∀ i ∈ d.instances expanded, i.ownEndLength < n := by
  have hmodes : {d | g.Has d}.Finite :=
    ((List.finite_toSet g.toplevel).biUnion fun m _ => has_finite (.inline m)).subset
      fun d ⟨m, hm, h⟩ => Set.mem_biUnion hm h
  have hone : ∀ d : Mode, ∃ n, sizeOf d ≤ n ∧
      ∀ expanded, ∀ i ∈ d.instances expanded, i.ownEndLength < n := by
    intro d
    obtain ⟨n, hn⟩ := ((List.finite_toSet (d.instances true ++ d.instances false)).image
      Mode.ownEndLength).bddAbove
    refine ⟨max (sizeOf d) (n + 1), Nat.le_max_left _ _, ?_⟩
    intro expanded i hi
    have hmem : i ∈ d.instances true ++ d.instances false := by
      cases expanded with
      | false => exact List.mem_append_right _ hi
      | true => exact List.mem_append_left _ hi
    have hle : i.ownEndLength ≤ n := hn (Set.mem_image_of_mem _ hmem)
    omega
  choose bound hbound using hone
  obtain ⟨n, hn⟩ := (hmodes.image bound).bddAbove
  refine ⟨n, fun d hd => ?_⟩
  have hle : bound d ≤ n := hn (Set.mem_image_of_mem bound hd)
  refine ⟨(hbound d).1.trans hle, fun expanded i hi => ?_⟩
  exact Nat.lt_of_lt_of_le ((hbound d).2 expanded i hi) hle

theorem ways_finite (g : Grammar) : {w : Way | (g.lookup? w.name).isSome}.Finite := by
  have hnames : {x | x ∈ g.definitions.map (·.1) ++ CommonMode.names}.Finite := List.finite_toSet _
  have hparts := hnames.prod (Set.finite_univ : (Set.univ : Set (Bool × Bool)).Finite)
  refine (hparts.image fun p => Way.mk p.1 p.2.1 p.2.2).subset ?_
  intro w hw
  exact ⟨(w.name, w.expanded, w.endless), ⟨lookup?_mem hw, trivial⟩, rfl⟩

theorem closedWays_finite (g : Grammar) (q : Call) : (q.closedWays g).Finite :=
  (ways_finite g).subset fun _ hw => hw.1

/-- The end that a reference inherits is paid for: by the closed ways, and by how much smaller the
reference is than what it stands in. -/
structure Call.Paid (g : Grammar) (n : Nat) (q : Call) : Prop where
  has : ∀ d, q.reference.Has d → g.Has d
  inherited : q.inherited + n * sizeOf q.reference ≤ n * (n + 2) * ((q.closedWays g).ncard + 1)

theorem paid_root {g : Grammar} {n : Nat} (hn : sizeOf g.root ≤ n) : (rootCall g).Paid g n where
  has d hd := ⟨g.root, List.mem_cons_self, hd⟩
  inherited := by
    have hsize : sizeOf (rootCall g).reference ≤ n + 2 := by
      unfold rootCall
      simp only [ModeRef.inline.sizeOf_spec]
      omega
    have hnone : (rootCall g).inherited = 0 := rfl
    calc (rootCall g).inherited + n * sizeOf (rootCall g).reference
        ≤ n * (n + 2) := by rw [hnone, Nat.zero_add]; exact Nat.mul_le_mul_left n hsize
      _ ≤ _ := Nat.le_mul_of_pos_right _ (Nat.succ_pos _)

/-- What a reference asks for pays for its end. -/
theorem paid_of_asks {g : Grammar} (hg : g.RestartFree) {n : Nat}
    (hn : ∀ d, g.Has d → sizeOf d ≤ n ∧
      ∀ expanded, ∀ i ∈ d.instances expanded, i.ownEndLength < n)
    {q p : Call} (h : Asks g q p) (hq : q.Paid g n) : p.Paid g n := by
  obtain ⟨d, i, hi, hrefers, hon, hopens⟩ := asks_cases h
  have hbelow : ∀ d', (ModeRef.inline d).Has d' → g.Has d' := by
    cases hopens with
    | inline href => exact href ▸ hq.has
    | named _ hfresh => exact fun d' hd' => ⟨d, toplevel_of_lookup hfresh.lookup, hd'⟩
  refine ⟨fun d' hd' => hbelow d' (.inside hi hrefers.mode hd'), ?_⟩
  obtain ⟨hsize, hown⟩ := hn d (hbelow d (.self d))
  have hsmaller := sizeOf_instance hi hrefers.mode
  have hshort := hown q.expanded i hi
  have hweight : n * sizeOf p.reference ≤ n * n := Nat.mul_le_mul_left n (by omega)
  have hsquare : n * (n + 2) = n * n + n + n := by rw [Nat.mul_add]; omega
  rcases takesOver_or_own hrefers with htakes | hfreed
  · have hlonger : p.inherited ≤ q.inherited + i.ownEndLength + 1 := length_takesOver htakes
    have hsubset : q.closedWays g ⊆ p.closedWays g := fun w hw =>
      ⟨hw.1, closed_of_asked hi hrefers hon hopens htakes hw.2⟩
    cases hopens with
    | inline href =>
      -- The reference gets smaller, and no way is opened again.
      have hle := Set.ncard_le_ncard hsubset (closedWays_finite g p)
      have hpart : n * sizeOf p.reference + n ≤ n * sizeOf q.reference := by
        rw [href, ModeRef.inline.sizeOf_spec, ← Nat.mul_succ]
        exact Nat.mul_le_mul_left n (by omega)
      have hways := Nat.mul_le_mul_left (n * (n + 2)) (Nat.add_le_add_right hle 1)
      have := hq.inherited
      omega
    | @named name dependent key href hfresh hkept hopen =>
      obtain ⟨endless, hbefore, hafter⟩ :=
        exists_closed_of_fresh hg hi hrefers href hfresh hkept hopen htakes
      have hknown : (g.lookup? name).isSome := by rw [hfresh.lookup]; rfl
      have hlt := Set.ncard_lt_ncard ((Set.ssubset_iff_of_subset hsubset).mpr
        ⟨_, ⟨hknown, hafter⟩, fun hmem => hbefore hmem.2⟩) (closedWays_finite g p)
      have hways := Nat.mul_le_mul_left (n * (n + 2)) (Nat.add_le_add_right hlt 1)
      have := hq.inherited
      rw [Nat.mul_succ] at hways
      omega
  · -- The end is that of one mode, whatever was inherited before.
    have hways : n * (n + 2) ≤ n * (n + 2) * ((p.closedWays g).ncard + 1) :=
      Nat.le_mul_of_pos_right _ (Nat.succ_pos _)
    have hfree : p.inherited ≤ i.ownEndLength := hfreed
    omega

/-- The ends that the references of such a grammar inherit are bounded. -/
theorem inherited_bounded {g : Grammar} (hg : g.RestartFree) :
    ∃ n, ∀ q, Reached g q → q.inherited ≤ n := by
  obtain ⟨n, hn⟩ := exists_bound g
  refine ⟨n * (n + 2) * ({w : Way | (g.lookup? w.name).isSome}.ncard + 1), fun q hq => ?_⟩
  have hpaid : q.Paid g n := by
    induction hq with
    | refl => exact paid_root (hn g.root ⟨g.root, List.mem_cons_self, .self _⟩).1
    | tail _ hasks ih => exact paid_of_asks hg hn hasks ih
  have hle : (q.closedWays g).ncard ≤ {w : Way | (g.lookup? w.name).isSome}.ncard :=
    Set.ncard_le_ncard (fun w hw => hw.1) (ways_finite g)
  have := hpaid.inherited
  have hways := Nat.mul_le_mul_left (n * (n + 2)) (Nat.add_le_add_right hle 1)
  omega

/-- Compiling ends when no definition restarts itself: it comes to finitely many references, and
from some depth on it gives the same language or the same error. -/
theorem compiling_ends_without_restarts {g : Grammar} (hg : g.RestartFree) :
    {q | Reached g q}.Finite ∧ ∃ depth result, result ≠ .error .tooDeep ∧
      ∀ depth', depth ≤ depth' → compileWithin g depth' = result := by
  obtain ⟨n, hn⟩ := inherited_bounded hg
  have hsettles := settles_of_bounded (rootCall g) hn
  obtain ⟨depth, hout⟩ := compileWithin_of_settles hsettles
  refine ⟨reached_finite_of_comesOut hsettles.choose_spec, depth, compileWithin g depth, hout, ?_⟩
  exact fun depth' hle => compileWithin_of_le hle hout

/-! ## Blocks in lists in blocks -/

/-- What follows a block. -/
def blockTail : Mode :=
  { begins := some "t", ends := some "u", endsWithParent := true, contains := [.named "tail"] }

/-- Blocks and lists stand in each other, and each takes over the end around it. -/
def nestingGrammar : Grammar where
  definitions := [
    ("block", {
      begins := some "b", ends := some "c", endsWithParent := true
      contains := [.named "list", .inline { begins := some "d", contains := [.named "block"] }]
      starts := some (.named "tail") }),
    ("list", {
      begins := some "l", ends := some "m", endsWithParent := true
      contains := [.named "block", .named "list"]
      variants := [{ begins := some "n" }, { ends := some "o" }] }),
    ("tail", blockTail)]
  root := { contains := [.named "block", .named "list"] }

theorem nestingGrammar_tail {name : String}
    (h : Relation.ReflTransGen nestingGrammar.Leads "tail" name) : name = "tail" := by
  induction h with
  | refl => rfl
  | tail _ hleads ih =>
    subst ih
    obtain ⟨d, hd, hother, _⟩ := hleads
    cases hd
    simpa [blockTail, Mode.names, namesOfAll, namesOfVariants, namesOfStarts, ModeRef.names]
      using hother

theorem nestingGrammar_restartFree : nestingGrammar.RestartFree := by
  intro name d hd m hm r hr hleads
  rcases lookup?_cases hd with hmem | hcommon
  · simp only [nestingGrammar, List.mem_cons, Prod.mk.injEq, List.not_mem_nil, or_false] at hmem
    rcases hmem with ⟨rfl, rfl⟩ | ⟨rfl, rfl⟩ | ⟨rfl, rfl⟩
    · simp only [List.not_mem_nil, or_false] at hm
      subst hm
      cases hr
      obtain ⟨k, hk, _, hpath⟩ := hleads
      obtain rfl : k = "tail" := by simpa [ModeRef.names] using hk
      exact absurd (nestingGrammar_tail hpath) (by decide)
    · simp only [List.mem_cons, List.not_mem_nil, or_false] at hm
      rcases hm with rfl | rfl | rfl
      all_goals cases hr
    · simp only [blockTail, List.not_mem_nil, or_false] at hm
      subst hm
      cases hr
  · obtain ⟨_, hvariants, hstarts, _⟩ := commonMode_alone hcommon
    rw [hvariants] at hm
    rcases hm with rfl | hm
    · rw [hstarts] at hr
      cases hr
    · cases hm

/-- Blocks and lists that nest without end are compiled all the same. -/
theorem nesting_compiles_in_finitely_many_steps :
    nestingGrammar.RestartFree ∧ {q | Reached nestingGrammar q}.Finite ∧
      ∃ depth result, result ≠ .error .tooDeep ∧
        ∀ depth', depth ≤ depth' → compileWithin nestingGrammar depth' = result :=
  ⟨nestingGrammar_restartFree, compiling_ends_without_restarts nestingGrammar_restartFree⟩

end Highlighting
