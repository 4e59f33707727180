-- The indices of a compiled language. Compiling only adds modes at the end of
-- the arena, so an index that was handed out stays good, and in the finished
-- language every index that a mode holds is that of a mode.
--
-- The same holds of the modes from some index on, as long as nothing refers to
-- those before it, and with a property that every mode has from the start.
import Highlighting.Proofs.Resolving

namespace Highlighting

/-! ## Preparing -/

/-- What a mode is prepared to. It begins and ends only inside another mode, and it is
not linked yet. -/
structure Mode.Prepared (m : Mode) (anyCase : Bool) (parentEnd : Option String)
    (c : CompiledMode) : Prop where
  begins : c.begins = parentEnd.map fun _ => m.beginSource
  ends : (parentEnd.bind fun _ => m.endSource).mapM (grammarPattern · anyCase) = .ok c.ends
  terminatorEnd : c.terminatorEnd = (parentEnd.map m.terminatorEnd).getD ""
  endsWithParent : c.endsWithParent = m.endsWithParent
  contains : c.contains = []
  starts : c.starts = none
  terminators : c.terminators = .empty

theorem prepare_prepared {m : Mode} {anyCase : Bool} {parentEnd : Option String}
    {c : CompiledMode} (h : m.prepare anyCase parentEnd = .ok c) :
    m.Prepared anyCase parentEnd c := by
  unfold Mode.prepare at h
  obtain ⟨d, _, h⟩ := bind_eq_ok.mp h
  cases parentEnd with
  | none =>
    cases h
    exact ⟨rfl, rfl, rfl, rfl, rfl, rfl, rfl⟩
  | some e =>
    obtain ⟨_, _, h⟩ := bind_eq_ok.mp h
    obtain ⟨ends, hends, h⟩ := bind_eq_ok.mp h
    cases h
    exact ⟨rfl, hends, rfl, rfl, rfl, rfl, rfl⟩

/-- Preparing modes appends them to the arena, in order. -/
theorem prepareAll_ok {g : Grammar} {modes : List Mode} {parentEnd : Option String} {a a' : Arena}
    {ids : List Nat} (h : prepareAll g modes parentEnd a = .ok (ids, a')) :
    ∃ ms : List CompiledMode,
      modes.mapM (fun m => m.prepare g.caseInsensitive parentEnd) = .ok ms ∧
        a' = { a with modes := a.modes ++ ms.toArray } ∧
        ids = List.range' a.modes.size ms.length := by
  unfold prepareAll at h
  induction modes generalizing a ids with
  | nil =>
    rw [List.mapM_nil, build_pure_eq_ok] at h
    cases h
    exact ⟨[], rfl, by simp, rfl⟩
  | cons m modes ih =>
    rw [List.mapM_cons] at h
    obtain ⟨id, a₁, hm, h⟩ := build_bind_eq_ok.mp h
    obtain ⟨ids', a₂, hms, h⟩ := build_bind_eq_ok.mp h
    rw [build_pure_eq_ok] at h
    cases h
    obtain ⟨c, a₃, hc, hpush⟩ := build_bind_eq_ok.mp hm
    obtain ⟨hprep, rfl⟩ := lift_eq_ok.mp hc
    cases hpush
    obtain ⟨ms, hmap, ha', hids⟩ := ih hms
    refine ⟨c :: ms, ?_, ?_, ?_⟩
    · rw [List.mapM_cons, hprep, hmap]
      rfl
    · rw [ha']
      simp
    · rw [hids]
      simp [List.range'_succ]

/-! ## Valid indices -/

/-- Every index that a mode holds is a good one. -/
structure CompiledMode.IdsIn (m : CompiledMode) (good : Nat → Prop) : Prop where
  contains : ∀ id ∈ m.contains, good id
  starts : ∀ id ∈ m.starts, good id
  rules : ∀ group id, (group, Rule.begins id) ∈ m.terminators.rules → good id

theorem CompiledMode.IdsIn.mono {m : CompiledMode} {good good' : Nat → Prop} (h : m.IdsIn good)
    (himp : ∀ id, good id → good' id) : m.IdsIn good' where
  contains id hid := himp id (h.contains id hid)
  starts id hid := himp id (h.starts id hid)
  rules group id hid := himp id (h.rules group id hid)

/-- Every index that a mode holds is one of `size` modes. -/
abbrev CompiledMode.IdsBelow (m : CompiledMode) (size : Nat) : Prop := m.IdsIn (· < size)

/-- A property that a mode has from the start if it is compiled under an end of some kind.
Inside another mode every end is of that kind, and the links of a mode do not matter. -/
structure Lasting where
  under : Option String → Prop
  holds : CompiledMode → Prop
  inside : ∀ ownEnd, under (some ownEnd)
  prepared : ∀ {m : Mode} {anyCase : Bool} {parentEnd : Option String} {c : CompiledMode},
    m.prepare anyCase parentEnd = .ok c → under parentEnd → holds c
  relinked : ∀ {c : CompiledMode} (contains : List Nat) (starts : Option Nat)
    (terminators : Terminators), holds c → holds { c with contains, starts, terminators }

/-- Nothing is asked of the modes. -/
def Lasting.any : Lasting where
  under _ := True
  holds _ := True
  inside _ := trivial
  prepared _ _ := trivial
  relinked _ _ _ h := h

/-- The index is that of a mode in the arena, and not before `first`. -/
def Arena.Has (a : Arena) (first id : Nat) : Prop := first ≤ id ∧ id < a.modes.size

/-- From `first` on, the modes of the arena have the property, and every index that they
hold is that of one of them. So is every index that is kept beside them. -/
structure Arena.Valid (k : Lasting) (first : Nat) (a : Arena) : Prop where
  size : first ≤ a.modes.size
  modes : ∀ i m, first ≤ i → a.modes[i]? = some m → k.holds m ∧ m.IdsIn (a.Has first)
  shared : ∀ p ∈ a.shared, ∀ id ∈ p.2, a.Has first id
  linking : ∀ r ∈ a.linking, ∀ id ∈ r.ids, a.Has first id

/-- From one arena to a later one: modes were added, and of those that were there only
those of `relinked` were changed. -/
structure Arena.Later (k : Lasting) (first : Nat) (relinked : List Nat) (a a' : Arena) : Prop where
  valid : a'.Valid k first
  size : a.modes.size ≤ a'.modes.size
  kept : ∀ i, i < a.modes.size → i ∉ relinked → a'.modes[i]? = a.modes[i]?

section

variable {k : Lasting} {first : Nat}

theorem Arena.Has.mono {a a' : Arena} (h : a.modes.size ≤ a'.modes.size) {id : Nat}
    (hid : a.Has first id) : a'.Has first id :=
  ⟨hid.1, Nat.lt_of_lt_of_le hid.2 h⟩

theorem Arena.Later.refl {a : Arena} (h : a.Valid k first) : Arena.Later k first [] a a :=
  ⟨h, Nat.le_refl _, fun _ _ _ => rfl⟩

theorem Arena.Later.trans {before after : List Nat} {a₁ a₂ a₃ : Arena}
    (h : Arena.Later k first before a₁ a₂) (h' : Arena.Later k first after a₂ a₃) :
    Arena.Later k first (before ++ after) a₁ a₃ where
  valid := h'.valid
  size := Nat.le_trans h.size h'.size
  kept i hi hmem := by
    rw [List.mem_append, not_or] at hmem
    exact (h'.kept i (Nat.lt_of_lt_of_le hi h.size) hmem.2).trans (h.kept i hi hmem.1)

/-- A way to resolve that keeps an arena valid and hands out good indices. Only the mode
in which the reference stands may be before `first`. -/
def Resolver.Valid (k : Lasting) (first : Nat) (r : Resolver) : Prop :=
  ∀ reference current parentEnd expanded a ids a', k.under parentEnd → a.Valid k first →
    current < a.modes.size → r reference current parentEnd expanded a = .ok (ids, a') →
    Arena.Later k first [] a a' ∧ ∀ id ∈ ids, id = current ∨ a'.Has first id

theorem prepare_idsIn {m : Mode} {anyCase : Bool} {parentEnd : Option String}
    {c : CompiledMode} (h : m.prepare anyCase parentEnd = .ok c) (good : Nat → Prop) :
    c.IdsIn good := by
  have hm := prepare_prepared h
  exact ⟨by simp [hm.contains], by simp [hm.starts], by simp [hm.terminators, Terminators.empty]⟩

/-! ## Linking -/

/-- A child that begins is one of the children that were asked for, and it is
in the arena. -/
theorem rules_begins {a : Arena} {contains : List Nat} {ownEnd : String} {illegal : Option String}
    {id : Nat} {source : String}
    (h : (Rule.begins id, source) ∈ a.rules contains ownEnd illegal) :
    id ∈ contains ∧ ∃ m, a.modes[id]? = some m ∧ m.begins.isSome = true := by
  unfold Arena.rules at h
  rw [List.mem_append, List.mem_append] at h
  rcases h with (h | h) | h
  · obtain ⟨child, hchild, hsome⟩ := List.mem_filterMap.mp h
    obtain ⟨m, hm, hsome⟩ := Option.bind_eq_some_iff.mp hsome
    obtain ⟨source', hbegins, hsome⟩ := Option.bind_eq_some_iff.mp hsome
    cases hsome
    exact ⟨hchild, m, hm, by rw [hbegins]; rfl⟩
  · split at h
    · cases h
    · rw [List.mem_singleton] at h
      cases h
  · rcases illegal with _ | s
    · cases h
    · rw [Option.map_some, Option.toList_some, List.mem_singleton] at h
      cases h

theorem ofRules_rules {rules : List (Rule × String)} {anyCase : Bool} {ts : Terminators}
    (h : Terminators.ofRules rules anyCase = .ok ts) {group : Nat} {rule : Rule}
    (hmem : (group, rule) ∈ ts.rules) : ∃ source, (rule, source) ∈ rules := by
  unfold Terminators.ofRules at h
  split at h
  · cases h
    cases hmem
  · obtain ⟨p, _, h⟩ := bind_eq_ok.mp h
    cases h
    have hrule := (List.of_mem_zip hmem).2
    obtain ⟨⟨rule', source⟩, hin, rfl⟩ := List.mem_map.mp hrule
    exact ⟨source, hin⟩

theorem setLinks_later {g : Grammar} {id : Nat} {ownEnd : String} {illegal : Option String}
    {contains : List Nat} {starts : Option Nat} {a : Arena} {r : Unit × Arena}
    (ha : a.Valid k first) (hcontains : ∀ i ∈ contains, a.Has first i)
    (hstarts : ∀ i ∈ starts, a.Has first i)
    (h : setLinks g id ownEnd illegal contains starts a = .ok r) :
    Arena.Later k first [id] a r.2 := by
  obtain ⟨ts, hts, hr⟩ := setLinks_ok h
  have hsize : r.2.modes.size = a.modes.size := by rw [hr]; exact Array.size_modify
  have hmodes : ∀ i : Nat, r.2.modes[i]? = if id = i then (a.modes[i]?).map
      (fun c => { c with contains, starts, terminators := ts }) else a.modes[i]? := by
    intro i
    rw [hr]
    exact Array.getElem?_modify
  have hle : a.modes.size ≤ r.2.modes.size := Nat.le_of_eq hsize.symm
  have hhas : ∀ i, a.Has first i → r.2.Has first i := fun i => Arena.Has.mono hle
  refine ⟨⟨?_, ?_, ?_, ?_⟩, hle, ?_⟩
  · rw [hsize]
    exact ha.size
  · intro i m hi hm
    rw [hmodes] at hm
    split at hm
    · obtain ⟨c, hc, rfl⟩ := Option.map_eq_some_iff.mp hm
      refine ⟨k.relinked _ _ _ (ha.modes i c hi hc).1, ?_⟩
      refine ⟨fun j hj => hhas j (hcontains j hj), fun j hj => hhas j (hstarts j hj), ?_⟩
      intro group child hchild
      obtain ⟨source, hsource⟩ := ofRules_rules hts hchild
      exact hhas child (hcontains child (rules_begins hsource).1)
    · obtain ⟨hholds, hids⟩ := ha.modes i m hi hm
      exact ⟨hholds, hids.mono hhas⟩
  · intro p hp i hi
    rw [hr] at hp
    exact hhas i (ha.shared p hp i hi)
  · intro o ho i hi
    rw [hr] at ho
    exact hhas i (ha.linking o ho i hi)
  · intro i _ hi
    rw [hmodes, if_neg]
    rintro rfl
    exact hi List.mem_cons_self

theorem linkChildren_later {next : Resolver} (hnext : next.Valid k first) {id : Nat}
    {ownEnd : String} {refs : List ModeRef} {a a' : Arena} {lists : List (List Nat)}
    (ha : a.Valid k first) (hid : id < a.modes.size)
    (h : linkChildren next id refs ownEnd a = .ok (lists, a')) :
    Arena.Later k first [] a a' ∧ ∀ i ∈ lists.flatten, i = id ∨ a'.Has first i := by
  unfold linkChildren at h
  induction refs generalizing a lists with
  | nil =>
    rw [List.mapM_nil, build_pure_eq_ok] at h
    cases h
    exact ⟨.refl ha, by simp⟩
  | cons r refs ih =>
    rw [List.mapM_cons] at h
    obtain ⟨ids, a₁, hr, h⟩ := build_bind_eq_ok.mp h
    obtain ⟨lists', a₂, hrefs, h⟩ := build_bind_eq_ok.mp h
    rw [build_pure_eq_ok] at h
    cases h
    obtain ⟨h₁, hids⟩ := hnext r id (some ownEnd) true a ids a₁ (k.inside ownEnd) ha hid hr
    obtain ⟨h₂, hlists⟩ := ih h₁.valid (Nat.lt_of_lt_of_le hid h₁.size) hrefs
    refine ⟨h₁.trans h₂, ?_⟩
    intro i hi
    rw [List.flatten_cons, List.mem_append] at hi
    rcases hi with hi | hi
    · exact (hids i hi).imp_right (Arena.Has.mono h₂.size)
    · exact hlists i hi

theorem linkStarts_later {next : Resolver} (hnext : next.Valid k first) {id : Nat}
    {starts : Option ModeRef} {parentEnd : Option String} {a a' : Arena} {o : Option Nat}
    (hunder : k.under parentEnd) (ha : a.Valid k first) (hid : id < a.modes.size)
    (h : linkStarts next id starts parentEnd a = .ok (o, a')) :
    Arena.Later k first [] a a' ∧ ∀ i ∈ o, i = id ∨ a'.Has first i := by
  unfold linkStarts at h
  rcases starts with _ | r
  · rw [build_pure_eq_ok] at h
    cases h
    exact ⟨.refl ha, by simp⟩
  · obtain ⟨ids, a₁, hr, h⟩ := build_bind_eq_ok.mp h
    rw [build_pure_eq_ok] at h
    cases h
    obtain ⟨h₁, hids⟩ := hnext r id parentEnd false a ids _ hunder ha hid hr
    exact ⟨h₁, fun i hi => hids i (List.mem_of_mem_head? hi)⟩

theorem link_later {g : Grammar} {next : Resolver} (hnext : next.Valid k first) {id : Nat}
    {m : Mode} {parentEnd : Option String} {a : Arena} {r : Unit × Arena}
    (hunder : k.under parentEnd) (ha : a.Valid k first) (hid : a.Has first id)
    (h : link g next id m parentEnd a = .ok r) : Arena.Later k first [id] a r.2 := by
  rw [link_eq] at h
  obtain ⟨lists, a₁, hchildren, h⟩ := build_bind_eq_ok.mp h
  obtain ⟨starts, a₂, hstarts, h⟩ := build_bind_eq_ok.mp h
  obtain ⟨h₁, hlists⟩ := linkChildren_later hnext ha hid.2 hchildren
  obtain ⟨h₂, ho⟩ :=
    linkStarts_later hnext hunder h₁.valid (Nat.lt_of_lt_of_le hid.2 h₁.size) hstarts
  have hid₂ : a₂.Has first id := hid.mono (Nat.le_trans h₁.size h₂.size)
  have hcontains : ∀ i ∈ lists.flatten, a₂.Has first i := by
    intro i hi
    rcases hlists i hi with rfl | hi
    · exact hid₂
    · exact hi.mono h₂.size
  have hstarts' : ∀ i ∈ starts, a₂.Has first i := by
    intro i hi
    rcases ho i hi with rfl | hi
    · exact hid₂
    · exact hi
  exact (h₁.trans h₂).trans (setLinks_later h₂.valid hcontains hstarts' h)

theorem linkAll_later {g : Grammar} {next : Resolver} (hnext : next.Valid k first)
    {ids : List Nat} {modes : List Mode} {parentEnd : Option String} {a : Arena}
    {r : Unit × Arena} (hunder : k.under parentEnd) (ha : a.Valid k first)
    (hids : ∀ id ∈ ids, a.Has first id) (h : linkAll g next ids modes parentEnd a = .ok r) :
    Arena.Later k first ids a r.2 := by
  induction ids generalizing a modes with
  | nil =>
    cases h
    exact .refl ha
  | cons id ids ih =>
    rcases modes with _ | ⟨m, modes⟩
    · cases h
      exact ⟨ha, Nat.le_refl _, fun _ _ _ => rfl⟩
    · obtain ⟨u, a₁, hlink, h⟩ := build_bind_eq_ok.mp h
      have h₁ := link_later hnext hunder ha (hids id List.mem_cons_self) hlink
      have h₂ := ih h₁.valid (fun i hi => (hids i (List.mem_cons_of_mem _ hi)).mono h₁.size) h
      exact h₁.trans h₂

/-! ## Resolving -/

theorem prepareAll_later {g : Grammar} {modes : List Mode} {parentEnd : Option String}
    {a a' : Arena} {ids : List Nat} (hunder : k.under parentEnd) (ha : a.Valid k first)
    (h : prepareAll g modes parentEnd a = .ok (ids, a')) :
    Arena.Later k first [] a a' ∧ ∀ id ∈ ids, a.modes.size ≤ id ∧ a'.Has first id := by
  obtain ⟨ms, hms, rfl, rfl⟩ := prepareAll_ok h
  have hsize : (a.modes ++ ms.toArray).size = a.modes.size + ms.length := by simp
  have hle : a.modes.size ≤ ({ a with modes := a.modes ++ ms.toArray } : Arena).modes.size := by
    simp only [hsize]
    exact Nat.le_add_right _ _
  have hhas : ∀ i, a.Has first i →
      ({ a with modes := a.modes ++ ms.toArray } : Arena).Has first i := fun i => Arena.Has.mono hle
  refine ⟨⟨⟨Nat.le_trans ha.size hle, ?_, ?_, ?_⟩, hle, ?_⟩, ?_⟩
  · intro i m hi hm
    rcases Nat.lt_or_ge i a.modes.size with hlt | hge
    · rw [Array.getElem?_append_left hlt] at hm
      obtain ⟨hholds, hids⟩ := ha.modes i m hi hm
      exact ⟨hholds, hids.mono hhas⟩
    · rw [Array.getElem?_append_right hge] at hm
      obtain ⟨m', _, hprepare⟩ := mapM_mem hms (List.mem_of_getElem? (by simpa using hm))
      exact ⟨k.prepared hprepare hunder, prepare_idsIn hprepare _⟩
  · intro p hp i hi
    exact hhas i (ha.shared p hp i hi)
  · intro o ho i hi
    exact hhas i (ha.linking o ho i hi)
  · intro i hi _
    exact Array.getElem?_append_left hi
  · intro id hid
    obtain ⟨hge, hlt⟩ := List.mem_range'_1.mp hid
    refine ⟨hge, Nat.le_trans ha.size hge, ?_⟩
    simp only [hsize]
    exact hlt

theorem note_valid {a : Arena} (ha : a.Valid k first) (name : String) (expanded dependent : Bool)
    (key : RefKey) {ids : List Nat} (hids : ∀ id ∈ ids, a.Has first id) :
    (a.note name expanded dependent key ids).Valid k first := by
  refine ⟨ha.size, ha.modes, ?_, ?_⟩
  · intro p hp
    rcases List.mem_cons.mp hp with rfl | hp
    · exact hids
    · exact ha.shared p hp
  · intro o ho
    unfold Arena.note at ho
    simp only at ho
    split at ho
    · rcases List.mem_cons.mp ho with rfl | ho
      · exact hids
      · exact ha.linking o ho
    · exact ha.linking o ho

theorem release_valid {a : Arena} (ha : a.Valid k first) (dependent : Bool) :
    (a.release dependent).Valid k first := by
  refine ⟨ha.size, ha.modes, ha.shared, ?_⟩
  intro o ho
  unfold Arena.release at ho
  simp only at ho
  split at ho
  · exact ha.linking o (List.mem_of_mem_tail ho)
  · exact ha.linking o ho

theorem compileModes_later {g : Grammar} {next : Resolver} (hnext : next.Valid k first)
    {modes : List Mode} {parentEnd : Option String} {note : List Nat → Arena → Arena}
    {release : Arena → Arena}
    (hnote : ∀ ids a, a.Valid k first → (∀ id ∈ ids, a.Has first id) →
      (note ids a).Valid k first ∧ (note ids a).modes = a.modes)
    (hrelease : ∀ a, a.Valid k first → (release a).Valid k first ∧ (release a).modes = a.modes)
    {a a' : Arena} {ids : List Nat} (hunder : k.under parentEnd) (ha : a.Valid k first)
    (h : compileModes g next modes parentEnd note release a = .ok (ids, a')) :
    Arena.Later k first [] a a' ∧ ∀ id ∈ ids, a'.Has first id := by
  obtain ⟨a₁, a₃, hprep, hlink, rfl⟩ := compileModes_eq_ok.mp h
  obtain ⟨h₁, hids⟩ := prepareAll_later hunder ha hprep
  obtain ⟨ha₂, hmodes₂⟩ := hnote ids a₁ h₁.valid fun id hid => (hids id hid).2
  have hids₂ : ∀ id ∈ ids, (note ids a₁).Has first id := by
    intro id hid
    rw [Arena.Has, hmodes₂]
    exact (hids id hid).2
  have h₃ := linkAll_later hnext hunder ha₂ hids₂ hlink
  obtain ⟨ha₄, hmodes₄⟩ := hrelease a₃ h₃.valid
  have hsize₃ : a₁.modes.size ≤ a₃.modes.size := hmodes₂ ▸ h₃.size
  refine ⟨⟨ha₄, ?_, ?_⟩, ?_⟩
  · rw [hmodes₄]
    exact Nat.le_trans h₁.size hsize₃
  · intro i hi hnot
    -- the modes that are linked stand behind those that were there
    have hnew : i ∉ ids := fun hmem => absurd hi (Nat.not_lt.mpr (hids i hmem).1)
    have hi₁ : i < (note ids a₁).modes.size := hmodes₂ ▸ Nat.lt_of_lt_of_le hi h₁.size
    rw [hmodes₄, h₃.kept i hi₁ hnew, hmodes₂, h₁.kept i hi hnot]
  · intro id hid
    rw [Arena.Has, hmodes₄]
    exact (hids id hid).2.mono hsize₃

theorem known_ids {a : Arena} (ha : a.Valid k first) {g : Grammar} {name : String} {current : Nat}
    {parentEnd : Option String} {expanded : Bool} {ids : List Nat}
    (h : a.known g name current parentEnd expanded = .ids ids) :
    ∀ id ∈ ids, id = current ∨ a.Has first id := by
  unfold Arena.known at h
  split at h
  · cases h
    simp
  · split at h
    · cases h
    · split at h
      · rename_i found
        cases h
        split at found
        · unfold Arena.enclosing? at found
          obtain ⟨_, _, found⟩ := Option.bind_eq_some_iff.mp found
          obtain ⟨o, ho, found⟩ := Option.bind_eq_some_iff.mp found
          cases found
          exact fun id hid => .inr (ha.linking o (List.mem_of_find?_eq_some ho) id hid)
        · cases found
      · split at h
        · rename_i found
          cases h
          obtain ⟨before, after, heq, _⟩ := List.lookup_eq_some_iff.mp found
          exact fun id hid =>
            .inr (ha.shared _ (heq ▸ List.mem_append_right before List.mem_cons_self) id hid)
        · cases h

theorem resolve_valid (k : Lasting) (first : Nat) (g : Grammar) (depth : Nat) :
    Resolver.Valid k first (resolve g depth) := by
  induction depth with
  | zero =>
    intro reference current parentEnd expanded a ids a' _ _ _ h
    rw [resolve_zero] at h
    cases h
  | succ depth ih =>
    intro reference current parentEnd expanded a ids a' hunder ha hcurrent h
    cases reference with
    | inline m =>
      rw [resolve_succ] at h
      obtain ⟨h₁, hids⟩ := compileModes_later ih (fun _ a ha _ => ⟨ha, rfl⟩)
        (fun a ha => ⟨ha, rfl⟩) hunder ha h
      exact ⟨h₁, fun id hid => .inr (hids id hid)⟩
    | named name =>
      rcases resolve_named_ok h with ⟨hknown, rfl⟩ | ⟨m, dependent, key, _, h⟩
      · exact ⟨.refl ha, known_ids ha hknown⟩
      · obtain ⟨h₁, hids⟩ := compileModes_later ih
          (fun ids a ha hids => ⟨note_valid ha name expanded dependent key hids, rfl⟩)
          (fun a ha => ⟨release_valid ha dependent, rfl⟩) hunder ha h
        exact ⟨h₁, fun id hid => .inr (hids id hid)⟩

end

/-! ## Languages -/

theorem valid_empty (k : Lasting) : Arena.Valid k 0 {} :=
  ⟨Nat.le_refl _, fun _ _ _ hm => absurd hm (by simp), fun p hp => absurd hp (by simp),
    fun o ho => absurd ho (by simp)⟩

/-- In a compiled language every index is that of a mode. -/
theorem compileWithin_idsBelow {g : Grammar} {depth : Nat} {l : CompiledLanguage}
    (h : compileWithin g depth = .ok l) : ∀ m ∈ l.modes, m.IdsBelow l.modes.size := by
  unfold compileWithin at h
  obtain ⟨⟨_, a⟩, hbuild, h⟩ := bind_eq_ok.mp h
  cases h
  obtain ⟨ids, a₁, hprep, hlink⟩ := build_bind_eq_ok.mp hbuild
  obtain ⟨h₁, hids⟩ := prepareAll_later trivial (valid_empty .any) hprep
  have h₂ := linkAll_later (resolve_valid .any 0 g depth) trivial h₁.valid
    (fun id hid => (hids id hid).2) hlink
  intro m hm
  obtain ⟨i, hi, rfl⟩ := Array.mem_iff_getElem.mp hm
  exact (h₂.valid.modes i _ (Nat.zero_le i) (Array.getElem?_eq_getElem hi)).2.mono
    fun id hid => hid.2

theorem compileWithin_refersTo {g : Grammar} {depth : Nat} {l : CompiledLanguage}
    (h : compileWithin g depth = .ok l) : ∀ m ∈ l.modes, ∀ group id,
      (group, Rule.begins id) ∈ m.terminators.rules → id < l.modes.size :=
  fun m hm group id hid => (compileWithin_idsBelow h m hm).rules group id hid

end Highlighting
