-- Grammars with alike roots compile alike: if one of them compiles, the other
-- does too, and the modes of the two languages that have alike origins are the
-- same but for their links, which lead to such modes again.
--
-- Of two alike grammars one may share modes that the other compiles again for
-- every place, so the two are not compiled in step. Each mode that the second
-- meets is found, with its links, in the language of the first.
import Highlighting.Proofs.AlikeModes

namespace Highlighting

/-! ## Alike links -/

/-- Every mode of a row was prepared from its origin. -/
structure PreparedFrom (g : Grammar) (os : List Origin) (modes : Array CompiledMode) : Prop where
  size : os.length = modes.size
  prepared : ∀ (id : Nat) (o : Origin) (c : CompiledMode), os[id]? = some o →
    modes[id]? = some c → o.mode.prepare g.caseInsensitive o.parentEnd = .ok c.unlinked

theorem Described.preparedFrom {g : Grammar} {os : List Origin} {a : Arena}
    (h : Described g os a) : PreparedFrom g os a.modes := ⟨h.size, h.prepared⟩

theorem Comes.preparedFrom {g : Grammar} {fits : Origin → Option String → Prop}
    {os : List Origin} {l : CompiledLanguage} (h : Comes g (g.sharing fits) os l) :
    PreparedFrom g os l.modes := ⟨h.size, h.prepared⟩

theorem PreparedFrom.exists_mode {g : Grammar} {os : List Origin} {modes : Array CompiledMode}
    (h : PreparedFrom g os modes) {id : Nat} {o : Origin} (ho : os[id]? = some o) :
    ∃ c, modes[id]? = some c ∧ o.mode.prepare g.caseInsensitive o.parentEnd = .ok c.unlinked := by
  have hid : id < modes.size := h.size ▸ (List.getElem?_eq_some_iff.mp ho).1
  have hc : modes[id]? = some modes[id] := Array.getElem?_eq_getElem hid
  exact ⟨modes[id], hc, h.prepared id o _ ho hc⟩

/-- The end around a mode is the one around what follows it. -/
theorem underAlike_starts {g₁ g₂ : Grammar} {n : Nat} {o₁ o₂ : Origin}
    (h : OriginsAlike g₁ g₂ n o₁ o₂) {r₁ : ModeRef} (hr₁ : o₁.mode.starts = some r₁) :
    UnderAlike g₁ r₁ false o₁.parentEnd o₂.parentEnd where
  same _ _ hd hi hinherits := h.parentEnd (.follows hr₁ hd (inherits_of_instance hi hinherits))
  isSome := h.isSome

theorem UnderAlike.refl (g₁ : Grammar) (r₁ : ModeRef) (expanded : Bool) (under : Option String) :
    UnderAlike g₁ r₁ expanded under under := ⟨fun _ _ _ _ _ => rfl, rfl⟩

section

variable {g₁ g₂ : Grammar} {os₁ os₂ : List Origin} {n : Nat} {o₁ o₂ : Origin}

/-- What two alike modes contain is resolved to alike modes. -/
theorem contains_pairs (halike : OriginsAlike g₁ g₂ n o₁ o₂) {id₁ id₂ : Nat}
    (hid : Pairs g₁ g₂ os₁ os₂ id₁ id₂) {ownEnd : String} {lists₁ lists₂ : List (List Nat)}
    (h₁ : List.Forall₂ (ResolvesTo g₁ neverFits os₁ id₁ (some ownEnd) true) o₁.mode.contains lists₁)
    (h₂ : List.Forall₂ (ResolvesTo g₂ neverFits os₂ id₂ (some ownEnd) true) o₂.mode.contains
      lists₂) : List.Forall₂ (Pairs g₁ g₂ os₁ os₂) lists₁.flatten lists₂.flatten := by
  have hmodes := halike.modes
  rcases n with _ | n
  · exact absurd hmodes id
  · apply List.rel_flatten
    refine forall₂_across (ModesAlike.contains hmodes) h₁ h₂ ?_
    intro r₁ _ r₂ ids₁ ids₂ hr hids₁ hids₂
    exact resolvesTo_pairs hr (.refl g₁ r₁ true _) hid hids₁ hids₂

/-- What follows two alike modes is resolved to alike modes. -/
theorem starts_pairs (halike : OriginsAlike g₁ g₂ n o₁ o₂) {id₁ id₂ : Nat}
    (hid : Pairs g₁ g₂ os₁ os₂ id₁ id₂) {c₁ c₂ : CompiledMode}
    {modes₁ modes₂ : Array CompiledMode} (h₁ : Links g₁ (g₁.sharing neverFits) os₁ modes₁ id₁ o₁ c₁)
    (h₂ : Links g₂ (g₂.sharing neverFits) os₂ modes₂ id₂ o₂ c₂) :
    Option.Rel (Pairs g₁ g₂ os₁ os₂) c₁.starts c₂.starts := by
  have hmodes := halike.modes
  rcases n with _ | n
  · exact absurd hmodes id
  · have hstarts := ModesAlike.starts hmodes
    rcases hr₁ : o₁.mode.starts with _ | r₁ <;> rcases hr₂ : o₂.mode.starts with _ | r₂ <;>
      rw [hr₁, hr₂] at hstarts
    · rw [h₁.starts_none hr₁, h₂.starts_none hr₂]
      exact .none
    · cases hstarts
    · cases hstarts
    · obtain ⟨ids₁, hhead₁, hids₁⟩ := h₁.starts r₁ hr₁
      obtain ⟨ids₂, hhead₂, hids₂⟩ := h₂.starts r₂ hr₂
      cases hstarts with
      | some hr =>
        have hids := resolvesTo_pairs hr (underAlike_starts halike hr₁) hid hids₁ hids₂
        rw [hhead₁, hhead₂]
        cases hids with
        | nil => exact .none
        | cons hid _ => exact .some hid

variable {modes₁ modes₂ : Array CompiledMode}

/-- Modes with alike origins are the same but for their links. -/
theorem Pairs.unlinked (hcase : g₁.caseInsensitive = g₂.caseInsensitive)
    (hmodes₁ : PreparedFrom g₁ os₁ modes₁) (hmodes₂ : PreparedFrom g₂ os₂ modes₂) {id₁ id₂ : Nat}
    (h : Pairs g₁ g₂ os₁ os₂ id₁ id₂) :
    (modes₁[id₁]?).map CompiledMode.unlinked = (modes₂[id₂]?).map CompiledMode.unlinked := by
  obtain ⟨n, o₁, o₂, ho₁, ho₂, halike⟩ := h
  obtain ⟨c₁, hc₁, hprep₁⟩ := hmodes₁.exists_mode ho₁
  obtain ⟨c₂, hc₂, hprep₂⟩ := hmodes₂.exists_mode ho₂
  rw [hcase, halike.prepare, hprep₂, Except.ok.injEq] at hprep₁
  rw [hc₁, hc₂, Option.map_some, Option.map_some, hprep₁]

/-- The rules of modes with alike children are joined alike. -/
theorem terminators_alike (hcase : g₁.caseInsensitive = g₂.caseInsensitive)
    (hmodes₁ : PreparedFrom g₁ os₁ modes₁) (hmodes₂ : PreparedFrom g₂ os₂ modes₂)
    {contains₁ contains₂ : List Nat}
    (hcontains : List.Forall₂ (Pairs g₁ g₂ os₁ os₂) contains₁ contains₂) {ownEnd : String}
    {illegal : Option String} {t₂ : Terminators}
    (h : Terminators.ofRules (rulesAmong modes₂ contains₂ ownEnd illegal) g₂.caseInsensitive =
      .ok t₂) :
    ∃ t₁, Terminators.ofRules (rulesAmong modes₁ contains₁ ownEnd illegal) g₁.caseInsensitive =
      .ok t₁ ∧ TerminatorsAlike (Pairs g₁ g₂ os₁ os₂) t₁ t₂ := by
  rw [hcase]
  refine ofRules_alike (rulesAmong_alike ?_ hcontains ownEnd illegal) h
  exact fun _ _ => Pairs.unlinked hcase hmodes₁ hmodes₂

end

/-! ## Compiling what is alike -/

/-- The origin has its like among those of a language that was compiled. -/
def HasLike (g₁ g₂ : Grammar) (os₂ : List Origin) (n : Nat) (o₁ : Origin) : Prop :=
  ∃ (id₂ : Nat) (o₂ : Origin), os₂[id₂]? = some o₂ ∧ OriginsAlike g₁ g₂ n o₁ o₂

/-- The reference has its like among those that were resolved for a language. -/
def RefHasLike (g₁ g₂ : Grammar) (os₂ : List Origin) (n : Nat) (r₁ : ModeRef) (expanded : Bool)
    (under₁ : Option String) : Prop :=
  ∃ r₂ under₂ current₂ ids₂, RefsAlike g₁ g₂ (AlikeWithin g₁ g₂ n) r₁ r₂ ∧
    UnderAlike g₁ r₁ expanded under₁ under₂ ∧
    ResolvesTo g₂ neverFits os₂ current₂ under₂ expanded r₂ ids₂

/-- A way to resolve that comes out for every reference that has its like. -/
def Resolver.ResolvesLikes (g₁ g₂ : Grammar) (os₂ : List Origin) (n : Nat) (next : Resolver) :
    Prop :=
  ∀ o r expanded current under os a, g₁.Meets o → o.Refers r expanded under →
    (∀ ref ∈ a.linking, ref.Around g₁ os o) → Described g₁ os a →
    RefHasLike g₁ g₂ os₂ n r expanded under → ∃ x, next r current under expanded a = .ok x

theorem setLinks_of_ofRules {g : Grammar} {ownEnd : String} {illegal : Option String}
    {contains : List Nat} {a : Arena} {t : Terminators}
    (h : Terminators.ofRules (rulesAmong a.modes contains ownEnd illegal) g.caseInsensitive =
      .ok t) (id : Nat) (starts : Option Nat) :
    ∃ r, setLinks g id ownEnd illegal contains starts a = .ok r := by
  have hget : ∀ f : Arena → Build Unit, (get >>= f) a = f a a := fun _ => rfl
  have h' : Terminators.ofRules (a.rules contains ownEnd illegal) g.caseInsensitive = .ok t := h
  unfold setLinks
  rw [hget, h']
  exact ⟨_, rfl⟩

theorem prepareAll_of_prepare {g : Grammar} {modes : List Mode} {parentEnd : Option String}
    (h : ∀ m ∈ modes, ∃ c, m.prepare g.caseInsensitive parentEnd = .ok c) (a : Arena) :
    ∃ x, prepareAll g modes parentEnd a = .ok x := by
  unfold prepareAll
  induction modes generalizing a with
  | nil => exact ⟨_, rfl⟩
  | cons m modes ih =>
    obtain ⟨c, hc⟩ := h m List.mem_cons_self
    obtain ⟨x, hx⟩ := ih (fun m' hm' => h m' (List.mem_cons_of_mem _ hm'))
      { a with modes := a.modes.push c }
    refine ⟨(a.modes.size :: x.1, x.2), ?_⟩
    rw [List.mapM_cons]
    refine build_bind_eq_ok.mpr ⟨a.modes.size, { a with modes := a.modes.push c }, ?_, ?_⟩
    · exact build_bind_eq_ok.mpr ⟨c, a, lift_eq_ok.mpr ⟨hc, rfl⟩, rfl⟩
    · exact build_bind_eq_ok.mpr ⟨x.1, x.2, hx, rfl⟩

section

variable {g₁ g₂ : Grammar} {os₂ : List Origin} {l₂ : CompiledLanguage} {n : Nat} {next : Resolver}
  {o : Origin}

theorem linkChildren_of_likes (hnext : next.Describes g₁ (g₁.sharing neverFits))
    (hlikes : next.ResolvesLikes g₁ g₂ os₂ n) (hm : g₁.Meets o) {refs : List ModeRef}
    (hrefs : ∀ r ∈ refs, r ∈ o.mode.contains ∧ RefHasLike g₁ g₂ os₂ n r true (some o.ownEnd))
    (id : Nat) {os : List Origin} {a : Arena} (hlinking : ∀ r ∈ a.linking, r.Around g₁ os o)
    (hd : Described g₁ os a) : ∃ x, linkChildren next id refs o.ownEnd a = .ok x := by
  unfold linkChildren
  induction refs generalizing os a with
  | nil => exact ⟨_, rfl⟩
  | cons r refs ih =>
    obtain ⟨hr, hlike⟩ := hrefs r List.mem_cons_self
    obtain ⟨x, hx⟩ := hlikes o r true id _ os a hm (.contains hr) hlinking hd hlike
    obtain ⟨os₁, hext, _⟩ := hnext o r true id _ os a x.1 x.2 hm (.contains hr) hlinking hd hx
    obtain ⟨y, hy⟩ := ih (fun r' hr' => hrefs r' (List.mem_cons_of_mem _ hr'))
      (around_of_extends hlinking hext) hext.described
    refine ⟨(x.1 :: y.1, y.2), ?_⟩
    rw [List.mapM_cons]
    refine build_bind_eq_ok.mpr ⟨x.1, x.2, hx, ?_⟩
    exact build_bind_eq_ok.mpr ⟨y.1, y.2, hy, rfl⟩

theorem linkStarts_of_likes (hlikes : next.ResolvesLikes g₁ g₂ os₂ n) (hm : g₁.Meets o)
    (hstarts : ∀ r, o.mode.starts = some r → RefHasLike g₁ g₂ os₂ n r false o.parentEnd)
    (id : Nat) {os : List Origin} {a : Arena} (hlinking : ∀ r ∈ a.linking, r.Around g₁ os o)
    (hd : Described g₁ os a) : ∃ x, linkStarts next id o.mode.starts o.parentEnd a = .ok x := by
  unfold linkStarts
  rcases hr : o.mode.starts with _ | r
  · exact ⟨_, rfl⟩
  · obtain ⟨x, hx⟩ := hlikes o r false id _ os a hm (.starts hr) hlinking hd (hstarts r hr)
    exact ⟨(x.1.head?, x.2), build_bind_eq_ok.mpr ⟨x.1, x.2, hx, rfl⟩⟩

variable (hl₂ : Comes g₂ (g₂.sharing neverFits) os₂ l₂) (hcase : g₁.caseInsensitive = g₂.caseInsensitive)

include hl₂ hcase

/-- A mode that has its like is prepared as that is. -/
theorem HasLike.prepare (h : HasLike g₁ g₂ os₂ n o) :
    ∃ c, o.mode.prepare g₁.caseInsensitive o.parentEnd = .ok c := by
  obtain ⟨id₂, o₂, ho₂, halike⟩ := h
  obtain ⟨c₂, _, hprep⟩ := hl₂.preparedFrom.exists_mode ho₂
  exact ⟨c₂.unlinked, by rw [hcase, halike.prepare, hprep]⟩

/-- A mode that has its like is linked. -/
theorem link_of_likes (hnext : next.Describes g₁ (g₁.sharing neverFits))
    (hlikes : next.ResolvesLikes g₁ g₂ os₂ n) (hm : g₁.Meets o)
    (hlike : HasLike g₁ g₂ os₂ (n + 1) o) {id : Nat} {os : List Origin} {a : Arena}
    (hlinking : ∀ r ∈ a.linking, r.Around g₁ os o) (hd : Described g₁ os a)
    (ho : os[id]? = some o) : ∃ x, link g₁ next id o.mode o.parentEnd a = .ok x := by
  obtain ⟨id₂, o₂, ho₂, halike⟩ := hlike
  obtain ⟨c₂, hc₂, hprep₂⟩ := hl₂.preparedFrom.exists_mode ho₂
  obtain ⟨o₂', ho₂', hlinks⟩ := hl₂.links hc₂
  cases ho₂.symm.trans ho₂'
  obtain ⟨c, hc, hprep⟩ := hd.preparedFrom.exists_mode ho
  -- Both modes are prepared alike, so their children stand under the same end.
  rw [← halike.prepare, ← hcase] at hprep₂
  have hend₂ : c₂.unlinked.terminatorEnd = o.ownEnd := prepare_terminatorEnd hprep₂
  rw [CompiledMode.unlinked_terminatorEnd] at hend₂
  have hend : a.ownEnd id = o.ownEnd := by simp [Arena.ownEnd, hc, hd.terminatorEnd ho hc]
  obtain ⟨lists₂, hflat₂, hlists₂⟩ := hlinks.contains
  rw [hend₂] at hlists₂
  have hrefs : ∀ r ∈ o.mode.contains, r ∈ o.mode.contains ∧
      RefHasLike g₁ g₂ os₂ n r true (some o.ownEnd) := by
    intro r hr
    obtain ⟨r₂, hr₂, href⟩ := exists_of_mem_right (ModesAlike.contains halike.modes).flip hr
    obtain ⟨ids₂, _, hids₂⟩ := exists_of_mem_right hlists₂.flip hr₂
    exact ⟨hr, r₂, _, id₂, ids₂, href, .refl g₁ r true _, hids₂⟩
  have hstarts : ∀ r, o.mode.starts = some r → RefHasLike g₁ g₂ os₂ n r false o.parentEnd := by
    intro r hr
    have hrel := ModesAlike.starts halike.modes
    rcases hr₂ : o₂.mode.starts with _ | r₂ <;> rw [hr, hr₂] at hrel
    · cases hrel
    · obtain ⟨ids₂, _, hids₂⟩ := hlinks.starts r₂ hr₂
      cases hrel with
      | some href => exact ⟨r₂, _, id₂, ids₂, href, underAlike_starts halike hr, hids₂⟩
  obtain ⟨x, hx⟩ := linkChildren_of_likes hnext hlikes hm hrefs id hlinking hd
  obtain ⟨os', hext, hlists⟩ :=
    linkChildren_describes hnext hm (fun r hr => hr) hlinking hd hx
  have hlinking' := around_of_extends hlinking hext
  obtain ⟨y, hy⟩ := linkStarts_of_likes hlikes hm hstarts id hlinking' hext.described
  obtain ⟨os'', hext', _⟩ := linkStarts_describes hnext hm hlinking' hext.described hy
  -- What was resolved is alike, so the rules can be joined as there.
  have hpair : Pairs g₁ g₂ os'' os₂ id id₂ :=
    ⟨n + 1, o, o₂, getElem?_of_initial (hext.origins.trans hext'.origins) ho, ho₂, halike⟩
  have hcontains := contains_pairs halike hpair
    (hlists.imp fun _ _ hr => hr.mono hext'.origins) hlists₂
  have hjoined := hlinks.terminators
  rw [hflat₂, hend₂] at hjoined
  obtain ⟨t, ht, _⟩ :=
    terminators_alike hcase hext'.described.preparedFrom hl₂.preparedFrom hcontains hjoined
  have hillegal : o.mode.bare.illegal = o₂.mode.bare.illegal := by rw [halike.modes.bare]
  obtain ⟨z, hz⟩ := setLinks_of_ofRules ht id y.1
  refine ⟨z, ?_⟩
  rw [link_eq, hend]
  refine build_bind_eq_ok.mpr ⟨x.1, x.2, hx, build_bind_eq_ok.mpr ⟨y.1, y.2, hy, ?_⟩⟩
  rw [show o.mode.illegal = o₂.mode.illegal from hillegal]
  exact hz

theorem linkAll_of_likes (hnext : next.Describes g₁ (g₁.sharing neverFits))
    (hlikes : next.ResolvesLikes g₁ g₂ os₂ n) {ids : List Nat} {modes : List Mode}
    {parentEnd : Option String} {os : List Origin} {a : Arena}
    (hmodes : ∀ p ∈ ids.zip modes, g₁.Meets ⟨p.2, parentEnd⟩ ∧ os[p.1]? = some ⟨p.2, parentEnd⟩)
    (hlike : ∀ p ∈ ids.zip modes, HasLike g₁ g₂ os₂ (n + 1) ⟨p.2, parentEnd⟩)
    (hlinking : ∀ p ∈ ids.zip modes, ∀ r ∈ a.linking, r.Around g₁ os ⟨p.2, parentEnd⟩)
    (hd : Described g₁ os a) : ∃ x, linkAll g₁ next ids modes parentEnd a = .ok x := by
  unfold linkAll
  generalize ids.zip modes = tasks at hmodes hlike hlinking ⊢
  induction tasks generalizing os a with
  | nil => exact ⟨_, rfl⟩
  | cons p tasks ih =>
    obtain ⟨hmeets, hp⟩ := hmodes p List.mem_cons_self
    have haround := hlinking p List.mem_cons_self
    obtain ⟨x, hx⟩ := link_of_likes hl₂ hcase hnext hlikes hmeets (hlike p List.mem_cons_self)
      haround hd hp
    obtain ⟨os₁, hext⟩ := link_describes hnext hmeets haround hd hp hx
    have hmodes₁ : ∀ q ∈ tasks, g₁.Meets ⟨q.2, parentEnd⟩ ∧ os₁[q.1]? = some ⟨q.2, parentEnd⟩ := by
      intro q hq
      obtain ⟨hmeets, hq⟩ := hmodes q (List.mem_cons_of_mem _ hq)
      exact ⟨hmeets, getElem?_of_initial hext.origins hq⟩
    have hlinking₁ : ∀ q ∈ tasks, ∀ r ∈ x.2.linking, r.Around g₁ os₁ ⟨q.2, parentEnd⟩ :=
      fun q hq => around_of_extends (hlinking q (List.mem_cons_of_mem _ hq)) hext
    obtain ⟨y, hy⟩ := ih hext.described hmodes₁ (fun q hq => hlike q (List.mem_cons_of_mem _ hq))
      hlinking₁
    exact ⟨y, build_bind_eq_ok.mpr ⟨x.1, x.2, hx, hy⟩⟩

/-- Modes that have their likes are compiled. -/
theorem compileModes_of_likes (hnext : next.Describes g₁ (g₁.sharing neverFits))
    (hlikes : next.ResolvesLikes g₁ g₂ os₂ n) {modes : List Mode} {parentEnd : Option String}
    {note : List Nat → Arena → Arena} {release : Arena → Arena} {os : List Origin} {a : Arena}
    (hmodes : ∀ i ∈ modes, g₁.Meets ⟨i, parentEnd⟩)
    (hlike : ∀ i ∈ modes, HasLike g₁ g₂ os₂ (n + 1) ⟨i, parentEnd⟩) (hd : Described g₁ os a)
    (hnotes : Notes g₁ modes parentEnd note release os a) :
    ∃ x, compileModes g₁ next modes parentEnd note release a = .ok x := by
  obtain ⟨⟨ids, a₁⟩, hprep⟩ :=
    prepareAll_of_prepare (fun i hi => (hlike i hi).prepare hl₂ hcase) a
  obtain ⟨hd₁, hlinking₁, _⟩ := prepareAll_describes hmodes hd hprep
  have hbecomes := prepareAll_becomes hd hprep
  have hbelow := hnotes.around ids _ a₁ (List.prefix_append _ _) hlinking₁ hbecomes
  obtain ⟨x, hx⟩ := linkAll_of_likes hl₂ hcase hnext hlikes
    (fun p hp => ⟨hmodes p.2 (tasks_of_becomes hbecomes hp).1, (tasks_of_becomes hbecomes hp).2⟩)
    (fun p hp => hlike p.2 (tasks_of_becomes hbecomes hp).1)
    (fun p hp r hr => hbelow r hr p.2 (tasks_of_becomes hbecomes hp).1)
    (hnotes.described ids _ a₁ hd₁ hbecomes)
  exact ⟨(ids, release x.2), compileModes_eq_ok.mpr ⟨a₁, x.2, hprep, hx, rfl⟩⟩

/-- What has its like is resolved, if references are followed as deep as it is
nested. -/
theorem resolve_likes (hg₁ : g₁.Faithful neverFits) (n : Nat) :
    (resolve g₁ (n + 1)).ResolvesLikes g₁ g₂ os₂ n := by
  induction n with
  | zero =>
    rintro o r expanded current under os a _ _ _ _ ⟨r₂, under₂, current₂, ids₂, href, _, hids₂⟩
    cases href with
    | modes _ _ halike => exact absurd halike id
    | name _ hnone₂ =>
      cases hids₂ with
      | self => exact ⟨_, rfl⟩
      | modes hd₂ _ => simp [hnone₂] at hd₂
  | succ n ih =>
    rintro o r expanded current under os a hm hr hlinking hd
      ⟨r₂, under₂, current₂, ids₂, href, hunder, hids₂⟩
    cases href with
    | name _ hnone₂ =>
      cases hids₂ with
      | self => exact ⟨_, rfl⟩
      | modes hd₂ _ => simp [hnone₂] at hd₂
    | @modes _ _ d d₂ hd₁ hd₂ halike =>
      cases hids₂ with
      | self =>
        rw [target?_self] at hd₂
        cases hd₂
      | modes hd₂' hids₂ =>
        cases hd₂.symm.trans hd₂'
        have hmodes : ∀ i ∈ d.instances expanded, g₁.Meets ⟨i, under⟩ := fun i hi =>
          hm.tail ⟨r, expanded, d, hr, hd₁, hi⟩
        have hlike : ∀ i ∈ d.instances expanded, HasLike g₁ g₂ os₂ (n + 1) ⟨i, under⟩ := by
          intro i hi
          obtain ⟨i₂, hi₂, hii₂⟩ := exists_of_mem_right (instances_alike halike expanded).flip hi
          obtain ⟨id₂, _, p, hp, hexact, hsome⟩ := exists_of_mem_right hids₂.flip hi₂
          refine ⟨id₂, ⟨i₂, p⟩, hp, hii₂, ?_, hunder.isSome.trans hsome.symm⟩
          intro hinherits
          have hsame := (hexact (inherits_alike (n := n + 1) hinherits hii₂)).resolve_right id
          exact (hunder.same d i hd₁ hi hinherits).trans hsame.symm
        have hdescribes := resolve_describes hg₁.sound (n + 1)
        rw [resolve_succ]
        cases r with
        | inline d' =>
          cases hd₁
          exact compileModes_of_likes hl₂ hcase hdescribes ih hmodes hlike hd
            (notes_inline hr hlinking)
        | named name =>
          unfold resolveWith
          simp only
          rcases hknown : a.known g₁ name current under expanded with ids | _ | ⟨d', dependent, key⟩
          · exact ⟨_, rfl⟩
          · rw [known_eq_missing hknown] at hd₁
            cases hd₁
          · obtain ⟨hd', rfl⟩ := known_eq_fresh hknown
            cases hd₁.symm.trans hd'
            exact compileModes_of_likes hl₂ hcase hdescribes ih hmodes hlike hd
              (notes_named hm hr hd₁ dependent hlinking)

/-- A grammar compiles if one with an alike root does. -/
theorem compileWithin_of_likes (hg₁ : g₁.Faithful neverFits)
    (hroot : AlikeWithin g₁ g₂ n g₁.root g₂.root) : ∃ depth l₁, compileWithin g₁ depth = .ok l₁ := by
  rcases n with _ | n
  · exact absurd hroot id
  · have hlike : ∀ i ∈ [g₁.root.withoutVariants], HasLike g₁ g₂ os₂ (n + 1) ⟨i, none⟩ := by
      intro i hi
      rw [List.mem_singleton.mp hi]
      cases instances_alike hroot false with
      | cons hroot _ => exact ⟨0, g₂.rootOrigin, hl₂.root, hroot, fun _ => rfl, rfl⟩
    have hmodes : ∀ i ∈ [g₁.root.withoutVariants], g₁.Meets ⟨i, none⟩ := by
      intro i hi
      rw [List.mem_singleton.mp hi]
      exact .refl
    obtain ⟨x, hx⟩ := compileModes_of_likes hl₂ hcase (resolve_describes hg₁.sound (n + 1))
      (resolve_likes hl₂ hcase hg₁ n) hmodes hlike (described_empty g₁) (notes_root _ none)
    exact ⟨n + 1, _, by rw [compileWithin_eq, hx]; rfl⟩

end

/-! ## Alike languages -/

/-- Two compiled modes are alike: they are the same but for their links, and these
lead to related modes. -/
structure CompiledAlike (R : Nat → Nat → Prop) (c₁ c₂ : CompiledMode) : Prop where
  unlinked : c₁.unlinked = c₂.unlinked
  starts : Option.Rel R c₁.starts c₂.starts
  terminators : TerminatorsAlike R c₁.terminators c₂.terminators

/-- Alike modes differ in nothing that does not link. -/
theorem CompiledAlike.relinks {R : Nat → Nat → Prop} {c₁ c₂ : CompiledMode}
    (h : CompiledAlike R c₁ c₂) :
    ∃ contains starts terminators, c₁ = { c₂ with contains, starts, terminators } := by
  refine ⟨c₁.contains, c₁.starts, c₁.terminators, ?_⟩
  have hrelink : ∀ c : CompiledMode,
      { c.unlinked with
        contains := c₁.contains, starts := c₁.starts, terminators := c₁.terminators } =
      { c with contains := c₁.contains, starts := c₁.starts, terminators := c₁.terminators } :=
    fun _ => rfl
  rw [← hrelink c₂, ← h.unlinked]
  rfl

/-- Two languages are alike: their roots are related, and related modes are
alike. -/
structure LanguagesAlike (R : Nat → Nat → Prop) (l₁ l₂ : CompiledLanguage) : Prop where
  anyCase : l₁.caseInsensitive = l₂.caseInsensitive
  root : R 0 0
  modes : ∀ id₁ id₂, R id₁ id₂ →
    ∃ c₁ c₂, l₁.mode? id₁ = some c₁ ∧ l₂.mode? id₂ = some c₂ ∧ CompiledAlike R c₁ c₂

/-- Grammars with alike roots compile to alike languages. -/
theorem languagesAlike_of_comes {g₁ g₂ : Grammar} {os₁ os₂ : List Origin}
    {l₁ l₂ : CompiledLanguage} (h₁ : Comes g₁ (g₁.sharing neverFits) os₁ l₁) (h₂ : Comes g₂ (g₂.sharing neverFits) os₂ l₂)
    (hcase : g₁.caseInsensitive = g₂.caseInsensitive) {n : Nat}
    (hroot : AlikeWithin g₁ g₂ n g₁.root g₂.root) :
    LanguagesAlike (Pairs g₁ g₂ os₁ os₂) l₁ l₂ where
  anyCase := by rw [h₁.anyCase, h₂.anyCase, hcase]
  root := by
    cases instances_alike hroot false with
    | cons hroot _ =>
      exact ⟨n, g₁.rootOrigin, g₂.rootOrigin, h₁.root, h₂.root, hroot, fun _ => rfl, rfl⟩
  modes id₁ id₂ hpair := by
    have hunlinked := hpair.unlinked hcase h₁.preparedFrom h₂.preparedFrom
    obtain ⟨n, o₁, o₂, ho₁, ho₂, halike⟩ := id hpair
    obtain ⟨c₁, hc₁, _⟩ := h₁.preparedFrom.exists_mode ho₁
    obtain ⟨c₂, hc₂, _⟩ := h₂.preparedFrom.exists_mode ho₂
    obtain ⟨o₁', ho₁', hlinks₁⟩ := h₁.links hc₁
    obtain ⟨o₂', ho₂', hlinks₂⟩ := h₂.links hc₂
    cases ho₁.symm.trans ho₁'
    cases ho₂.symm.trans ho₂'
    rw [hc₁, hc₂, Option.map_some, Option.map_some, Option.some.injEq] at hunlinked
    have hend : c₁.unlinked.terminatorEnd = c₂.unlinked.terminatorEnd := by rw [hunlinked]
    have hillegal : o₁.mode.bare.illegal = o₂.mode.bare.illegal := by rw [halike.modes.bare]
    obtain ⟨lists₁, hflat₁, hlists₁⟩ := hlinks₁.contains
    obtain ⟨lists₂, hflat₂, hlists₂⟩ := hlinks₂.contains
    rw [← show c₁.terminatorEnd = c₂.terminatorEnd from hend] at hlists₂
    have hcontains := contains_pairs halike hpair hlists₁ hlists₂
    rw [← hflat₁, ← hflat₂] at hcontains
    obtain ⟨t₁, ht₁, hterminators⟩ := terminators_alike hcase h₁.preparedFrom h₂.preparedFrom
      hcontains hlinks₂.terminators
    rw [← show c₁.terminatorEnd = c₂.terminatorEnd from hend,
      ← show o₁.mode.illegal = o₂.mode.illegal from hillegal, hlinks₁.terminators] at ht₁
    cases ht₁
    exact ⟨c₁, c₂, hc₁, hc₂, hunlinked, starts_pairs halike hpair hlinks₁ hlinks₂, hterminators⟩

end Highlighting
