-- Modes of two grammars that are alike: they agree in everything but in how they
-- refer to other modes, and what they refer to is alike again. Compiled under ends
-- that agree as far as they matter, alike modes become alike: the same but for
-- their links, and these lead to modes that are alike.
import Highlighting.Proofs.Inlining

namespace Highlighting

/-! ## Alike modes -/

/-- Two references are alike if they stand for alike modes, or for no other mode
by the same name. -/
inductive RefsAlike (g₁ g₂ : Grammar) (R : Mode → Mode → Prop) : ModeRef → ModeRef → Prop
  | modes {r₁ r₂ : ModeRef} {d₁ d₂ : Mode} (h₁ : g₁.target? r₁ = some d₁)
      (h₂ : g₂.target? r₂ = some d₂) (h : R d₁ d₂) : RefsAlike g₁ g₂ R r₁ r₂
  | name {name : String} (h₁ : g₁.target? (.named name) = none)
      (h₂ : g₂.target? (.named name) = none) : RefsAlike g₁ g₂ R (.named name) (.named name)

/-- Two modes are alike if they are the same but for what they refer to, and that
is alike. -/
structure ModesAlike (g₁ g₂ : Grammar) (R : Mode → Mode → Prop) (m₁ m₂ : Mode) : Prop where
  bare : m₁.bare = m₂.bare
  contains : List.Forall₂ (RefsAlike g₁ g₂ R) m₁.contains m₂.contains
  variants : List.Forall₂ R m₁.variants m₂.variants
  starts : Option.Rel (RefsAlike g₁ g₂ R) m₁.starts m₂.starts

/-- Two modes are alike, and references in them are nested at most so deep. -/
def AlikeWithin (g₁ g₂ : Grammar) : Nat → Mode → Mode → Prop
  | 0 => fun _ _ => False
  | n + 1 => ModesAlike g₁ g₂ (AlikeWithin g₁ g₂ n)

theorem RefsAlike.mono {g₁ g₂ : Grammar} {R S : Mode → Mode → Prop} (hRS : ∀ a b, R a b → S a b)
    {r₁ r₂ : ModeRef} (h : RefsAlike g₁ g₂ R r₁ r₂) : RefsAlike g₁ g₂ S r₁ r₂ := by
  cases h with
  | modes h₁ h₂ h => exact .modes h₁ h₂ (hRS _ _ h)
  | name h₁ h₂ => exact .name h₁ h₂

theorem optionRel_imp {α β : Type} {R S : α → β → Prop} (hRS : ∀ a b, R a b → S a b)
    {x : Option α} {y : Option β} (h : Option.Rel R x y) : Option.Rel S x y := by
  cases h with
  | some h => exact .some (hRS _ _ h)
  | none => exact .none

theorem ModesAlike.mono {g₁ g₂ : Grammar} {R S : Mode → Mode → Prop} (hRS : ∀ a b, R a b → S a b)
    {m₁ m₂ : Mode} (h : ModesAlike g₁ g₂ R m₁ m₂) : ModesAlike g₁ g₂ S m₁ m₂ where
  bare := h.bare
  contains := h.contains.imp fun _ _ => RefsAlike.mono hRS
  variants := h.variants.imp hRS
  starts := optionRel_imp (fun _ _ => RefsAlike.mono hRS) h.starts

theorem AlikeWithin.succ {g₁ g₂ : Grammar} {n : Nat} {m₁ m₂ : Mode}
    (h : AlikeWithin g₁ g₂ n m₁ m₂) : AlikeWithin g₁ g₂ (n + 1) m₁ m₂ := by
  induction n generalizing m₁ m₂ with
  | zero => exact absurd h id
  | succ n ih => exact ModesAlike.mono (fun _ _ => ih) h

theorem AlikeWithin.symm {g₁ g₂ : Grammar} {n : Nat} {m₁ m₂ : Mode}
    (h : AlikeWithin g₁ g₂ n m₁ m₂) : AlikeWithin g₂ g₁ n m₂ m₁ := by
  induction n generalizing m₁ m₂ with
  | zero => exact absurd h id
  | succ n ih =>
    have href : ∀ r₁ r₂, RefsAlike g₁ g₂ (AlikeWithin g₁ g₂ n) r₁ r₂ →
        RefsAlike g₂ g₁ (AlikeWithin g₂ g₁ n) r₂ r₁ := by
      intro r₁ r₂ hr
      cases hr with
      | modes h₁ h₂ h => exact .modes h₂ h₁ (ih h)
      | name h₁ h₂ => exact .name h₂ h₁
    refine ⟨h.bare.symm, ?_, ?_, ?_⟩
    · exact (h.contains.imp href).flip
    · exact (h.variants.imp fun _ _ => ih).flip
    · have hstarts := h.starts
      generalize m₁.starts = s₁ at hstarts ⊢
      generalize m₂.starts = s₂ at hstarts ⊢
      cases hstarts with
      | some hr => exact .some (href _ _ hr)
      | none => exact .none

/-- A mode is alike with what it is written out to. -/
theorem alike_of_inlineMode? {g g' : Grammar}
    (hkeeps : ∀ name, g.target? (.named name) = none → g'.target? (.named name) = none)
    {n : Nat} {m t : Mode} (h : g.inlineMode? n m = some t) : AlikeWithin g g' n m t := by
  induction n generalizing m t with
  | zero => cases h
  | succ n ih =>
    have hwritten := writtenOut_of_eq_some h
    have href : ∀ r r', g.writeOut? (g.inlineMode? n) r = some r' →
        RefsAlike g g' (AlikeWithin g g' n) r r' := by
      intro r r' hr
      rcases writeOut?_cases hr with ⟨d, t', hd, ht', rfl⟩ | ⟨name, rfl, hnone, rfl⟩
      · exact .modes hd rfl (ih ht')
      · exact .name hnone (hkeeps name hnone)
    exact ⟨hwritten.bare.symm, hwritten.contains.imp href, hwritten.variants.imp fun _ _ => ih,
      optionRel_imp href hwritten.starts⟩

/-! ### Instances -/

theorem bare_inherit (m overlay : Mode) : (m.inherit overlay).bare = m.bare.inherit overlay.bare :=
  rfl

theorem inherit_alike {g₁ g₂ : Grammar} {R : Mode → Mode → Prop} {m₁ m₂ v₁ v₂ : Mode}
    (hm : ModesAlike g₁ g₂ R m₁ m₂) (hv : ModesAlike g₁ g₂ R v₁ v₂) :
    ModesAlike g₁ g₂ R (m₁.inherit v₁) (m₂.inherit v₂) where
  bare := by rw [bare_inherit, bare_inherit, hm.bare, hv.bare]
  contains := by
    have hlength := hv.contains.length_eq
    unfold Mode.inherit
    by_cases hempty : v₁.contains = []
    · have hempty' : v₂.contains = [] := by
        rw [hempty] at hlength
        exact List.length_eq_zero_iff.mp hlength.symm
      simpa [hempty, hempty'] using hm.contains
    · have hempty' : v₂.contains ≠ [] := by
        intro hnil
        rw [hnil] at hlength
        exact hempty (List.length_eq_zero_iff.mp hlength)
      simpa [hempty, hempty'] using hv.contains
  variants := .nil
  starts := by
    have hstarts := hv.starts
    unfold Mode.inherit
    simp only
    generalize v₁.starts = s₁ at hstarts ⊢
    generalize v₂.starts = s₂ at hstarts ⊢
    cases hstarts with
    | some hr => exact .some hr
    | none => exact hm.starts

theorem instances_alike {g₁ g₂ : Grammar} {n : Nat} {d₁ d₂ : Mode}
    (h : AlikeWithin g₁ g₂ n d₁ d₂) (expanded : Bool) :
    List.Forall₂ (AlikeWithin g₁ g₂ n) (d₁.instances expanded) (d₂.instances expanded) := by
  rcases n with _ | n
  · exact absurd h id
  · have hlength := h.variants.length_eq
    unfold Mode.instances
    cases expanded with
    | false => exact .cons ⟨h.bare, h.contains, .nil, h.starts⟩ .nil
    | true =>
      unfold Mode.expand
      simp only [if_true]
      by_cases hempty : d₁.variants = []
      · have hempty' : d₂.variants = [] := by
          rw [hempty] at hlength
          exact List.length_eq_zero_iff.mp hlength.symm
        simpa [hempty, hempty'] using h
      · have hempty' : d₂.variants ≠ [] := by
          intro hnil
          rw [hnil] at hlength
          exact hempty (List.length_eq_zero_iff.mp hlength)
        simp only [List.isEmpty_iff, hempty, hempty', if_false, List.forall₂_map_left_iff,
          List.forall₂_map_right_iff]
        exact h.variants.imp fun v₁ v₂ hv => inherit_alike h hv.succ

/-- The end around it matters to both of two alike modes or to neither. -/
theorem inherits_alike {g₁ g₂ : Grammar} {m₁ : Mode} (h : g₁.Inherits m₁) :
    ∀ {n : Nat} {m₂ : Mode}, AlikeWithin g₁ g₂ n m₁ m₂ → g₂.Inherits m₂ := by
  induction h with
  | @ends m h =>
    intro n m₂ halike
    rcases n with _ | n
    · exact absurd halike id
    · have hends : m.bare.endsWithParent = m₂.bare.endsWithParent := by rw [halike.bare]
      exact .ends (hends.symm.trans h)
  | @follows m d r hr hd _ ih =>
    intro n m₂ halike
    rcases n with _ | n
    · exact absurd halike id
    · have hstarts := halike.starts
      rw [hr] at hstarts
      rcases hs : m₂.starts with _ | r₂
      · rw [hs] at hstarts
        cases hstarts
      · rw [hs] at hstarts
        cases hstarts with
        | some href =>
          cases href with
          | modes h₁ h₂ h =>
            cases h₁.symm.trans hd
            exact .follows hs h₂ (ih h)
          | name h₁ _ =>
            rw [hd] at h₁
            cases h₁

/-! ## Alike origins -/

/-- No copy fits under another end than its own. -/
def neverFits : Origin → Option String → Prop := fun _ _ => False

/-- Two origins are alike: their modes are, and the ends around them agree as far
as they matter. -/
structure OriginsAlike (g₁ g₂ : Grammar) (n : Nat) (o₁ o₂ : Origin) : Prop where
  modes : AlikeWithin g₁ g₂ n o₁.mode o₂.mode
  parentEnd : g₁.Inherits o₁.mode → o₁.parentEnd = o₂.parentEnd
  isSome : o₁.parentEnd.isSome = o₂.parentEnd.isSome

/-- The modes with two indices have alike origins. -/
def Pairs (g₁ g₂ : Grammar) (os₁ os₂ : List Origin) (id₁ id₂ : Nat) : Prop :=
  ∃ n o₁ o₂, os₁[id₁]? = some o₁ ∧ os₂[id₂]? = some o₂ ∧ OriginsAlike g₁ g₂ n o₁ o₂

theorem prepare_bare (m : Mode) (anyCase : Bool) (parentEnd : Option String) :
    m.bare.prepare anyCase parentEnd = m.prepare anyCase parentEnd := rfl

/-- A mode that does not end with its parent is prepared alike under any end. -/
theorem prepare_under {m : Mode} (hends : m.endsWithParent = false) (anyCase : Bool)
    {e₁ e₂ : Option String} (h : e₁.isSome = e₂.isSome) :
    m.prepare anyCase e₁ = m.prepare anyCase e₂ := by
  rcases e₁ with _ | e₁ <;> rcases e₂ with _ | e₂
  · rfl
  · cases h
  · cases h
  · have hend : m.terminatorEnd e₁ = m.terminatorEnd e₂ := by simp [Mode.terminatorEnd, hends]
    unfold Mode.prepare
    simp only [hend]

section

variable {g₁ g₂ : Grammar} {n : Nat}

theorem AlikeWithin.bare {m₁ m₂ : Mode} (h : AlikeWithin g₁ g₂ n m₁ m₂) : m₁.bare = m₂.bare := by
  rcases n with _ | n
  · exact absurd h id
  · exact ModesAlike.bare h

/-- Alike origins are prepared to the same mode. -/
theorem OriginsAlike.prepare {o₁ o₂ : Origin} (h : OriginsAlike g₁ g₂ n o₁ o₂) (anyCase : Bool) :
    o₁.mode.prepare anyCase o₁.parentEnd = o₂.mode.prepare anyCase o₂.parentEnd := by
  rw [← prepare_bare o₁.mode, h.modes.bare, prepare_bare]
  by_cases hmatters : g₁.Inherits o₁.mode
  · rw [h.parentEnd hmatters]
  · have hends : o₂.mode.endsWithParent = false := by
      rcases hends : o₂.mode.endsWithParent with _ | _
      · rfl
      · exact absurd (inherits_alike (.ends hends) h.modes.symm) hmatters
    exact prepare_under hends anyCase h.isSome

/-- Compiled under ends that agree as far as they matter, alike modes have alike
origins. -/
theorem pairs_of_becomesAt {os₁ os₂ : List Origin} {under₁ under₂ : Option String} {i₁ i₂ : Mode}
    (halike : AlikeWithin g₁ g₂ n i₁ i₂) (hunder : g₁.Inherits i₁ → under₁ = under₂)
    (hsome : under₁.isSome = under₂.isSome) {id₁ id₂ : Nat}
    (h₁ : g₁.BecomesAt neverFits os₁ under₁ i₁ id₁)
    (h₂ : g₂.BecomesAt neverFits os₂ under₂ i₂ id₂) : Pairs g₁ g₂ os₁ os₂ id₁ id₂ := by
  obtain ⟨p₁, hp₁, hexact₁, hsome₁⟩ := h₁
  obtain ⟨p₂, hp₂, hexact₂, hsome₂⟩ := h₂
  refine ⟨n, ⟨i₁, p₁⟩, ⟨i₂, p₂⟩, hp₁, hp₂, halike, ?_, ?_⟩
  · intro hmatters
    have hend₁ : p₁ = under₁ := (hexact₁ hmatters).resolve_right id
    have hend₂ : p₂ = under₂ := (hexact₂ (inherits_alike hmatters halike)).resolve_right id
    show p₁ = p₂
    rw [hend₁, hend₂, hunder hmatters]
  · show p₁.isSome = p₂.isSome
    rw [hsome₁, hsome₂, hsome]

theorem target?_self (g : Grammar) : g.target? (.named selfName) = none := by
  simp [Grammar.target?]

/-- Rows that belong to related rows are related. -/
theorem forall₂_across {α β γ δ : Type} {A : α → β → Prop} {B : α → γ → Prop} {C : β → δ → Prop}
    {D : γ → δ → Prop} {xs : List α} {ys : List β} {us : List γ} {vs : List δ}
    (hA : List.Forall₂ A xs ys) (hB : List.Forall₂ B xs us) (hC : List.Forall₂ C ys vs)
    (hD : ∀ x ∈ xs, ∀ y u v, A x y → B x u → C y v → D u v) : List.Forall₂ D us vs := by
  induction hA generalizing us vs with
  | nil =>
    cases hB
    cases hC
    exact .nil
  | @cons x y xs ys hxy _ ih =>
    cases hB with
    | cons hb hB =>
      cases hC with
      | cons hc hC =>
        refine .cons (hD x List.mem_cons_self y _ _ hxy hb hc) (ih hB hC ?_)
        exact fun x' hx' => hD x' (List.mem_cons_of_mem _ hx')

/-- The ends under which two alike references are resolved agree as far as they
matter. -/
structure UnderAlike (g₁ : Grammar) (r₁ : ModeRef) (expanded : Bool)
    (under₁ under₂ : Option String) : Prop where
  same : ∀ d i, g₁.target? r₁ = some d → i ∈ d.instances expanded → g₁.Inherits i → under₁ = under₂
  isSome : under₁.isSome = under₂.isSome

/-- Alike references resolve to alike modes. -/
theorem resolvesTo_pairs {os₁ os₂ : List Origin} {under₁ under₂ : Option String} {expanded : Bool}
    {r₁ r₂ : ModeRef} (hr : RefsAlike g₁ g₂ (AlikeWithin g₁ g₂ n) r₁ r₂)
    (hunder : UnderAlike g₁ r₁ expanded under₁ under₂) {current₁ current₂ : Nat}
    (hcurrent : Pairs g₁ g₂ os₁ os₂ current₁ current₂) {ids₁ ids₂ : List Nat}
    (h₁ : ResolvesTo g₁ neverFits os₁ current₁ under₁ expanded r₁ ids₁)
    (h₂ : ResolvesTo g₂ neverFits os₂ current₂ under₂ expanded r₂ ids₂) :
    List.Forall₂ (Pairs g₁ g₂ os₁ os₂) ids₁ ids₂ := by
  cases hr with
  | modes htarget₁ htarget₂ halike =>
    cases h₁ with
    | self =>
      rw [target?_self] at htarget₁
      cases htarget₁
    | modes hd₁ hids₁ =>
      cases h₂ with
      | self =>
        rw [target?_self] at htarget₂
        cases htarget₂
      | modes hd₂ hids₂ =>
        cases htarget₁.symm.trans hd₁
        cases htarget₂.symm.trans hd₂
        refine forall₂_across (instances_alike halike expanded) hids₁ hids₂ ?_
        intro i₁ hi₁ i₂ id₁ id₂ hi hid₁ hid₂
        exact pairs_of_becomesAt hi (hunder.same _ i₁ hd₁ hi₁) hunder.isSome hid₁ hid₂
  | name hnone₁ hnone₂ =>
    cases h₁ with
    | self =>
      cases h₂ with
      | self => exact .cons hcurrent .nil
      | modes hd₂ _ =>
        rw [hnone₂] at hd₂
        cases hd₂
    | modes hd₁ _ =>
      rw [hnone₁] at hd₁
      cases hd₁

end

/-! ## Alike terminators -/

/-- Two rules are alike: they are the same, but for the index of the child. -/
inductive RuleAlike (R : Nat → Nat → Prop) : Rule → Rule → Prop
  | begins {id₁ id₂ : Nat} (h : R id₁ id₂) : RuleAlike R (.begins id₁) (.begins id₂)
  | ends : RuleAlike R .ends .ends
  | illegal : RuleAlike R .illegal .illegal

/-- Two lists of rules are alike: the rules are, and their patterns are the same. -/
def RulesAlike (R : Nat → Nat → Prop) (rules₁ rules₂ : List (Rule × String)) : Prop :=
  List.Forall₂ (fun p q => RuleAlike R p.1 q.1 ∧ p.2 = q.2) rules₁ rules₂

/-- Terminators are alike: they are one pattern, with alike rules for its groups. -/
structure TerminatorsAlike (R : Nat → Nat → Prop) (t₁ t₂ : Terminators) : Prop where
  pattern : t₁.pattern = t₂.pattern
  rules : List.Forall₂ (fun p q => p.1 = q.1 ∧ RuleAlike R p.2 q.2) t₁.rules t₂.rules

section

variable {R : Nat → Nat → Prop}

/-- The rules of modes with alike children are alike. -/
theorem rulesAmong_alike {modes₁ modes₂ : Array CompiledMode}
    (hR : ∀ id₁ id₂, R id₁ id₂ →
      (modes₁[id₁]?).map CompiledMode.unlinked = (modes₂[id₂]?).map CompiledMode.unlinked)
    {contains₁ contains₂ : List Nat} (h : List.Forall₂ R contains₁ contains₂)
    (terminatorEnd : String) (illegal : Option String) :
    RulesAlike R (rulesAmong modes₁ contains₁ terminatorEnd illegal)
      (rulesAmong modes₂ contains₂ terminatorEnd illegal) := by
  unfold rulesAmong Arena.rules
  refine List.rel_append (List.rel_append (List.rel_filterMap ?_ h) ?_) ?_
  · intro id₁ id₂ hid
    have hchild := hR id₁ id₂ hid
    simp only
    rcases hc₁ : modes₁[id₁]? with _ | c₁ <;> rcases hc₂ : modes₂[id₂]? with _ | c₂ <;>
      rw [hc₁, hc₂] at hchild
    · exact .none
    · cases hchild
    · cases hchild
    · have hunlinked : c₁.unlinked = c₂.unlinked := Option.some.inj hchild
      have hbegins : c₁.unlinked.begins = c₂.unlinked.begins := by rw [hunlinked]
      have hkeywords : c₁.unlinked.byKeywords = c₂.unlinked.byKeywords := by rw [hunlinked]
      simp only [CompiledMode.unlinked_begins, CompiledMode.unlinked_byKeywords] at hbegins hkeywords
      simp only [bind, Option.bind, hbegins, hkeywords]
      rcases c₂.begins with _ | source
      · exact .none
      · exact .some ⟨.begins hid, rfl⟩
  · split
    · exact .nil
    · exact .cons ⟨.ends, rfl⟩ .nil
  · rcases illegal with _ | source
    · exact .nil
    · exact .cons ⟨.illegal, rfl⟩ .nil

theorem RulesAlike.sources {rules₁ rules₂ : List (Rule × String)} (h : RulesAlike R rules₁ rules₂) :
    rules₁.map (·.2) = rules₂.map (·.2) := by
  induction h with
  | nil => rfl
  | cons hpq _ ih => rw [List.map_cons, List.map_cons, hpq.2, ih]

theorem RulesAlike.zip {rules₁ rules₂ : List (Rule × String)} (h : RulesAlike R rules₁ rules₂)
    (groups : List Nat) : List.Forall₂ (fun p q => p.1 = q.1 ∧ RuleAlike R p.2 q.2)
      (groups.zip (rules₁.map (·.1))) (groups.zip (rules₂.map (·.1))) := by
  induction h generalizing groups with
  | nil => simp
  | cons hpq _ ih =>
    rcases groups with _ | ⟨group, groups⟩
    · exact .nil
    · exact .cons ⟨rfl, hpq.1⟩ (ih groups)

/-- Alike rules are joined to alike terminators. -/
theorem ofRules_alike {rules₁ rules₂ : List (Rule × String)} (h : RulesAlike R rules₁ rules₂)
    {anyCase : Bool} {t₂ : Terminators} (ht₂ : Terminators.ofRules rules₂ anyCase = .ok t₂) :
    ∃ t₁, Terminators.ofRules rules₁ anyCase = .ok t₁ ∧ TerminatorsAlike R t₁ t₂ := by
  have hempty : rules₁.isEmpty = rules₂.isEmpty := by
    have hlength := List.Forall₂.length_eq h
    rcases rules₁ with _ | _ <;> rcases rules₂ with _ | _ <;> simp at hlength ⊢
  unfold Terminators.ofRules at ht₂ ⊢
  rw [hempty, h.sources]
  split at ht₂
  · rename_i hnil
    cases ht₂
    exact ⟨.empty, by rw [if_pos hnil], rfl, .nil⟩
  · rename_i hne
    obtain ⟨p, hp, ht₂⟩ := bind_eq_ok.mp ht₂
    cases ht₂
    rw [if_neg hne]
    refine ⟨⟨some p, (Alternation.join (rules₂.map (·.2))).groupStarts.zip (rules₁.map (·.1))⟩,
      ?_, rfl, ?_⟩
    · simp only [hp, ok_bind_eq]
      rfl
    · exact h.zip _

end

end Highlighting
