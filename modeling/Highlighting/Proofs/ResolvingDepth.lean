-- How deep references have to be followed. Following them deeper changes
-- nothing once a reference comes out, and whatever is compiled on the way stays
-- known afterwards.
import Highlighting.Proofs.CompiledIds

namespace Highlighting

/-! ## Coming out -/

/-- A step of compiling that does not run out of depth. -/
def ComesOut {α : Type} (x : Build α) (a : Arena) : Prop := x a ≠ .error .tooDeep

theorem comesOut_of_ok {α : Type} {x : Build α} {a : Arena} {r : α × Arena} (h : x a = .ok r) :
    ComesOut x a := by
  intro hdeep
  rw [h] at hdeep
  cases hdeep

/-- A chain comes out exactly when each of its links does. -/
theorem comesOut_bind {α β : Type} {x : Build α} {f : α → Build β} {a : Arena} :
    ComesOut (x >>= f) a ↔
      ComesOut x a ∧ ∀ v a₁, x a = .ok (v, a₁) → ComesOut (f v) a₁ := by
  have hbind : (x >>= f) a = (x a >>= fun p => f p.1 p.2) := rfl
  unfold ComesOut
  rw [hbind]
  rcases hx : x a with e | ⟨v, a₁⟩
  · constructor
    · intro h
      refine ⟨fun he => h ?_, fun _ _ hok => by cases hok⟩
      cases he
      rfl
    · rintro ⟨h, _⟩ he
      cases he
      exact h rfl
  · constructor
    · intro h
      refine ⟨(fun he => nomatch he), ?_⟩
      intro v' a₁' hok
      cases hok
      exact h
    · intro h
      exact h.2 v a₁ rfl

/-- The second does what the first does wherever that comes out. -/
def Refines {α : Type} (x x' : Build α) : Prop := ∀ a, ComesOut x a → x' a = x a

theorem Refines.refl {α : Type} (x : Build α) : Refines x x := fun _ _ => rfl

theorem Refines.bind {α β : Type} {x x' : Build α} {f f' : α → Build β} (hx : Refines x x')
    (hf : ∀ v, Refines (f v) (f' v)) : Refines (x >>= f) (x' >>= f') := by
  intro a h
  obtain ⟨hout, hnext⟩ := comesOut_bind.mp h
  have hbind : ∀ (y : Build α) (k : α → Build β), (y >>= k) a = (y a >>= fun p => k p.1 p.2) :=
    fun _ _ => rfl
  rw [hbind, hbind, hx a hout]
  rcases hok : x a with e | ⟨v, a₁⟩
  · rfl
  · exact hf v a₁ (hnext v a₁ hok)

theorem Refines.mapM {α β : Type} {f f' : α → Build β} (hf : ∀ v, Refines (f v) (f' v))
    (xs : List α) : Refines (xs.mapM f) (xs.mapM f') := by
  induction xs with
  | nil => exact .refl _
  | cons x xs ih =>
    rw [List.mapM_cons, List.mapM_cons]
    exact .bind (hf x) fun _ => .bind ih fun _ => .refl _

/-! ## Deeper is no different -/

/-- The second resolver does what the first does wherever that comes out. -/
def Resolver.Refines (next next' : Resolver) : Prop :=
  ∀ reference current parentEnd expanded,
    Highlighting.Refines (next reference current parentEnd expanded)
      (next' reference current parentEnd expanded)

section

variable {next next' : Resolver} (h : next.Refines next')

include h

theorem refines_linkChildren (id : Nat) (refs : List ModeRef) (ownEnd : String) :
    Refines (linkChildren next id refs ownEnd) (linkChildren next' id refs ownEnd) :=
  .mapM (fun r => h r id (some ownEnd) true) refs

theorem refines_linkStarts (id : Nat) (starts : Option ModeRef) (parentEnd : Option String) :
    Refines (linkStarts next id starts parentEnd) (linkStarts next' id starts parentEnd) := by
  rcases starts with _ | r
  · exact .refl _
  · exact .bind (h r id parentEnd false) fun _ => .refl _

theorem refines_link (g : Grammar) (id : Nat) (m : Mode) (parentEnd : Option String) :
    Refines (link g next id m parentEnd) (link g next' id m parentEnd) := by
  intro a hout
  unfold ComesOut at hout
  rw [link_eq] at hout ⊢
  rw [link_eq]
  refine Refines.bind (refines_linkChildren h id m.contains (a.ownEnd id)) (fun lists => ?_) a hout
  exact .bind (refines_linkStarts h id m.starts parentEnd) fun _ => .refl _

theorem refines_linkAll (g : Grammar) (ids : List Nat) (modes : List Mode)
    (parentEnd : Option String) :
    Refines (linkAll g next ids modes parentEnd) (linkAll g next' ids modes parentEnd) := by
  unfold linkAll
  induction ids.zip modes with
  | nil => exact .refl _
  | cons p tasks ih => exact .bind (refines_link h g p.1 p.2 parentEnd) fun _ => ih

theorem refines_compileModes (g : Grammar) (modes : List Mode) (parentEnd : Option String)
    (note : List Nat → Arena → Arena) (release : Arena → Arena) :
    Refines (compileModes g next modes parentEnd note release)
      (compileModes g next' modes parentEnd note release) :=
  .bind (.refl _) fun _ => .bind (.refl _) fun _ =>
    .bind (refines_linkAll h g _ modes parentEnd) fun _ => .refl _

theorem refines_resolveWith (g : Grammar) :
    Resolver.Refines (resolveWith g next) (resolveWith g next') := by
  intro reference current parentEnd expanded
  cases reference with
  | inline m => exact refines_compileModes h g _ parentEnd _ _
  | named name =>
    intro a hout
    unfold ComesOut at hout
    unfold resolveWith at hout ⊢
    simp only at hout ⊢
    rcases hknown : a.known g name current parentEnd expanded with ids | _ | ⟨m, dependent, key⟩
    · rfl
    · rfl
    · rw [hknown] at hout
      exact refines_compileModes h g _ parentEnd _ _ a hout

end

theorem resolve_refines_succ (g : Grammar) (depth : Nat) :
    Resolver.Refines (resolve g depth) (resolve g (depth + 1)) := by
  induction depth with
  | zero =>
    intro reference current parentEnd expanded a hout
    exact absurd (resolve_zero g reference current parentEnd expanded a) hout
  | succ depth ih =>
    intro reference current parentEnd expanded a hout
    unfold ComesOut at hout
    rw [resolve_succ] at hout ⊢
    rw [resolve_succ]
    exact refines_resolveWith ih g reference current parentEnd expanded a hout

theorem resolve_refines (g : Grammar) {depth depth' : Nat} (hle : depth ≤ depth') :
    Resolver.Refines (resolve g depth) (resolve g depth') := by
  induction hle with
  | refl => exact fun _ _ _ _ => .refl _
  | step _ ih =>
    intro reference current parentEnd expanded a hout
    have hout' := ih reference current parentEnd expanded a hout
    rw [← hout']
    refine resolve_refines_succ g _ reference current parentEnd expanded a ?_
    unfold ComesOut
    rw [hout']
    exact hout

/-- Two depths at which a step comes out give the same. -/
theorem eq_of_comesOut {α : Type} {g : Grammar} (x : Resolver → Build α)
    (hx : ∀ next next', next.Refines next' → Refines (x next) (x next')) {depth depth' : Nat}
    {a : Arena} (h : ComesOut (x (resolve g depth)) a) (h' : ComesOut (x (resolve g depth')) a) :
    x (resolve g depth) a = x (resolve g depth') a := by
  rcases Nat.le_total depth depth' with hle | hle
  · exact (hx _ _ (resolve_refines g hle) a h).symm
  · exact hx _ _ (resolve_refines g hle) a h'

/-- At two depths a step that succeeds gives the same. -/
theorem eq_of_oks {α : Type} {g : Grammar} (x : Resolver → Build α)
    (hx : ∀ next next', next.Refines next' → Refines (x next) (x next')) {depth depth' : Nat}
    {a : Arena} {r r' : α × Arena} (h : x (resolve g depth) a = .ok r)
    (h' : x (resolve g depth') a = .ok r') : r = r' := by
  have heq := eq_of_comesOut x hx (comesOut_of_ok h) (comesOut_of_ok h')
  exact Except.ok.inj (h.symm.trans (heq.trans h'))

/-- A grammar that compiles, or is refused, at one depth fares alike at every larger one. -/
theorem compileWithin_of_le {g : Grammar} {depth depth' : Nat} (hle : depth ≤ depth')
    (h : compileWithin g depth ≠ .error .tooDeep) :
    compileWithin g depth' = compileWithin g depth := by
  have hrefines := Refines.bind (.refl (prepareAll g [g.root.withoutVariants] none)) fun ids =>
    refines_linkAll (resolve_refines g hle) g ids [g.root.withoutVariants] none
  have hout : ComesOut (prepareAll g [g.root.withoutVariants] none >>= fun ids =>
      linkAll g (resolve g depth) ids [g.root.withoutVariants] none) {} :=
    fun hdeep => h (bind_eq_error.mpr (.inl hdeep))
  unfold compileWithin StateT.run
  simp only
  rw [hrefines {} hout]

/-- At two depths that are not too small a grammar compiles to the same. -/
theorem compileWithin_eq_compileWithin {g : Grammar} {depth depth' : Nat}
    (h : compileWithin g depth ≠ .error .tooDeep) (h' : compileWithin g depth' ≠ .error .tooDeep) :
    compileWithin g depth = compileWithin g depth' := by
  rcases Nat.le_total depth depth' with hle | hle
  · exact (compileWithin_of_le hle h).symm
  · exact compileWithin_of_le hle h'

/-! ## What is known stays known -/

/-- From one arena to a later one: what was kept is still kept, the same references are being
linked, and every mode has the end that it had. -/
structure Arena.Remembers (a' a : Arena) : Prop where
  shared : a.shared <:+ a'.shared
  linking : a'.linking = a.linking
  ends : ∀ (id : Nat) (m : CompiledMode), a.modes[id]? = some m →
    ∃ m', a'.modes[id]? = some m' ∧ m'.terminatorEnd = m.terminatorEnd

namespace Arena.Remembers

theorem refl (a : Arena) : a.Remembers a :=
  ⟨List.suffix_refl _, rfl, fun _ m hm => ⟨m, hm, rfl⟩⟩

theorem trans {a₁ a₂ a₃ : Arena} (h : a₂.Remembers a₁) (h' : a₃.Remembers a₂) :
    a₃.Remembers a₁ where
  shared := h.shared.trans h'.shared
  linking := h'.linking.trans h.linking
  ends id m hm := by
    obtain ⟨m₂, hm₂, hend₂⟩ := h.ends id m hm
    obtain ⟨m₃, hm₃, hend₃⟩ := h'.ends id m₂ hm₂
    exact ⟨m₃, hm₃, hend₃.trans hend₂⟩

theorem prepared (a : Arena) (ms : List CompiledMode) :
    Remembers { a with modes := a.modes ++ ms.toArray } a where
  shared := List.suffix_refl _
  linking := rfl
  ends id m hm := by
    have hlt : id < a.modes.size := (Array.getElem?_eq_some_iff.mp hm).1
    exact ⟨m, by rw [Array.getElem?_append_left hlt]; exact hm, rfl⟩

/-- A note that is taken back is still kept. -/
theorem released {a a' : Arena} {name : String} {expanded dependent : Bool} {key : RefKey}
    {ids : List Nat} (h : a'.Remembers (a.note name expanded dependent key ids)) :
    (a'.release dependent).Remembers a where
  shared := (List.suffix_cons (key, ids) a.shared).trans h.shared
  linking := by
    have hlinking := h.linking
    unfold Arena.note at hlinking
    unfold Arena.release
    cases dependent with
    | false => exact hlinking
    | true => exact congrArg List.tail hlinking
  ends := h.ends

end Arena.Remembers

/-- A way to resolve after which no less is known. -/
def Resolver.Remembers (next : Resolver) : Prop :=
  ∀ reference current parentEnd expanded a ids a',
    next reference current parentEnd expanded a = .ok (ids, a') → a'.Remembers a

theorem setLinks_remembers {g : Grammar} {id : Nat} {ownEnd : String} {illegal : Option String}
    {contains : List Nat} {starts : Option Nat} {a : Arena} {r : Unit × Arena}
    (h : setLinks g id ownEnd illegal contains starts a = .ok r) : r.2.Remembers a := by
  obtain ⟨ts, _, hr⟩ := setLinks_ok h
  rw [hr]
  refine ⟨List.suffix_refl _, rfl, ?_⟩
  intro i m hm
  rw [Array.getElem?_modify]
  split
  · exact ⟨{ m with contains, starts, terminators := ts }, by rw [hm]; rfl, rfl⟩
  · exact ⟨m, hm, rfl⟩

section

variable {next : Resolver} (hnext : next.Remembers)

include hnext

theorem linkChildren_remembers {id : Nat} {refs : List ModeRef} {ownEnd : String} {a a' : Arena}
    {lists : List (List Nat)} (h : linkChildren next id refs ownEnd a = .ok (lists, a')) :
    a'.Remembers a := by
  unfold linkChildren at h
  induction refs generalizing a lists with
  | nil =>
    cases h
    exact .refl _
  | cons r refs ih =>
    rw [List.mapM_cons] at h
    obtain ⟨ids, a₁, hr, h⟩ := build_bind_eq_ok.mp h
    obtain ⟨lists', a₂, hrefs, h⟩ := build_bind_eq_ok.mp h
    cases h
    exact (hnext r id (some ownEnd) true a ids a₁ hr).trans (ih hrefs)

theorem linkStarts_remembers {id : Nat} {starts : Option ModeRef} {parentEnd : Option String}
    {a a' : Arena} {o : Option Nat} (h : linkStarts next id starts parentEnd a = .ok (o, a')) :
    a'.Remembers a := by
  unfold linkStarts at h
  rcases starts with _ | r
  · cases h
    exact .refl _
  · obtain ⟨ids, a₁, hr, h⟩ := build_bind_eq_ok.mp h
    cases h
    exact hnext r id parentEnd false a ids _ hr

theorem link_remembers {g : Grammar} {id : Nat} {m : Mode} {parentEnd : Option String} {a : Arena}
    {r : Unit × Arena} (h : link g next id m parentEnd a = .ok r) : r.2.Remembers a := by
  rw [link_eq] at h
  obtain ⟨lists, a₁, hchildren, h⟩ := build_bind_eq_ok.mp h
  obtain ⟨starts, a₂, hstarts, h⟩ := build_bind_eq_ok.mp h
  have hchildren' := linkChildren_remembers hnext hchildren
  exact (hchildren'.trans (linkStarts_remembers hnext hstarts)).trans (setLinks_remembers h)

theorem linkAll_remembers {g : Grammar} {ids : List Nat} {modes : List Mode}
    {parentEnd : Option String} {a : Arena} {r : Unit × Arena}
    (h : linkAll g next ids modes parentEnd a = .ok r) : r.2.Remembers a := by
  unfold linkAll at h
  generalize ids.zip modes = tasks at h
  induction tasks generalizing a with
  | nil =>
    cases h
    exact .refl _
  | cons p tasks ih =>
    obtain ⟨u, a₁, hlink, h⟩ := build_bind_eq_ok.mp h
    exact (link_remembers hnext hlink).trans (ih h)

theorem compileModes_remembers {g : Grammar} {modes : List Mode} {parentEnd : Option String}
    {note : List Nat → Arena → Arena} {release : Arena → Arena}
    (hnote : ∀ ids a a', a'.Remembers (note ids a) → (release a').Remembers a)
    {a a' : Arena} {ids : List Nat}
    (h : compileModes g next modes parentEnd note release a = .ok (ids, a')) :
    a'.Remembers a := by
  obtain ⟨a₁, a₃, hprep, hlink, rfl⟩ := compileModes_eq_ok.mp h
  obtain ⟨ms, _, rfl, _⟩ := prepareAll_ok hprep
  exact (Arena.Remembers.prepared a ms).trans (hnote ids _ a₃ (linkAll_remembers hnext hlink))

end

theorem resolve_remembers (g : Grammar) (depth : Nat) : Resolver.Remembers (resolve g depth) := by
  induction depth with
  | zero =>
    intro reference current parentEnd expanded a ids a' h
    rw [resolve_zero] at h
    cases h
  | succ depth ih =>
    intro reference current parentEnd expanded a ids a' h
    cases reference with
    | inline m =>
      rw [resolve_succ] at h
      exact compileModes_remembers ih (fun _ _ _ h => h) h
    | named name =>
      rcases resolve_named_ok h with ⟨_, rfl⟩ | ⟨m, dependent, key, _, h⟩
      · exact .refl _
      · exact compileModes_remembers ih (fun _ _ _ h => h.released) h

end Highlighting
