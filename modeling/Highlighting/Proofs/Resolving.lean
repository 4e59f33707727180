-- How a reference is resolved. Either what it stands for is known already, or
-- its modes are compiled: prepared, noted in the arena, linked, and the note
-- taken back where it was only for the time of linking.
import Highlighting.Compiled.Arena
import Highlighting.Proofs.Fallible

namespace Highlighting

/-! ## Steps of compiling -/

theorem build_bind_eq_ok {α β : Type} {x : Build α} {f : α → Build β} {a : Arena} {r : β × Arena} :
    (x >>= f) a = .ok r ↔ ∃ v a₁, x a = .ok (v, a₁) ∧ f v a₁ = .ok r := by
  have hbind : (x >>= f) a = (x a >>= fun p => f p.1 p.2) := rfl
  rw [hbind, bind_eq_ok]
  constructor
  · rintro ⟨⟨v, a₁⟩, h, h'⟩
    exact ⟨v, a₁, h, h'⟩
  · rintro ⟨v, a₁, h, h'⟩
    exact ⟨(v, a₁), h, h'⟩

theorem build_pure_eq_ok {α : Type} {v : α} {a : Arena} {r : α × Arena} :
    (pure v : Build α) a = .ok r ↔ (v, a) = r := by
  have hpure : (pure v : Build α) a = .ok (v, a) := rfl
  rw [hpure, Except.ok.injEq]

theorem lift_eq_ok {α : Type} {x : Except GrammarError α} {a a' : Arena} {v : α} :
    (liftM x : Build α) a = .ok (v, a') ↔ x = .ok v ∧ a' = a := by
  rcases x with e | w
  · constructor
    · intro h; cases h
    · rintro ⟨h, _⟩; cases h
  · constructor
    · intro h; cases h; exact ⟨rfl, rfl⟩
    · rintro ⟨h, rfl⟩; cases h; rfl

theorem build_bind_congr {α β : Type} {x : Build α} {f f' : α → Build β} {a : Arena}
    (h : ∀ v a₁, x a = .ok (v, a₁) → f v a₁ = f' v a₁) : (x >>= f) a = (x >>= f') a := by
  have hbind : ∀ k : α → Build β, (x >>= k) a = (x a >>= fun p => k p.1 p.2) := fun _ => rfl
  rw [hbind, hbind]
  rcases hx : x a with e | ⟨v, a₁⟩
  · rfl
  · exact h v a₁ hx

/-! ## What is known of a name -/

/-- What is known of a named reference before anything is compiled. -/
inductive Known where
  /-- It stands for these modes. -/
  | ids (ids : List Nat)
  /-- The name names nothing. -/
  | missing
  /-- The mode is still to be compiled. -/
  | fresh (m : Mode) (dependent : Bool) (key : RefKey)

/-- Under what a named mode is kept. -/
def refKey (g : Grammar) (m : Mode) (name : String) (parentEnd : Option String)
    (expanded : Bool) : RefKey :=
  { name, expanded
    parentEnd := if g.dependsOnParent m then parentEnd else parentEnd.map fun _ => "" }

/-- What the arena knows of a name, met in the mode `current`. -/
def Arena.known (a : Arena) (g : Grammar) (name : String) (current : Nat)
    (parentEnd : Option String) (expanded : Bool) : Known :=
  if name = selfName then .ids [current]
  else match g.lookup? name with
    | none => .missing
    | some m =>
      match if g.dependsOnParent m then a.enclosing? name expanded parentEnd else none with
      | some ids => .ids ids
      | none =>
        match a.shared.lookup (refKey g m name parentEnd expanded) with
        | some ids => .ids ids
        | none => .fresh m (g.dependsOnParent m) (refKey g m name parentEnd expanded)

/-! ## Linking one mode -/

/-- The end that the children of a mode see around them. -/
def Arena.ownEnd (a : Arena) (id : Nat) : String :=
  ((a.modes[id]?).map CompiledMode.terminatorEnd).getD ""

/-- Resolves what a mode contains, in order. -/
def linkChildren (next : Resolver) (id : Nat) (refs : List ModeRef) (ownEnd : String) :
    Build (List (List Nat)) :=
  refs.mapM fun r => next r id (some ownEnd) true

/-- Resolves what follows a mode. -/
def linkStarts (next : Resolver) (id : Nat) (starts : Option ModeRef) (parentEnd : Option String) :
    Build (Option Nat) :=
  match starts with
  | some r => do return (← next r id parentEnd false).head?
  | none => return none

/-- Puts the links of a mode into the arena. -/
def setLinks (g : Grammar) (id : Nat) (ownEnd : String) (illegal : Option String)
    (contains : List Nat) (starts : Option Nat) : Build Unit := do
  let a ← get
  match Terminators.ofRules (a.rules contains ownEnd illegal) g.caseInsensitive with
  | .error e => throw (.invalidPattern e)
  | .ok terminators =>
    set { a with modes := a.modes.modify id fun c => { c with contains, starts, terminators } }

theorem link_eq (g : Grammar) (next : Resolver) (id : Nat) (m : Mode) (parentEnd : Option String)
    (a : Arena) :
    link g next id m parentEnd a = (linkChildren next id m.contains (a.ownEnd id) >>= fun lists =>
      linkStarts next id m.starts parentEnd >>= fun starts =>
        setLinks g id (a.ownEnd id) m.illegal lists.flatten starts) a := by
  have hget : ∀ f : Arena → Build Unit, (get >>= f) a = f a a := fun _ => rfl
  unfold link linkStarts
  rw [hget]
  refine build_bind_congr fun lists a₁ _ => ?_
  rcases m.starts with _ | r
  · rfl
  · simp only [bind_assoc, pure_bind]
    rfl

theorem setLinks_ok {g : Grammar} {id : Nat} {ownEnd : String} {illegal : Option String}
    {contains : List Nat} {starts : Option Nat} {a : Arena} {r : Unit × Arena}
    (h : setLinks g id ownEnd illegal contains starts a = .ok r) :
    ∃ terminators,
      Terminators.ofRules (a.rules contains ownEnd illegal) g.caseInsensitive = .ok terminators ∧
        r.2 = { a with modes := a.modes.modify id fun c => { c with contains, starts, terminators } } := by
  have hget : ∀ f : Arena → Build Unit, (get >>= f) a = f a a := fun _ => rfl
  unfold setLinks at h
  rw [hget] at h
  rcases ht : Terminators.ofRules (a.rules contains ownEnd illegal) g.caseInsensitive with e | ts
  · rw [ht] at h
    cases h
  · rw [ht] at h
    cases h
    exact ⟨ts, rfl, rfl⟩

/-! ## Compiling the modes of a reference -/

/-- The arena with a reference noted. One that depends on its parent is open
as long as it is being linked. -/
def Arena.note (a : Arena) (name : String) (expanded dependent : Bool) (key : RefKey)
    (ids : List Nat) : Arena :=
  { a with
    shared := (key, ids) :: a.shared
    linking := if dependent then ⟨name, expanded, ids⟩ :: a.linking else a.linking }

/-- The arena when a reference is linked. -/
def Arena.release (a : Arena) (dependent : Bool) : Arena :=
  { a with linking := if dependent then a.linking.tail else a.linking }

/-- Prepares modes, notes them, links them and takes the note back. -/
def compileModes (g : Grammar) (next : Resolver) (modes : List Mode) (parentEnd : Option String)
    (note : List Nat → Arena → Arena) (release : Arena → Arena) : Build (List Nat) := do
  let ids ← prepareAll g modes parentEnd
  modify (note ids)
  linkAll g next ids modes parentEnd
  modify release
  return ids

/-- Compiling the modes of a reference is preparing and linking them. -/
theorem compileModes_eq_ok {g : Grammar} {next : Resolver} {modes : List Mode}
    {parentEnd : Option String} {note : List Nat → Arena → Arena} {release : Arena → Arena}
    {a a' : Arena} {ids : List Nat} :
    compileModes g next modes parentEnd note release a = .ok (ids, a') ↔
      ∃ a₁ a₂, prepareAll g modes parentEnd a = .ok (ids, a₁) ∧
        linkAll g next ids modes parentEnd (note ids a₁) = .ok ((), a₂) ∧ release a₂ = a' := by
  unfold compileModes
  constructor
  · intro h
    obtain ⟨ids', a₁, hprepare, h⟩ := build_bind_eq_ok.mp h
    obtain ⟨_, a₂, hnote, h⟩ := build_bind_eq_ok.mp h
    obtain ⟨_, a₃, hlink, h⟩ := build_bind_eq_ok.mp h
    obtain ⟨_, a₄, hrelease, h⟩ := build_bind_eq_ok.mp h
    cases hnote
    cases hrelease
    cases h
    exact ⟨a₁, a₃, hprepare, hlink, rfl⟩
  · rintro ⟨a₁, a₂, hprepare, hlink, rfl⟩
    refine build_bind_eq_ok.mpr ⟨ids, a₁, hprepare, ?_⟩
    refine build_bind_eq_ok.mpr ⟨(), note ids a₁, rfl, ?_⟩
    exact build_bind_eq_ok.mpr ⟨(), a₂, hlink, rfl⟩

/-- How a reference is resolved when `next` resolves what it contains. -/
def resolveWith (g : Grammar) (next : Resolver) : Resolver
  | .inline m, _, parentEnd, expanded =>
    compileModes g next (m.instances expanded) parentEnd (fun _ a => a) id
  | .named name, current, parentEnd, expanded => fun a =>
    match a.known g name current parentEnd expanded with
    | .ids ids => .ok (ids, a)
    | .missing => .error (.unknownMode name)
    | .fresh m dependent key =>
      compileModes g next (m.instances expanded) parentEnd
        (fun ids a => a.note name expanded dependent key ids) (·.release dependent) a

theorem resolve_zero (g : Grammar) (reference : ModeRef) (current : Nat)
    (parentEnd : Option String) (expanded : Bool) (a : Arena) :
    resolve g 0 reference current parentEnd expanded a = .error .tooDeep := rfl

theorem resolve_succ (g : Grammar) (depth : Nat) (reference : ModeRef) (current : Nat)
    (parentEnd : Option String) (expanded : Bool) (a : Arena) :
    resolve g (depth + 1) reference current parentEnd expanded a =
      resolveWith g (resolve g depth) reference current parentEnd expanded a := by
  cases reference with
  | inline m => rfl
  | named name =>
    unfold resolve resolveWith Arena.known
    by_cases hself : name = selfName
    · simp only [hself, if_true]
      rfl
    · simp only [hself, if_false]
      rcases hl : g.lookup? name with _ | m
      · rfl
      · have hget : ∀ f : Arena → Build (List Nat), (get >>= f) a = f a a := fun _ => rfl
        simp only [hget, refKey]
        -- Both sides choose alike, and where the modes are compiled they agree
        -- link by link.
        cases hd : g.dependsOnParent m
        · simp only [Bool.false_eq_true, if_false]
          rcases hs : a.shared.lookup _ with _ | ids
          · refine build_bind_congr fun ids a₁ _ => ?_
            refine build_bind_congr fun _ a₂ _ => ?_
            exact build_bind_congr fun _ a₃ _ => rfl
          · rfl
        · simp only [if_true]
          rcases he : a.enclosing? name expanded parentEnd with _ | ids
          · rcases hs : a.shared.lookup _ with _ | ids
            · exact build_bind_congr fun ids a₁ _ => rfl
            · rfl
          · rfl

/-- A name that is resolved was known, or its modes are compiled. -/
theorem resolve_named_ok {g : Grammar} {depth : Nat} {name : String} {current : Nat}
    {parentEnd : Option String} {expanded : Bool} {a a' : Arena} {ids : List Nat}
    (h : resolve g (depth + 1) (.named name) current parentEnd expanded a = .ok (ids, a')) :
    (a.known g name current parentEnd expanded = .ids ids ∧ a' = a) ∨
      ∃ m dependent key, a.known g name current parentEnd expanded = .fresh m dependent key ∧
        compileModes g (resolve g depth) (m.instances expanded) parentEnd
          (fun ids a => a.note name expanded dependent key ids) (·.release dependent) a =
            .ok (ids, a') := by
  rw [resolve_succ] at h
  unfold resolveWith at h
  simp only at h
  rcases hknown : a.known g name current parentEnd expanded with found | _ | ⟨m, dependent, key⟩
  · rw [hknown] at h
    cases h
    exact .inl ⟨rfl, rfl⟩
  · rw [hknown] at h
    cases h
  · rw [hknown] at h
    exact .inr ⟨m, dependent, key, rfl, h⟩

end Highlighting
