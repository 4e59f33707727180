-- Scans of one text with one language and different hosts. A scan sees its host
-- only through the answers about what the language embeds. Where two hosts answer
-- alike the scans take the same steps, and the trees that they build are alike.
--
-- What it means for trees to be alike is left open: it is a relation that every
-- operation of a builder keeps. In place of one host there can be a family of
-- them. A scan asks finitely many questions, so it is enough that each question
-- is answered alike by almost all of the family. Limits may stop the one scan where
-- the other goes on: what comes out within limits is what comes out without.
import Mathlib.Order.Filter.Map
import Highlighting.Proofs.Limits
import Highlighting.Proofs.ScanControl

namespace Highlighting.Scan

/-! ## Alike trees -/

/-- Which trees that are built with one lead are alike to which that are built with another,
and which nodes. Languages are embedded under names of some kind. -/
structure Likeness (lead lead' : String) where
  trees : Tree.Builder → Tree.Builder → Prop
  nodes : List Node → List Node → Prop
  named : String → Prop
  start : trees (.start lead) (.start lead')
  addText : ∀ {b b' : Tree.Builder} (value : String), trees b b' →
    trees (b.addText value) (b'.addText value)
  addKeyword : ∀ {b b' : Tree.Builder} (className lexeme : String), trees b b' →
    trees (b.addKeyword className lexeme) (b'.addKeyword className lexeme)
  openElement : ∀ {b b' : Tree.Builder} (className : String), trees b b' →
    trees (b.openElement className) (b'.openElement className)
  close : ∀ {b b' : Tree.Builder}, trees b b' → trees b.close b'.close
  addEmbedded : ∀ {b b' : Tree.Builder} {ns ns' : List Node} (name : String), trees b b' →
    named name → nodes ns ns' → trees (b.addEmbedded name ns) (b'.addEmbedded name ns')
  finish : ∀ {b b' : Tree.Builder}, trees b b' → nodes b.finish b'.finish
  /-- Limits may stop the first of two computations. -/
  mayStop : Prop

namespace Likeness

/-- Nothing is alike but what is the same. -/
def same (lead : String) : Likeness lead lead where
  mayStop := False
  trees b b' := b = b'
  nodes ns ns' := ns = ns'
  named _ := True
  start := rfl
  addText value h := by rw [h]
  addKeyword className lexeme h := by rw [h]
  openElement className h := by rw [h]
  close h := by rw [h]
  addEmbedded name h _ hns := by rw [h, hns]
  finish h := by rw [h]

/-- Nothing is alike but what is the same, as far as limits let it come out. -/
def sameUpToLimits (lead : String) : Likeness lead lead := { same lead with mayStop := True }

variable {lead lead' : String} (L : Likeness lead lead')

/-- Two computations go the same way: they fail with the same error, or their results are
related, or a limit stops the first one where it may. -/
inductive Way {α β : Type} (S : α → β → Prop) : Except HighlightError α → Except HighlightError β → Prop
  | error (e : HighlightError) : Way S (.error e) (.error e)
  | ok {a : α} {b : β} (h : S a b) : Way S (.ok a) (.ok b)
  | stopped (hmay : L.mayStop) {e : HighlightError} (he : e.OfLimits) (y : Except HighlightError β) :
      Way S (.error e) y

theorem nodes_nil : L.nodes [] [] := L.finish L.start

theorem nodes_plain (text : String) : L.nodes (Node.plain text) (Node.plain text) :=
  L.finish (L.addText text L.start)

/-- States that differ only in their trees, which are alike. -/
inductive States : State → State → Prop
  | intro (s : State) {tree : Tree.Builder} (h : L.trees s.tree tree) :
      States s { s with tree }

/-- What two steps lead to is alike. -/
inductive Outcomes : Outcome → Outcome → Prop
  | next {s s' : State} (h : L.States s s') : Outcomes (.next s) (.next s')
  | done {s s' : State} (h : L.States s s') : Outcomes (.done s) (.done s')

/-- What two scans give is alike. -/
structure Scans (r r' : Scanned) : Prop where
  nodes : L.nodes r.nodes r'.nodes
  relevance : r.relevance = r'.relevance
  continuation : r.continuation = r'.continuation

/-- What is embedded is alike. -/
structure Parts (e e' : Embedded) : Prop where
  nodes : L.nodes e.nodes e'.nodes
  relevance : e.relevance = e'.relevance
  continuation : e.continuation = e'.continuation

/-- What is detected has the same name and is alike. -/
structure Found (p p' : String × Embedded) : Prop where
  name : p.1 = p'.1
  named : L.named p'.1
  part : L.Parts p.2 p'.2

/-- Almost all of the hosts answer alike what is asked about an embedded language. -/
def Answers {ι : Type} (F : Filter ι) (hosts : ι → Host) (host : Host) : SubLanguage → Prop
  | .name name => (∀ᶠ i in F, (hosts i).isRegistered name = host.isRegistered name) ∧
      (host.isRegistered name = true → L.named name ∧ ∀ text resume, ∀ᶠ i in F,
        L.Way L.Parts ((hosts i).embed name text resume) (host.embed name text resume))
  | .candidates names => ∀ text, ∀ᶠ i in F,
      L.Way (Option.Rel L.Found) ((hosts i).detect names text) (host.detect names text)

/-- Almost all of the hosts answer alike what a language asks them. -/
inductive Hosts {ι : Type} (F : Filter ι) (l : CompiledLanguage) :
    (ι → Option Host) → Option Host → Prop
  | none : Hosts F l (fun _ => none) none
  | some {hosts : ι → Host} {host : Host}
      (h : ∀ m ∈ l.modes, ∀ sub, m.dispatch = .embedded sub → L.Answers F hosts host sub) :
      Hosts F l (fun i => some (hosts i)) (some host)

/-! ### Computations one after the other -/

namespace Way

variable {L : Likeness lead lead'}

theorem bind {α β α' β' : Type} {S : α → β → Prop} {T : α' → β' → Prop}
    {x : Except HighlightError α} {y : Except HighlightError β} {f : α → Except HighlightError α'}
    {f' : β → Except HighlightError β'} (h : L.Way S x y)
    (hf : ∀ a b, S a b → L.Way T (f a) (f' b)) : L.Way T (x >>= f) (y >>= f') := by
  cases h with
  | error e => exact .error e
  | ok h => exact hf _ _ h
  | stopped hmay he => exact .stopped hmay he _

theorem foldlM {α β γ : Type} {S : α → β → Prop} {f : α → γ → Except HighlightError α}
    {f' : β → γ → Except HighlightError β} {xs : List γ}
    (hf : ∀ x ∈ xs, ∀ a b, S a b → L.Way S (f a x) (f' b x)) {a : α} {b : β} (h : S a b) :
    L.Way S (xs.foldlM f a) (xs.foldlM f' b) := by
  induction xs generalizing a b with
  | nil => exact .ok h
  | cons x xs ih =>
    rw [List.foldlM_cons, List.foldlM_cons]
    refine (hf x List.mem_cons_self a b h).bind fun a' b' h' => ?_
    exact ih (fun y hy => hf y (List.mem_cons_of_mem x hy)) h'

theorem map {α β α' β' : Type} {S : α → β → Prop} {T : α' → β' → Prop}
    {x : Except HighlightError α} {y : Except HighlightError β} {f : α → α'} {f' : β → β'}
    (h : L.Way S x y) (hf : ∀ a b, S a b → T (f a) (f' b)) : L.Way T (x.map f) (y.map f') := by
  cases h with
  | error e => exact .error e
  | ok h => exact .ok (hf _ _ h)
  | stopped hmay he => exact .stopped hmay he _

theorem refl {α : Type} {S : α → α → Prop} (hS : ∀ a, S a a) (x : Except HighlightError α) :
    L.Way S x x := by
  rcases x with e | a
  · exact .error e
  · exact .ok (hS a)

/-- Where limits may not stop the first computation, both fail alike. -/
theorem sameWay {α β : Type} {S : α → β → Prop} {x : Except HighlightError α}
    {y : Except HighlightError β} (h : L.Way S x y) (hnever : ¬ L.mayStop) : SameWay S x y := by
  cases h with
  | error e => exact .error e
  | ok h => exact .ok h
  | stopped hmay => exact absurd hmay hnever

/-- What is not that of a limit is what comes out on the other side. -/
theorem eq_of_not_ofLimits {α : Type} {S : α → α → Prop} (hS : ∀ a b, S a b → a = b)
    {x y : Except HighlightError α} (h : L.Way S x y) (hx : ∀ e, x = .error e → ¬ e.OfLimits) :
    y = x := by
  cases h with
  | error e => rfl
  | ok h => rw [hS _ _ h]
  | stopped _ he => exact absurd he (hx _ rfl)

end Way

end Likeness

/-- The context with another host. -/
def Context.hostedBy (c : Context) (host : Option Host) : Context := { c with host }

variable {lead lead' : String} {L : Likeness lead lead'} {s s' : State}

/-! ## Steps that ask nothing -/

namespace Likeness.States

theorem tree (h : L.States s s') : L.trees s.tree s'.tree := by
  cases h with
  | intro h => exact h

theorem cursor (h : L.States s s') : s.cursor = s'.cursor := by
  cases h with
  | intro _ => rfl

theorem frames (h : L.States s s') : s.frames = s'.frames := by
  cases h with
  | intro _ => rfl

theorem buffer (h : L.States s s') : s.buffer = s'.buffer := by
  cases h with
  | intro _ => rfl

theorem relevance (h : L.States s s') : s.relevance = s'.relevance := by
  cases h with
  | intro _ => rfl

theorem isDegenerate (h : L.States s s') (t : Terminator) :
    s.isDegenerate t = s'.isDegenerate t := by
  cases h with
  | intro _ => rfl

theorem top? (h : L.States s s') (c : Context) (host : Option Host) :
    s.top? (c.hostedBy host) = s'.top? c := by
  cases h with
  | intro _ => rfl

theorem nextTerminator? (h : L.States s s') (c : Context) (host : Option Host) :
    s.nextTerminator? (c.hostedBy host) = s'.nextTerminator? c := by
  cases h with
  | intro _ => rfl

theorem clear (h : L.States s s') :
    L.States { s with buffer := "" } { s' with buffer := "" } := by
  cases h with
  | intro h => exact .intro { s with buffer := "" } h

theorem push (h : L.States s s') (text : String) : L.States (s.push text) (s'.push text) := by
  cases h with
  | intro h => exact .intro (s.push text) h

theorem score (h : L.States s s') (n : Nat) : L.States (s.score n) (s'.score n) := by
  cases h with
  | intro h => exact .intro (s.score n) h

theorem note (h : L.States s s') (t : Terminator) : L.States (s.note t) (s'.note t) := by
  cases h with
  | intro h => exact .intro (s.note t) h

theorem moveTo (h : L.States s s') (pos : Nat) :
    L.States { s with cursor := pos } { s' with cursor := pos } := by
  cases h with
  | intro h => exact .intro { s with cursor := pos } h

theorem emit (h : L.States s s') (p : Piece) : L.States (s.emit p) (s'.emit p) := by
  cases h with
  | intro h =>
    cases p with
    | text value => exact .intro (s.emit (.text value)) (L.addText value h)
    | keyword k lexeme =>
      exact .intro (s.emit (.keyword k lexeme)) (L.addKeyword k.className lexeme h)

theorem emitAll (h : L.States s s') (ps : List Piece) :
    L.States (ps.foldl State.emit s) (ps.foldl State.emit s') := by
  induction ps generalizing s s' with
  | nil => exact h
  | cons p ps ih => exact ih (h.emit p)

theorem embed (h : L.States s s') {name : String} (hname : L.named name) (weight : Nat)
    {e e' : Embedded} (he : L.Parts e e') :
    L.States (s.embed name weight e) (s'.embed name weight e') := by
  have hscore : L.States (if weight = 0 then s else s.score e.relevance)
      (if weight = 0 then s' else s'.score e.relevance) := by
    split
    · exact h
    · exact h.score e.relevance
  unfold State.embed
  rw [← he.relevance]
  generalize (if weight = 0 then s else s.score e.relevance) = s₁ at hscore ⊢
  generalize (if weight = 0 then s' else s'.score e.relevance) = s₁' at hscore ⊢
  cases hscore with
  | intro htree =>
    exact .intro { s₁ with tree := s₁.tree.addEmbedded name e.nodes }
      (L.addEmbedded name htree hname he.nodes)

end Likeness.States

section

variable {c : Context} {host : Option Host}

theorem enter_alike (h : L.States s s') (id : Nat) (bound : Option Pattern) :
    L.States (s.enter (c.hostedBy host) id bound) (s'.enter c id bound) := by
  cases h with
  | intro h =>
    unfold State.enter Context.hostedBy
    simp only
    rcases (c.language.mode? id).bind CompiledMode.className with _ | className
    · exact .intro { s with frames := _ } h
    · exact .intro { s with tree := _, frames := _ } (L.openElement className h)

theorem leave_alike (h : L.States s s') : L.States (s.leave (c.hostedBy host)) (s'.leave c) := by
  have hmode : ∀ f, (c.hostedBy host).modeOf? f = c.modeOf? f := fun _ => rfl
  cases h with
  | @intro tree' h =>
    rcases s with ⟨cursor, frames, buffer, tree, relevance, continuations, last⟩
    rcases frames with _ | ⟨f, frames⟩
    · exact .intro _ h
    · have hclosed : L.trees (if f.opened then tree.close else tree)
          (if f.opened then tree'.close else tree') := by
        split
        · exact L.close h
        · exact h
      have hleft := Likeness.States.intro
        ⟨cursor, frames, buffer, _, relevance, continuations, last⟩ hclosed
      unfold State.leave
      simp only [hmode]
      rcases c.modeOf? f with _ | m
      · exact hleft
      · simp only
        split
        · exact hleft
        · exact hleft.score m.relevance

theorem leaveAll_alike (h : L.States s s') (n : Nat) :
    L.States (s.leaveAll (c.hostedBy host) n) (s'.leaveAll c n) := by
  induction n generalizing s s' with
  | zero => exact h
  | succ n ih => exact ih (leave_alike h)

theorem follow_alike (h : L.States s s') (closed : Option Frame) :
    L.States (s.follow (c.hostedBy host) closed) (s'.follow c closed) := by
  have hcontinuation : continuation? (c.hostedBy host) = continuation? c := rfl
  unfold State.follow
  rw [hcontinuation]
  rcases closed.bind (continuation? c) with _ | ⟨next, bound⟩
  · exact h
  · exact enter_alike h next bound

theorem forceChar_alike (h : L.States s s') (pos : Nat) :
    L.Outcomes (s.forceChar (c.hostedBy host) pos) (s'.forceChar c pos) := by
  unfold State.forceChar Context.hostedBy
  simp only
  rcases c.text[pos]? with _ | ch
  · exact .done (h.moveTo _)
  · exact .next ((h.push _).moveTo _)

theorem asText_alike (h : L.States s s') (t : Terminator) :
    L.Outcomes (s.asText (c.hostedBy host) t) (s'.asText c t) := by
  unfold State.asText
  split
  · exact .next ((h.push _).moveTo _)
  · exact forceChar_alike h _

end

/-! ## Bounds on the steps -/

section

variable {c : Context}

/-- The bounds on the steps of two scans go together: they are the same, or the second scan ends
within its own and within that of the first, or the first bound is the smaller one and may stop
the scan. -/
def Likeness.Bounds (L : Likeness lead lead') (c : Context) (s' : State) (m n : Nat) : Prop :=
  m = n ∨ n ≤ m ∧ s'.after c n = none ∨ m ≤ n ∧ L.mayStop

theorem Likeness.Bounds.step {s₁' : State} {m n : Nat} (h : L.Bounds c s' m (n + 1))
    (hstep : s'.step c = .ok (.next s₁')) : L.Bounds c s₁' (m - 1) n := by
  rcases h with h | ⟨hle, hnone⟩ | ⟨hle, hmay⟩
  · exact .inl (by omega)
  · exact .inr (.inl ⟨by omega, (after_of_step hstep n).symm.trans hnone⟩)
  · exact .inr (.inr ⟨by omega, hmay⟩)

/-- A scan that may take no step is stopped at once, or the other may take none either. -/
theorem Likeness.Bounds.way_zero {n : Nat} (h : L.Bounds c s' 0 n)
    (y : Except HighlightError State) (hy : n = 0 → y = .error .stepLimit) :
    L.Way L.States (.error .stepLimit) y := by
  rcases h with h | ⟨hle, hnone⟩ | ⟨_, hmay⟩
  · rw [hy h.symm]
    exact .error _
  · rw [Nat.le_zero.mp hle] at hnone
    cases hnone
  · exact .stopped hmay (.inl rfl) y

end

/-! ## Steps that ask the host -/

section

variable {ι : Type} {F : Filter ι} {c : Context} {hosts : ι → Option Host}
  (hhosts : L.Hosts F c.language hosts c.host)

include hhosts

theorem flushEmbedded_alike (s' : State) {m : CompiledMode} (hm : m ∈ c.language.modes)
    {sub : SubLanguage} (hsub : m.dispatch = .embedded sub) (weight : Nat) (text : String) :
    ∀ᶠ i in F, ∀ s, L.States s s' →
      L.Way L.States (s.flushEmbedded (c.hostedBy (hosts i)) sub weight text)
        (s'.flushEmbedded c sub weight text) := by
  have hplain : ∀ s, L.States s s' → L.States { s with tree := s.tree.addText text }
      { s' with tree := s'.tree.addText text } := fun s h => h.emit (.text text)
  unfold State.flushEmbedded Context.hostedBy
  generalize c.host = host at hhosts
  cases hhosts with
  | none => exact .of_forall fun i s h => .ok (hplain s h)
  | @some hosts host h =>
    have hanswers := h m hm sub hsub
    cases sub with
    | name name =>
      obtain ⟨hregistered, hembed⟩ := hanswers
      by_cases hname : host.isRegistered name = true
      · obtain ⟨hnamed, hembed⟩ := hembed hname
        filter_upwards [hregistered, hembed text (s'.continuations.lookup name)] with i hi hparts s hs
        simp only [hi, hname, if_true]
        cases hs with
        | intro htree =>
          refine Likeness.Way.bind hparts fun e e' he => .ok ?_
          rw [he.continuation]
          refine Likeness.States.embed ?_ hnamed weight he
          exact .intro { s with continuations := _ } htree
      · filter_upwards [hregistered] with i hi s hs
        simp only [hi, hname]
        exact .ok (hplain s hs)
    | candidates names =>
      filter_upwards [hanswers text] with i hi s hs
      refine Likeness.Way.bind hi fun o o' ho => ?_
      cases ho with
      | none => exact .ok (hplain s hs)
      | @some p p' hp =>
        obtain ⟨name, e⟩ := p
        obtain ⟨name', e'⟩ := p'
        obtain ⟨hname, hnamed, hparts⟩ := hp
        cases hname
        exact .ok (hs.embed hnamed weight hparts)

theorem flush_alike (s' : State) :
    ∀ᶠ i in F, ∀ s, L.States s s' →
      L.Way L.States (s.flush (c.hostedBy (hosts i))) (s'.flush c) := by
  unfold State.flush
  rcases hm : ({ s' with buffer := "" } : State).top? c with _ | m
  · refine .of_forall fun i s h => ?_
    simp only [h.clear.top? c (hosts i), hm, h.buffer]
    exact .ok (h.clear.emit (.text s'.buffer))
  · rcases hdispatch : m.dispatch with _ | ⟨table, lexemes⟩ | sub
    · refine .of_forall fun i s h => ?_
      simp only [h.clear.top? c (hosts i), hm, hdispatch, h.buffer]
      exact .ok (h.clear.emit (.text s'.buffer))
    · refine .of_forall fun i s h => ?_
      simp only [h.clear.top? c (hosts i), hm, hdispatch, h.buffer]
      exact .ok (h.clear.emitAll _)
    · have hasked := flushEmbedded_alike hhosts { s' with buffer := "" } (top?_mem hm) hdispatch
        m.relevance s'.buffer
      filter_upwards [hasked] with i hi s h
      simp only [h.clear.top? c (hosts i), hm, hdispatch, h.buffer]
      split
      · exact .ok h.clear
      · exact hi _ h.clear

theorem takeBegin_alike (s' : State) (m : CompiledMode) (lexeme : String) :
    ∀ᶠ i in F, ∀ s, L.States s s' →
      L.Way L.States (s.takeBegin (c.hostedBy (hosts i)) m lexeme) (s'.takeBegin c m lexeme) := by
  filter_upwards [flush_alike hhosts s', flush_alike hhosts (s'.push lexeme)] with i hflush hpush s h
  unfold State.takeBegin
  split
  · exact .ok (h.push lexeme)
  · refine Likeness.Way.bind (S := L.States) ?_ fun s₁ s₁' h₁ => ?_
    · split
      · exact hpush _ (h.push lexeme)
      · exact hflush _ h
    · split
      · exact .ok h₁
      · exact .ok (h₁.push lexeme)

theorem takeEnd_alike (s' : State) (m : CompiledMode) (lexeme : String) :
    ∀ᶠ i in F, ∀ s, L.States s s' →
      L.Way L.States (s.takeEnd (c.hostedBy (hosts i)) m lexeme) (s'.takeEnd c m lexeme) := by
  filter_upwards [flush_alike hhosts s', flush_alike hhosts (s'.push lexeme)] with i hflush hpush s h
  unfold State.takeEnd
  split
  · exact .ok (h.push lexeme)
  · refine Likeness.Way.bind (S := L.States) ?_ fun s₁ s₁' h₁ => ?_
    · split
      · exact hflush _ h
      · exact hpush _ (h.push lexeme)
    · split
      · exact .ok (h₁.push lexeme)
      · exact .ok h₁

theorem beginMode_alike (s' : State) (id : Nat) (t : Terminator) :
    ∀ᶠ i in F, ∀ s, L.States s s' →
      L.Way L.States (s.beginMode (c.hostedBy (hosts i)) id t) (s'.beginMode c id t) := by
  have hlanguage : ∀ i, (c.hostedBy (hosts i)).language = c.language := fun _ => rfl
  rcases hm : c.language.mode? id with _ | m
  · refine .of_forall fun i s h => ?_
    unfold State.beginMode
    rw [hlanguage, hm]
    exact .ok h
  · have hslice : ∀ i, (c.hostedBy (hosts i)).slice = c.slice := fun _ => rfl
    have hcase : ∀ i, (c.hostedBy (hosts i)).language.caseInsensitive = c.language.caseInsensitive :=
      fun _ => rfl
    filter_upwards [takeBegin_alike hhosts s' m (c.slice t.start t.stop)] with i hi s h
    rw [beginMode_eq s (c.hostedBy (hosts i)) id t m hm, beginMode_eq s' c id t m hm, hslice,
      boundEnd_congr (hcase i)]
    refine Likeness.Way.bind (.refl (fun _ => rfl) _) ?_
    rintro bound _ rfl
    refine Likeness.Way.bind (hi s h) fun s₁ s₁' h₁ => .ok ?_
    exact (enter_alike h₁ id bound).moveTo _

theorem endModes_alike (s' : State) (n : Nat) (t : Terminator) :
    ∀ᶠ i in F, ∀ s, L.States s s' →
      L.Way L.States (s.endModes (c.hostedBy (hosts i)) n t) (s'.endModes c n t) := by
  rcases hm : s'.top? c with _ | m
  · refine .of_forall fun i s h => ?_
    unfold State.endModes
    rw [h.top?, hm]
    exact .ok h
  · have hslice : ∀ i, (c.hostedBy (hosts i)).slice = c.slice := fun _ => rfl
    filter_upwards [takeEnd_alike hhosts s' m (c.slice t.start t.stop)] with i hi s h
    rw [endModes_eq s (c.hostedBy (hosts i)) n t m ((h.top? c _).trans hm), endModes_eq s' c n t m hm,
      hslice, State.lastClosed?, h.frames]
    refine Likeness.Way.bind (hi s h) fun s₁ s₁' h₁ => .ok ?_
    exact (follow_alike (leaveAll_alike h₁ n) _).moveTo _

theorem handle_alike (s' : State) (t : Terminator) :
    ∀ᶠ i in F, ∀ s, L.States s s' →
      L.Way L.Outcomes (s.handle (c.hostedBy (hosts i)) t) (s'.handle c t) := by
  have hreach : ∀ {s} i, L.States s s' →
      L.States (s.reach (c.hostedBy (hosts i)) t) (s'.reach c t) := by
    intro s i h
    unfold State.reach
    rw [h.cursor]
    exact h.push _
  have hclosed : ∀ i pos frames, closedBy? (c.hostedBy (hosts i)) pos frames = closedBy? c pos frames :=
    fun i => closedBy?_congr (show (c.hostedBy (hosts i)).language = c.language from rfl) rfl
  let noted := (s'.reach c t).note t
  have hbegin : ∀ᶠ i in F, ∀ id, t.rule = .begins id → ∀ s, L.States s noted →
      L.Way L.States (s.beginMode (c.hostedBy (hosts i)) id t) (noted.beginMode c id t) := by
    rcases t.rule with id | _ | _
    · filter_upwards [beginMode_alike hhosts noted id t] with i hi id' hid'
      cases hid'
      exact hi
    · exact .of_forall fun i id hid => nomatch hid
    · exact .of_forall fun i id hid => nomatch hid
  have hend : ∀ᶠ i in F, ∀ n, closedBy? c t.start noted.frames = some n → ∀ s, L.States s noted →
      L.Way L.States (s.endModes (c.hostedBy (hosts i)) n t) (noted.endModes c n t) := by
    rcases closedBy? c t.start noted.frames with _ | n
    · exact .of_forall fun i n hn => nomatch hn
    · filter_upwards [endModes_alike hhosts noted n t] with i hi n' hn'
      cases hn'
      exact hi
  filter_upwards [hbegin, hend] with i hbegin hend s h
  have hnoted := (hreach i h).note t
  have hslice : (c.hostedBy (hosts i)).slice = c.slice := rfl
  have hillegals : (c.hostedBy (hosts i)).illegals = c.illegals := rfl
  rw [handle_eq, handle_eq, (hreach i h).isDegenerate]
  split
  · exact .ok (forceChar_alike (hreach i h) t.start)
  · split
    · rename_i id hrule
      exact Likeness.Way.bind (hbegin id hrule _ hnoted) fun _ _ h' => .ok (.next h')
    · rw [hclosed, hnoted.frames]
      split
      · rename_i n hn
        exact Likeness.Way.bind (hend n hn _ hnoted) fun _ _ h' => .ok (.next h')
      · exact .ok (asText_alike hnoted t)
    · rw [hillegals, hslice, hnoted.top?]
      split
      · exact .ok (asText_alike hnoted t)
      · exact .error _

theorem step_alike (s' : State) :
    ∀ᶠ i in F, ∀ s, L.States s s' →
      L.Way L.Outcomes (s.step (c.hostedBy (hosts i))) (s'.step c) := by
  unfold State.step
  rcases ht : s'.nextTerminator? c with _ | t
  · refine .of_forall fun i s h => ?_
    rw [h.nextTerminator?, ht]
    exact .ok (.done h)
  · filter_upwards [handle_alike hhosts s' t] with i hi s h
    rw [h.nextTerminator?, ht]
    exact hi s h

/-! ## Whole scans -/

theorem run_alike (n : Nat) (s' : State) (steps : ι → Nat)
    (hsteps : ∀ᶠ i in F, L.Bounds c s' (steps i) n) :
    ∀ᶠ i in F, ∀ s, L.States s s' →
      L.Way L.States (State.run (c.hostedBy (hosts i)) (steps i) s) (State.run c n s') := by
  induction n generalizing s' steps with
  | zero =>
    filter_upwards [hsteps] with i hi s _
    rcases hm : steps i with _ | m
    · exact .error .stepLimit
    · rcases hi with hi | ⟨_, hi⟩ | ⟨hi, _⟩
      · omega
      · cases hi
      · omega
  | succ n ih =>
    have hgoesOn : ∀ᶠ i in F, ∀ s₁', s'.step c = .ok (.next s₁') → ∀ s₁, L.States s₁ s₁' →
        L.Way L.States (State.run (c.hostedBy (hosts i)) (steps i - 1) s₁) (State.run c n s₁') := by
      rcases hstep : s'.step c with e | s₁' | s₁'
      · exact .of_forall fun i s₁' h => nomatch h
      · filter_upwards [ih s₁' (fun i => steps i - 1) (hsteps.mono fun i hi => hi.step hstep)]
          with i hi s₂' hs₂'
        cases hs₂'
        exact hi
      · exact .of_forall fun i s₁' h => nomatch h
    filter_upwards [hsteps, step_alike hhosts s', hgoesOn] with i hbounds hstep hgoesOn s h
    rcases hm : steps i with _ | m
    · rw [hm] at hbounds
      exact hbounds.way_zero _ fun hn => nomatch hn
    · rw [hm, Nat.add_sub_cancel] at hgoesOn
      rw [State.run, State.run]
      have hway := hstep s h
      generalize hleft : s.step (c.hostedBy (hosts i)) = x at hway ⊢
      generalize hright : s'.step c = y at hway hgoesOn ⊢
      cases hway with
      | error e => exact .error e
      | stopped hmay he => exact .stopped hmay he _
      | ok ho =>
        cases ho with
        | next h₁ => exact hgoesOn _ rfl _ h₁
        | done h₁ => exact .ok h₁

theorem finish_alike (s' : State) :
    ∀ᶠ i in F, ∀ s, L.States s s' →
      L.Way L.Scans (s.finish (c.hostedBy (hosts i))) (s'.finish c) := by
  filter_upwards [flush_alike hhosts (s'.push (c.slice s'.cursor c.text.size))] with i hi s h
  have hslice : (c.hostedBy (hosts i)).slice = c.slice := rfl
  have htext : (c.hostedBy (hosts i)).text = c.text := rfl
  unfold State.finish
  rw [h.cursor, hslice, htext]
  refine Likeness.Way.bind (hi _ (h.push _)) fun s₁ s₁' h₁ => .ok ?_
  simp only [h₁.frames]
  have hclosed : L.States (s₁.leaveAll (c.hostedBy (hosts i)) (s₁'.frames.length - 1))
      (s₁'.leaveAll c (s₁'.frames.length - 1)) := leaveAll_alike h₁ _
  exact ⟨L.finish hclosed.tree, hclosed.relevance, rfl⟩

/-- Almost all hosts that answer alike give a scan that is alike. -/
theorem scanWithin_alike (n : Nat) (resume : Option Continuation) (steps : ι → Nat)
    (hsteps : ∀ᶠ i in F, L.Bounds c (startState lead' resume) (steps i) n) :
    ∀ᶠ i in F, L.Way L.Scans (scanWithin (steps i) (c.hostedBy (hosts i)) lead resume)
      (scanWithin n c lead' resume) := by
  have hstart : L.States (startState lead resume) (startState lead' resume) :=
    .intro (startState lead resume) L.start
  have hfinish : ∀ᶠ i in F, ∀ s', State.run c n (startState lead' resume) = .ok s' →
      ∀ s, L.States s s' → L.Way L.Scans (s.finish (c.hostedBy (hosts i))) (s'.finish c) := by
    rcases State.run c n (startState lead' resume) with e | s'
    · exact .of_forall fun i s' h => nomatch h
    · filter_upwards [finish_alike hhosts s'] with i hi s₁' hs₁'
      cases hs₁'
      exact hi
  filter_upwards [run_alike hhosts n (startState lead' resume) steps hsteps, hfinish] with i hrun hfinish
  have hempty : (c.hostedBy (hosts i)).text = c.text := rfl
  unfold scanWithin scanBy
  simp only [hempty]
  split
  · exact .ok ⟨L.nodes_nil, rfl, rfl⟩
  · have hway := hrun _ hstart
    unfold startState at hway hfinish
    generalize State.run (c.hostedBy (hosts i)) (steps i) _ = x at hway ⊢
    generalize State.run c n _ = y at hway hfinish ⊢
    cases hway with
    | error e => exact .error e
    | stopped hmay he => exact .stopped hmay he _
    | ok h => exact hfinish _ rfl _ h

end

/-- Where only the same nodes are alike, alike scans are the same. -/
theorem Likeness.Scans.eq {r r' : Scanned} (h : L.Scans r r')
    (hnodes : ∀ ns ns', L.nodes ns ns' → ns = ns') : r = r' := by
  obtain ⟨nodes, relevance, continuation⟩ := r
  obtain ⟨hsame, hrelevance, hcontinuation⟩ := h
  cases hnodes _ _ hsame
  cases hrelevance
  cases hcontinuation
  rfl

end Highlighting.Scan

namespace Highlighting

open Scan (Likeness)

/-! ## Highlighting and detecting -/

namespace Scan.Likeness

variable {lead lead' : String} (L : Likeness lead lead')

/-- Results with alike nodes that are otherwise the same, also in the runner-up. Their
language is one that may be named. -/
inductive Results : Highlighted → Highlighted → Prop
  | alone (language : Option String) (relevance : Nat) {nodes nodes' : List Node} (illegal : Bool)
      (hnamed : ∀ name, language = some name → L.named name) (hnodes : L.nodes nodes nodes') :
      Results ⟨language, relevance, nodes, illegal, none⟩ ⟨language, relevance, nodes', illegal, none⟩
  | runnerUp (language : Option String) (relevance : Nat) {nodes nodes' : List Node} (illegal : Bool)
      {second second' : Highlighted} (hnamed : ∀ name, language = some name → L.named name)
      (hnodes : L.nodes nodes nodes') (hsecond : Results second second') :
      Results ⟨language, relevance, nodes, illegal, some second⟩
        ⟨language, relevance, nodes', illegal, some second'⟩

/-- The best two of either detection are alike. -/
structure Rankings (k k' : Ranking) : Prop where
  best : L.Results k.best k'.best
  second : L.Results k.second k'.second

variable {L}

theorem Results.language {h h' : Highlighted} (hh : L.Results h h') :
    h.language = h'.language ∧ ∀ name, h'.language = some name → L.named name := by
  cases hh with
  | alone _ _ _ hnamed _ => exact ⟨rfl, hnamed⟩
  | runnerUp _ _ _ hnamed _ _ => exact ⟨rfl, hnamed⟩

theorem Results.relevance {h h' : Highlighted} (hh : L.Results h h') :
    h.relevance = h'.relevance := by
  cases hh <;> rfl

theorem Results.nodes {h h' : Highlighted} (hh : L.Results h h') : L.nodes h.nodes h'.nodes := by
  cases hh <;> assumption

theorem Results.as {h h' : Highlighted} (hh : L.Results h h') {name : String} (hname : L.named name) :
    L.Results { h with language := some name } { h' with language := some name } := by
  have hnamed : ∀ other, some name = some other → L.named other := by
    rintro other ⟨⟩
    exact hname
  cases hh with
  | alone _ relevance illegal _ hnodes => exact .alone (some name) relevance illegal hnamed hnodes
  | runnerUp _ relevance illegal _ hnodes hsecond =>
    exact .runnerUp (some name) relevance illegal hnamed hnodes hsecond

/-- Where only the same nodes are alike, alike results are the same. -/
theorem Results.eq {h h' : Highlighted} (hh : L.Results h h')
    (hnodes : ∀ ns ns', L.nodes ns ns' → ns = ns') : h = h' := by
  induction hh with
  | alone language relevance illegal _ hsame =>
    cases hnodes _ _ hsame
    rfl
  | runnerUp language relevance illegal _ hsame _ ih =>
    cases hnodes _ _ hsame
    rw [ih]

theorem results_plain (text : String) : L.Results (.plain text) (.plain text) :=
  .alone none 0 false (fun _ h => nomatch h) (L.nodes_plain text)

theorem Rankings.add {k k' : Ranking} (hk : L.Rankings k k') {h h' : Highlighted}
    (hh : L.Results h h') : L.Rankings (k.add h) (k'.add h') := by
  unfold Ranking.add
  rw [hk.best.relevance, hk.second.relevance, hh.relevance]
  split
  · exact ⟨hh, hk.best⟩
  · split
    · exact ⟨hk.best, hh⟩
    · exact hk

theorem Rankings.result {k k' : Ranking} (hk : L.Rankings k k') : L.Results k.result k'.result := by
  unfold Ranking.result
  rw [hk.second.language.1]
  have hbest := hk.best
  split
  · generalize k.best = h at hbest ⊢
    generalize k'.best = h' at hbest ⊢
    cases hbest with
    | alone language relevance illegal hnamed hnodes =>
      exact .runnerUp language relevance illegal hnamed hnodes hk.second
    | runnerUp language relevance illegal hnamed hnodes _ =>
      exact .runnerUp language relevance illegal hnamed hnodes hk.second
  · exact hbest

/-- Two hosts answer alike. -/
abbrev HostsMatch (L : Likeness lead lead') (l : CompiledLanguage) (host host' : Option Scan.Host) :
    Prop := L.Hosts (pure ()) l (fun _ : Unit => host) host'

end Scan.Likeness

namespace Scan.Likeness

variable {lead lead' : String}

/-- Highlighting keeps to the same limits, or only the first of two computations keeps to some
and may be stopped by them. -/
def LimitsMatch (L : Likeness lead lead') (k k' : Option Limits) : Prop :=
  k = k' ∨ k' = none ∧ L.mayStop

/-- Results with their continuations, which are the same. -/
def Highlights (L : Likeness lead lead') (p p' : Highlighted × Option Scan.Continuation) : Prop :=
  L.Results p.1 p'.1 ∧ p.2 = p'.2

end Scan.Likeness

section

variable {lead lead' : String} {L : Likeness lead lead'} {k k' : Option Limits} {r r' : Registry}
  {host host' : Option Scan.Host}

theorem resultOf_alike {name : String} (hnamed : L.named name) (text : String)
    (illegals : Illegals) {x y : Except HighlightError Scan.Scanned} (h : L.Way L.Scans x y) :
    L.Way L.Highlights (resultOf name text illegals x) (resultOf name text illegals y) := by
  cases h with
  | error e =>
    unfold resultOf
    cases e with
    | illegal lexeme mode =>
      simp only
      split
      · exact .ok ⟨.alone none 0 true (fun _ h => nomatch h) (L.nodes_plain text), rfl⟩
      · exact .error _
    | unknownLanguage name => exact .error _
    | grammar e => exact .error _
    | stepLimit => exact .error _
  | @ok scanned scanned' h =>
    have hname : ∀ other, some name = some other → L.named other := by
      rintro other ⟨⟩
      exact hnamed
    unfold resultOf
    simp only [h.relevance, h.continuation]
    exact .ok ⟨.alone (some name) _ false hname h.nodes, rfl⟩
  | @stopped hmay e he y =>
    have hkept : resultOf name text illegals (.error e) = .error e := by
      cases e with
      | illegal lexeme mode => exact absurd he (not_ofLimits_illegal lexeme mode)
      | unknownLanguage name => rfl
      | grammar e => rfl
      | stepLimit => rfl
    rw [hkept]
    exact .stopped hmay he _

theorem scanUnder_match {c : Scan.Context} (h : L.HostsMatch c.language host c.host)
    {steps steps' : Option Nat} (hsteps : steps = steps' ∨ steps' = none ∧ L.mayStop)
    (resume : Option Scan.Continuation) :
    L.Way L.Scans (Scan.scanUnder steps (c.hostedBy host) lead resume)
      (Scan.scanUnder steps' c lead' resume) := by
  obtain ⟨n, hn⟩ := Scan.exists_scanWithin_from steps (c.hostedBy host) lead resume
  obtain ⟨n', hn'⟩ := Scan.exists_scanWithin_from steps' c lead' resume
  -- A number of steps that is enough for both scans, and not below the limit on the first.
  let m := max (max n n') (steps.getD 0)
  rw [hn m (by omega), hn' m (by omega)]
  refine Filter.eventually_pure.mp (Scan.scanWithin_alike h (steps'.getD m) resume
    (fun _ => steps.getD m) (.of_forall fun _ => ?_))
  rcases hsteps with rfl | ⟨rfl, hmay⟩
  · exact .inl rfl
  · refine .inr (.inr ⟨?_, hmay⟩)
    rcases steps with _ | limit
    · exact Nat.le_refl _
    · exact Nat.le_max_right _ _

/-- Highlighting as a language goes the same way where the name stands for the same language,
and the hosts answer alike what that language asks. -/
theorem highlightWithin_alike (hk : L.LimitsMatch k k') {name : String}
    (hname : r.resolve? name = r'.resolve? name)
    (hnamed : r'.isRegistered name = true → L.named name)
    (hhosts : ∀ language l, r'.resolve? name = some language →
      compileUnder k' language.grammar = .ok l → L.HostsMatch l host host')
    (text : String) (illegals : Illegals) (resume : Option Scan.Continuation) :
    L.Way L.Highlights (highlightWithin k r lead host name text illegals resume)
      (highlightWithin k' r' lead' host' name text illegals resume) := by
  rcases hlanguage : r'.resolve? name with _ | language
  · unfold highlightWithin
    rw [hname, hlanguage]
    exact .error _
  have hcompiled : compileUnder k language.grammar = compileUnder k' language.grammar ∨
      compileUnder k language.grammar = .error .tooDeep ∧ L.mayStop := by
    rcases hk with rfl | ⟨rfl, hmay⟩
    · exact .inl rfl
    · exact (compileUnder_tooDeep_or_eq k language.grammar).symm.imp id fun h => ⟨h, hmay⟩
  rcases hcompiled with hsame | ⟨hdeep, hmay⟩
  · rcases hl : compileUnder k' language.grammar with e | l
    · unfold highlightWithin
      simp only [hname, hlanguage, hsame, hl]
      exact .error _
    · rw [highlightWithin_eq (hname.trans hlanguage) (hsame.trans hl),
        highlightWithin_eq hlanguage hl]
      refine resultOf_alike (hnamed ?_) text illegals ?_
      · unfold Registry.isRegistered
        rw [hlanguage]
        rfl
      · refine scanUnder_match (c := ⟨host', l, text.toList.toArray, illegals⟩)
          (hhosts language l hlanguage hl) ?_ resume
        rcases hk with rfl | ⟨rfl, hmay⟩
        · exact .inl rfl
        · exact .inr ⟨rfl, hmay⟩
  · have hstopped : highlightWithin k r lead host name text illegals resume =
        .error (.grammar .tooDeep) := by
      unfold highlightWithin
      simp only [hname, hlanguage, hdeep]
    rw [hstopped]
    exact .stopped hmay (.inr rfl) _

/-- Detection goes the same way where highlighting as each candidate does. -/
theorem detectWithin_alike {candidates : Option (List String)} {text : String}
    (hcandidates : candidates.getD r.names = candidates.getD r'.names)
    (hregistered : ∀ name ∈ candidates.getD r'.names, r.isRegistered name = r'.isRegistered name)
    (hnamed : ∀ name ∈ candidates.getD r'.names, r'.isRegistered name = true → L.named name)
    (hhighlight : ∀ name ∈ candidates.getD r'.names,
      L.Way L.Highlights (highlightWithin k r lead host name text .fallback none)
        (highlightWithin k' r' lead' host' name text .fallback none)) :
    L.Way L.Results (detectWithin k r lead host text candidates)
      (detectWithin k' r' lead' host' text candidates) := by
  unfold detectWithin
  rw [hcandidates, List.filter_congr hregistered]
  have hmem : ∀ name ∈ (candidates.getD r'.names).filter r'.isRegistered,
      name ∈ candidates.getD r'.names ∧ r'.isRegistered name = true :=
    fun name hname => List.mem_filter.mp hname
  have hstart : L.Rankings { best := .plain text } { best := .plain text } :=
    ⟨Scan.Likeness.results_plain text, .alone none 0 false (fun _ h => nomatch h) L.nodes_nil⟩
  refine Likeness.Way.bind (S := L.Rankings) ?_ fun ranking ranking' h => .ok h.result
  refine Likeness.Way.foldlM (fun name hname ranking ranking' h => ?_) hstart
  obtain ⟨hcandidate, hknown⟩ := hmem name hname
  refine Likeness.Way.bind (hhighlight name hcandidate) fun found found' hfound => .ok ?_
  exact h.add (hfound.1.as (hnamed name hcandidate hknown))

end

/-! ## Languages in languages -/

/-- What the modes of a language are highlighted as. -/
def CompiledLanguage.asks (l : CompiledLanguage) : List SubLanguage :=
  l.modes.toList.filterMap fun m =>
    match m.dispatch with
    | .embedded sub => some sub
    | _ => none

theorem mem_asks {l : CompiledLanguage} {m : CompiledMode} (hm : m ∈ l.modes) {sub : SubLanguage}
    (hsub : m.dispatch = .embedded sub) : sub ∈ l.asks :=
  List.mem_filterMap.mpr ⟨m, Array.mem_toList_iff.mpr hm, by rw [hsub]⟩

/-- One language can be embedded in another: a name that is asked for stands for it. -/
def Registry.MayEmbed (r : Registry) (l l' : CompiledLanguage) : Prop :=
  ∃ sub ∈ l.asks, ∃ name ∈ r.namesOf sub, ∃ language,
    r.resolve? name = some language ∧ language.grammar.CompilesTo l'

/-- One language can be embedded in another at some depth. -/
abbrev Registry.Reaches (r : Registry) : CompiledLanguage → CompiledLanguage → Prop :=
  Relation.ReflTransGen r.MayEmbed

/-- What every registered language is that compiles, is so also of what is embedded in it. -/
theorem of_reaches {r : Registry} {P : CompiledLanguage → Prop}
    (hr : ∀ p ∈ r.languages, ∀ l, p.2.grammar.CompilesTo l → P l) {l l' : CompiledLanguage}
    (hl : P l) (h : r.Reaches l l') : P l' := by
  cases h with
  | refl => exact hl
  | tail _ hembeds =>
    obtain ⟨_, _, _, _, language, hlanguage, hcompiled⟩ := hembeds
    obtain ⟨p, hp, rfl⟩ := resolve?_mem hlanguage
    exact hr p hp l' hcompiled

/-- Each registered language passes a check or has an error of its own, and the depth is enough
for all of them. -/
def Registry.allPass (r : Registry) (depth : Nat) (check : CompiledLanguage → Bool) : Bool :=
  r.languages.all fun p =>
    match compileWithin p.2.grammar depth with
    | .ok l => check l
    | .error e => e != .tooDeep

theorem not_tooDeep_of_allPass {r : Registry} {depth : Nat} {check : CompiledLanguage → Bool}
    (h : r.allPass depth check = true) :
    ∀ p ∈ r.languages, compileWithin p.2.grammar depth ≠ .error .tooDeep := by
  intro p hp hdeep
  have hchecked := List.all_eq_true.mp h p hp
  rw [hdeep] at hchecked
  cases hchecked

theorem check_of_allPass {r : Registry} {depth : Nat} {check : CompiledLanguage → Bool}
    (h : r.allPass depth check = true) :
    ∀ p ∈ r.languages, ∀ l, p.2.grammar.CompilesTo l → check l = true := by
  intro p hp l hl
  have hchecked := List.all_eq_true.mp h p hp
  have hsame := compile_of_within (not_tooDeep_of_allPass h p hp)
  rw [← hsame, compilesTo_iff.mp hl] at hchecked
  exact hchecked

/-! ## Hosts -/

section

variable {lead lead' : String} {L : Likeness lead lead'} {k k' : Option Limits} {r r' : Registry}

/-- Of what a kind of languages embeds both registries know the same: the same languages under
the same names, and these are of that kind again. -/
structure SeenAlike (L : Likeness lead lead') (k : Option Limits) (r r' : Registry)
    (kind : CompiledLanguage → Prop) (sub : SubLanguage) : Prop where
  names : r.namesOf sub = r'.namesOf sub
  resolve : ∀ name ∈ r'.namesOf sub, r.resolve? name = r'.resolve? name
  named : ∀ name ∈ r'.namesOf sub, r'.isRegistered name = true → L.named name
  kind : ∀ name ∈ r'.namesOf sub, ∀ language l, r'.resolve? name = some language →
    compileUnder k language.grammar = .ok l → kind l

theorem namesOf_candidates (r : Registry) (names : List String) :
    (if names.isEmpty then none else some names).getD r.names = r.namesOf (.candidates names) := by
  unfold Registry.namesOf
  simp only
  split
  · rfl
  · rfl

/-- The hosts of two registries answer alike what languages of such a kind ask. -/
theorem hostWithin_alike (hk : L.LimitsMatch k k') {kind : CompiledLanguage → Prop}
    (hkind : ∀ l, kind l → ∀ m ∈ l.modes, ∀ sub, m.dispatch = .embedded sub →
      SeenAlike L k' r r' kind sub) (n : Nat) :
    ∀ l, kind l → L.HostsMatch l (hostWithin k r lead n) (hostWithin k' r' lead' n) := by
  induction n with
  | zero => exact fun l _ => .none
  | succ n ih =>
    intro l hl
    refine .some fun m hm sub hsub => ?_
    have hseen := hkind l hl m hm sub hsub
    have hregistered : ∀ name ∈ r'.namesOf sub, r.isRegistered name = r'.isRegistered name :=
      fun name hname => congrArg Option.isSome (hseen.resolve name hname)
    have hhighlight : ∀ name ∈ r'.namesOf sub, ∀ text illegals resume, L.Way L.Highlights
        (highlightWithin k r lead (hostWithin k r lead n) name text illegals resume)
        (highlightWithin k' r' lead' (hostWithin k' r' lead' n) name text illegals resume) :=
      fun name hname => highlightWithin_alike hk (hseen.resolve name hname) (hseen.named name hname)
        fun language l' hlanguage hl' => ih l' (hseen.kind name hname language l' hlanguage hl')
    cases sub with
    | name name =>
      have hname : name ∈ r'.namesOf (.name name) := List.mem_singleton_self name
      refine ⟨Filter.eventually_pure.mpr (hregistered name hname), fun hknown => ?_⟩
      refine ⟨hseen.named name hname hknown, fun text resume => Filter.eventually_pure.mpr ?_⟩
      refine Likeness.Way.bind (hhighlight name hname text .ignore resume) fun p p' h => .ok ?_
      exact ⟨h.1.nodes, h.1.relevance, h.2⟩
    | candidates names =>
      refine fun text => Filter.eventually_pure.mpr ?_
      have hdetect : L.Way L.Results
          (detectWithin k r lead (hostWithin k r lead n) text
            (if names.isEmpty then none else some names))
          (detectWithin k' r' lead' (hostWithin k' r' lead' n) text
            (if names.isEmpty then none else some names)) := by
        refine detectWithin_alike ?_ ?_ ?_ ?_
        all_goals simp only [namesOf_candidates]
        · exact hseen.names
        · exact hregistered
        · exact hseen.named
        · exact fun name hname => hhighlight name hname text .fallback none
      refine Likeness.Way.bind hdetect fun h h' hh => .ok ?_
      obtain ⟨hlanguage, hnamed⟩ := hh.language
      rw [hlanguage]
      rcases hfound : h'.language with _ | name
      · exact .none
      · exact .some ⟨rfl, hnamed name hfound, hh.nodes, hh.relevance, rfl⟩

end

/-! ## What comes out within limits

A limit stops highlighting, or makes no difference. -/

section

variable {limits : Option Limits} {r : Registry} {lead : String}

theorem hostWithin_upToLimits (limits : Option Limits) (r : Registry) (lead : String) (n : Nat)
    (l : CompiledLanguage) : (Likeness.sameUpToLimits lead).HostsMatch l
      (hostWithin limits r lead n) (hostWithin none r lead n) := by
  have hall : ∀ l : CompiledLanguage, True → (Likeness.sameUpToLimits lead).HostsMatch l
      (hostWithin limits r lead n) (hostWithin none r lead n) := by
    refine hostWithin_alike (.inr ⟨rfl, trivial⟩) (fun l _ m hm sub hsub => ?_) n
    exact ⟨rfl, fun _ _ => rfl, fun _ _ _ => trivial, fun _ _ _ _ _ _ => trivial⟩
  exact hall l trivial

theorem highlightWithin_upToLimits (limits : Option Limits) (r : Registry) (lead : String) (n : Nat)
    (name text : String) (illegals : Illegals) (resume : Option Scan.Continuation) :
    (Likeness.sameUpToLimits lead).Way (Likeness.sameUpToLimits lead).Highlights
      (highlightWithin limits r lead (hostWithin limits r lead n) name text illegals resume)
      (highlightWithin none r lead (hostWithin none r lead n) name text illegals resume) :=
  highlightWithin_alike (.inr ⟨rfl, trivial⟩) rfl (fun _ => trivial)
    (fun _ l _ _ => hostWithin_upToLimits limits r lead n l) text illegals resume

/-- Highlighting within limits gives what highlighting gives, unless a limit stops it. -/
theorem highlight_of_within {name text : String} {o : HighlightOptions}
    {x : Except HighlightError Highlighted} (h : r.highlightWithin limits name text o = x)
    (hx : ∀ e, x = .error e → ¬ e.OfLimits) : r.highlight name text o = x := by
  have hway : (Likeness.sameUpToLimits o.lead).Way Eq (r.highlightWithin limits name text o)
      (r.highlightWithin none name text o) :=
    (highlightWithin_upToLimits limits r o.lead embeddingLimit name text o.illegals none).map
      fun _ _ hp => hp.1.eq fun _ _ hns => hns
  rw [← r.highlightWithin_none, ← h]
  exact hway.eq_of_not_ofLimits (fun _ _ heq => heq) (h ▸ hx)

/-- Detecting within limits gives what detecting gives, unless a limit stops it. -/
theorem detect_of_within {text : String} {o : DetectOptions}
    {x : Except HighlightError Highlighted} (h : r.detectWithin limits text o = x)
    (hx : ∀ e, x = .error e → ¬ e.OfLimits) : r.detect text o = x := by
  have hway : (Likeness.sameUpToLimits o.lead).Way (Likeness.sameUpToLimits o.lead).Results
      (r.detectWithin limits text o) (r.detectWithin none text o) :=
    detectWithin_alike rfl (fun _ _ => rfl) (fun _ _ _ => trivial)
      fun name _ => highlightWithin_upToLimits limits r o.lead _ name text .fallback none
  rw [← r.detectWithin_none, ← h]
  exact hway.eq_of_not_ofLimits (fun _ _ hh => hh.eq fun _ _ hns => hns) (h ▸ hx)

/-- Scanning within limits gives what scanning gives, unless a limit stops it. -/
theorem scan_of_within {steps : Option Nat} {n : Nat} {l : CompiledLanguage} {text : Array Char}
    {illegals : Illegals} {resume : Option Scan.Continuation}
    {x : Except HighlightError Scan.Scanned}
    (h : Scan.scanUnder steps { host := hostWithin limits r lead n, language := l, text, illegals } lead
      resume = x)
    (hx : ∀ e, x = .error e → ¬ e.OfLimits) :
    Scan.scan { host := hostFor r lead n, language := l, text, illegals } lead resume = x := by
  let c : Scan.Context := { host := hostWithin none r lead n, language := l, text, illegals }
  have hway : (Likeness.sameUpToLimits lead).Way (Likeness.sameUpToLimits lead).Scans
      (Scan.scanUnder steps (c.hostedBy (hostWithin limits r lead n)) lead resume)
      (Scan.scanUnder none c lead resume) :=
    scanUnder_match (hostWithin_upToLimits limits r lead n l) (.inr ⟨rfl, trivial⟩) resume
  have hsame := hway.eq_of_not_ofLimits (fun _ _ hh => hh.eq fun _ _ hns => hns) (h.symm ▸ hx)
  rw [← hostWithin_none, ← h]
  exact hsame

end

end Highlighting
