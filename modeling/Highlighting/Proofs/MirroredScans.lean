-- Scans with alike languages. Modes of the two languages that are related differ
-- only in the indices to which they link. So two scans of one text go step by
-- step the same way, and their states mirror each other: they are the same but
-- for the indices in the frames and in the last terminator.
import Highlighting.Proofs.AlikeLanguages
import Highlighting.Proofs.Limits
import Highlighting.Proofs.ScanControl

namespace Highlighting.Scan

/-! ## States that mirror each other -/

/-- The context with another language. -/
def Context.speaking (c : Context) (l : CompiledLanguage) : Context := { c with language := l }

namespace Context

variable (c : Context) (l : CompiledLanguage)

@[simp] theorem speaking_host : (c.speaking l).host = c.host := rfl

@[simp] theorem speaking_text : (c.speaking l).text = c.text := rfl

@[simp] theorem speaking_illegals : (c.speaking l).illegals = c.illegals := rfl

@[simp] theorem speaking_slice : (c.speaking l).slice = c.slice := rfl

end Context

/-- Frames that differ only in the index of their mode. -/
structure FrameMirrors (R : Nat → Nat → Prop) (f₁ f₂ : Frame) : Prop where
  mode : R f₁.mode f₂.mode
  bound : f₁.bound = f₂.bound
  opened : f₁.opened = f₂.opened
  resumed : f₁.resumed = f₂.resumed

/-- Terminators that differ only in the index of the child. -/
structure TerminatorMirrors (R : Nat → Nat → Prop) (t₁ t₂ : Terminator) : Prop where
  start : t₁.start = t₂.start
  stop : t₁.stop = t₂.stop
  rule : RuleAlike R t₁.rule t₂.rule

/-- States that differ only in their frames and in the last terminator, which
mirror each other. -/
inductive Mirrors (R : Nat → Nat → Prop) : State → State → Prop
  | intro (s : State) {frames : List Frame} {last : Option Terminator}
      (hframes : List.Forall₂ (FrameMirrors R) s.frames frames)
      (hlast : Option.Rel (TerminatorMirrors R) s.last last) : Mirrors R s { s with frames, last }

/-- What two steps lead to mirrors each other. -/
inductive OutcomeMirrors (R : Nat → Nat → Prop) : Outcome → Outcome → Prop
  | next {s₁ s₂ : State} (h : Mirrors R s₁ s₂) : OutcomeMirrors R (.next s₁) (.next s₂)
  | done {s₁ s₂ : State} (h : Mirrors R s₁ s₂) : OutcomeMirrors R (.done s₁) (.done s₂)

section

variable {R : Nat → Nat → Prop} {s₁ s₂ : State}

namespace Mirrors

theorem frames (h : Mirrors R s₁ s₂) : List.Forall₂ (FrameMirrors R) s₁.frames s₂.frames := by
  cases h with
  | intro hframes hlast => exact hframes

theorem last (h : Mirrors R s₁ s₂) : Option.Rel (TerminatorMirrors R) s₁.last s₂.last := by
  cases h with
  | intro hframes hlast => exact hlast

theorem cursor (h : Mirrors R s₁ s₂) : s₁.cursor = s₂.cursor := by
  cases h with
  | intro hframes hlast => rfl

theorem buffer (h : Mirrors R s₁ s₂) : s₁.buffer = s₂.buffer := by
  cases h with
  | intro hframes hlast => rfl

theorem tree (h : Mirrors R s₁ s₂) : s₁.tree = s₂.tree := by
  cases h with
  | intro hframes hlast => rfl

theorem relevance (h : Mirrors R s₁ s₂) : s₁.relevance = s₂.relevance := by
  cases h with
  | intro hframes hlast => rfl

theorem push (h : Mirrors R s₁ s₂) (text : String) : Mirrors R (s₁.push text) (s₂.push text) := by
  cases h with
  | intro hframes hlast => exact .intro (s₁.push text) hframes hlast

theorem score (h : Mirrors R s₁ s₂) (n : Nat) : Mirrors R (s₁.score n) (s₂.score n) := by
  cases h with
  | intro hframes hlast => exact .intro (s₁.score n) hframes hlast

theorem moveTo (h : Mirrors R s₁ s₂) (pos : Nat) :
    Mirrors R { s₁ with cursor := pos } { s₂ with cursor := pos } := by
  cases h with
  | intro hframes hlast => exact .intro { s₁ with cursor := pos } hframes hlast

theorem note (h : Mirrors R s₁ s₂) {t₁ t₂ : Terminator} (ht : TerminatorMirrors R t₁ t₂) :
    Mirrors R (s₁.note t₁) (s₂.note t₂) := by
  cases h with
  | intro hframes hlast => exact .intro (s₁.note t₁) hframes (.some ht)

/-! ### Putting out -/

theorem emit (h : Mirrors R s₁ s₂) (p : Piece) : Mirrors R (s₁.emit p) (s₂.emit p) := by
  cases h with
  | intro hframes hlast =>
    cases p with
    | text value => exact .intro (s₁.emit (.text value)) hframes hlast
    | keyword k lexeme => exact .intro (s₁.emit (.keyword k lexeme)) hframes hlast

theorem emitAll (h : Mirrors R s₁ s₂) (ps : List Piece) :
    Mirrors R (ps.foldl State.emit s₁) (ps.foldl State.emit s₂) := by
  induction ps generalizing s₁ s₂ with
  | nil => exact h
  | cons p ps ih => exact ih (h.emit p)

theorem embed (h : Mirrors R s₁ s₂) (language : String) (weight : Nat) (e : Embedded) :
    Mirrors R (s₁.embed language weight e) (s₂.embed language weight e) := by
  have hscore : Mirrors R (if weight = 0 then s₁ else s₁.score e.relevance)
      (if weight = 0 then s₂ else s₂.score e.relevance) := by
    split
    · exact h
    · exact h.score e.relevance
  unfold State.embed
  generalize (if weight = 0 then s₁ else s₁.score e.relevance) = s₁' at hscore ⊢
  generalize (if weight = 0 then s₂ else s₂.score e.relevance) = s₂' at hscore ⊢
  cases hscore with
  | intro hframes hlast =>
    exact .intro { s₁' with tree := s₁'.tree.addEmbedded language e.nodes } hframes hlast

end Mirrors

variable {c : Context} {l₁ l₂ : CompiledLanguage}

theorem flushEmbedded_mirrors (h : Mirrors R s₁ s₂) (language : SubLanguage) (weight : Nat)
    (text : String) :
    SameWay (Mirrors R) (s₁.flushEmbedded (c.speaking l₁) language weight text)
      (s₂.flushEmbedded (c.speaking l₂) language weight text) := by
  have hplain : Mirrors R { s₁ with tree := s₁.tree.addText text }
      { s₂ with tree := s₂.tree.addText text } := h.emit (.text text)
  unfold State.flushEmbedded
  simp only [Context.speaking_host]
  rcases c.host with _ | host
  · exact .ok hplain
  · cases language with
    | name name =>
      by_cases hname : host.isRegistered name = true
      · simp only [hname, if_true]
        cases h with
        | intro hframes hlast =>
          refine SameWay.bind (SameWay.refl _) ?_
          rintro e _ rfl
          refine .ok (Mirrors.embed ?_ name weight e)
          exact .intro { s₁ with continuations := _ } hframes hlast
      · simp only [hname]
        exact .ok hplain
    | candidates names =>
      refine SameWay.bind (SameWay.refl (host.detect names text)) ?_
      rintro found _ rfl
      rcases found with _ | ⟨name, e⟩
      · exact .ok hplain
      · exact .ok (h.embed name weight e)

theorem lastClosed?_mirrors (h : Mirrors R s₁ s₂) (n : Nat) :
    Option.Rel (FrameMirrors R) (s₁.lastClosed? n) (s₂.lastClosed? n) := by
  have hframes := h.frames
  unfold State.lastClosed?
  generalize n - 1 = i
  generalize s₁.frames = frames₁ at hframes ⊢
  generalize s₂.frames = frames₂ at hframes ⊢
  induction hframes generalizing i with
  | nil => exact .none
  | cons hf _ ih =>
    rcases i with _ | i
    · exact .some hf
    · simpa using ih i

theorem forceChar_mirrors (h : Mirrors R s₁ s₂) (pos : Nat) :
    OutcomeMirrors R (s₁.forceChar (c.speaking l₁) pos) (s₂.forceChar (c.speaking l₂) pos) := by
  unfold State.forceChar
  simp only [Context.speaking_text]
  rcases c.text[pos]? with _ | ch
  · exact .done (h.moveTo _)
  · exact .next ((h.push _).moveTo _)

theorem asText_mirrors (h : Mirrors R s₁ s₂) {t₁ t₂ : Terminator}
    (ht : TerminatorMirrors R t₁ t₂) :
    OutcomeMirrors R (s₁.asText (c.speaking l₁) t₁) (s₂.asText (c.speaking l₂) t₂) := by
  unfold State.asText
  rw [ht.start, ht.stop, Context.speaking_slice, Context.speaking_slice]
  split
  · exact .next ((h.push _).moveTo _)
  · exact forceChar_mirrors h _

/-- Both see whether a mode would end at once. -/
theorem isDegenerate_mirrors (h : Mirrors R s₁ s₂) {t₁ t₂ : Terminator}
    (ht : TerminatorMirrors R t₁ t₂) : s₁.isDegenerate t₁ = s₂.isDegenerate t₂ := by
  have hlast := h.last
  have hrule := ht.rule
  unfold State.isDegenerate
  rw [ht.start, ht.stop]
  generalize s₁.last = last₁ at hlast ⊢
  generalize s₂.last = last₂ at hlast ⊢
  generalize t₁.rule = rule₁ at hrule ⊢
  generalize t₂.rule = rule₂ at hrule ⊢
  cases hlast with
  | none => rfl
  | @some u₁ u₂ hu =>
    have hbegan := hu.rule
    simp only [hu.start]
    generalize u₁.rule = began₁ at hbegan ⊢
    generalize u₂.rule = began₂ at hbegan ⊢
    cases hrule <;> cases hbegan <;> rfl

/-- Alike terminators are met at the same place. -/
theorem find_mirrors {t₁ t₂ : Terminators} (h : TerminatorsAlike R t₁ t₂) (text : Array Char)
    (start : Nat) :
    Option.Rel (TerminatorMirrors R) (t₁.find text start) (t₂.find text start) := by
  have hrules := h.rules
  unfold Terminators.find
  rw [h.pattern]
  rcases t₂.pattern with _ | p
  · exact .none
  · rcases hfound : p.search text start with _ | found
    · simp [hfound]
    · simp only [Option.bind_eq_bind, Option.bind_some, hfound]
      generalize t₁.rules = rules₁ at hrules ⊢
      generalize t₂.rules = rules₂ at hrules ⊢
      induction hrules with
      | nil => exact .none
      | @cons q₁ q₂ rules₁ rules₂ hq _ ih =>
        rw [List.find?_cons, List.find?_cons, hq.1]
        split
        · exact .some ⟨rfl, rfl, hq.2⟩
        · exact ih

/-! ### Related modes -/

variable (hl : LanguagesAlike R l₁ l₂)

include hl

theorem modeOf?_mirrors {f₁ f₂ : Frame} (hf : FrameMirrors R f₁ f₂) :
    ∃ m₁ m₂, (c.speaking l₁).modeOf? f₁ = some m₁ ∧ (c.speaking l₂).modeOf? f₂ = some m₂ ∧
      CompiledAlike R m₁ m₂ := hl.modes _ _ hf.mode

/-- The innermost modes are alike. -/
theorem top?_mirrors (h : Mirrors R s₁ s₂) :
    Option.Rel (CompiledAlike R) (s₁.top? (c.speaking l₁)) (s₂.top? (c.speaking l₂)) := by
  have hframes := h.frames
  unfold State.top?
  generalize s₁.frames = frames₁ at hframes ⊢
  generalize s₂.frames = frames₂ at hframes ⊢
  cases hframes with
  | nil => exact .none
  | cons hf _ =>
    obtain ⟨m₁, m₂, hm₁, hm₂, hm⟩ := modeOf?_mirrors (c := c) hl hf
    simp only [List.head?_cons, Option.bind_some, hm₁, hm₂]
    exact .some hm

/-- Both put out what they collected in the same way. -/
theorem flush_mirrors (h : Mirrors R s₁ s₂) :
    SameWay (Mirrors R) (s₁.flush (c.speaking l₁)) (s₂.flush (c.speaking l₂)) := by
  have hcleared : Mirrors R { s₁ with buffer := "" } { s₂ with buffer := "" } := by
    cases h with
    | intro hframes hlast => exact .intro { s₁ with buffer := "" } hframes hlast
  have htop := top?_mirrors (c := c) hl hcleared
  unfold State.flush
  simp only [h.buffer]
  generalize ({ s₁ with buffer := "" } : State).top? (c.speaking l₁) = top₁ at htop ⊢
  generalize ({ s₂ with buffer := "" } : State).top? (c.speaking l₂) = top₂ at htop ⊢
  cases htop with
  | none => exact .ok (hcleared.emit (.text s₂.buffer))
  | @some m₁ m₂ hm =>
    obtain ⟨contains, starts, terminators, rfl⟩ := hm.relinks
    simp only
    rcases m₂.dispatch with _ | ⟨table, lexemes⟩ | language
    · exact .ok (hcleared.emit (.text s₂.buffer))
    · exact .ok (hcleared.emitAll _)
    · simp only
      split
      · exact .ok hcleared
      · exact flushEmbedded_mirrors hcleared language _ _

theorem takeBegin_mirrors (h : Mirrors R s₁ s₂) (m : CompiledMode) (lexeme : String) :
    SameWay (Mirrors R) (s₁.takeBegin (c.speaking l₁) m lexeme)
      (s₂.takeBegin (c.speaking l₂) m lexeme) := by
  unfold State.takeBegin
  split
  · exact .ok (h.push lexeme)
  · refine SameWay.bind (S := Mirrors R) ?_ ?_
    · split
      · exact flush_mirrors hl (h.push lexeme)
      · exact flush_mirrors hl h
    · intro s₁' s₂' h'
      split
      · exact .ok h'
      · exact .ok (h'.push lexeme)

theorem takeEnd_mirrors (h : Mirrors R s₁ s₂) (m : CompiledMode) (lexeme : String) :
    SameWay (Mirrors R) (s₁.takeEnd (c.speaking l₁) m lexeme)
      (s₂.takeEnd (c.speaking l₂) m lexeme) := by
  unfold State.takeEnd
  split
  · exact .ok (h.push lexeme)
  · refine SameWay.bind (S := Mirrors R) ?_ ?_
    · split
      · exact flush_mirrors hl h
      · exact flush_mirrors hl (h.push lexeme)
    · intro s₁' s₂' h'
      split
      · exact .ok (h'.push lexeme)
      · exact .ok h'

/-! ### Opening and closing -/

theorem enter_mirrors (h : Mirrors R s₁ s₂) {id₁ id₂ : Nat} (hid : R id₁ id₂)
    (bound : Option Pattern) :
    Mirrors R (s₁.enter (c.speaking l₁) id₁ bound) (s₂.enter (c.speaking l₂) id₂ bound) := by
  obtain ⟨m₁, m₂, hm₁, hm₂, hm⟩ := hl.modes id₁ id₂ hid
  obtain ⟨contains, starts, terminators, rfl⟩ := hm.relinks
  have hm₁' : (c.speaking l₁).language.mode? id₁ = _ := hm₁
  have hm₂' : (c.speaking l₂).language.mode? id₂ = _ := hm₂
  unfold State.enter
  simp only [hm₁', hm₂', Option.bind_some]
  cases h with
  | intro hframes hlast =>
    rcases m₂.className with _ | className
    · exact .intro { s₁ with frames := _ } (.cons ⟨hid, rfl, rfl, rfl⟩ hframes) hlast
    · exact .intro { s₁ with tree := _, frames := _ } (.cons ⟨hid, rfl, rfl, rfl⟩ hframes) hlast

theorem leave_mirrors (h : Mirrors R s₁ s₂) :
    Mirrors R (s₁.leave (c.speaking l₁)) (s₂.leave (c.speaking l₂)) := by
  cases h with
  | intro hframes hlast =>
    rcases s₁ with ⟨cursor, frames₁, buffer, tree, relevance, continuations, last₁⟩
    simp only at hframes hlast
    cases hframes with
    | nil => exact .intro _ .nil hlast
    | cons hf hbelow =>
      obtain ⟨m₁, m₂, hm₁, hm₂, hm⟩ := modeOf?_mirrors (c := c) hl hf
      obtain ⟨contains, starts, terminators, rfl⟩ := hm.relinks
      have hleft : ∀ tree, Mirrors R
          ⟨cursor, _, buffer, tree, relevance, continuations, last₁⟩
          ⟨cursor, _, buffer, tree, relevance, continuations, _⟩ := fun tree =>
        .intro ⟨cursor, _, buffer, tree, relevance, continuations, last₁⟩ hbelow hlast
      have hembedded : ({ m₂ with contains, starts, terminators } : CompiledMode).isEmbedded =
          m₂.isEmbedded := rfl
      unfold State.leave
      simp only [hm₁, hm₂, hf.opened, hf.resumed, hembedded]
      split
      · exact hleft _
      · exact (hleft _).score m₂.relevance

theorem leaveAll_mirrors (h : Mirrors R s₁ s₂) (n : Nat) :
    Mirrors R (s₁.leaveAll (c.speaking l₁) n) (s₂.leaveAll (c.speaking l₂) n) := by
  induction n generalizing s₁ s₂ with
  | zero => exact h
  | succ n ih => exact ih (leave_mirrors hl h)

theorem parentsEnded_mirrors {frames₁ frames₂ : List Frame}
    (h : List.Forall₂ (FrameMirrors R) frames₁ frames₂) :
    parentsEnded (c.speaking l₁) frames₁ = parentsEnded (c.speaking l₂) frames₂ := by
  induction h with
  | nil => rfl
  | @cons f₁ f₂ below₁ below₂ hf hbelow ih =>
    obtain ⟨m₁, m₂, hm₁, hm₂, hm⟩ := modeOf?_mirrors (c := c) hl hf
    obtain ⟨contains, starts, terminators, rfl⟩ := hm.relinks
    by_cases hfew : 2 ≤ below₁.length
    · rw [parentsEnded_of_two _ f₁ hfew, parentsEnded_of_two _ f₂ (hbelow.length_eq ▸ hfew), hm₁,
        hm₂, ih]
      rfl
    · rw [parentsEnded_of_few _ f₁ hfew, parentsEnded_of_few _ f₂ (hbelow.length_eq ▸ hfew)]

/-- An end closes as many frames in one scan as in the other. -/
theorem closedBy?_mirrors (pos : Nat) {frames₁ frames₂ : List Frame}
    (h : List.Forall₂ (FrameMirrors R) frames₁ frames₂) :
    closedBy? (c.speaking l₁) pos frames₁ = closedBy? (c.speaking l₂) pos frames₂ := by
  induction h with
  | nil => rfl
  | @cons f₁ f₂ below₁ below₂ hf hbelow ih =>
    obtain ⟨m₁, m₂, hm₁, hm₂, hm⟩ := modeOf?_mirrors (c := c) hl hf
    obtain ⟨contains, starts, terminators, rfl⟩ := hm.relinks
    have hparents := parentsEnded_mirrors (c := c) hl (.cons hf hbelow)
    cases hbelow with
    | nil => rfl
    | cons hg hrest =>
      rw [closedBy?_cons _ pos f₁ (List.cons_ne_nil _ _),
        closedBy?_cons _ pos f₂ (List.cons_ne_nil _ _), hm₁, hm₂, ih, hparents, hf.bound]
      rfl

/-- What follows a closed frame is related, and the same end is handed over. -/
theorem follow_mirrors (h : Mirrors R s₁ s₂) {f₁ f₂ : Option Frame}
    (hf : Option.Rel (FrameMirrors R) f₁ f₂) :
    Mirrors R (s₁.follow (c.speaking l₁) f₁) (s₂.follow (c.speaking l₂) f₂) := by
  cases hf with
  | none => exact h
  | some hf =>
    obtain ⟨m₁, m₂, hm₁, hm₂, hm⟩ := modeOf?_mirrors (c := c) hl hf
    obtain ⟨contains, starts₁, terminators, rfl⟩ := hm.relinks
    have hstarts : Option.Rel R starts₁ m₂.starts := hm.starts
    unfold State.follow continuation?
    simp only [Option.bind_some, hm₁, hm₂, hf.bound]
    generalize m₂.starts = starts₂ at hstarts ⊢
    cases hstarts with
    | none => exact h
    | some hid => exact enter_mirrors hl h hid _

/-! ## Steps -/

variable {t₁ t₂ : Terminator}

theorem beginMode_mirrors (h : Mirrors R s₁ s₂) (ht : TerminatorMirrors R t₁ t₂) {id₁ id₂ : Nat}
    (hid : R id₁ id₂) :
    SameWay (Mirrors R) (s₁.beginMode (c.speaking l₁) id₁ t₁)
      (s₂.beginMode (c.speaking l₂) id₂ t₂) := by
  obtain ⟨m₁, m₂, hm₁, hm₂, hm⟩ := hl.modes id₁ id₂ hid
  obtain ⟨contains, starts, terminators, rfl⟩ := hm.relinks
  rw [beginMode_eq s₁ (c.speaking l₁) id₁ t₁ _ hm₁, beginMode_eq s₂ (c.speaking l₂) id₂ t₂ _ hm₂]
  simp only [Context.speaking_slice, ht.start, ht.stop]
  refine SameWay.bind (S := Eq) ?_ ?_
  · have hcase : (c.speaking l₁).language.caseInsensitive =
        (c.speaking l₂).language.caseInsensitive := hl.anyCase
    rw [← boundEnd_congr hcase m₂]
    exact .refl _
  · rintro bound _ rfl
    refine SameWay.bind (takeBegin_mirrors hl h m₂ _) ?_
    intro s₁' s₂' h'
    exact .ok ((enter_mirrors hl h' hid bound).moveTo _)

theorem endModes_mirrors (h : Mirrors R s₁ s₂) (ht : TerminatorMirrors R t₁ t₂) (n : Nat) :
    SameWay (Mirrors R) (s₁.endModes (c.speaking l₁) n t₁)
      (s₂.endModes (c.speaking l₂) n t₂) := by
  have htop := top?_mirrors (c := c) hl h
  rcases hm₁ : s₁.top? (c.speaking l₁) with _ | m₁ <;>
    rcases hm₂ : s₂.top? (c.speaking l₂) with _ | m₂ <;> rw [hm₁, hm₂] at htop
  · unfold State.endModes
    rw [hm₁, hm₂]
    exact .ok h
  · cases htop
  · cases htop
  · cases htop with
    | some hm =>
      obtain ⟨contains, starts, terminators, rfl⟩ := hm.relinks
      rw [endModes_eq s₁ (c.speaking l₁) n t₁ _ hm₁, endModes_eq s₂ (c.speaking l₂) n t₂ _ hm₂]
      simp only [Context.speaking_slice, ht.start, ht.stop]
      refine SameWay.bind (takeEnd_mirrors hl h m₂ _) ?_
      intro s₁' s₂' h'
      have hclosed := leaveAll_mirrors (c := c) hl h' n
      exact .ok ((follow_mirrors hl hclosed (lastClosed?_mirrors h n)).moveTo _)

/-- The next terminators mirror each other. -/
theorem nextTerminator?_mirrors (h : Mirrors R s₁ s₂) :
    Option.Rel (TerminatorMirrors R) (s₁.nextTerminator? (c.speaking l₁))
      (s₂.nextTerminator? (c.speaking l₂)) := by
  have htop := top?_mirrors (c := c) hl h
  unfold State.nextTerminator?
  rw [h.cursor, Context.speaking_text, Context.speaking_text]
  generalize s₁.top? (c.speaking l₁) = top₁ at htop ⊢
  generalize s₂.top? (c.speaking l₂) = top₂ at htop ⊢
  cases htop with
  | none => exact .none
  | some hm => exact find_mirrors hm.terminators c.text s₂.cursor

/-- Both fail at illegal text in the same way. -/
theorem displayName_mirrors (h : Mirrors R s₁ s₂) :
    (s₁.top? (c.speaking l₁)).map CompiledMode.displayName =
      (s₂.top? (c.speaking l₂)).map CompiledMode.displayName := by
  have htop := top?_mirrors (c := c) hl h
  generalize s₁.top? (c.speaking l₁) = top₁ at htop ⊢
  generalize s₂.top? (c.speaking l₂) = top₂ at htop ⊢
  cases htop with
  | none => rfl
  | some hm =>
    obtain ⟨contains, starts, terminators, rfl⟩ := hm.relinks
    rfl

/-- Both handle a terminator in the same way. -/
theorem handle_mirrors (h : Mirrors R s₁ s₂) (ht : TerminatorMirrors R t₁ t₂) :
    SameWay (OutcomeMirrors R) (s₁.handle (c.speaking l₁) t₁) (s₂.handle (c.speaking l₂) t₂) := by
  have hreach : Mirrors R (s₁.reach (c.speaking l₁) t₁) (s₂.reach (c.speaking l₂) t₂) := by
    unfold State.reach
    rw [h.cursor, ht.start]
    exact h.push _
  have hnoted := hreach.note ht
  rw [handle_eq, handle_eq, isDegenerate_mirrors hreach ht]
  split
  · rw [ht.start]
    exact .ok (forceChar_mirrors hreach t₂.start)
  · have hrule := ht.rule
    generalize t₁.rule = rule₁ at hrule ⊢
    generalize t₂.rule = rule₂ at hrule ⊢
    cases hrule with
    | begins hid =>
      exact SameWay.bind (beginMode_mirrors hl hnoted ht hid) fun _ _ h' => .ok (.next h')
    | ends =>
      simp only [ht.start, closedBy?_mirrors (c := c) hl t₂.start hnoted.frames]
      split
      · exact SameWay.bind (endModes_mirrors hl hnoted ht _) fun _ _ h' => .ok (.next h')
      · exact .ok (asText_mirrors hnoted ht)
    | illegal =>
      simp only [Context.speaking_illegals, Context.speaking_slice, ht.start, ht.stop,
        displayName_mirrors (c := c) hl hnoted]
      split
      · exact .ok (asText_mirrors hnoted ht)
      · exact .error _

/-- One step goes the same way in both scans. -/
theorem step_mirrors (h : Mirrors R s₁ s₂) :
    SameWay (OutcomeMirrors R) (s₁.step (c.speaking l₁)) (s₂.step (c.speaking l₂)) := by
  have hnext := nextTerminator?_mirrors (c := c) hl h
  unfold State.step
  generalize s₁.nextTerminator? (c.speaking l₁) = next₁ at hnext ⊢
  generalize s₂.nextTerminator? (c.speaking l₂) = next₂ at hnext ⊢
  cases hnext with
  | none => exact .ok (.done h)
  | some ht => exact handle_mirrors hl h ht

/-! ## Whole scans -/

theorem run_mirrors (h : Mirrors R s₁ s₂) (n : Nat) :
    SameWay (Mirrors R) (State.run (c.speaking l₁) n s₁) (State.run (c.speaking l₂) n s₂) := by
  induction n generalizing s₁ s₂ with
  | zero => exact .error .stepLimit
  | succ n ih =>
    unfold State.run
    refine SameWay.bind (step_mirrors hl h) ?_
    rintro _ _ (h' | h')
    · exact ih h'
    · exact .ok h'

/-- What a scan gives, without the indices of the modes that are open. -/
def Scanned.view (r : Scanned) : List Node × Nat × Nat :=
  (r.nodes, r.relevance, r.continuation.depth)

theorem finish_mirrors (h : Mirrors R s₁ s₂) :
    (s₁.finish (c.speaking l₁)).map Scanned.view = (s₂.finish (c.speaking l₂)).map Scanned.view := by
  have hflush := flush_mirrors (c := c) hl (h.push (c.slice s₂.cursor c.text.size))
  unfold State.finish
  simp only [Context.speaking_slice, Context.speaking_text, h.cursor]
  generalize (s₁.push (c.slice s₂.cursor c.text.size)).flush (c.speaking l₁) = x at hflush ⊢
  generalize (s₂.push (c.slice s₂.cursor c.text.size)).flush (c.speaking l₂) = y at hflush ⊢
  cases hflush with
  | error e => rfl
  | @ok s₁' s₂' h' =>
    have hdepth : s₁'.frames.length = s₂'.frames.length := h'.frames.length_eq
    have hclosed := leaveAll_mirrors (c := c) hl h' (s₂'.frames.length - 1)
    simp only [ok_bind_eq, hdepth]
    show Except.ok (_, _, s₁'.frames.length) = Except.ok (_, _, s₂'.frames.length)
    rw [hclosed.tree, hclosed.relevance, hdepth]

/-- Alike languages give the same scan in as many steps. -/
theorem scanWithin_speaking (n : Nat) (c : Context) (lead : String) :
    (scanWithin n (c.speaking l₁) lead none).map Scanned.view =
      (scanWithin n (c.speaking l₂) lead none).map Scanned.view := by
  have hstart : Mirrors R { frames := startFrames none, tree := .start lead }
      { frames := startFrames none, tree := .start lead } :=
    .intro { frames := startFrames none, tree := .start lead }
      (.cons ⟨hl.root, rfl, rfl, rfl⟩ .nil) .none
  unfold scanWithin scanBy
  simp only [Context.speaking_text]
  by_cases hempty : c.text.isEmpty = true
  · simp only [hempty, if_true]
  · have hrun := run_mirrors (c := c) hl hstart n
    simp only [hempty, Bool.false_eq_true, if_false]
    generalize State.run (c.speaking l₁) _ _ = x at hrun ⊢
    generalize State.run (c.speaking l₂) _ _ = y at hrun ⊢
    cases hrun with
    | error e => rfl
    | ok h => exact finish_mirrors hl h

/-- Alike languages give the same scan, whether or not its steps are limited. -/
theorem scanUnder_speaking (steps : Option Nat) (c : Context) (lead : String) :
    (scanUnder steps (c.speaking l₁) lead none).map Scanned.view =
      (scanUnder steps (c.speaking l₂) lead none).map Scanned.view := by
  obtain ⟨n₁, hn₁⟩ := exists_scanWithin_from steps (c.speaking l₁) lead none
  obtain ⟨n₂, hn₂⟩ := exists_scanWithin_from steps (c.speaking l₂) lead none
  rw [hn₁ (max n₁ n₂) (Nat.le_max_left _ _), hn₂ (max n₁ n₂) (Nat.le_max_right _ _)]
  exact scanWithin_speaking hl _ c lead

end

end Highlighting.Scan

namespace Highlighting

/-! ## Sharing -/

section

variable {g₁ g₂ : Grammar} (hg₁ : g₁.Faithful neverFits) (hg₂ : g₂.Faithful neverFits)
  (hcase : g₁.caseInsensitive = g₂.caseInsensitive) {n : Nat}
  (hroot : AlikeWithin g₁ g₂ n g₁.root g₂.root)

include hg₁ hg₂ hcase hroot

theorem compilesTo_of_alike {l₂ : CompiledLanguage} (h : g₂.CompilesTo l₂) :
    ∃ l₁, g₁.CompilesTo l₁ := by
  obtain ⟨depth, h⟩ := h
  obtain ⟨os₂, hcomes⟩ := compileWithin_comes hg₂.sound h
  obtain ⟨depth₁, l₁, h₁⟩ := compileWithin_of_likes hcomes hcase hg₁ hroot
  exact ⟨l₁, depth₁, h₁⟩

theorem languagesAlike_of_alike {l₁ l₂ : CompiledLanguage} (h₁ : g₁.CompilesTo l₁)
    (h₂ : g₂.CompilesTo l₂) : ∃ R, LanguagesAlike R l₁ l₂ := by
  obtain ⟨depth₁, h₁⟩ := h₁
  obtain ⟨depth₂, h₂⟩ := h₂
  obtain ⟨os₁, hcomes₁⟩ := compileWithin_comes hg₁.sound h₁
  obtain ⟨os₂, hcomes₂⟩ := compileWithin_comes hg₂.sound h₂
  exact ⟨_, languagesAlike_of_comes hcomes₁ hcomes₂ hcase hroot⟩

end

/-- Sharing is transparent. A grammar without recursive definitions can be written
out, so that nothing is shared in it. It then compiles as before, and every scan
with the one language gives what the scan with the other gives, whatever its host embeds
and however many steps it may take. -/
theorem sharing_is_transparent (g : Grammar) (hg : g.Nonrecursive) :
    (∃ n g', g.inlined? n = some g') ∧ ∀ n g', g.inlined? n = some g' →
      ((∃ l, compile g = .ok l) ↔ ∃ l', compile g' = .ok l') ∧
      ∀ l l', compile g = .ok l → compile g' = .ok l' →
        (∀ (r : Registry) (lead : String) (depth : Nat) (text : String) (illegals : Illegals),
          (r.scan lead depth l text illegals none).map Scan.Scanned.view =
            (r.scan lead depth l' text illegals none).map Scan.Scanned.view) ∧
        ∀ (steps : Option Nat) (c : Scan.Context) (lead : String),
          (Scan.scanUnder steps (c.speaking l) lead none).map Scan.Scanned.view =
            (Scan.scanUnder steps (c.speaking l') lead none).map Scan.Scanned.view := by
  refine ⟨hg.exists_inlined, ?_⟩
  intro n g' hg'
  obtain ⟨hroot, hcase⟩ := inlined?_root hg'
  have halike : AlikeWithin g g' n g.root g'.root :=
    alike_of_inlineMode? (fun _ => target?_inlined hg') hroot
  have hfaithful : g.Faithful neverFits := hg.faithful
  have hfaithful' : g'.Faithful neverFits := inlined_faithful hg'
  simp only [← compilesTo_iff]
  refine ⟨⟨?_, ?_⟩, ?_⟩
  · rintro ⟨l, h⟩
    exact compilesTo_of_alike hfaithful' hfaithful hcase halike.symm h
  · rintro ⟨l', h'⟩
    exact compilesTo_of_alike hfaithful hfaithful' hcase.symm halike h'
  · intro l l' h h'
    obtain ⟨R, hl⟩ := languagesAlike_of_alike hfaithful hfaithful' hcase.symm halike h h'
    refine ⟨fun r lead depth text illegals => ?_, Scan.scanUnder_speaking hl⟩
    exact Scan.scanUnder_speaking hl none
      { host := hostAt r lead depth, language := l, text := text.toList.toArray, illegals } lead

/-! ### Words that end with what is around them -/

/-- Words that end with what is around them: two kinds of brackets that end alike,
and one that ends in another way. -/
def bracketedWords : Grammar where
  definitions := [("word", { className := some "w", begins := some "a", endsWithParent := true })]
  root := { contains := [
    .inline { begins := some "\\(", ends := some "\\)", contains := [.named "word"] },
    .inline { begins := some "\\[", ends := some "\\)", contains := [.named "word"] },
    .inline { begins := some "<", ends := some ">", contains := [.named "word"] }] }

/-- The same with a copy of the word in each of them. -/
def copiedWords : Grammar where
  definitions := [("word", { className := some "w", begins := some "a", endsWithParent := true })]
  root := { contains := [
    .inline { begins := some "\\(", ends := some "\\)", contains := [
      .inline { className := some "w", begins := some "a", endsWithParent := true }] },
    .inline { begins := some "\\[", ends := some "\\)", contains := [
      .inline { className := some "w", begins := some "a", endsWithParent := true }] },
    .inline { begins := some "<", ends := some ">", contains := [
      .inline { className := some "w", begins := some "a", endsWithParent := true }] }] }

theorem bracketedWords_nonrecursive : bracketedWords.Nonrecursive where
  apart p hp h := by
    obtain ⟨other, ⟨d, hd, hother, _⟩, _⟩ := Relation.TransGen.head'_iff.mp h
    rw [List.mem_singleton.mp hp] at hd
    cases hd
    cases hother
  variants p hp v hv := by
    rw [List.mem_singleton.mp hp] at hv
    cases hv
  chains p hp := by
    rw [List.mem_singleton.mp hp]
    rfl

/-- The word is compiled for each of the two ends, and not for each bracket. -/
theorem shared_words_scan_like_copied_ones :
    bracketedWords.inlined? 4 = some copiedWords ∧
      ∃ l l', compile bracketedWords = .ok l ∧ compile copiedWords = .ok l' ∧
        l.modes.size = 6 ∧ l'.modes.size = 7 ∧
        ∀ (r : Registry) (lead : String) (depth : Nat) (text : String) (illegals : Illegals),
          (r.scan lead depth l text illegals none).map Scan.Scanned.view =
            (r.scan lead depth l' text illegals none).map Scan.Scanned.view := by
  have hinlined : bracketedWords.inlined? 4 = some copiedWords := rfl
  have hsize : (compileWithin bracketedWords 9).toOption.any (·.modes.size == 6) = true := by
    decide +kernel
  have hsize' : (compileWithin copiedWords 9).toOption.any (·.modes.size == 7) = true := by
    decide +kernel
  obtain ⟨l, hl, hsize⟩ := compile_of_any hsize
  obtain ⟨l', hl', hsize'⟩ := compile_of_any hsize'
  obtain ⟨_, hwritten⟩ := sharing_is_transparent bracketedWords bracketedWords_nonrecursive
  obtain ⟨_, hscan⟩ := hwritten 4 copiedWords hinlined
  exact ⟨hinlined, l, l', hl, hl', eq_of_beq hsize, eq_of_beq hsize', (hscan l l' hl hl').1⟩

end Highlighting
