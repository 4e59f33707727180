-- Which part of the text an element covers. The activations of modes are read
-- off the terminators alone: where a mode begins, where it ends, and what
-- follows it. An element stands in the tree for each activation of a mode with
-- a class name, with the text from the one place to the other.
--
-- At the moment at which an element opens or closes, everything before its
-- place has been put out and nothing after it. Modes that skip put nothing out
-- when they begin or end, so they must not open or close an element.
import Highlighting.Proofs.RoundTrip
import Highlighting.Proofs.ScanControl
import Highlighting.Proofs.TreeElements
import Mathlib.Data.List.Forall2
import Mathlib.Logic.Relation

namespace Highlighting

/-- A mode that skips neither shows nor passes on where it ends. -/
def CompiledMode.SkipsAlone (m : CompiledMode) : Prop :=
  m.skip = true →
    m.className = none ∧ m.endsWithParent = false ∧ m.endsParent = false ∧ m.starts = none

instance decidableSkipsAlone (m : CompiledMode) : Decidable m.SkipsAlone :=
  inferInstanceAs (Decidable (_ → _))

namespace Scan

/-! ## Activations -/

/-- A mode that has begun and the place at which its span starts. -/
structure Begun where
  mode : Nat
  start : Nat
  deriving DecidableEq, Repr

/-- A mode that has ended and the part of the text that it spans. -/
structure Span where
  mode : Nat
  start : Nat
  stop : Nat
  deriving DecidableEq, Repr

/-- Where a begun mode ends. -/
def Begun.until (b : Begun) (stop : Nat) : Span := ⟨b.mode, b.start, stop⟩

/-- The activations of a scan so far. Modes that an earlier scan began are not
among them. -/
structure Activations where
  /-- Those that go on, the innermost first. -/
  begun : List Begun := []
  /-- Those that have ended, in the order in which they ended. -/
  spans : List Span := []
  deriving DecidableEq, Repr

namespace Activations

/-- A mode begins. -/
def beginAt (a : Activations) (mode place : Nat) : Activations :=
  { a with begun := ⟨mode, place⟩ :: a.begun }

/-- The innermost `n` modes end, all at one place. -/
def endAt (a : Activations) (n place : Nat) : Activations where
  begun := a.begun.drop n
  spans := a.spans ++ (a.begun.take n).map (·.until place)

/-- The mode that follows begins, if one does. -/
def followAt (a : Activations) (next : Option Nat) (place : Nat) : Activations :=
  next.elim a (a.beginAt · place)

/-- Every mode ends. -/
def endAll (a : Activations) (place : Nat) : Activations := a.endAt a.begun.length place

end Activations

/-- Where the span of a mode starts: at its lexeme, or behind an excluded one. -/
def beginPlace (m : CompiledMode) (t : Terminator) : Nat :=
  if m.excludeBegin then t.stop else t.start

/-- Where the spans of the modes stop that a terminator ends in the mode `m`:
behind the lexeme, or before one that is excluded or returned. -/
def endPlace (m : CompiledMode) (t : Terminator) : Nat :=
  if m.returnEnd || m.excludeEnd then t.start else t.stop

/-- The activations after the next terminator of a state. Nothing begins or
ends at an illegal lexeme, at an end that no mode accepts, and at the empty end
of a mode that has just begun. -/
def Activations.after (a : Activations) (c : Context) (s : State) : Activations :=
  match s.top? c, s.nextTerminator? c with
  | some m, some t =>
    if s.isDegenerate t then a
    else match t.rule with
      | .begins id =>
        match c.language.mode? id with
        | some child => a.beginAt id (beginPlace child t)
        | none => a
      | .ends =>
        match closedBy? c t.start s.frames with
        | some n =>
          -- What follows the outermost of them starts where that one stops.
          (a.endAt n (endPlace m t)).followAt
            (((s.lastClosed? n).bind c.modeOf?).bind CompiledMode.starts) (endPlace m t)
        | none => a
      | .illegal => a
  | _, _ => a

/-- The activations after a number of steps, or after all of them. -/
def State.activations (c : Context) : Nat → State → Activations → Activations
  | 0, _, a => a
  | n + 1, s, a =>
    match s.step c with
    | .ok (.next s₁) => s₁.activations c n (a.after c s)
    | .ok (.done _) => a.after c s
    | .error _ => a

/-- The activations of a scan of at most so many steps. What goes on at the end of the text
stops there. -/
def spans (steps : Nat) (c : Context) (lead : String) (resume : Option Continuation) : List Span :=
  if c.text.isEmpty then []
  else (((startState lead resume).activations c steps {}).endAll c.text.size).spans

/-- The class name of a mode. -/
def Context.className? (c : Context) (mode : Nat) : Option String :=
  (c.language.mode? mode).bind CompiledMode.className

/-- The element that a span stands for, if its mode has a class name. -/
def Span.element? (c : Context) (lead : String) (s : Span) : Option Element :=
  (c.className? s.mode).map fun name => ⟨classNames lead name, s.start, c.slice s.start s.stop⟩

/-- The activations of modes with class names, as elements. -/
def activated (steps : Nat) (c : Context) (lead : String) (resume : Option Continuation) :
    List Element :=
  (spans steps c lead resume).filterMap (Span.element? c lead)

/-- The open element that a begun mode stands for. -/
def Begun.place? (c : Context) (lead : String) (b : Begun) : Option (List String × Nat) :=
  (c.className? b.mode).map fun name => (classNames lead name, b.start)

/-! ## What a flush adds to the tree -/

theorem emitAll_grows (ps : List Piece) (s : State) : s.tree.Grows (ps.foldl State.emit s).tree := by
  induction ps generalizing s with
  | nil => exact .refl _
  | cons p ps ih =>
    refine Tree.Builder.Grows.trans ?_ (ih (s.emit p))
    cases p with
    | text value => exact .addText _ _
    | keyword k lexeme => exact .addKeyword _ _ _

theorem embed_tree (s : State) (language : String) (weight : Nat) (e : Embedded) :
    (s.embed language weight e).tree = s.tree.addEmbedded language e.nodes := by
  unfold State.embed
  split <;> rfl

theorem flushEmbedded_grows {s s' : State} {c : Context} {language : SubLanguage} {weight : Nat}
    {text : String} (h : s.flushEmbedded c language weight text = .ok s') :
    s.tree.Grows s'.tree := by
  unfold State.flushEmbedded at h
  simp only at h
  split at h
  · cases h
    exact .addText _ _
  · split at h
    · split at h
      · obtain ⟨e, _, h⟩ := bind_eq_ok.mp h
        cases h
        rw [embed_tree]
        exact .addEmbedded _ _ _
      · cases h
        exact .addText _ _
    · obtain ⟨o, _, h⟩ := bind_eq_ok.mp h
      rcases o with _ | ⟨name, e⟩
      · cases h
        exact .addText _ _
      · cases h
        rw [embed_tree]
        exact .addEmbedded _ _ _

/-- A flush neither opens nor closes an element of its own. -/
theorem flush_grows {s s' : State} {c : Context} (h : s.flush c = .ok s') :
    s.tree.Grows s'.tree := by
  unfold State.flush at h
  simp only at h
  split at h
  · cases h
    exact .addText _ _
  · split at h
    · cases h
      exact .addText _ _
    · cases h
      exact emitAll_grows _ { s with buffer := "" }
    · split at h
      · cases h
        exact .refl _
      · exact flushEmbedded_grows (s := { s with buffer := "" }) h

theorem takeBegin_grows {s s₁ : State} {c : Context} {m : CompiledMode} {lexeme : String}
    (h : s.takeBegin c m lexeme = .ok s₁) : s.tree.Grows s₁.tree := by
  unfold State.takeBegin at h
  split at h
  · cases h
    exact .refl _
  · obtain ⟨s₂, hf, h⟩ := bind_eq_ok.mp h
    have hgrows := flush_grows hf
    cases h
    split at hgrows <;> split <;> exact hgrows

theorem takeEnd_grows {s s₁ : State} {c : Context} {m : CompiledMode} {lexeme : String}
    (h : s.takeEnd c m lexeme = .ok s₁) : s.tree.Grows s₁.tree := by
  unfold State.takeEnd at h
  split at h
  · cases h
    exact .refl _
  · obtain ⟨s₂, hf, h⟩ := bind_eq_ok.mp h
    have hgrows := flush_grows hf
    cases h
    split at hgrows <;> split <;> exact hgrows

/-- When a mode that does not skip opens, the tree has everything before it. -/
theorem takeBegin_text {s s₁ : State} {c : Context} {m : CompiledMode} {lexeme : String}
    (hc : c.PutsOut) (hskip : m.skip = false) (h : s.takeBegin c m lexeme = .ok s₁) :
    s₁.tree.text = if m.excludeBegin then s.written ++ lexeme else s.written := by
  unfold State.takeBegin at h
  rw [hskip] at h
  obtain ⟨s₂, hf, h⟩ := bind_eq_ok.mp h
  obtain ⟨htext, _⟩ := flush_text hc hf
  have htree : s₁.tree = s₂.tree := by
    cases h
    split <;> rfl
  rw [htree, htext]
  split
  · exact written_push s lexeme
  · rfl

/-- When modes close at a lexeme that is not skipped, the tree has everything
up to the place at which they stop. -/
theorem takeEnd_text {s s₁ : State} {c : Context} {m : CompiledMode} {lexeme : String}
    (hc : c.PutsOut) (hskip : m.skip = false) (h : s.takeEnd c m lexeme = .ok s₁) :
    s₁.tree.text = if m.returnEnd || m.excludeEnd then s.written else s.written ++ lexeme := by
  unfold State.takeEnd at h
  rw [hskip] at h
  obtain ⟨s₂, hf, h⟩ := bind_eq_ok.mp h
  obtain ⟨htext, _⟩ := flush_text hc hf
  have htree : s₁.tree = s₂.tree := by
    cases h
    split <;> rfl
  rw [htree, htext]
  split
  · rfl
  · exact written_push s lexeme

/-! ## The tree shows the activations -/

/-- A frame that this scan opened for a begun mode. -/
structure Opens (c : Context) (f : Frame) (b : Begun) : Prop where
  mode : f.mode = b.mode
  opened : f.opened = (c.className? b.mode).isSome

/-- The frames above those with which the scan started belong to the begun
modes, the open elements to those of them that have a class name, and every
ended one that has a class name stands among the closed elements. -/
structure Tracks (c : Context) (lead : String) (s : State) (a : Activations) : Prop where
  leads : s.tree.lead = lead
  frames : ∃ own base, s.frames = own ++ base ∧ base ≠ [] ∧ (∀ f ∈ base, f.opened = false) ∧
    List.Forall₂ (Opens c) own a.begun
  places : s.tree.places = a.begun.filterMap (Begun.place? c lead)
  closed : (a.spans.filterMap (Span.element? c lead)).Sublist s.tree.closed

section

variable {c : Context} {lead : String} {s s₁ : State} {a : Activations}

theorem Tracks.of_grows (h : Tracks c lead s a) (hgrows : s.tree.Grows s₁.tree)
    (hframes : s₁.frames = s.frames) : Tracks c lead s₁ a where
  leads := hgrows.lead.trans h.leads
  frames := hframes ▸ h.frames
  places := hgrows.places.trans h.places
  closed := h.closed.trans hgrows.closed.sublist

theorem startFrames_opened (resume : Option Continuation) :
    startFrames resume ≠ [] ∧ ∀ f ∈ startFrames resume, f.opened = false := by
  unfold startFrames
  split
  · refine ⟨by simp, ?_⟩
    intro f hf
    obtain ⟨f', _, rfl⟩ := List.mem_map.mp hf
    rfl
  · exact ⟨by simp, by simp [rootFrame]⟩

theorem tracks_start (lead : String) (resume : Option Continuation) :
    Tracks c lead { frames := startFrames resume, tree := .start lead } {} where
  leads := rfl
  frames := ⟨[], startFrames resume, rfl, (startFrames_opened resume).1,
    (startFrames_opened resume).2, .nil⟩
  places := rfl
  closed := List.nil_sublist _

/-! ### Opening -/

/-- A mode that begins where the tree stops stands for a new open element. -/
theorem Tracks.enter (h : Tracks c lead s a) (id place : Nat) (bound : Option Pattern)
    (hplace : (c.className? id).isSome → s.tree.text.length = place) :
    Tracks c lead (s.enter c id bound) (a.beginAt id place) := by
  obtain ⟨own, base, hframes, hbase, hclosed, hown⟩ := h.frames
  unfold State.enter
  rcases hname : c.className? id with _ | name
  · have hname' : (c.language.mode? id).bind CompiledMode.className = none := hname
    simp only [hname']
    refine ⟨h.leads, ⟨{ mode := id, bound } :: own, base, by simp [hframes], hbase, hclosed, ?_⟩, ?_, h.closed⟩
    · exact .cons ⟨rfl, by simp [hname]⟩ hown
    · simp [Activations.beginAt, Begun.place?, hname, h.places]
  · have hname' : (c.language.mode? id).bind CompiledMode.className = some name := hname
    simp only [hname']
    refine ⟨h.leads, ⟨{ mode := id, bound, opened := true } :: own, base, by simp [hframes], hbase,
      hclosed, ?_⟩, ?_, ?_⟩
    · exact .cons ⟨rfl, by simp [hname]⟩ hown
    · rw [Tree.Builder.places_openElement, h.places, h.leads, hplace (by simp [hname])]
      simp [Activations.beginAt, Begun.place?, hname]
    · rw [Tree.Builder.closed_openElement]
      exact h.closed

/-! ### Closing -/

theorem endAt_succ (a : Activations) (n place : Nat) :
    a.endAt (n + 1) place = (a.endAt 1 place).endAt n place := by
  rcases hb : a.begun with _ | ⟨b, begun⟩ <;> simp [Activations.endAt, hb]

theorem Context.drop_slice (c : Context) (i j : Nat) :
    String.ofList ((c.slice 0 j).toList.drop i) = c.slice i j := by
  simp [Context.slice, Regex.slice, List.extract_eq_take_drop, List.drop_take]

theorem leave_tree (s : State) (c : Context) {f : Frame} {frames : List Frame}
    (h : s.frames = f :: frames) :
    (s.leave c).tree = if f.opened then s.tree.close else s.tree := by
  unfold State.leave
  simp only [h]
  split
  · rfl
  · split <;> rfl

/-- With no mode of its own open, the scan leaves a frame with which it
started, and nothing was opened for that. -/
theorem Tracks.leave_base (h : Tracks c lead s a) (hb : a.begun = []) (place : Nat)
    (hroot : 1 < s.frames.length) : Tracks c lead (s.leave c) (a.endAt 1 place) := by
  obtain ⟨own, base, hframes, hbase, hclosed, hown⟩ := h.frames
  rw [hb, List.forall₂_nil_right_iff] at hown
  subst hown
  rw [List.nil_append] at hframes
  rcases base with _ | ⟨f, base⟩
  · exact absurd rfl hbase
  · have htail : (s.leave c).frames = base := by rw [leave_frames, hframes, List.tail_cons]
    have htree : (s.leave c).tree = s.tree := by
      rw [leave_tree s c hframes, hclosed f List.mem_cons_self]
      rfl
    refine ⟨htree ▸ h.leads, ⟨[], base, htail, ?_, ?_, ?_⟩, ?_, ?_⟩
    · intro hnil
      rw [hframes, hnil] at hroot
      exact absurd hroot (Nat.lt_irrefl 1)
    · exact fun f' hf' => hclosed f' (List.mem_cons_of_mem _ hf')
    · simp [Activations.endAt, hb]
    · rw [htree, h.places]
      simp [Activations.endAt, hb]
    · rw [htree]
      simpa [Activations.endAt, hb] using h.closed

/-- Leaving the innermost begun mode `b` does what its element asks for. -/
theorem Tracks.leave_begun (h : Tracks c lead s a) {b : Begun} {begun : List Begun}
    (hb : a.begun = b :: begun) (place : Nat)
    (hplaces : (if (c.className? b.mode).isSome then s.tree.close else s.tree).places =
      begun.filterMap (Begun.place? c lead))
    (hclosed : (a.spans.filterMap (Span.element? c lead) ++
      ((b.until place).element? c lead).toList).Sublist
        (if (c.className? b.mode).isSome then s.tree.close else s.tree).closed) :
    Tracks c lead (s.leave c) (a.endAt 1 place) := by
  obtain ⟨own, base, hframes, hbase, hbaseClosed, hown⟩ := h.frames
  rw [hb] at hown
  obtain ⟨f, own', hf, hown', rfl⟩ := List.forall₂_cons_right_iff.mp hown
  rw [List.cons_append] at hframes
  have htree := leave_tree s c hframes
  rw [hf.opened] at htree
  have hspans : (a.endAt 1 place).spans = a.spans ++ [b.until place] := by
    simp [Activations.endAt, hb]
  have hbegun : (a.endAt 1 place).begun = begun := by simp [Activations.endAt, hb]
  refine ⟨?_, ⟨own', base, ?_, hbase, hbaseClosed, hbegun ▸ hown'⟩, ?_, ?_⟩
  · rw [htree]
    split
    · exact (Tree.Builder.lead_close _).trans h.leads
    · exact h.leads
  · rw [leave_frames, hframes, List.tail_cons]
  · rw [htree, hbegun]
    exact hplaces
  · have hone : [b.until place].filterMap (Span.element? c lead) =
        ((b.until place).element? c lead).toList := by
      rcases he : (b.until place).element? c lead with _ | e <;> simp [he]
    rw [htree, hspans, List.filterMap_append, hone]
    exact hclosed

/-- A mode without a class name has no element to close. -/
theorem Tracks.leave_nameless (h : Tracks c lead s a) {b : Begun} {begun : List Begun}
    (hb : a.begun = b :: begun) (hname : c.className? b.mode = none) (place : Nat) :
    Tracks c lead (s.leave c) (a.endAt 1 place) := by
  have helement : (b.until place).element? c lead = none := by
    simp [Begun.until, Span.element?, hname]
  have hplace? : b.place? c lead = none := by simp [Begun.place?, hname]
  have hplaces := h.places
  rw [hb, List.filterMap_cons, hplace?] at hplaces
  apply h.leave_begun hb place
  · rw [hname]
    exact hplaces
  · rw [hname, helement, Option.toList_none, List.append_nil]
    exact h.closed

/-- A mode that ends where the tree stops closes its element there. -/
theorem Tracks.leave (h : Tracks c lead s a) {place : Nat}
    (htext : s.tree.text = c.slice 0 place) (hroot : 1 < s.frames.length) :
    Tracks c lead (s.leave c) (a.endAt 1 place) := by
  rcases hb : a.begun with _ | ⟨b, begun⟩
  · exact h.leave_base hb place hroot
  · rcases hname : c.className? b.mode with _ | name
    · exact h.leave_nameless hb hname place
    · have hplace? : b.place? c lead = some (classNames lead name, b.start) := by
        simp [Begun.place?, hname]
      have helement : (b.until place).element? c lead =
          some ⟨classNames lead name, b.start, c.slice b.start place⟩ := by
        simp [Begun.until, Span.element?, hname]
      have hplaces := h.places
      rw [hb, List.filterMap_cons, hplace?] at hplaces
      obtain ⟨hrest, hnew⟩ := Tree.Builder.close_of_places hplaces
      apply h.leave_begun hb place
      · rw [hname]
        exact hrest
      · rw [hname, helement, Option.isSome_some, if_pos rfl, hnew, htext, c.drop_slice]
        exact h.closed.append_right _

theorem leave_text (s : State) (c : Context) : (s.leave c).tree.text = s.tree.text := by
  rcases hf : s.frames with _ | ⟨f, frames⟩
  · simp [State.leave, hf]
  · rw [leave_tree s c hf]
    split
    · exact Tree.Builder.text_close _
    · rfl

theorem leaveAll_text (s : State) (c : Context) (n : Nat) :
    (s.leaveAll c n).tree.text = s.tree.text := by
  induction n generalizing s with
  | zero => rfl
  | succ n ih => rw [State.leaveAll, ih, leave_text]

theorem Tracks.leaveAll (h : Tracks c lead s a) {place n : Nat}
    (htext : s.tree.text = c.slice 0 place) (hroot : n < s.frames.length) :
    Tracks c lead (s.leaveAll c n) (a.endAt n place) := by
  induction n generalizing s a with
  | zero =>
    have hend : a.endAt 0 place = a := by simp [Activations.endAt]
    rw [hend]
    exact h
  | succ n ih =>
    rw [State.leaveAll, endAt_succ]
    apply ih (h.leave htext (by omega))
    · rw [leave_text, htext]
    · rw [leave_frames, List.length_tail]
      omega

/-! ### One step -/

theorem Context.length_slice (c : Context) {i : Nat} (h : i ≤ c.text.size) :
    (c.slice 0 i).length = i := Scan.length_slice h

theorem forceChar_sameTree (s : State) (c : Context) (pos : Nat) :
    (s.forceChar c pos).state.tree = s.tree ∧ (s.forceChar c pos).state.frames = s.frames := by
  unfold State.forceChar
  split <;> exact ⟨rfl, rfl⟩

theorem asText_sameTree (s : State) (c : Context) (t : Terminator) :
    (s.asText c t).state.tree = s.tree ∧ (s.asText c t).state.frames = s.frames := by
  unfold State.asText
  split
  · exact ⟨rfl, rfl⟩
  · exact forceChar_sameTree s c t.start

theorem Tracks.of_sameTree (h : Tracks c lead s a) (hsame : s₁.tree = s.tree ∧ s₁.frames = s.frames) :
    Tracks c lead s₁ a :=
  h.of_grows (hsame.1 ▸ .refl _) hsame.2

theorem after_begins {m child : CompiledMode} {t : Terminator} {id : Nat} (hm : s.top? c = some m)
    (hnext : s.nextTerminator? c = some t) (hdegenerate : s.isDegenerate t = false)
    (hrule : t.rule = .begins id) (hchild : c.language.mode? id = some child) :
    a.after c s = a.beginAt id (beginPlace child t) := by
  simp [Activations.after, hm, hnext, hdegenerate, hrule, hchild]

theorem after_ends {m : CompiledMode} {t : Terminator} {n : Nat} (hm : s.top? c = some m)
    (hnext : s.nextTerminator? c = some t) (hdegenerate : s.isDegenerate t = false)
    (hrule : t.rule = .ends) (hclosed : closedBy? c t.start s.frames = some n) :
    a.after c s = (a.endAt n (endPlace m t)).followAt
      (((s.lastClosed? n).bind c.modeOf?).bind CompiledMode.starts) (endPlace m t) := by
  simp [Activations.after, hm, hnext, hdegenerate, hrule, hclosed]

theorem Tracks.follow (h : Tracks c lead s a) (closed : Option Frame) (place : Nat)
    (hplace : ((closed.bind c.modeOf?).bind CompiledMode.starts).isSome →
      s.tree.text.length = place) :
    Tracks c lead (s.follow c closed)
      (a.followAt ((closed.bind c.modeOf?).bind CompiledMode.starts) place) := by
  unfold State.follow
  rcases closed with _ | f
  · exact h
  · rcases hm : c.modeOf? f with _ | m
    · simpa [continuation?, hm, Activations.followAt] using h
    · rcases hstarts : m.starts with _ | next
      · simpa [continuation?, hm, hstarts, Activations.followAt] using h
      · have hlength : s.tree.text.length = place := hplace (by simp [hm, hstarts])
        simpa [continuation?, hm, hstarts, Activations.followAt] using
          h.enter next place _ fun _ => hlength

/-! ### Modes that skip -/

/-- A mode that does not end with its parent, nor its parent with it, ends alone. -/
theorem closedBy?_alone {m : CompiledMode} {pos n : Nat} {f : Frame} {below : List Frame}
    (hm : c.modeOf? f = some m) (hwith : m.endsWithParent = false) (hends : m.endsParent = false)
    (h : closedBy? c pos (f :: below) = some n) : n = 1 := by
  have hbelow : below ≠ [] := by
    rintro rfl
    cases h
  have hparents : parentsEnded c (f :: below) = 0 := by
    by_cases htwo : 2 ≤ below.length
    · rw [parentsEnded_of_two c f htwo, hm]
      simp [hends]
    · exact parentsEnded_of_few c f htwo
  rw [closedBy?_cons c pos f hbelow] at h
  simp only [hm, hparents, hwith] at h
  split at h
  · cases h
    rfl
  · cases h

/-- A mode that skips ends without a trace in the tree. -/
theorem Tracks.leave_skipped (h : Tracks c lead s a) {f : Frame} {below : List Frame}
    (hframes : s.frames = f :: below) (hname : c.className? f.mode = none) (place : Nat)
    (hroot : 1 < s.frames.length) : Tracks c lead (s.leave c) (a.endAt 1 place) := by
  rcases hb : a.begun with _ | ⟨b, begun⟩
  · exact h.leave_base hb place hroot
  · apply h.leave_nameless hb
    obtain ⟨own, base, hown, _, _, hopens⟩ := h.frames
    rw [hb] at hopens
    obtain ⟨f', own', hf, _, rfl⟩ := List.forall₂_cons_right_iff.mp hopens
    rw [hframes] at hown
    cases hown
    rw [← hf.mode, hname]

/-! ### The two turns -/

theorem reached_written (hc : c.KeepsText) (hs : Aligned c s) {t : Terminator}
    (hnext : s.nextTerminator? c = some t) :
    ((s.reach c t).note t).written = c.slice 0 t.start := by
  have hb := nextTerminator?_bounds hc.toSound hnext
  calc ((s.reach c t).note t).written
      = (s.push (c.slice s.cursor t.start)).written := rfl
    _ = s.written ++ c.slice s.cursor t.start := written_push _ _
    _ = c.slice 0 t.start := by rw [hs.written, c.slice_append (Nat.zero_le _) hb.1]

/-- A mode that begins is tracked from its place on. -/
theorem tracks_begin (hc : c.KeepsText) (hskips : ∀ m ∈ c.language.modes, m.SkipsAlone)
    (hs : Aligned c s) (h : Tracks c lead s a) {t : Terminator} {id : Nat} {child : CompiledMode}
    (hnext : s.nextTerminator? c = some t) (hchild : c.language.mode? id = some child)
    (hbegin : ((s.reach c t).note t).beginMode c id t = .ok s₁) :
    Tracks c lead s₁ (a.beginAt id (beginPlace child t)) := by
  have hb := nextTerminator?_bounds hc.toSound hnext
  have hwritten := reached_written hc hs hnext
  have hreached : Tracks c lead ((s.reach c t).note t) a := h.of_sameTree ⟨rfl, rfl⟩
  obtain ⟨bound, s₂, _, htake, rfl⟩ := (beginMode_eq_ok hchild).mp hbegin
  have htracks : Tracks c lead s₂ a :=
    hreached.of_grows (takeBegin_grows htake) (takeBegin_sameControl _ _ _ _ _ htake).frames
  refine (htracks.enter id (beginPlace child t) bound ?_).of_sameTree ⟨rfl, rfl⟩
  intro hname
  have hskip : child.skip = false := by
    by_contra hskip
    have hnone := (hskips child (Array.mem_of_getElem? hchild) (by simpa using hskip)).1
    simp [Context.className?, hchild, hnone] at hname
  have htext : s₂.tree.text = c.slice 0 (beginPlace child t) := by
    rw [takeBegin_text hc.putsOut hskip htake, hwritten, c.slice_append (Nat.zero_le _) hb.2.1]
    unfold beginPlace
    split <;> rfl
  rw [htext]
  apply c.length_slice
  unfold beginPlace
  split <;> omega

/-- Modes that end are tracked up to their place, and what follows them from
there on. -/
theorem tracks_end (hc : c.KeepsText) (hskips : ∀ m ∈ c.language.modes, m.SkipsAlone)
    (hs : Aligned c s) (h : Tracks c lead s a) {t : Terminator} {n : Nat} {m : CompiledMode}
    (hm : s.top? c = some m) (hnext : s.nextTerminator? c = some t)
    (hclosed : closedBy? c t.start s.frames = some n)
    (hend : ((s.reach c t).note t).endModes c n t = .ok s₁) :
    Tracks c lead s₁ ((a.endAt n (endPlace m t)).followAt
      (((s.lastClosed? n).bind c.modeOf?).bind CompiledMode.starts) (endPlace m t)) := by
  have hb := nextTerminator?_bounds hc.toSound hnext
  have hwritten := reached_written hc hs hnext
  have hreached : Tracks c lead ((s.reach c t).note t) a := h.of_sameTree ⟨rfl, rfl⟩
  have hm' : ((s.reach c t).note t).top? c = some m := hm
  obtain ⟨s₂, htake, rfl⟩ := (endModes_eq_ok hm').mp hend
  have hframes : s₂.frames = s.frames := (takeEnd_sameControl _ _ _ _ _ htake).frames
  have htracks : Tracks c lead s₂ a := hreached.of_grows (takeEnd_grows htake) hframes
  rcases hskip : m.skip with _ | _
  · have htext : s₂.tree.text = c.slice 0 (endPlace m t) := by
      rw [takeEnd_text hc.putsOut hskip htake, hwritten, c.slice_append (Nat.zero_le _) hb.2.1]
      unfold endPlace
      split <;> rfl
    have hplace : endPlace m t ≤ c.text.size := by
      unfold endPlace
      split <;> omega
    have hleft := htracks.leaveAll htext (hframes ▸ (closedBy?_lt hclosed).2)
    refine (hleft.follow (s.lastClosed? n) _ fun _ => ?_).of_sameTree ⟨rfl, rfl⟩
    rw [leaveAll_text, htext, c.length_slice hplace]
  · obtain ⟨hname, hwith, hends, hstarts⟩ := hskips m (top?_mem hm) hskip
    obtain ⟨f, hf, hmode⟩ := Option.bind_eq_some_iff.mp hm
    obtain ⟨below, hbelow⟩ := List.head?_eq_some_iff.mp hf
    rw [hbelow] at hclosed
    have hone : n = 1 := closedBy?_alone hmode hwith hends hclosed
    subst hone
    have hroot : 1 < s₂.frames.length := by
      rw [hframes, hbelow]
      exact (closedBy?_lt hclosed).2
    have hclass : c.className? f.mode = none := by
      rw [Context.className?, Option.bind_eq_none_iff]
      intro m' hm''
      have hmm : m' = m := Option.some.inj (hm''.symm.trans hmode)
      rw [hmm, hname]
    have hleft := htracks.leave_skipped (hframes.trans hbelow) hclass (endPlace m t) hroot
    have hfollow : ((s.lastClosed? 1).bind c.modeOf?).bind CompiledMode.starts = none := by
      simp [State.lastClosed?, hbelow, hmode, hstarts]
    refine (hleft.follow (s.lastClosed? 1) _ fun hsome => ?_).of_sameTree ⟨rfl, rfl⟩
    rw [hfollow] at hsome
    cases hsome

/-- Every step keeps the tree and the activations together. -/
theorem tracks_step (hc : c.KeepsText) (hskips : ∀ m ∈ c.language.modes, m.SkipsAlone)
    (hs : Aligned c s) (h : Tracks c lead s a) {o : Outcome} (hstep : s.step c = .ok o) :
    Tracks c lead o.state (a.after c s) := by
  cases takes_of_step hstep with
  | done hnext =>
    have hafter : a.after c s = a := by
      rcases hm : s.top? c with _ | m <;> simp [Activations.after, hm, hnext]
    rw [hafter]
    exact h
  | forced t hnext hdegenerate =>
    obtain ⟨m, hm, _⟩ := nextTerminator?_some hnext
    have hdegenerate' : s.isDegenerate t = true := hdegenerate
    have hafter : a.after c s = a := by simp [Activations.after, hm, hnext, hdegenerate']
    rw [hafter]
    exact h.of_sameTree (forceChar_sameTree (s.reach c t) c t.start)
  | text t hnext hdegenerate hrule =>
    obtain ⟨m, hm, _⟩ := nextTerminator?_some hnext
    have hdegenerate' : s.isDegenerate t = false := hdegenerate
    have hafter : a.after c s = a := by
      rcases hrule with ⟨hrule, hclosed⟩ | hrule
      · simp [Activations.after, hm, hnext, hdegenerate', hrule, hclosed]
      · simp [Activations.after, hm, hnext, hdegenerate', hrule]
    rw [hafter]
    exact h.of_sameTree (asText_sameTree ((s.reach c t).note t) c t)
  | begins t id s' hnext hdegenerate hrule hbegin =>
    obtain ⟨m, hm, _⟩ := nextTerminator?_some hnext
    obtain ⟨child, hchild⟩ := nextTerminator?_begins hc.toSound hnext hrule
    rw [after_begins hm hnext hdegenerate hrule hchild]
    exact tracks_begin hc hskips hs h hnext hchild hbegin
  | ends t n s' hnext hdegenerate hrule hclosed hend =>
    obtain ⟨m, hm, _⟩ := nextTerminator?_some hnext
    rw [after_ends hm hnext hdegenerate hrule hclosed]
    exact tracks_end hc hskips hs h hm hnext hclosed hend

/-! ### A whole run -/

theorem tracks_run (hc : c.KeepsText) (hskips : ∀ m ∈ c.language.modes, m.SkipsAlone) (n : Nat)
    (hs : Aligned c s) (h : Tracks c lead s a) (hrun : State.run c n s = .ok s₁) :
    Tracks c lead s₁ (s.activations c n a) := by
  induction n generalizing s a with
  | zero => cases hrun
  | succ n ih =>
    rw [State.run] at hrun
    obtain ⟨o, ho, hrun⟩ := bind_eq_ok.mp hrun
    have htracks := tracks_step hc hskips hs h ho
    rw [State.activations, ho]
    rcases o with s₂ | s₂
    · exact ih (aligned_step hc hs ho) htracks hrun
    · cases hrun
      exact htracks

theorem endAt_of_le (a : Activations) {n : Nat} (h : a.begun.length ≤ n) (place : Nat) :
    a.endAt n place = a.endAll place := by
  simp [Activations.endAll, Activations.endAt, List.take_of_length_le h, List.drop_of_length_le h]

theorem Tracks.length_begun (h : Tracks c lead s a) : a.begun.length < s.frames.length := by
  obtain ⟨own, base, hframes, hbase, _, hown⟩ := h.frames
  have hlength := List.length_pos_iff.mpr hbase
  rw [hframes, List.length_append, hown.length_eq]
  omega

/-- The end of the text closes every element that is still open. -/
theorem tracks_finish (hc : c.KeepsText) (hs : Aligned c s) (h : Tracks c lead s a) {r : Scanned}
    (hfinish : s.finish c = .ok r) :
    ((a.endAll c.text.size).spans.filterMap (Span.element? c lead)).Sublist
      (Node.elementsAll 0 r.nodes) := by
  unfold State.finish at hfinish
  obtain ⟨s₂, hf, hfinish⟩ := bind_eq_ok.mp hfinish
  cases hfinish
  have htext : s₂.tree.text = c.slice 0 c.text.size := by
    rw [(flush_text hc.putsOut hf).1, written_push, hs.written,
      c.slice_append (Nat.zero_le _) hs.inText]
  have hpushed : Tracks c lead (s.push (c.slice s.cursor c.text.size)) a :=
    h.of_sameTree ⟨rfl, rfl⟩
  have htracks : Tracks c lead s₂ a :=
    hpushed.of_grows (flush_grows hf) (flush_sameControl _ _ _ hf).frames
  have hbegun := htracks.length_begun
  have hclosed := htracks.leaveAll htext (show s₂.frames.length - 1 < s₂.frames.length by omega)
  rw [endAt_of_le a (by omega)] at hclosed
  have hplaces : (s₂.leaveAll c (s₂.frames.length - 1)).tree.places = [] := by
    rw [hclosed.places]
    simp [Activations.endAll, Activations.endAt]
  rw [Tree.Builder.elementsAll_finish hplaces]
  exact hclosed.closed

/-- Every span of a mode with a class name is an element of the tree. -/
theorem scanWithin_shows_spans (hc : c.KeepsText) (hskips : ∀ m ∈ c.language.modes, m.SkipsAlone)
    {steps : Nat} {resume : Option Continuation} {r : Scanned}
    (h : scanWithin steps c lead resume = .ok r) :
    (activated steps c lead resume).Sublist (Node.elementsAll 0 r.nodes) := by
  unfold activated spans
  rcases scanWithin_eq_ok.mp h with ⟨hempty, _⟩ | ⟨hempty, s, hrun, hfinish⟩
  · rw [if_pos hempty]
    exact List.nil_sublist _
  · rw [hempty]
    have hstart : Aligned c (startState lead resume) := by
      refine ⟨Nat.zero_le _, ?_⟩
      simp [startState, State.written, Context.slice, Regex.slice]
    exact tracks_finish hc (aligned_run hc _ hstart hrun)
      (tracks_run hc hskips _ hstart (tracks_start lead resume) hrun) hfinish

end

end Scan

/-! ## Embedded languages -/

/-- A mode of the one language embeds the other. -/
def Registry.Embeds (r : Registry) (l l' : CompiledLanguage) : Prop :=
  ∃ m ∈ l.modes, ∃ sub, m.dispatch = .embedded sub ∧ ∃ name ∈ r.namesOf sub, ∃ language,
    r.resolve? name = some language ∧ language.grammar.CompilesTo l'

/-- The language and all that it embeds, at any depth, keep their text. -/
def Registry.KeepsTextFrom (r : Registry) (l : CompiledLanguage) : Prop :=
  ∀ l', Relation.ReflTransGen r.Embeds l l' → l'.KeepsText

/-- In a registry that keeps texts only the language itself matters. -/
theorem keepsTextFrom_of_registry {r : Registry} (hr : r.KeepsText) {l : CompiledLanguage}
    (hl : l.KeepsText) : r.KeepsTextFrom l := by
  intro l' h
  cases h with
  | refl => exact hl
  | tail _ hembeds =>
    obtain ⟨_, _, _, _, _, _, language, hlanguage, hcompiled⟩ := hembeds
    obtain ⟨p, hp, rfl⟩ := resolve?_mem hlanguage
    exact hr p hp l' hcompiled

theorem Registry.KeepsTextFrom.embedded {r : Registry} {l : CompiledLanguage}
    (hl : r.KeepsTextFrom l) : ∀ l', r.Embeds l l' → r.KeepsTextFrom l' :=
  fun _ hembeds l'' h'' => hl l'' (.head hembeds h'')

/-- What a language embeds gives its text back if all that can be reached from
there does, whatever else is registered. -/
theorem hostWithin_keepsTextAs {r : Registry} (limits : Option Limits) (lead : String) (n : Nat)
    {l : CompiledLanguage} (hl : ∀ l', r.Embeds l l' → r.KeepsTextFrom l') :
    ∀ h, hostWithin limits r lead n = some h → ∀ m ∈ l.modes, ∀ sub,
      m.dispatch = .embedded sub → h.KeepsTextAs sub := by
  induction n generalizing l with
  | zero =>
    intro h hh
    cases hh
  | succ n ih =>
    intro h hh m hm sub hsub
    -- A language that is found under one of the names is embedded, so its own
    -- scan keeps the text.
    have hname : ∀ name ∈ r.namesOf sub, ∀ text illegals resume res,
        highlightWithin limits r lead (hostWithin limits r lead n) name text illegals resume = .ok res →
        res.1.text = text ∧ res.1.secondBest = none := by
      intro name hname text illegals resume res hres
      refine highlightWithin_text_of_scan ?_ hres
      intro language l' steps s hlanguage hcompiled hscan
      have hembeds : r.Embeds l l' := ⟨m, hm, sub, hsub, name, hname, language, hlanguage, hcompiled⟩
      have hl' : r.KeepsTextFrom l' := hl l' hembeds
      have hhost := ih hl'.embedded
      rw [scanUnder_text (context_keepsText hcompiled (hl' l' .refl) hhost _ _) hscan]
      exact slice_toArray _ rfl
    cases hh
    cases sub with
    | name name =>
      intro text resume e he
      obtain ⟨res, hres, he⟩ := bind_eq_ok.mp he
      cases he
      exact (hname name (by simp [Registry.namesOf]) _ _ _ _ hres).1
    | candidates names =>
      intro text name e he
      obtain ⟨res, hres, he⟩ := bind_eq_ok.mp he
      rw [pure_eq_ok, Option.map_eq_some_iff] at he
      obtain ⟨found, _, he⟩ := he
      cases he
      refine (detectWithin_text_of_candidates ?_ hres).first
      intro name hcandidate
      refine hname name ?_ _ _ _
      unfold Registry.namesOf
      simp only
      split at hcandidate <;> simp_all

/-- Nothing is embedded out of an empty registry. -/
theorem not_embeds_empty {l l' : CompiledLanguage} : ¬ Registry.Embeds {} l l' := by
  rintro ⟨_, _, _, _, _, _, language, hlanguage, _⟩
  obtain ⟨p, hp, _⟩ := resolve?_mem hlanguage
  cases hp

/-- A language that compiled, whose patterns stay in the text and which embeds what keeps
its text, puts out what it collected. -/
theorem putsOut_of_compile {r : Registry} {g : Grammar} {c : Scan.Context}
    (hg : g.CompilesTo c.language) (hpatterns : ∀ m ∈ c.language.modes, m.StaysInText)
    {limits : Option Limits} {lead : String} {n : Nat} (hhost : c.host = hostWithin limits r lead n)
    (hembedded : ∀ l, r.Embeds c.language l → r.KeepsTextFrom l) : c.PutsOut where
  staysInText := hpatterns
  refersTo := let ⟨_, h⟩ := hg; compileWithin_refersTo h
  host h hh m hm language hlanguage :=
    hostWithin_keepsTextAs limits lead n hembedded h (hhost.symm.trans hh) m hm language hlanguage

/-! ## Elements and activations -/

/-- In every scan that comes out, each activation of a mode with a class name has an element in
the tree, in the order in which they end: at the place where the activation starts, and with the
text from there to where it stops. Without a limit the activations are those of any number of
steps that is large enough. -/
theorem elements_cover_their_activations (r : Registry) (g : Grammar) (l : CompiledLanguage)
    (hg : compile g = .ok l) (htext : r.KeepsTextFrom l) (hskips : ∀ m ∈ l.modes, m.SkipsAlone)
    (lead text : String) (illegals : Illegals) (resume : Option Scan.Continuation) :
    (∀ limits level steps s, let c : Scan.Context :=
        { host := hostWithin limits r lead level, language := l, text := text.toList.toArray, illegals }
      Scan.scanWithin steps c lead resume = .ok s →
        (Scan.activated steps c lead resume).Sublist (Node.elementsAll 0 s.nodes)) ∧
    ∀ depth s, let c : Scan.Context :=
        { host := hostAt r lead depth, language := l, text := text.toList.toArray, illegals }
      r.scan lead depth l text illegals resume = .ok s →
        ∃ enough, ∀ steps, enough ≤ steps → Scan.scanWithin steps c lead resume = .ok s ∧
          (Scan.activated steps c lead resume).Sublist (Node.elementsAll 0 s.nodes) := by
  have hkeeps : ∀ limits level, Scan.Context.KeepsText
      { host := hostWithin limits r lead level, language := l, text := text.toList.toArray, illegals } :=
    fun limits level => context_keepsText (compilesTo_iff.mpr hg) (htext l .refl)
      (hostWithin_keepsTextAs limits lead level htext.embedded) _ _
  refine ⟨fun limits level steps s h =>
    Scan.scanWithin_shows_spans (hkeeps limits level) hskips h, ?_⟩
  intro depth s c h
  obtain ⟨enough, henough⟩ := Scan.exists_scanWithin_eq_scan c lead resume
  refine ⟨enough, fun steps hsteps => ?_⟩
  have hwithin := (henough steps hsteps).trans h
  have hc := hkeeps none (embeddingLimit - depth)
  rw [hostWithin_none] at hc
  exact ⟨hwithin, Scan.scanWithin_shows_spans hc hskips hwithin⟩

/-- Angle brackets in which an `x` opens a mode that ends with them and leaves
the bracket to what follows, which embeds a language. -/
def following : Grammar :=
  { root := { contains := [.inline {
      className := some "s"
      begins := some "<"
      ends := some ">"
      contains := [.inline
        { className := some "w", begins := some "x", endsWithParent := true, excludeEnd := true }]
      starts := some (.inline
        { className := some "t", ends := some ";", subLanguage := some (.name "q") }) }] } }

/-- The scan of a text with that language, in a registry that knows what it embeds. -/
def followingScan (l : CompiledLanguage) (text : String) : Scan.Context where
  host := hostWithin (some .few) quotingTwice "" embeddingLimit
  language := l
  text := text.toList.toArray
  illegals := .ignore

theorem following_covers_its_activations :
    ∃ l s, compile following = .ok l ∧ quotingTwice.scan "" 0 l "a<bxc>d;e" .ignore none = .ok s ∧
      (Scan.activated 99 (followingScan l "a<bxc>d;e") "" none).map (fun e => (e.start, e.text)) =
        [(3, "xc"), (1, "<bxc"), (5, ">d;")] ∧
      (Scan.activated 99 (followingScan l "a<bxc>d;e") "" none).Sublist
        (Node.elementsAll 0 s.nodes) := by
  have hmodes : ((compileWithin following Limits.few.depth).toOption.any fun l =>
      l.modes.all (fun m => decide m.TakesOnce && !m.keeps) &&
        l.modes.all (fun m => decide m.SkipsAlone) &&
        (Scan.scanWithin 99 (followingScan l "a<bxc>d;e") "" none).isOk &&
        (Scan.activated 99 (followingScan l "a<bxc>d;e") "" none).map (fun e => (e.start, e.text)) ==
          [(3, "xc"), (1, "<bxc"), (5, ">d;")]) = true := by decide +kernel
  obtain ⟨l, hl, hmodes⟩ := toOption_any_eq_true.mp hmodes
  simp only [Bool.and_eq_true, beq_iff_eq] at hmodes
  obtain ⟨⟨⟨hkeeps, hskips⟩, hok⟩, hactivated⟩ := hmodes
  have hskips' : ∀ m ∈ l.modes, m.SkipsAlone := by
    intro m hm
    simpa using Array.all_eq_true_iff_forall_mem.mp hskips m hm
  obtain ⟨s, hs⟩ := exists_of_isOk hok
  have hwithin : Scan.scanUnder (some 99) (followingScan l "a<bxc>d;e") "" none = .ok s := hs
  have hs' : quotingTwice.scan "" 0 l "a<bxc>d;e" .ignore none = .ok s :=
    scan_of_within hwithin not_ofLimits_of_ok
  have hl' := compile_of_compileWithin hl
  have hfrom := keepsTextFrom_of_registry quotingTwice_keepsText
    (CompiledLanguage.keepsText_of_all hkeeps)
  obtain ⟨hcover, _⟩ := elements_cover_their_activations quotingTwice following l hl' hfrom hskips'
    "" "a<bxc>d;e" .ignore none
  exact ⟨l, s, hl', hs', hactivated, hcover (some .few) embeddingLimit 99 s hs⟩

end Highlighting
