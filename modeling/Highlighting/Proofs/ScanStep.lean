-- What one step of a scan can do. Putting out the buffer changes the tree,
-- the buffer, the score and the continuations, and nothing else. A step is
-- one of five: the scan is done, a character or a lexeme is taken as text, a
-- mode opens, or modes close. Every law of a scan is read off these.
import Highlighting.Proofs.Fallible
import Highlighting.Scan.Run

namespace Highlighting.Scan

/-! ## What a flush leaves alone -/

/-- The two states agree in what decides where the scan goes next. -/
structure SameControl (s s' : State) : Prop where
  cursor : s'.cursor = s.cursor
  frames : s'.frames = s.frames
  last : s'.last = s.last

namespace SameControl

theorem refl (s : State) : SameControl s s := ⟨rfl, rfl, rfl⟩

theorem trans {s₁ s₂ s₃ : State} (h : SameControl s₁ s₂) (h' : SameControl s₂ s₃) :
    SameControl s₁ s₃ :=
  ⟨h'.cursor.trans h.cursor, h'.frames.trans h.frames, h'.last.trans h.last⟩

theorem push (s : State) (text : String) : SameControl s (s.push text) := ⟨rfl, rfl, rfl⟩

end SameControl

theorem emit_sameControl (s : State) (p : Piece) : SameControl s (s.emit p) := by
  cases p <;> exact ⟨rfl, rfl, rfl⟩

theorem emitAll_sameControl (ps : List Piece) (s : State) :
    SameControl s (ps.foldl State.emit s) := by
  induction ps generalizing s with
  | nil => exact .refl s
  | cons p ps ih => exact (emit_sameControl s p).trans (ih _)

theorem embed_sameControl (s : State) (language : String) (weight : Nat) (e : Embedded) :
    SameControl s (s.embed language weight e) := by
  unfold State.embed
  split <;> exact ⟨rfl, rfl, rfl⟩

theorem flushEmbedded_sameControl (s s' : State) (c : Context) (language : SubLanguage)
    (weight : Nat) (text : String) (h : s.flushEmbedded c language weight text = .ok s') :
    SameControl s s' := by
  unfold State.flushEmbedded at h
  simp only at h
  split at h
  · cases h; exact ⟨rfl, rfl, rfl⟩
  · split at h
    · split at h
      · obtain ⟨e, _, h⟩ := bind_eq_ok.mp h
        rw [pure_eq_ok] at h
        subst h
        refine SameControl.trans ?_ (embed_sameControl _ _ _ _)
        exact ⟨rfl, rfl, rfl⟩
      · cases h; exact ⟨rfl, rfl, rfl⟩
    · obtain ⟨o, _, h⟩ := bind_eq_ok.mp h
      rcases o with _ | ⟨name, e⟩
      · cases h; exact ⟨rfl, rfl, rfl⟩
      · cases h; exact embed_sameControl _ _ _ _

theorem flush_sameControl (s s' : State) (c : Context) (h : s.flush c = .ok s') :
    SameControl s s' := by
  have hcleared : SameControl s { s with buffer := "" } := ⟨rfl, rfl, rfl⟩
  unfold State.flush at h
  simp only at h
  split at h
  · cases h; exact ⟨rfl, rfl, rfl⟩
  · split at h
    · cases h; exact ⟨rfl, rfl, rfl⟩
    · cases h
      exact hcleared.trans (emitAll_sameControl _ _)
    · split at h
      · cases h; exact hcleared
      · exact hcleared.trans (flushEmbedded_sameControl _ _ _ _ _ _ h)

/-! ## Opening a mode -/

/-- Takes the lexeme at which a mode begins: it goes to the mode around it, to
the mode itself, or to neither. -/
def State.takeBegin (s : State) (c : Context) (m : CompiledMode) (lexeme : String) :
    Except HighlightError State :=
  if m.skip then .ok (s.push lexeme)
  else do
    let s ← (if m.excludeBegin then s.push lexeme else s).flush c
    return if m.returnBegin || m.excludeBegin then s else s.push lexeme

theorem takeBegin_sameControl (s s' : State) (c : Context) (m : CompiledMode) (lexeme : String)
    (h : s.takeBegin c m lexeme = .ok s') : SameControl s s' := by
  unfold State.takeBegin at h
  split at h
  · cases h; exact .push s lexeme
  · obtain ⟨s₁, hf, h⟩ := bind_eq_ok.mp h
    have h₁ : SameControl s (if m.excludeBegin then s.push lexeme else s) := by
      split
      · exact .push s lexeme
      · exact .refl s
    have h₂ := h₁.trans (flush_sameControl _ _ _ hf)
    rw [pure_eq_ok] at h
    subst h
    split
    · exact h₂
    · exact h₂.trans (.push _ _)

/-- The end that a mode gets when it begins at a lexeme. -/
def boundEnd (c : Context) (m : CompiledMode) (lexeme : String) :
    Except HighlightError (Option Pattern) :=
  if m.endSameAsBegin then
    match Pattern.literal lexeme c.language.caseInsensitive with
    | .ok p => .ok (some p)
    | .error e => .error (.grammar (.invalidPattern e))
  else .ok none

/-- The end that is bound depends on the context only through the case of its
language. -/
theorem boundEnd_congr {c c' : Context}
    (h : c.language.caseInsensitive = c'.language.caseInsensitive) (m : CompiledMode)
    (lexeme : String) : boundEnd c m lexeme = boundEnd c' m lexeme := by
  unfold boundEnd
  rw [h]

theorem beginMode_eq (s : State) (c : Context) (id : Nat) (t : Terminator) (m : CompiledMode)
    (hm : c.language.mode? id = some m) :
    s.beginMode c id t = (boundEnd c m (c.slice t.start t.stop) >>= fun bound =>
      s.takeBegin c m (c.slice t.start t.stop) >>= fun s₁ =>
        .ok { s₁.enter c id bound with cursor := if m.returnBegin then t.start else t.stop }) := by
  unfold State.beginMode boundEnd State.takeBegin
  simp only [hm]
  rcases hf : (if m.excludeBegin then s.push (c.slice t.start t.stop) else s).flush c with e | s₁ <;>
    rcases Pattern.literal (c.slice t.start t.stop) c.language.caseInsensitive with e' | p <;>
    cases m.endSameAsBegin <;> cases m.skip <;> rfl

/-- What is done where a mode begins: its end is bound, its lexeme is taken, and the
mode is entered. -/
theorem beginMode_eq_ok {s s' : State} {c : Context} {id : Nat} {t : Terminator} {m : CompiledMode}
    (hm : c.language.mode? id = some m) :
    s.beginMode c id t = .ok s' ↔ ∃ bound s₁,
      boundEnd c m (c.slice t.start t.stop) = .ok bound ∧
      s.takeBegin c m (c.slice t.start t.stop) = .ok s₁ ∧
      { s₁.enter c id bound with cursor := if m.returnBegin then t.start else t.stop } = s' := by
  rw [beginMode_eq s c id t m hm, bind_eq_ok]
  refine exists_congr fun bound => ?_
  rw [bind_eq_ok, exists_and_left]
  simp only [Except.ok.injEq]

/-! ## Closing modes -/

/-- Takes the lexeme at which a mode ends. -/
def State.takeEnd (s : State) (c : Context) (m : CompiledMode) (lexeme : String) :
    Except HighlightError State :=
  if m.skip then .ok (s.push lexeme)
  else do
    let s ← (if m.returnEnd || m.excludeEnd then s else s.push lexeme).flush c
    return if m.excludeEnd then s.push lexeme else s

theorem takeEnd_sameControl (s s' : State) (c : Context) (m : CompiledMode) (lexeme : String)
    (h : s.takeEnd c m lexeme = .ok s') : SameControl s s' := by
  unfold State.takeEnd at h
  split at h
  · cases h; exact .push s lexeme
  · obtain ⟨s₁, hf, h⟩ := bind_eq_ok.mp h
    have h₁ : SameControl s (if m.returnEnd || m.excludeEnd then s else s.push lexeme) := by
      split
      · exact .refl s
      · exact .push s lexeme
    have h₂ := h₁.trans (flush_sameControl _ _ _ hf)
    rw [pure_eq_ok] at h
    subst h
    split
    · exact h₂.trans (.push _ _)
    · exact h₂

/-- What follows a closed frame: the mode that it starts, and the end that it
hands over. -/
def continuation? (c : Context) (f : Frame) : Option (Nat × Option Pattern) :=
  (c.modeOf? f).bind fun m =>
    m.starts.map fun next => (next, if m.endSameAsBegin then f.bound <|> m.ends else none)

/-- Opens what follows a closed frame, if anything does. -/
def State.follow (s : State) (c : Context) (closed : Option Frame) : State :=
  match closed.bind (continuation? c) with
  | some (next, bound) => s.enter c next bound
  | none => s

theorem endModes_eq (s : State) (c : Context) (n : Nat) (t : Terminator) (m : CompiledMode)
    (hm : s.top? c = some m) :
    s.endModes c n t = (s.takeEnd c m (c.slice t.start t.stop) >>= fun s₁ =>
      .ok { (s₁.leaveAll c n).follow c (s.lastClosed? n) with
        cursor := if m.returnEnd then t.start else t.stop }) := by
  unfold State.endModes State.takeEnd State.follow continuation?
  simp only [hm]
  rcases (if m.returnEnd || m.excludeEnd then s else s.push (c.slice t.start t.stop)).flush c with
    e | s₁ <;>
    rcases s.lastClosed? n with _ | f
  any_goals cases m.skip <;> rfl
  all_goals
    simp only [Option.bind_some]
    rcases c.modeOf? f with _ | mf
    · cases m.skip <;> rfl
    · simp only [Option.bind_some]
      cases mf.starts <;> cases m.skip <;> rfl

/-- What is done where modes end: the lexeme is taken, the modes are left, and what
follows the outermost of them is entered. -/
theorem endModes_eq_ok {s s' : State} {c : Context} {n : Nat} {t : Terminator} {m : CompiledMode}
    (hm : s.top? c = some m) :
    s.endModes c n t = .ok s' ↔ ∃ s₁, s.takeEnd c m (c.slice t.start t.stop) = .ok s₁ ∧
      { (s₁.leaveAll c n).follow c (s.lastClosed? n) with
        cursor := if m.returnEnd then t.start else t.stop } = s' := by
  rw [endModes_eq s c n t m hm, bind_eq_ok]
  simp only [Except.ok.injEq]

/-! ## Frames -/

theorem enter_frames (s : State) (c : Context) (id : Nat) (bound : Option Pattern) :
    ∃ opened, (s.enter c id bound).frames = ⟨id, bound, opened, false⟩ :: s.frames := by
  unfold State.enter
  split
  · exact ⟨true, rfl⟩
  · exact ⟨false, rfl⟩

theorem enter_last (s : State) (c : Context) (id : Nat) (bound : Option Pattern) :
    (s.enter c id bound).last = s.last := by
  unfold State.enter
  split <;> rfl

theorem leave_frames (s : State) (c : Context) : (s.leave c).frames = s.frames.tail := by
  unfold State.leave
  split
  · rename_i h; simp [h]
  · rename_i f fs h
    simp only [h, List.tail_cons]
    split
    · rfl
    · split <;> rfl

theorem leave_last (s : State) (c : Context) : (s.leave c).last = s.last := by
  unfold State.leave
  split
  · rfl
  · simp only
    split
    · rfl
    · split <;> rfl

theorem leaveAll_frames (s : State) (c : Context) (n : Nat) :
    (s.leaveAll c n).frames = s.frames.drop n := by
  induction n generalizing s with
  | zero => rfl
  | succ n ih => rw [State.leaveAll, ih, leave_frames, List.drop_tail]

theorem leaveAll_last (s : State) (c : Context) (n : Nat) : (s.leaveAll c n).last = s.last := by
  induction n generalizing s with
  | zero => rfl
  | succ n ih => rw [State.leaveAll, ih, leave_last]

theorem follow_last (s : State) (c : Context) (closed : Option Frame) :
    (s.follow c closed).last = s.last := by
  unfold State.follow
  split
  · exact enter_last _ _ _ _
  · rfl

/-! ## The step -/

/-- The state with the text up to a terminator collected. -/
def State.reach (s : State) (c : Context) (t : Terminator) : State :=
  s.push (c.slice s.cursor t.start)

/-- The state with the terminator noted as the last one. -/
def State.note (s : State) (t : Terminator) : State := { s with last := some t }

theorem handle_eq (s : State) (c : Context) (t : Terminator) :
    s.handle c t =
      if (s.reach c t).isDegenerate t then .ok ((s.reach c t).forceChar c t.start)
      else match t.rule with
        | .begins id => ((s.reach c t).note t).beginMode c id t >>= fun s' => .ok (.next s')
        | .ends =>
          match closedBy? c t.start ((s.reach c t).note t).frames with
          | some n => ((s.reach c t).note t).endModes c n t >>= fun s' => .ok (.next s')
          | none => .ok (((s.reach c t).note t).asText c t)
        | .illegal =>
          match c.illegals with
          | .ignore => .ok (((s.reach c t).note t).asText c t)
          | _ => .error (.illegal (c.slice t.start t.stop)
              (((((s.reach c t).note t).top? c).map CompiledMode.displayName).getD "")) := rfl

/-- What a step leads to. -/
inductive Takes (c : Context) (s : State) : Outcome → Prop
  | done (hnext : s.nextTerminator? c = none) : Takes c s (.done s)
  | forced (t : Terminator) (hnext : s.nextTerminator? c = some t)
      (hdegenerate : (s.reach c t).isDegenerate t = true) :
      Takes c s ((s.reach c t).forceChar c t.start)
  | text (t : Terminator) (hnext : s.nextTerminator? c = some t)
      (hdegenerate : (s.reach c t).isDegenerate t = false)
      (hrule : t.rule = .ends ∧ closedBy? c t.start s.frames = none ∨ t.rule = .illegal) :
      Takes c s (((s.reach c t).note t).asText c t)
  | begins (t : Terminator) (id : Nat) (s' : State) (hnext : s.nextTerminator? c = some t)
      (hdegenerate : (s.reach c t).isDegenerate t = false) (hrule : t.rule = .begins id)
      (hbegin : ((s.reach c t).note t).beginMode c id t = .ok s') : Takes c s (.next s')
  | ends (t : Terminator) (n : Nat) (s' : State) (hnext : s.nextTerminator? c = some t)
      (hdegenerate : (s.reach c t).isDegenerate t = false) (hrule : t.rule = .ends)
      (hclosed : closedBy? c t.start s.frames = some n)
      (hend : ((s.reach c t).note t).endModes c n t = .ok s') : Takes c s (.next s')

theorem takes_of_step {c : Context} {s : State} {o : Outcome} (h : s.step c = .ok o) :
    Takes c s o := by
  unfold State.step at h
  rcases hnext : s.nextTerminator? c with _ | t
  · simp only [hnext, Except.ok.injEq] at h
    subst h
    exact .done hnext
  · simp only [hnext] at h
    unfold State.handle at h
    simp only at h
    split at h
    · rename_i hdeg
      cases h
      exact .forced t hnext hdeg
    · rename_i hdeg
      have hdeg' : (s.reach c t).isDegenerate t = false := Bool.not_eq_true _ ▸ hdeg
      split at h
      · rename_i id hrule
        rcases hb : ((s.reach c t).note t).beginMode c id t with e | s'
        · rw [State.note, State.reach] at hb
          simp [hb, bind, Except.bind] at h
        · have hb' := hb
          rw [State.note, State.reach] at hb
          simp only [hb, bind, Except.bind, pure, Except.pure, Except.ok.injEq] at h
          subst h
          exact .begins t id s' hnext hdeg' hrule hb'
      · rename_i hrule
        split at h
        · rename_i n hn
          rcases he : ((s.reach c t).note t).endModes c n t with e | s'
          · rw [State.note, State.reach] at he
            simp [he, bind, Except.bind] at h
          · have he' := he
            rw [State.note, State.reach] at he
            simp only [he, bind, Except.bind, pure, Except.pure, Except.ok.injEq] at h
            subst h
            exact .ends t n s' hnext hdeg' hrule hn he'
        · rename_i hn
          cases h
          exact .text t hnext hdeg' (.inl ⟨hrule, hn⟩)
      · rename_i hrule
        split at h
        · cases h
          exact .text t hnext hdeg' (.inr hrule)
        · cases h

end Highlighting.Scan
