-- The log of a scan: what it puts out, which modes it enters and when it leaves
-- one. The log is written without looking at the tree or at the score, and yet
-- playing it again gives both, with the open modes: whatever a scan does to
-- them, it does by these acts.
import Highlighting.Proofs.Progress
import Highlighting.Proofs.Spans

namespace Highlighting.Scan

/-! ## Acts -/

/-- What a scan does at one place. -/
inductive Act where
  /-- A piece of text or a keyword is put out. -/
  | put (p : Piece)
  /-- What an embedded language gave is put out, in a mode of this weight. -/
  | embedded (language : String) (weight : Nat) (e : Embedded)
  /-- A mode is entered. -/
  | enter (id : Nat) (bound : Option Pattern)
  /-- The innermost mode is left. -/
  | leave

/-- Does an act. -/
def State.play (c : Context) (s : State) : Act → State
  | .put p => s.emit p
  | .embedded language weight e => s.embed language weight e
  | .enter id bound => s.enter c id bound
  | .leave => s.leave c

/-- Does acts one after another. -/
def State.playAll (c : Context) (s : State) (acts : List Act) : State := acts.foldl (State.play c) s

/-- How many modes are open after some acts; none if the outermost was left. -/
def heightAfter : Nat → List Act → Option Nat
  | n, [] => some n
  | n, .put _ :: acts | n, .embedded .. :: acts => heightAfter n acts
  | n, .enter .. :: acts => heightAfter (n + 1) acts
  | n + 2, .leave :: acts => heightAfter (n + 1) acts
  | _, .leave :: _ => none

theorem heightAfter_append (n : Nat) (acts more : List Act) :
    heightAfter n (acts ++ more) = (heightAfter n acts).bind (heightAfter · more) := by
  induction acts generalizing n with
  | nil => rfl
  | cons a acts ih =>
    cases a with
    | put p => exact ih n
    | embedded language weight e => exact ih n
    | enter id bound => exact ih (n + 1)
    | leave =>
      match n with
      | 0 | 1 => rfl
      | n + 2 => exact ih (n + 1)

/-- The two states agree in what a scan gives: the open modes, the tree and the score. -/
structure SameYield (s s' : State) : Prop where
  frames : s'.frames = s.frames
  tree : s'.tree = s.tree
  relevance : s'.relevance = s.relevance

namespace SameYield

variable {c : Context} {s s' s₁ : State}

theorem refl (s : State) : SameYield s s := ⟨rfl, rfl, rfl⟩

theorem trans (h : SameYield s s₁) (h' : SameYield s₁ s') : SameYield s s' :=
  ⟨h'.frames.trans h.frames, h'.tree.trans h.tree, h'.relevance.trans h.relevance⟩

theorem emit (h : SameYield s s') (p : Piece) : SameYield (s.emit p) (s'.emit p) := by
  cases p with
  | text value => exact ⟨h.frames, congrArg (·.addText value) h.tree, h.relevance⟩
  | keyword k lexeme =>
    exact ⟨h.frames, congrArg (·.addKeyword k.className lexeme) h.tree,
      congrArg (addRelevance · k.relevance) h.relevance⟩

theorem embed (h : SameYield s s') (language : String) (weight : Nat) (e : Embedded) :
    SameYield (s.embed language weight e) (s'.embed language weight e) := by
  have htree := congrArg (·.addEmbedded language e.nodes) h.tree
  unfold State.embed
  split
  · exact ⟨h.frames, htree, h.relevance⟩
  · exact ⟨h.frames, htree, congrArg (addRelevance · e.relevance) h.relevance⟩

theorem enter (h : SameYield s s') (id : Nat) (bound : Option Pattern) :
    SameYield (s.enter c id bound) (s'.enter c id bound) := by
  unfold State.enter
  split
  · rename_i className _
    exact ⟨congrArg (_ :: ·) h.frames, congrArg (·.openElement className) h.tree, h.relevance⟩
  · exact ⟨congrArg (_ :: ·) h.frames, h.tree, h.relevance⟩

theorem leave (h : SameYield s s') : SameYield (s.leave c) (s'.leave c) := by
  unfold State.leave
  rw [h.frames]
  rcases s.frames with _ | ⟨f, frames⟩
  · exact h
  · have htree : (if f.opened then s'.tree.close else s'.tree) =
        if f.opened then s.tree.close else s.tree := by rw [h.tree]
    simp only
    split
    · exact ⟨rfl, htree, h.relevance⟩
    · rename_i m _
      split
      · exact ⟨rfl, htree, h.relevance⟩
      · exact ⟨rfl, htree, congrArg (addRelevance · m.relevance) h.relevance⟩

theorem play (h : SameYield s s') (a : Act) : SameYield (s.play c a) (s'.play c a) := by
  cases a with
  | put p => exact h.emit p
  | embedded language weight e => exact h.embed language weight e
  | enter id bound => exact h.enter id bound
  | leave => exact h.leave

theorem playAll (h : SameYield s s') (acts : List Act) :
    SameYield (s.playAll c acts) (s'.playAll c acts) := by
  induction acts generalizing s s' with
  | nil => exact h
  | cons a acts ih => exact ih (h.play a)

end SameYield

/-- From the first state to the second, the scan does these acts, and the outermost
mode stays open. -/
structure Plays (c : Context) (s : State) (acts : List Act) (s' : State) : Prop where
  yield : SameYield (s.playAll c acts) s'
  height : heightAfter s.frames.length acts = some s'.frames.length

namespace Plays

variable {c : Context} {s s' s₁ : State} {acts more : List Act}

theorem nothing (h : SameYield s s') : Plays c s [] s' :=
  ⟨h, by rw [h.frames]; rfl⟩

theorem trans (h : Plays c s acts s₁) (h' : Plays c s₁ more s') : Plays c s (acts ++ more) s' := by
  constructor
  · have hplay : s.playAll c (acts ++ more) = (s.playAll c acts).playAll c more :=
      List.foldl_append
    rw [hplay]
    exact (h.yield.playAll more).trans h'.yield
  · rw [heightAfter_append, h.height, Option.bind_some, h'.height]

theorem after (h : Plays c s acts s₁) (hsame : SameYield s₁ s') : Plays c s acts s' := by
  have hall := h.trans (.nothing hsame)
  rwa [List.append_nil] at hall

theorem before (hsame : SameYield s s₁) (h : Plays c s₁ acts s') : Plays c s acts s' :=
  (nothing hsame).trans h

end Plays

/-- An act that keeps the outermost mode leaves a mode inside it, if it leaves one. -/
theorem play_height {c : Context} {s : State} {a : Act} {acts : List Act} {n : Nat}
    (hs : s.frames ≠ []) (h : heightAfter s.frames.length (a :: acts) = some n) :
    (a = .leave → 2 ≤ s.frames.length) ∧ (s.play c a).frames ≠ [] ∧
      heightAfter (s.play c a).frames.length acts = some n := by
  cases a with
  | put p =>
    have hframes : (s.play c (.put p)).frames = s.frames := (emit_sameControl s p).frames
    rw [hframes]
    exact ⟨(nomatch ·), hs, h⟩
  | embedded language weight e =>
    have hframes : (s.play c (.embedded language weight e)).frames = s.frames :=
      (embed_sameControl s language weight e).frames
    rw [hframes]
    exact ⟨(nomatch ·), hs, h⟩
  | enter id bound =>
    obtain ⟨opened, hframes⟩ := enter_frames s c id bound
    have hplay : (s.play c (.enter id bound)).frames = ⟨id, bound, opened, false⟩ :: s.frames :=
      hframes
    rw [hplay]
    exact ⟨(nomatch ·), List.cons_ne_nil _ _, h⟩
  | leave =>
    have hplay : (s.play c .leave).frames = s.frames.tail := leave_frames s c
    rw [hplay]
    rcases hframes : s.frames with _ | ⟨f, _ | ⟨g, frames⟩⟩
    · exact absurd hframes hs
    · rw [hframes] at h
      cases h
    · rw [hframes] at h
      exact ⟨fun _ => by simp, List.cons_ne_nil g frames, h⟩

/-- What every act keeps that leaves the outermost mode open, a log keeps. -/
theorem Plays.keeps {c : Context} {P : State → Prop} (hsame : ∀ s s', SameYield s s' → P s → P s')
    (hplay : ∀ s a, s.frames ≠ [] → (a = .leave → 2 ≤ s.frames.length) → P s → P (s.play c a))
    {s s' : State} {acts : List Act} (h : Plays c s acts s') (hs : s.frames ≠ []) (hP : P s) :
    P s' ∧ s'.frames ≠ [] := by
  obtain ⟨hyield, hheight⟩ := h
  generalize s'.frames.length = n at hheight
  induction acts generalizing s with
  | nil => exact ⟨hsame _ _ hyield hP, hyield.frames ▸ hs⟩
  | cons a acts ih =>
    obtain ⟨hleave, hne, hheight⟩ := play_height (c := c) hs hheight
    exact ih hne (hplay s a hs hleave hP) hyield hheight

theorem Plays.frames_ne_nil {c : Context} {s s' : State} {acts : List Act}
    (h : Plays c s acts s') (hs : s.frames ≠ []) : s'.frames ≠ [] :=
  (h.keeps (P := fun _ => True) (fun _ _ _ _ => trivial) (fun _ _ _ _ _ => trivial) hs trivial).2

/-! ## The log of a flush -/

/-- What is put out for text that is highlighted as an embedded language. -/
def State.embedActs (s : State) (c : Context) (language : SubLanguage) (weight : Nat)
    (text : String) : List Act :=
  match c.host with
  | none => [.put (.text text)]
  | some host =>
    match language with
    | .name name =>
      if host.isRegistered name then
        match host.embed name text (s.continuations.lookup name) with
        | .ok e => [.embedded name weight e]
        | .error _ => []
      else [.put (.text text)]
    | .candidates names =>
      match host.detect names text with
      | .ok (some (name, e)) => [.embedded name weight e]
      | .ok none => [.put (.text text)]
      | .error _ => []

/-- What is put out when the buffer is flushed. -/
def State.flushActs (s : State) (c : Context) : List Act :=
  match s.top? c with
  | none => [.put (.text s.buffer)]
  | some m =>
    match m.dispatch with
    | .plain => [.put (.text s.buffer)]
    | .keywords table lexemes => (pieces table lexemes s.buffer).map .put
    | .embedded language =>
      if s.buffer.isEmpty then [] else s.embedActs c language m.relevance s.buffer

section

variable {c : Context} {s s' : State}

theorem plays_put (p : Piece) : Plays c s [.put p] (s.emit p) :=
  ⟨.refl _, by rw [(emit_sameControl s p).frames]; rfl⟩

theorem plays_puts (ps : List Piece) : Plays c s (ps.map .put) (ps.foldl State.emit s) := by
  induction ps generalizing s with
  | nil => exact .nothing (.refl s)
  | cons p ps ih => exact (plays_put p).trans ih

theorem plays_embedded (language : String) (weight : Nat) (e : Embedded) :
    Plays c s [.embedded language weight e] (s.embed language weight e) :=
  ⟨.refl _, by rw [(embed_sameControl s language weight e).frames]; rfl⟩

theorem flushEmbedded_plays {language : SubLanguage} {weight : Nat} {text : String}
    (h : s.flushEmbedded c language weight text = .ok s') :
    Plays c s (s.embedActs c language weight text) s' := by
  unfold State.flushEmbedded at h
  unfold State.embedActs
  simp only at h
  generalize c.host = host at h ⊢
  rcases host with _ | host
  · cases h
    exact plays_put (.text text)
  · cases language with
    | name name =>
      simp only at h ⊢
      split at h
      · rename_i hname
        obtain ⟨e, he, h⟩ := bind_eq_ok.mp h
        rw [pure_eq_ok] at h
        subst h
        simp only [hname, if_true, he]
        refine .before ?_ (plays_embedded name weight e)
        exact ⟨rfl, rfl, rfl⟩
      · rename_i hname
        cases h
        rw [if_neg hname]
        exact plays_put (.text text)
    | candidates names =>
      obtain ⟨found, hfound, h⟩ := bind_eq_ok.mp h
      simp only [hfound]
      rcases found with _ | ⟨name, e⟩
      · cases h
        exact plays_put (.text text)
      · cases h
        exact plays_embedded name weight e

theorem flush_plays (h : s.flush c = .ok s') : Plays c s (s.flushActs c) s' := by
  have hcleared : SameYield s { s with buffer := "" } := ⟨rfl, rfl, rfl⟩
  have htop : ({ s with buffer := "" } : State).top? c = s.top? c := rfl
  unfold State.flush at h
  unfold State.flushActs
  simp only [htop] at h
  generalize s.top? c = top at h ⊢
  rcases top with _ | m
  · cases h
    exact .before hcleared (plays_put (.text s.buffer))
  · simp only at h ⊢
    generalize m.dispatch = dispatch at h ⊢
    rcases dispatch with _ | ⟨table, lexemes⟩ | language
    · cases h
      exact .before hcleared (plays_put (.text s.buffer))
    · cases h
      exact .before hcleared (plays_puts _)
    · simp only at h ⊢
      split at h
      · rename_i hempty
        cases h
        rw [if_pos hempty]
        exact .nothing hcleared
      · rename_i hempty
        rw [if_neg hempty]
        exact .before hcleared (flushEmbedded_plays h)

end

/-! ## The log of a step -/

/-- What is put out before a mode begins at a lexeme. -/
def State.actsAtBegin (s : State) (c : Context) (m : CompiledMode) (lexeme : String) : List Act :=
  if m.skip then [] else (if m.excludeBegin then s.push lexeme else s).flushActs c

/-- What is put out before modes end at a lexeme. -/
def State.actsAtEnd (s : State) (c : Context) (m : CompiledMode) (lexeme : String) : List Act :=
  if m.skip then []
  else (if m.returnEnd || m.excludeEnd then s else s.push lexeme).flushActs c

/-- What is done where a mode begins. -/
def State.beginActs (s : State) (c : Context) (id : Nat) (t : Terminator) : List Act :=
  match c.language.mode? id with
  | none => []
  | some m =>
    let lexeme := c.slice t.start t.stop
    s.actsAtBegin c m lexeme ++ [.enter id (boundEnd c m lexeme).toOption.join]

/-- What is done where `n` modes end: they are left, and what follows the last of them
is entered. -/
def State.endActs (s : State) (c : Context) (n : Nat) (t : Terminator) : List Act :=
  match s.top? c with
  | none => []
  | some m =>
    s.actsAtEnd c m (c.slice t.start t.stop) ++ (List.replicate n .leave ++
      ((s.lastClosed? n).bind (continuation? c)).toList.map fun k => .enter k.1 k.2)

/-- What is done at a terminator. A lexeme that is taken as text is only collected. -/
def State.handleActs (s : State) (c : Context) (t : Terminator) : List Act :=
  if (s.reach c t).isDegenerate t then []
  else match t.rule with
    | .begins id => ((s.reach c t).note t).beginActs c id t
    | .ends =>
      match closedBy? c t.start s.frames with
      | some n => ((s.reach c t).note t).endActs c n t
      | none => []
    | .illegal => []

/-- What is done in one step. -/
def State.stepActs (s : State) (c : Context) : List Act :=
  match s.nextTerminator? c with
  | some t => s.handleActs c t
  | none => []

section

variable {c : Context} {s s' : State}

theorem push_sameYield (s : State) (text : String) : SameYield s (s.push text) := ⟨rfl, rfl, rfl⟩

theorem takeBegin_plays {m : CompiledMode} {lexeme : String}
    (h : s.takeBegin c m lexeme = .ok s') : Plays c s (s.actsAtBegin c m lexeme) s' := by
  unfold State.takeBegin at h
  unfold State.actsAtBegin
  split at h
  · rename_i hskip
    cases h
    rw [if_pos hskip]
    exact .nothing (push_sameYield s lexeme)
  · rename_i hskip
    rw [if_neg hskip]
    obtain ⟨s₁, hflush, h⟩ := bind_eq_ok.mp h
    rw [pure_eq_ok] at h
    subst h
    have hbefore : SameYield s (if m.excludeBegin then s.push lexeme else s) := by
      split
      · exact push_sameYield s lexeme
      · exact .refl s
    have hafter : SameYield s₁ (if m.returnBegin || m.excludeBegin then s₁ else s₁.push lexeme) := by
      split
      · exact .refl s₁
      · exact push_sameYield s₁ lexeme
    exact .before hbefore ((flush_plays hflush).after hafter)

theorem takeEnd_plays {m : CompiledMode} {lexeme : String}
    (h : s.takeEnd c m lexeme = .ok s') : Plays c s (s.actsAtEnd c m lexeme) s' := by
  unfold State.takeEnd at h
  unfold State.actsAtEnd
  split at h
  · rename_i hskip
    cases h
    rw [if_pos hskip]
    exact .nothing (push_sameYield s lexeme)
  · rename_i hskip
    rw [if_neg hskip]
    obtain ⟨s₁, hflush, h⟩ := bind_eq_ok.mp h
    rw [pure_eq_ok] at h
    subst h
    have hbefore : SameYield s (if m.returnEnd || m.excludeEnd then s else s.push lexeme) := by
      split
      · exact .refl s
      · exact push_sameYield s lexeme
    have hafter : SameYield s₁ (if m.excludeEnd then s₁.push lexeme else s₁) := by
      split
      · exact push_sameYield s₁ lexeme
      · exact .refl s₁
    exact .before hbefore ((flush_plays hflush).after hafter)

theorem plays_enter (id : Nat) (bound : Option Pattern) :
    Plays c s [.enter id bound] (s.enter c id bound) := by
  obtain ⟨opened, hframes⟩ := enter_frames s c id bound
  exact ⟨.refl _, by rw [hframes]; rfl⟩

/-- Modes are left as long as the outermost stays. -/
theorem plays_leaveAll {n : Nat} (h : n < s.frames.length) :
    Plays c s (List.replicate n .leave) (s.leaveAll c n) := by
  induction n generalizing s with
  | zero => exact .nothing (.refl s)
  | succ n ih =>
    have hlength : (s.leave c).frames.length = s.frames.length - 1 := by
      rw [leave_frames, List.length_tail]
    have hleave : Plays c s [.leave] (s.leave c) := by
      refine ⟨.refl _, ?_⟩
      obtain ⟨k, hk⟩ : ∃ k, s.frames.length = k + 2 := ⟨s.frames.length - 2, by omega⟩
      rw [hlength, hk]
      rfl
    exact hleave.trans (ih (by omega))

theorem follow_plays (closed : Option Frame) :
    Plays c s ((closed.bind (continuation? c)).toList.map fun k => .enter k.1 k.2)
      (s.follow c closed) := by
  unfold State.follow
  rcases closed.bind (continuation? c) with _ | ⟨next, bound⟩
  · exact .nothing (.refl s)
  · exact plays_enter next bound

theorem beginMode_plays {id : Nat} {t : Terminator} (h : s.beginMode c id t = .ok s') :
    Plays c s (s.beginActs c id t) s' := by
  unfold State.beginActs
  rcases hm : c.language.mode? id with _ | m
  · unfold State.beginMode at h
    rw [hm] at h
    cases h
    exact .nothing (.refl s)
  · obtain ⟨bound, s₁, hbound, htake, rfl⟩ := (beginMode_eq_ok hm).mp h
    simp only [hbound]
    refine (takeBegin_plays htake).trans ((plays_enter id bound).after ?_)
    exact ⟨rfl, rfl, rfl⟩

theorem endModes_plays {n : Nat} {t : Terminator} (hn : n < s.frames.length)
    (h : s.endModes c n t = .ok s') : Plays c s (s.endActs c n t) s' := by
  unfold State.endActs
  rcases hm : s.top? c with _ | m
  · unfold State.endModes at h
    rw [hm] at h
    cases h
    exact .nothing (.refl s)
  · obtain ⟨s₁, htake, rfl⟩ := (endModes_eq_ok hm).mp h
    have hlength : n < s₁.frames.length := by
      rw [(takeEnd_sameControl s s₁ c m _ htake).frames]
      exact hn
    have hfollow := (plays_leaveAll (c := c) hlength).trans (follow_plays (s.lastClosed? n))
    exact (takeEnd_plays htake).trans (hfollow.after ⟨rfl, rfl, rfl⟩)

theorem forceChar_sameYield (s : State) (c : Context) (pos : Nat) :
    SameYield s (s.forceChar c pos).state := by
  unfold State.forceChar
  split <;> exact ⟨rfl, rfl, rfl⟩

theorem asText_sameYield (s : State) (c : Context) (t : Terminator) :
    SameYield s (s.asText c t).state := by
  unfold State.asText
  split
  · exact ⟨rfl, rfl, rfl⟩
  · exact forceChar_sameYield s c t.start

/-- A step does what its log says. -/
theorem step_plays {o : Outcome} (h : s.step c = .ok o) : Plays c s (s.stepActs c) o.state := by
  unfold State.stepActs
  cases takes_of_step h with
  | done hnext =>
    rw [hnext]
    exact .nothing (.refl s)
  | forced t hnext hdegenerate =>
    simp only [hnext, State.handleActs, hdegenerate, if_true]
    refine .nothing (.trans ?_ (forceChar_sameYield _ c t.start))
    exact push_sameYield s _
  | text t hnext hdegenerate hrule =>
    have hacts : s.handleActs c t = [] := by
      unfold State.handleActs
      rcases hrule with ⟨hends, hclosed⟩ | hillegal
      · simp [hends, hclosed]
      · simp [hillegal]
    simp only [hnext, hacts]
    refine .nothing (.trans ?_ (asText_sameYield _ c t))
    exact ⟨rfl, rfl, rfl⟩
  | begins t id s' hnext hdegenerate hrule hbegin =>
    simp only [hnext, State.handleActs, hdegenerate, hrule]
    refine .before ?_ (beginMode_plays hbegin)
    exact ⟨rfl, rfl, rfl⟩
  | ends t n s' hnext hdegenerate hrule hclosed hend =>
    simp only [hnext, State.handleActs, hdegenerate, hrule, hclosed]
    refine .before ?_ (endModes_plays (closedBy?_lt hclosed).2 hend)
    exact ⟨rfl, rfl, rfl⟩

end

/-! ## The log of a scan -/

/-- What is done in at most so many steps. -/
def State.runActs (c : Context) : (steps : Nat) → State → List Act
  | 0, _ => []
  | n + 1, s =>
    match s.step c with
    | .ok (.next s') => s.stepActs c ++ s'.runActs c n
    | _ => s.stepActs c

theorem run_plays {c : Context} {n : Nat} {s s' : State} (h : State.run c n s = .ok s') :
    Plays c s (s.runActs c n) s' := by
  induction n generalizing s with
  | zero => cases h
  | succ n ih =>
    rw [State.run] at h
    obtain ⟨o, hstep, h⟩ := bind_eq_ok.mp h
    have hplays := step_plays hstep
    rw [State.runActs, hstep]
    rcases o with s₁ | s₁
    · exact hplays.trans (ih h)
    · cases h
      exact hplays

/-- What is put out at the end of the text. -/
def State.finishActs (s : State) (c : Context) : List Act :=
  (s.push (c.slice s.cursor c.text.size)).flushActs c

/-- What a scan does. The modes that are open at its end are left open. -/
def scanActs (steps : Nat) (c : Context) (lead : String) (resume : Option Continuation) : List Act :=
  if c.text.isEmpty then []
  else
    (startState lead resume).runActs c steps ++
      match State.run c steps (startState lead resume) with
      | .ok s => s.finishActs c
      | .error _ => []

/-- Closing modes does not change what the tree will be when it is finished. -/
theorem finish_leaveAll (s : State) (c : Context) (n : Nat) :
    (s.leaveAll c n).tree.finish = s.tree.finish := by
  induction n generalizing s with
  | zero => rfl
  | succ n ih =>
    rw [State.leaveAll, ih]
    rcases hframes : s.frames with _ | ⟨f, frames⟩
    · have hleave : s.leave c = s := by
        unfold State.leave
        rw [hframes]
      rw [hleave]
    · rw [leave_tree s c hframes]
      split
      · exact s.tree.finish_close
      · rfl

/-- A scan ends in a state to which its log leads. If there was any text, the modes that
are open there are left before the score is read. -/
theorem scanWithin_plays {steps : Nat} {c : Context} {lead : String}
    {resume : Option Continuation} {r : Scanned} (h : scanWithin steps c lead resume = .ok r) :
    ∃ s, Plays c (startState lead resume) (scanActs steps c lead resume) s ∧
      r.nodes = s.tree.finish ∧ r.continuation = ⟨s.frames⟩ ∧
      (scanActs steps c lead resume = [] ∧ r.relevance = 0 ∨
        r.relevance = (s.leaveAll c (s.frames.length - 1)).relevance) := by
  unfold scanActs
  rcases scanWithin_eq_ok.mp h with ⟨hempty, rfl⟩ | ⟨hempty, s, hrun, hfinish⟩
  · simp only [hempty, if_true]
    exact ⟨startState lead resume, .nothing (.refl _), rfl, rfl, .inl ⟨trivial, trivial⟩⟩
  · unfold State.finish at hfinish
    obtain ⟨s₁, hflush, hfinish⟩ := bind_eq_ok.mp hfinish
    cases hfinish
    simp only [hempty, hrun, Bool.false_eq_true, if_false]
    refine ⟨s₁, ?_, finish_leaveAll s₁ c _, rfl, .inr rfl⟩
    exact (run_plays hrun).trans (.before (push_sameYield s _) (flush_plays hflush))

end Highlighting.Scan
