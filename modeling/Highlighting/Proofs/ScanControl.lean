-- Where a scan goes next. It depends on the cursor, on the last terminator,
-- and on the open modes with the ends that are bound to them; on nothing that
-- was put out. An end looks at the open modes from the innermost outwards and
-- no deeper than it closes.
import Highlighting.Proofs.ScanText

namespace Highlighting.Scan

/-! ## What is seen of a frame -/

/-- What a scan sees of a frame: its mode, and the end that is bound to it. -/
def Frame.sight (f : Frame) : Nat × Option Pattern := (f.mode, f.bound)

theorem modeOf?_of_sight {f f' : Frame} (c : Context) (h : f'.sight = f.sight) :
    c.modeOf? f' = c.modeOf? f := by
  have hmode : f'.mode = f.mode := congrArg Prod.fst h
  rw [Context.modeOf?, Context.modeOf?, hmode]

theorem bound_of_sight {f f' : Frame} (h : f'.sight = f.sight) : f'.bound = f.bound :=
  congrArg Prod.snd h

theorem continuation?_of_sight {f f' : Frame} (c : Context) (h : f'.sight = f.sight) :
    continuation? c f' = continuation? c f := by
  unfold continuation?
  rw [modeOf?_of_sight c h, bound_of_sight h]

/-! ## Closing no deeper than seen -/

theorem parentsEnded_of_few (c : Context) (f : Frame) {below : List Frame}
    (h : ¬ 2 ≤ below.length) : parentsEnded c (f :: below) = 0 := by
  rcases below with _ | ⟨g, _ | ⟨k, below⟩⟩
  · rfl
  · rfl
  · simp at h

theorem parentsEnded_of_two (c : Context) (f : Frame) {below : List Frame}
    (h : 2 ≤ below.length) : parentsEnded c (f :: below) =
      if (c.modeOf? f).any CompiledMode.endsParent then parentsEnded c below + 1 else 0 := by
  rcases below with _ | ⟨g, _ | ⟨k, below⟩⟩
  · simp at h
  · simp at h
  · rw [parentsEnded]

theorem closedBy?_cons (c : Context) (pos : Nat) (f : Frame) {below : List Frame}
    (h : below ≠ []) : closedBy? c pos (f :: below) =
      match c.modeOf? f with
      | none => none
      | some m =>
        if ((f.bound <|> m.ends).any fun p => p.matchesAt c.text pos) then
          some (parentsEnded c (f :: below) + 1)
        else if m.endsWithParent then (closedBy? c pos below).map (· + 1)
        else none := by
  rcases below with _ | ⟨g, below⟩
  · exact absurd rfl h
  · rfl

/-- How many parents are ended depends on the language alone. -/
theorem parentsEnded_congr {c c' : Context} (h : c'.language = c.language) (frames : List Frame) :
    parentsEnded c' frames = parentsEnded c frames := by
  induction frames with
  | nil => rfl
  | cons f below ih =>
    by_cases hfew : 2 ≤ below.length
    · rw [parentsEnded_of_two _ f hfew, parentsEnded_of_two _ f hfew, ih, Context.modeOf?,
        Context.modeOf?, h]
    · rw [parentsEnded_of_few _ f hfew, parentsEnded_of_few _ f hfew]

/-- What an end closes depends on the language and the text alone. -/
theorem closedBy?_congr {c c' : Context} (h : c'.language = c.language) (htext : c'.text = c.text)
    (pos : Nat) (frames : List Frame) : closedBy? c' pos frames = closedBy? c pos frames := by
  induction frames with
  | nil => rfl
  | cons f below ih =>
    by_cases hbelow : below = []
    · subst hbelow
      rfl
    · rw [closedBy?_cons _ pos f hbelow, closedBy?_cons _ pos f hbelow, ih, parentsEnded_congr h,
        htext, Context.modeOf?, Context.modeOf?, h]

theorem parentsEnded_lt (c : Context) (f g : Frame) (rest : List Frame) :
    parentsEnded c (f :: g :: rest) + 1 < (f :: g :: rest).length := by
  induction rest generalizing f g with
  | nil => simp [parentsEnded]
  | cons h rest ih =>
    rw [parentsEnded]
    split
    · have := ih g h
      simp only [List.length_cons] at this ⊢
      omega
    · simp

/-- An end never closes the outermost frame. -/
theorem closedBy?_lt {c : Context} {pos n : Nat} {frames : List Frame}
    (h : closedBy? c pos frames = some n) : 0 < n ∧ n < frames.length := by
  induction frames generalizing n with
  | nil => cases h
  | cons f frames ih =>
    rcases frames with _ | ⟨g, rest⟩
    · cases h
    · rw [closedBy?] at h
      split at h
      · cases h
      · split at h
        · cases h
          exact ⟨Nat.succ_pos _, parentsEnded_lt c f g rest⟩
        · split at h
          · obtain ⟨k, hk, rfl⟩ := Option.map_eq_some_iff.mp h
            have := ih hk
            simp only [List.length_cons] at this ⊢
            omega
          · cases h

/-- Two stacks below what is looked at: either both reach below the frames
that an end may close, or they are equally high. -/
def AlikeBelow (rest rest' : List Frame) : Prop :=
  rest'.length = rest.length ∨ 2 ≤ rest.length ∧ 2 ≤ rest'.length

theorem parentsEnded_alike {c : Context} {rest rest' : List Frame} (hrest : AlikeBelow rest rest')
    {top top' : List Frame} (htop : top'.map Frame.sight = top.map Frame.sight)
    (hlt : parentsEnded c (top ++ rest) < top.length) :
    parentsEnded c (top' ++ rest') = parentsEnded c (top ++ rest) := by
  induction top generalizing top' with
  | nil => simp at hlt
  | cons f top ih =>
    rcases top' with _ | ⟨f', top'⟩
    · simp at htop
    simp only [List.map_cons, List.cons.injEq] at htop
    obtain ⟨hf, htop⟩ := htop
    have hlen : top'.length = top.length := by simpa using congrArg List.length htop
    have hmode := modeOf?_of_sight c hf
    -- Two further frames are there on both sides or on neither.
    have hmore : 2 ≤ (top' ++ rest').length ↔ 2 ≤ (top ++ rest).length := by
      simp only [List.length_append]
      unfold AlikeBelow at hrest
      omega
    rw [List.cons_append] at hlt
    rw [List.cons_append, List.cons_append]
    by_cases h2 : 2 ≤ (top ++ rest).length
    · rw [parentsEnded_of_two c f h2] at hlt ⊢
      rw [parentsEnded_of_two c f' (hmore.mpr h2), hmode]
      split
      · rename_i hends
        rw [if_pos hends, List.length_cons] at hlt
        rw [ih htop (by omega)]
      · rfl
    · rw [parentsEnded_of_few c f h2, parentsEnded_of_few c f' (fun h => h2 (hmore.mp h))]

/-- An end that closes nothing of what lies below closes as many frames above
another stack that lies alike. -/
theorem closedBy?_alike {c : Context} {pos n : Nat} {rest rest' : List Frame}
    (hrest : AlikeBelow rest rest') {top top' : List Frame}
    (htop : top'.map Frame.sight = top.map Frame.sight)
    (h : closedBy? c pos (top ++ rest) = some n) (hn : n ≤ top.length) :
    closedBy? c pos (top' ++ rest') = some n := by
  induction top generalizing top' n with
  | nil =>
    have := (closedBy?_lt h).1
    simp at hn
    omega
  | cons f top ih =>
    rcases top' with _ | ⟨f', top'⟩
    · simp at htop
    have hsights := htop
    simp only [List.map_cons, List.cons.injEq] at htop
    obtain ⟨hf, htop⟩ := htop
    have hlen : top'.length = top.length := by simpa using congrArg List.length htop
    have hmode := modeOf?_of_sight c hf
    have hbound := bound_of_sight hf
    have hmore : top ++ rest ≠ [] := by
      intro hnil
      rw [List.cons_append, hnil] at h
      cases h
    have hmore' : top' ++ rest' ≠ [] := by
      intro hnil
      have h0 : (top' ++ rest').length = 0 := by rw [hnil]; rfl
      have h1 : 0 < (top ++ rest).length := List.length_pos_iff.mpr hmore
      simp only [List.length_append] at h0 h1
      unfold AlikeBelow at hrest
      omega
    rw [List.cons_append, closedBy?_cons c pos f hmore] at h
    rw [List.cons_append, closedBy?_cons c pos f' hmore', hmode, hbound]
    split at h
    · cases h
    · split at h
      · rename_i hends
        rw [if_pos hends]
        cases h
        rw [← List.cons_append, ← List.cons_append, parentsEnded_alike hrest hsights]
        rw [List.cons_append]
        exact hn
      · rename_i hends
        rw [if_neg hends]
        split at h
        · rename_i hparent
          rw [if_pos hparent]
          obtain ⟨k, hk, rfl⟩ := Option.map_eq_some_iff.mp h
          rw [ih htop hk (by simpa using hn)]
          rfl
        · cases h

/-! ## Turns -/

/-- A step that opens a mode or closes modes at a terminator. -/
inductive Turn (c : Context) (s : State) (t : Terminator) (s₁ : State) : Prop
  | opens (id : Nat) (m : CompiledMode) (f : Frame) (hrule : t.rule = .begins id)
      (hm : c.language.mode? id = some m) (hmode : f.mode = id)
      (hbound : boundEnd c m (c.slice t.start t.stop) = .ok f.bound)
      (hframes : s₁.frames = f :: s.frames)
      (hcursor : s₁.cursor = if m.returnBegin then t.start else t.stop) (hlast : s₁.last = some t)
  | closes (n : Nat) (m : CompiledMode) (new : List Frame) (hrule : t.rule = .ends)
      (hclosed : closedBy? c t.start s.frames = some n) (hm : s.top? c = some m)
      (hnew : new.map Frame.sight = ((s.lastClosed? n).bind (continuation? c)).toList)
      (hframes : s₁.frames = new ++ s.frames.drop n)
      (hcursor : s₁.cursor = if m.returnEnd then t.start else t.stop) (hlast : s₁.last = some t)

theorem follow_frames (s : State) (c : Context) (closed : Option Frame) :
    ∃ new : List Frame, (s.follow c closed).frames = new ++ s.frames ∧
      new.map Frame.sight = (closed.bind (continuation? c)).toList := by
  unfold State.follow
  rcases closed.bind (continuation? c) with _ | ⟨next, bound⟩
  · exact ⟨[], rfl, rfl⟩
  · obtain ⟨opened, hframes⟩ := enter_frames s c next bound
    exact ⟨[⟨next, bound, opened, false⟩], hframes, rfl⟩

theorem turn_of_begin {c : Context} {s s₁ : State} {t : Terminator} {id : Nat} (hc : c.Sound)
    (hnext : s.nextTerminator? c = some t) (hrule : t.rule = .begins id)
    (h : ((s.reach c t).note t).beginMode c id t = .ok s₁) : Turn c s t s₁ := by
  obtain ⟨m, hm⟩ := nextTerminator?_begins hc hnext hrule
  obtain ⟨bound, s₂, hbound, htake, rfl⟩ := (beginMode_eq_ok hm).mp h
  have hsame := takeBegin_sameControl _ _ _ _ _ htake
  obtain ⟨opened, hframes⟩ := enter_frames s₂ c id bound
  refine .opens id m ⟨id, bound, opened, false⟩ hrule hm rfl hbound ?_ rfl ?_
  · exact hframes.trans (by rw [hsame.frames]; rfl)
  · exact (enter_last s₂ c id bound).trans hsame.last

theorem turn_of_end {c : Context} {s s₁ : State} {t : Terminator} {n : Nat}
    (hnext : s.nextTerminator? c = some t) (hrule : t.rule = .ends)
    (hclosed : closedBy? c t.start s.frames = some n)
    (h : ((s.reach c t).note t).endModes c n t = .ok s₁) : Turn c s t s₁ := by
  obtain ⟨m, hm, _⟩ := nextTerminator?_some hnext
  have hm' : ((s.reach c t).note t).top? c = some m := hm
  obtain ⟨s₂, htake, rfl⟩ := (endModes_eq_ok hm').mp h
  have hsame := takeEnd_sameControl _ _ _ _ _ htake
  obtain ⟨new, hframes, hnew⟩ := follow_frames (s₂.leaveAll c n) c (s.lastClosed? n)
  refine .closes n m new hrule hclosed hm hnew ?_ rfl ?_
  · refine hframes.trans ?_
    rw [leaveAll_frames, hsame.frames]
    rfl
  · exact (follow_last _ _ _).trans ((leaveAll_last _ _ _).trans hsame.last)

theorem forceChar_cursor {s s₁ : State} {c : Context} {pos : Nat}
    (h : s.forceChar c pos = .next s₁) : pos < s₁.cursor ∧ s₁.cursor ≤ c.text.size := by
  unfold State.forceChar at h
  split at h
  · rename_i hch
    cases h
    exact ⟨Nat.lt_succ_self _, (Array.getElem?_eq_some_iff.mp hch).1⟩
  · cases h

/-- A step makes a turn, or it moves the cursor on. -/
theorem turns_or_moves_on {c : Context} (hc : c.Sound) {s s₁ : State}
    (h : s.step c = .ok (.next s₁)) :
    (∃ t, s.nextTerminator? c = some t ∧ s.isDegenerate t = false ∧ Turn c s t s₁) ∨
      s.cursor < s₁.cursor ∧ s₁.cursor ≤ c.text.size := by
  generalize ho : Outcome.next s₁ = o at h
  cases takes_of_step h with
  | done _ => cases ho
  | forced t hnext _ =>
    have hb := nextTerminator?_bounds hc hnext
    have hcur := forceChar_cursor ho.symm
    exact .inr ⟨by omega, hcur.2⟩
  | text t hnext _ _ =>
    have hb := nextTerminator?_bounds hc hnext
    unfold State.asText at ho
    split at ho
    · cases ho
      exact .inr ⟨by simp only; omega, hb.2.2⟩
    · have hcur := forceChar_cursor ho.symm
      exact .inr ⟨by omega, hcur.2⟩
  | begins t id s' hnext hdegenerate hrule hbegin =>
    cases ho
    exact .inl ⟨t, hnext, hdegenerate, turn_of_begin hc hnext hrule hbegin⟩
  | ends t n s' hnext hdegenerate hrule hclosed hend =>
    cases ho
    exact .inl ⟨t, hnext, hdegenerate, turn_of_end hnext hrule hclosed hend⟩

theorem length_of_sights {new : List Frame} {o : Option (Nat × Option Pattern)}
    (h : new.map Frame.sight = o.toList) : new.length ≤ 1 := by
  have hlen := congrArg List.length h
  rw [List.length_map] at hlen
  rw [hlen]
  cases o <;> simp

/-- What lies below the frames on both sides of a turn is left alone. -/
theorem kept_below {s s₁ : State} {new top rest : List Frame} {n : Nat}
    (hframes : s₁.frames = new ++ s.frames.drop n) (hnew : new.length ≤ 1)
    (hn : n = 0 ∨ n < s.frames.length) (hs : s.frames = top ++ rest)
    (hheight : rest.length < s₁.frames.length) :
    n ≤ top.length ∧ s₁.frames = (new ++ top.drop n) ++ rest ∧ new ++ top.drop n ≠ [] := by
  have hlen : s₁.frames.length = new.length + (top.length + rest.length - n) := by
    rw [hframes, hs]
    simp
  have hs' : s.frames.length = top.length + rest.length := by
    rw [hs]
    simp
  have hle : n ≤ top.length := by omega
  have hkept : s₁.frames = (new ++ top.drop n) ++ rest := by
    rw [hframes, hs, List.drop_append_of_le_length hle, List.append_assoc]
  refine ⟨hle, hkept, ?_⟩
  intro hnil
  rw [hkept, hnil] at hheight
  simp at hheight

namespace Turn

/-- A turn leads to the start of its terminator or to its end. -/
theorem cursor {c : Context} {s s₁ : State} {t : Terminator} (h : Turn c s t s₁) :
    s₁.cursor = t.start ∨ s₁.cursor = t.stop := by
  cases h with
  | opens id m f hrule hm hmode hbound hframes hcursor hlast =>
    rw [hcursor]
    split
    · exact .inl rfl
    · exact .inr rfl
  | closes n m new hrule hclosed hm hnew hframes hcursor hlast =>
    rw [hcursor]
    split
    · exact .inl rfl
    · exact .inr rfl

theorem last {c : Context} {s s₁ : State} {t : Terminator} (h : Turn c s t s₁) :
    s₁.last = some t := by
  cases h <;> assumption

/-- A turn opens at most one mode and never closes the outermost one. -/
theorem frames {c : Context} {s s₁ : State} {t : Terminator} (h : Turn c s t s₁) :
    ∃ (new : List Frame) (n : Nat), s₁.frames = new ++ s.frames.drop n ∧ new.length ≤ 1 ∧
      (n = 0 ∨ n < s.frames.length) := by
  cases h with
  | opens id m f hrule hm hmode hbound hframes hcursor hlast =>
    exact ⟨[f], 0, hframes, Nat.le_refl _, .inl rfl⟩
  | closes n m new hrule hclosed hm hnew hframes hcursor hlast =>
    exact ⟨new, n, hframes, length_of_sights hnew, .inr (closedBy?_lt hclosed).2⟩

end Turn

theorem step_cursor {c : Context} (hc : c.Sound) {s s₁ : State} (h : s.step c = .ok (.next s₁)) :
    s.cursor ≤ s₁.cursor ∧ s₁.cursor ≤ c.text.size := by
  rcases turns_or_moves_on hc h with ⟨t, hnext, _, hturn⟩ | hmoves
  · have hb := nextTerminator?_bounds hc hnext
    rcases hturn.cursor with hcursor | hcursor <;> omega
  · omega

/-- A step that leaves the cursor where it is makes a turn there. -/
theorem turn_of_stall {c : Context} (hc : c.Sound) {s s₁ : State}
    (h : s.step c = .ok (.next s₁)) (hcursor : s₁.cursor = s.cursor) :
    ∃ t, s.nextTerminator? c = some t ∧ t.start = s.cursor ∧ s.isDegenerate t = false ∧
      Turn c s t s₁ := by
  rcases turns_or_moves_on hc h with ⟨t, hnext, hdegenerate, hturn⟩ | hmoves
  · have hb := nextTerminator?_bounds hc hnext
    refine ⟨t, hnext, ?_, hdegenerate, hturn⟩
    rcases hturn.cursor with hc' | hc' <;> omega
  · omega

/-! ## Scans that go alike -/

/-- Two states from which a scan goes alike as long as it stays above `rest`
in the one and `rest'` in the other. -/
structure Alike (rest rest' : List Frame) (s s' : State) : Prop where
  cursor : s'.cursor = s.cursor
  last : s'.last = s.last
  frames : ∃ top top' : List Frame, top ≠ [] ∧ s.frames = top ++ rest ∧
    s'.frames = top' ++ rest' ∧ top'.map Frame.sight = top.map Frame.sight

theorem top?_alike {c : Context} {rest rest' : List Frame} {s s' : State}
    (h : Alike rest rest' s s') : s'.top? c = s.top? c := by
  obtain ⟨top, top', hne, hs, hs', htop⟩ := h.frames
  rcases top with _ | ⟨f, top⟩
  · exact absurd rfl hne
  rcases top' with _ | ⟨f', top'⟩
  · simp at htop
  simp only [List.map_cons, List.cons.injEq] at htop
  simp only [State.top?, hs, hs', List.cons_append, List.head?_cons, Option.bind_some]
  exact modeOf?_of_sight c htop.1

theorem nextTerminator?_alike {c : Context} {rest rest' : List Frame} {s s' : State}
    (h : Alike rest rest' s s') : s'.nextTerminator? c = s.nextTerminator? c := by
  unfold State.nextTerminator?
  rw [top?_alike h, h.cursor]

theorem lastClosed?_alike {c : Context} {rest rest' top top' : List Frame} {s s' : State}
    (hs : s.frames = top ++ rest) (hs' : s'.frames = top' ++ rest')
    (htop : top'.map Frame.sight = top.map Frame.sight) {n : Nat} (hpos : 0 < n)
    (hn : n ≤ top.length) :
    (s'.lastClosed? n).bind (continuation? c) = (s.lastClosed? n).bind (continuation? c) := by
  have hlen : top'.length = top.length := by simpa using congrArg List.length htop
  have hsight : top'[n - 1]?.map Frame.sight = top[n - 1]?.map Frame.sight := by
    rw [← List.getElem?_map, ← List.getElem?_map, htop]
  unfold State.lastClosed?
  rw [hs, hs', List.getElem?_append_left (by omega), List.getElem?_append_left (by omega)]
  rcases hf : top[n - 1]? with _ | f <;> rcases hf' : top'[n - 1]? with _ | f' <;>
    simp only [hf, hf', Option.map_some, Option.map_none, Option.some.injEq, reduceCtorEq] at hsight
  · rfl
  · exact continuation?_of_sight c hsight

/-- Turns at one terminator, above stacks that lie alike, go alike. -/
theorem alike_turn {c : Context} {rest rest' : List Frame} (hrest : AlikeBelow rest rest')
    {s s' s₁ s₁' : State} (h : Alike rest rest' s s') {t : Terminator} (hturn : Turn c s t s₁)
    (hturn' : Turn c s' t s₁') (hheight : rest.length < s₁.frames.length) :
    Alike rest rest' s₁ s₁' := by
  obtain ⟨top, top', hne, hs, hs', htop⟩ := h.frames
  refine ⟨?_, hturn'.last.trans hturn.last.symm, ?_⟩
  · cases hturn with
    | opens id m f hrule hm hmode hbound hframes hcursor hlast =>
      cases hturn' with
      | opens id' m' f' hrule' hm' hmode' hbound' hframes' hcursor' hlast' =>
        cases hrule.symm.trans hrule'
        cases hm.symm.trans hm'
        rw [hcursor, hcursor']
      | closes n' m' new' hrule' => cases hrule.symm.trans hrule'
    | closes n m new hrule hclosed hm hnew hframes hcursor hlast =>
      cases hturn' with
      | opens id' m' f' hrule' => cases hrule.symm.trans hrule'
      | closes n' m' new' hrule' hclosed' hm' hnew' hframes' hcursor' hlast' =>
        rw [top?_alike h] at hm'
        cases hm.symm.trans hm'
        rw [hcursor, hcursor']
  · cases hturn with
    | opens id m f hrule hm hmode hbound hframes hcursor hlast =>
      cases hturn' with
      | opens id' m' f' hrule' hm' hmode' hbound' hframes' hcursor' hlast' =>
        cases hrule.symm.trans hrule'
        cases hm.symm.trans hm'
        have hsame : f'.sight = f.sight := by
          have hb : f.bound = f'.bound := Except.ok.inj (hbound.symm.trans hbound')
          rw [Frame.sight, Frame.sight, hmode, hmode', hb]
        refine ⟨f :: top, f' :: top', List.cons_ne_nil _ _, ?_, ?_, ?_⟩
        · rw [hframes, hs, List.cons_append]
        · rw [hframes', hs', List.cons_append]
        · rw [List.map_cons, List.map_cons, hsame, htop]
      | closes n' m' new' hrule' => cases hrule.symm.trans hrule'
    | closes n m new hrule hclosed hm hnew hframes hcursor hlast =>
      obtain ⟨hpos, hlt⟩ := closedBy?_lt hclosed
      obtain ⟨hle, hkept, hkeptne⟩ :=
        kept_below hframes (length_of_sights hnew) (.inr hlt) hs hheight
      cases hturn' with
      | opens id' m' f' hrule' => cases hrule.symm.trans hrule'
      | closes n' m' new' hrule' hclosed' hm' hnew' hframes' hcursor' hlast' =>
        have hn : n = n' := by
          rw [hs] at hclosed
          rw [hs', closedBy?_alike hrest htop hclosed hle] at hclosed'
          exact Option.some.inj hclosed'
        subst hn
        have hlen : top'.length = top.length := by simpa using congrArg List.length htop
        refine ⟨new ++ top.drop n, new' ++ top'.drop n, hkeptne, hkept, ?_, ?_⟩
        · rw [hframes', hs', List.drop_append_of_le_length (by omega), List.append_assoc]
        · rw [List.map_append, List.map_append, hnew, hnew',
            lastClosed?_alike hs hs' htop hpos hle, List.map_drop, List.map_drop, htop]

/-- A stalled step above a stack has its like above any stack that lies alike. -/
theorem alike_step {c : Context} (hc : c.Sound) {rest rest' : List Frame}
    (hrest : AlikeBelow rest rest') {s s' s₁ : State} (h : Alike rest rest' s s')
    (hstep : s.step c = .ok (.next s₁)) (hcursor : s₁.cursor = s.cursor)
    (hheight : rest.length < s₁.frames.length) {o : Outcome} (hstep' : s'.step c = .ok o) :
    ∃ s₁', o = .next s₁' ∧ Alike rest rest' s₁ s₁' := by
  obtain ⟨t, hnext, hstart, hdegenerate, hturn⟩ := turn_of_stall hc hstep hcursor
  obtain ⟨top, top', hne, hs, hs', htop⟩ := h.frames
  have hnext' : s'.nextTerminator? c = some t := (nextTerminator?_alike h).trans hnext
  have hdegenerate' : s'.isDegenerate t = false := by
    rw [← hdegenerate]
    unfold State.isDegenerate
    rw [h.last]
  -- The other side meets the same terminator, and what it does there is a turn too.
  cases takes_of_step hstep' with
  | done hnone => rw [hnext'] at hnone; cases hnone
  | forced t' ht' hdeg =>
    cases hnext'.symm.trans ht'
    exact absurd (hdeg.symm.trans hdegenerate') (by decide)
  | text t' ht' _ hrule' =>
    cases hnext'.symm.trans ht'
    cases hturn with
    | opens id m f hrule => rcases hrule' with ⟨hr, _⟩ | hr <;> cases hrule.symm.trans hr
    | closes n m new hrule hclosed hm hnew hframes =>
      rcases hrule' with ⟨_, hnone⟩ | hr
      · obtain ⟨hpos, hlt⟩ := closedBy?_lt hclosed
        obtain ⟨hle, _⟩ := kept_below hframes (length_of_sights hnew) (.inr hlt) hs hheight
        rw [hs] at hclosed
        rw [hs', closedBy?_alike hrest htop hclosed hle] at hnone
        cases hnone
      · cases hrule.symm.trans hr
  | begins t' id s₁' ht' _ hrule' hbegin =>
    cases hnext'.symm.trans ht'
    exact ⟨s₁', rfl, alike_turn hrest h hturn (turn_of_begin hc hnext' hrule' hbegin) hheight⟩
  | ends t' n s₁' ht' _ hrule' hclosed hend =>
    cases hnext'.symm.trans ht'
    exact ⟨s₁', rfl, alike_turn hrest h hturn (turn_of_end hnext' hrule' hclosed hend) hheight⟩

end Highlighting.Scan
