-- Inside which elements text comes to stand. What a mode collects waits in the
-- buffer until something is put out, and elements may open and close before
-- that. When modes end, what was collected is put out first, unless the mode in
-- which the end is found skips: then it waits on. So text stays inside the
-- elements that are open when it is collected, provided that no end found in a
-- mode that skips closes an element. Where one does, what was waiting comes to
-- stand behind the element.
import Highlighting.Proofs.LexemeAccounts
import Highlighting.Proofs.StackAndTree

namespace Highlighting

/-- The element is the one that was open at a place, and it holds the text up to
`stop`. -/
structure Element.HoldsTo (stop : Nat) (place : List String × Nat) (e : Element) : Prop where
  classNames : e.classNames = place.1
  start : e.start = place.2
  stop : stop ≤ e.start + e.text.length

/-- A text begins with another one. -/
def BeginsWith (text front : String) : Prop := ∃ rest, text = front ++ rest

namespace BeginsWith

theorem refl (text : String) : BeginsWith text text := ⟨"", String.append_empty.symm⟩

theorem append (front rest : String) : BeginsWith (front ++ rest) front := ⟨rest, rfl⟩

theorem trans {text middle front : String} (h : BeginsWith text middle)
    (h' : BeginsWith middle front) : BeginsWith text front := by
  obtain ⟨rest, rfl⟩ := h
  obtain ⟨rest', rfl⟩ := h'
  exact ⟨rest' ++ rest, String.append_assoc ..⟩

theorem length_le {text front : String} (h : BeginsWith text front) :
    front.length ≤ text.length := by
  obtain ⟨rest, rfl⟩ := h
  rw [String.length_append]
  exact Nat.le_add_right _ _

end BeginsWith

/-! ## Trees under construction -/

namespace Tree.Builder

theorem close_of_no_places {b : Builder} (h : b.places = []) : b.close = b := by
  rcases ho : b.openElements with _ | ⟨e, es⟩
  · simp [close, close?, ho]
  · simp [places, ho, placesIn] at h

theorem places_close (b : Builder) : b.close.places = b.places.tail := by
  rcases hp : b.places with _ | ⟨p, rest⟩
  · rw [close_of_no_places hp, hp]
    rfl
  · exact (close_of_places hp).1

/-- What is closed stays closed. -/
theorem closed_close (b : Builder) : b.closed <+: b.close.closed := by
  rcases hp : b.places with _ | ⟨p, rest⟩
  · rw [close_of_no_places hp]
  · rw [(close_of_places hp).2]
    exact List.prefix_append _ _

theorem closed_closeAll (b : Builder) (n : Nat) : b.closed <+: (b.closeAll n).closed := by
  induction n generalizing b with
  | zero => exact List.prefix_rfl
  | succ n ih => exact (closed_close b).trans (ih b.close)

theorem places_closeAll_depth (b : Builder) : (b.closeAll b.depth).places = [] := by
  simp [places, openElements_closeAll_depth, placesIn]

/-- The elements of the finished tree are the closed ones, once all are closed. -/
theorem elementsAll_finish_eq (b : Builder) :
    Node.elementsAll 0 b.finish = (b.closeAll b.depth).closed := by
  have hplaces := places_closeAll_depth b
  rw [← elementsAll_finish hplaces]
  have hdepth : (b.closeAll b.depth).depth = 0 := by rw [depth_closeAll, Nat.sub_self]
  unfold finish
  rw [hdepth]
  rfl

theorem openText_placesIn {pos : Nat} {es : List OpenElement} :
    ∀ p ∈ placesIn pos es, p.2 ≤ pos + (openText es).length := by
  induction es with
  | nil => simp [placesIn]
  | cons e es ih =>
    intro p hp
    rw [openText, String.length_append]
    rcases List.mem_cons.mp hp with rfl | hp
    · simp only
      omega
    · have hle := ih p hp
      omega

/-- What is open starts in the text that is there. -/
theorem places_le {b : Builder} {p : List String × Nat} (hp : p ∈ b.places) :
    p.2 ≤ b.text.length := by
  have hle := openText_placesIn p hp
  rw [text, String.length_append]
  exact hle

/-- Of the elements `places`, which were all open once, some have closed, the inner
ones first, and hold the text up to `stop`. The others are still open. -/
def Holds (b : Builder) (places : List (List String × Nat)) (stop : Nat) : Prop :=
  ∃ shut still es, places = shut ++ still ∧ still <:+ b.places ∧ es.Sublist b.closed ∧
    List.Forall₂ (Element.HoldsTo stop) shut es

section

variable {b b' : Builder} {places : List (List String × Nat)} {stop : Nat}

theorem holds_of_open (stop : Nat) (h : places <:+ b.places) : b.Holds places stop :=
  ⟨[], places, [], rfl, h, List.nil_sublist _, .nil⟩

theorem Holds.of_grows (h : b.Holds places stop) (hgrows : b.Grows b') : b'.Holds places stop := by
  obtain ⟨shut, still, es, rfl, hstill, hes, hshut⟩ := h
  exact ⟨shut, still, es, rfl, hgrows.places ▸ hstill, hes.trans hgrows.closed.sublist, hshut⟩

theorem Holds.openElement (h : b.Holds places stop) (className : String) :
    (b.openElement className).Holds places stop := by
  obtain ⟨shut, still, es, rfl, hstill, hes, hshut⟩ := h
  refine ⟨shut, still, es, rfl, ?_, closed_openElement b className ▸ hes, hshut⟩
  rw [places_openElement]
  exact hstill.trans (List.suffix_cons _ _)

/-- An element that closes holds what was put out. -/
theorem Holds.close (h : b.Holds places stop) (hstop : stop ≤ b.text.length) :
    b.close.Holds places stop := by
  obtain ⟨shut, still, es, rfl, hstill, hes, hshut⟩ := h
  have hclosed := hes.trans (closed_close b).sublist
  rcases hp : b.places with _ | ⟨p, rest⟩
  · rw [close_of_no_places hp]
    exact ⟨shut, still, es, rfl, hstill, hes, hshut⟩
  · obtain ⟨hrest, hnew⟩ := close_of_places hp
    rw [hp] at hstill
    rcases List.suffix_cons_iff.mp hstill with rfl | hstill
    · refine ⟨shut ++ [p], rest, es ++ [_], by simp, hrest ▸ List.suffix_rfl,
        hnew ▸ hes.append_right _, List.rel_append hshut (.cons ⟨rfl, rfl, ?_⟩ .nil)⟩
      have hpos : p.2 ≤ b.text.length := places_le (hp ▸ List.mem_cons_self)
      simp only [String.length_ofList, List.length_drop, String.length_toList]
      omega
    · exact ⟨shut, still, es, rfl, hrest ▸ hstill, hclosed, hshut⟩

theorem Holds.closeAll (h : b.Holds places stop) (hstop : stop ≤ b.text.length) (n : Nat) :
    (b.closeAll n).Holds places stop := by
  induction n generalizing b with
  | zero => exact h
  | succ n ih => exact ih (h.close hstop) (by rwa [text_close])

/-- In the finished tree all of them hold the text. -/
theorem Holds.finish (h : b.Holds places stop) (hstop : stop ≤ b.text.length) :
    ∃ es, es.Sublist (Node.elementsAll 0 b.finish) ∧
      List.Forall₂ (Element.HoldsTo stop) places es := by
  obtain ⟨shut, still, es, rfl, hstill, hes, hshut⟩ := h.closeAll hstop b.depth
  rw [places_closeAll_depth, List.suffix_nil] at hstill
  rw [hstill, List.append_nil]
  exact ⟨es, elementsAll_finish_eq b ▸ hes, hshut⟩

end

end Tree.Builder

/-! ## What a step collects -/

/-- The lexeme of an end that is found in the mode is put out with what was collected,
or waits with it. -/
def CompiledMode.takesEnd (m : CompiledMode) : Bool := m.skip || !(m.returnEnd || m.excludeEnd)

namespace Scan

/-- Everything that is written when a step has collected what belongs to the innermost
mode: the text up to the next terminator, and the lexeme at which modes end, unless it
is excluded or returned. Without a terminator it is all the text. -/
def State.gathered (s : State) (c : Context) : String :=
  match s.nextTerminator? c with
  | none => s.account c
  | some t =>
    (s.reach c t).written ++
      (if !(s.reach c t).isDegenerate t && t.rule == .ends &&
          (closedBy? c t.start s.frames).isSome && (s.top? c).any CompiledMode.takesEnd then
        c.slice t.start t.stop
      else "")

/-- The next step closes an element at an end that is found in a mode that skips. -/
def State.spills (s : State) (c : Context) : Bool :=
  match s.nextTerminator? c with
  | none => false
  | some t =>
    !(s.reach c t).isDegenerate t && t.rule == .ends && (s.top? c).any CompiledMode.skip &&
      (closedBy? c t.start s.frames).any fun n => (s.frames.take n).any Frame.opened

section

variable {c : Context} {s s' : State} {lead : String}

theorem gathered_beginsWith (s : State) (c : Context) : BeginsWith (s.gathered c) s.written := by
  unfold State.gathered
  split
  · exact .append _ _
  · rw [State.reach, written_push]
    exact (BeginsWith.append _ _).trans (.append _ _)

theorem gathered_of_not_ends {t : Terminator} (hnext : s.nextTerminator? c = some t)
    (h : (s.reach c t).isDegenerate t = true ∨ t.rule ≠ .ends ∨
      closedBy? c t.start s.frames = none) : s.gathered c = (s.reach c t).written := by
  have hnot : (!(s.reach c t).isDegenerate t && t.rule == .ends &&
      (closedBy? c t.start s.frames).isSome && (s.top? c).any CompiledMode.takesEnd) = false := by
    rcases h with h | h | h <;> simp [h]
  simp only [State.gathered, hnext, hnot, Bool.false_eq_true, if_false, String.append_empty]

theorem gathered_of_ends {t : Terminator} {m : CompiledMode} {n : Nat}
    (hnext : s.nextTerminator? c = some t) (hdegenerate : (s.reach c t).isDegenerate t = false)
    (hrule : t.rule = .ends) (hclosed : closedBy? c t.start s.frames = some n)
    (hm : s.top? c = some m) :
    s.gathered c = (s.reach c t).written ++ (if m.takesEnd then c.slice t.start t.stop else "") := by
  simp [State.gathered, hnext, hdegenerate, hrule, hclosed, hm]

theorem push_beginsWith (s : State) (text : String) : BeginsWith (s.push text).written s.written :=
  ⟨text, written_push s text⟩

theorem forceChar_beginsWith (s : State) (c : Context) (pos : Nat) :
    BeginsWith (s.forceChar c pos).state.written s.written := by
  unfold State.forceChar
  split
  · exact push_beginsWith s _
  · exact .refl _

theorem asText_beginsWith (s : State) (c : Context) (t : Terminator) :
    BeginsWith (s.asText c t).state.written s.written := by
  unfold State.asText
  split
  · exact push_beginsWith s _
  · exact forceChar_beginsWith s c t.start

/-- What a step collects is there after it. -/
theorem written_of_step (hc : c.PutsOut) {t : Terminator} (hnext : s.nextTerminator? c = some t)
    {o : Outcome} (h : s.step c = .ok o) : BeginsWith o.state.written (s.gathered c) := by
  cases takes_of_step h with
  | done hnone =>
    rw [hnone] at hnext
    cases hnext
  | forced t' hnext' hdegenerate =>
    rw [gathered_of_not_ends hnext' (.inl hdegenerate)]
    exact forceChar_beginsWith _ _ _
  | text t' hnext' hdegenerate hrule =>
    have hnot : t'.rule ≠ .ends ∨ closedBy? c t'.start s.frames = none := by
      rcases hrule with ⟨_, hclosed⟩ | hrule
      · exact .inr hclosed
      · exact .inl (by simp [hrule])
    rw [gathered_of_not_ends hnext' (.inr hnot)]
    exact asText_beginsWith ((s.reach c t').note t') c t'
  | begins t' id s' hnext' hdegenerate hrule hbegin =>
    obtain ⟨m, hm⟩ := nextTerminator?_begins hc.toSound hnext' hrule
    obtain ⟨bound, s₁, _, htake, hs'⟩ := (beginMode_eq_ok hm).mp hbegin
    subst hs'
    have hwritten := takeBegin_written hc htake
    rw [gathered_of_not_ends hnext' (.inr (.inl (by simp [hrule])))]
    exact ⟨_, (enter_written s₁ c id bound).trans hwritten⟩
  | ends t' n s' hnext' hdegenerate hrule hclosed hend =>
    obtain ⟨m, hm, _⟩ := nextTerminator?_some hnext'
    obtain ⟨s₁, htake, hs'⟩ := (endModes_eq_ok (s := (s.reach c t').note t') hm).mp hend
    subst hs'
    have hwritten := takeEnd_written hc htake
    have hsame : ((s₁.leaveAll c n).follow c
        (((s.reach c t').note t').lastClosed? n)).written = s₁.written := by
      rw [follow_written, leaveAll_written]
    rw [gathered_of_ends hnext' hdegenerate hrule hclosed hm]
    rcases htakes : m.takesEnd with _ | _
    · rw [if_neg Bool.false_ne_true, String.append_empty]
      exact ⟨_, hsame.trans hwritten⟩
    · have hnot : (m.returnEnd && !m.endsTwice) = false := by
        unfold CompiledMode.takesEnd at htakes
        unfold CompiledMode.endsTwice
        rcases hreturn : m.returnEnd with _ | _
        · rfl
        · simp only [hreturn, Bool.true_or, Bool.not_true, Bool.or_false] at htakes
          simp [htakes]
      rw [hnot, if_neg Bool.false_ne_true] at hwritten
      exact ⟨"", (hsame.trans hwritten).trans String.append_empty.symm⟩

/-! ## What a step does to the open elements -/

/-- From the one state to the other the inner `left` modes are left and `added` are
entered, at most one. The elements that these opened are open, and of those that were
open before, the elements of the modes that are left have closed. -/
structure Restacks (s s' : State) (left : Nat) (added : List Frame)
    (opened : List (List String × Nat)) : Prop where
  frames : s'.frames = added ++ s.frames.drop left
  places : s'.tree.places = opened ++ s.tree.places.drop ((s.frames.take left).countP Frame.opened)
  stays : left ≤ s.frames.length
  one : added.length ≤ 1
  inStep : opened.length = added.countP Frame.opened

theorem restacks_of_sameTree (h : s'.tree = s.tree ∧ s'.frames = s.frames) :
    Restacks s s' 0 [] [] :=
  ⟨h.2, congrArg _ h.1, Nat.zero_le _, Nat.zero_le _, rfl⟩

theorem enter_restacks (s : State) (c : Context) (id : Nat) (bound : Option Pattern) :
    ∃ added opened, Restacks s (s.enter c id bound) 0 added opened := by
  unfold State.enter
  rcases (c.language.mode? id).bind CompiledMode.className with _ | name
  · exact ⟨[⟨id, bound, false, false⟩], [], rfl, rfl, Nat.zero_le _, Nat.le_refl _, rfl⟩
  · exact ⟨[⟨id, bound, true, false⟩], [_], rfl, Tree.Builder.places_openElement _ _,
      Nat.zero_le _, Nat.le_refl _, rfl⟩

theorem follow_restacks (s : State) (c : Context) (closed : Option Frame) :
    ∃ added opened, Restacks s (s.follow c closed) 0 added opened := by
  unfold State.follow
  split
  · exact enter_restacks s c _ _
  · exact ⟨[], [], restacks_of_sameTree ⟨rfl, rfl⟩⟩

theorem leave_places (s : State) (c : Context) :
    (s.leave c).tree.places = s.tree.places.drop ((s.frames.take 1).countP Frame.opened) := by
  rcases hframes : s.frames with _ | ⟨f, frames⟩
  · simp [State.leave, hframes]
  · rw [leave_tree s c hframes]
    rcases hopened : f.opened with _ | _
    · simp [hopened]
    · simp [hopened, Tree.Builder.places_close]

theorem leaveAll_places (s : State) (c : Context) (n : Nat) :
    (s.leaveAll c n).tree.places = s.tree.places.drop ((s.frames.take n).countP Frame.opened) := by
  induction n generalizing s with
  | zero => rfl
  | succ n ih =>
    rw [State.leaveAll, ih, leave_places, leave_frames, List.drop_drop]
    congr 1
    rcases s.frames with _ | ⟨f, frames⟩
    · simp
    · simp only [List.take_succ_cons, List.take_zero, List.tail_cons, List.countP_cons,
        List.countP_nil]
      omega

/-- What the frames and the open elements are to the one state they are to the other. -/
theorem Restacks.congr {s₁ s₁' : State} {left : Nat} {added : List Frame}
    {opened : List (List String × Nat)} (h : Restacks s s' left added opened)
    (hframes : s.frames = s₁.frames) (hplaces : s.tree.places = s₁.tree.places)
    (hframes' : s'.frames = s₁'.frames) (hplaces' : s'.tree.places = s₁'.tree.places) :
    Restacks s₁ s₁' left added opened := by
  obtain ⟨hnew, hnewPlaces, hstays, hone, hinStep⟩ := h
  rw [hframes] at hnew hnewPlaces hstays
  rw [hplaces] at hnewPlaces
  exact ⟨hframes' ▸ hnew, hplaces' ▸ hnewPlaces, hstays, hone, hinStep⟩

theorem restacks_of_step (hc : c.Sound) {o : Outcome} (h : s.step c = .ok o) :
    ∃ left added opened, Restacks s o.state left added opened := by
  cases takes_of_step h with
  | done _ => exact ⟨0, [], [], restacks_of_sameTree ⟨rfl, rfl⟩⟩
  | forced t _ _ =>
    exact ⟨0, [], [], restacks_of_sameTree (forceChar_sameTree (s.reach c t) c t.start)⟩
  | text t _ _ _ =>
    exact ⟨0, [], [], restacks_of_sameTree (asText_sameTree ((s.reach c t).note t) c t)⟩
  | begins t id s' hnext _ hrule hbegin =>
    obtain ⟨m, hm⟩ := nextTerminator?_begins hc hnext hrule
    obtain ⟨bound, s₁, _, htake, hs'⟩ := (beginMode_eq_ok hm).mp hbegin
    subst hs'
    obtain ⟨added, opened, hrestacks⟩ := enter_restacks s₁ c id bound
    exact ⟨0, added, opened, hrestacks.congr (takeBegin_sameControl _ _ _ _ _ htake).frames
      (takeBegin_grows htake).places rfl rfl⟩
  | ends t n s' hnext _ _ hclosed hend =>
    obtain ⟨m, hm, _⟩ := nextTerminator?_some hnext
    obtain ⟨s₁, htake, hs'⟩ := (endModes_eq_ok (s := (s.reach c t).note t) hm).mp hend
    subst hs'
    have hframes : s₁.frames = s.frames := (takeEnd_sameControl _ _ _ _ _ htake).frames
    have hplaces : s₁.tree.places = s.tree.places := (takeEnd_grows htake).places
    obtain ⟨added, opened, hnew, hnewPlaces, _, hone, hinStep⟩ :=
      follow_restacks (s₁.leaveAll c n) c (((s.reach c t).note t).lastClosed? n)
    rw [List.drop_zero, leaveAll_frames, hframes] at hnew
    rw [List.take_zero, List.countP_nil, List.drop_zero, leaveAll_places, hframes, hplaces]
      at hnewPlaces
    exact ⟨n, added, opened, hnew, hnewPlaces, (closedBy?_lt hclosed).2.le, hone, hinStep⟩

/-! ## Modes inside a mode -/

/-- The modes of the one state are open in the other one too, below others, and so are
its elements. -/
structure Above (base s : State) : Prop where
  front : ∃ front opened, s.frames = front ++ base.frames ∧
    s.tree.places = opened ++ base.tree.places ∧ opened.length = front.countP Frame.opened

theorem Above.refl (s : State) : Above s s := ⟨[], [], rfl, rfl, rfl⟩

theorem Above.places {base : State} (h : Above base s) :
    base.tree.places <:+ s.tree.places := by
  obtain ⟨_, opened, _, hplaces, _⟩ := h.front
  exact ⟨opened, hplaces.symm⟩

/-- As long as more modes are open, those below stay as they are. -/
theorem Above.step {base : State} (h : Above base s) (hc : c.Sound) {o : Outcome}
    (hstep : s.step c = .ok o) (hlong : base.frames.length < o.state.frames.length) :
    Above base o.state := by
  obtain ⟨front, open₁, hframes, hplaces, hlength⟩ := h.front
  obtain ⟨left, added, open₂, hframes', hplaces', hleft, hone, hlength'⟩ :=
    restacks_of_step hc hstep
  have hinside : left ≤ front.length := by
    rw [hframes', List.length_append, List.length_drop] at hlong
    rw [hframes, List.length_append] at hleft hlong
    omega
  rw [hframes, List.drop_append_of_le_length hinside] at hframes'
  have hcount : (front.take left).countP Frame.opened ≤ open₁.length :=
    hlength ▸ (List.take_sublist left front).countP_le
  rw [hframes, hplaces, List.take_append_of_le_length hinside,
    List.drop_append_of_le_length hcount] at hplaces'
  refine ⟨added ++ front.drop left,
    open₂ ++ open₁.drop ((front.take left).countP Frame.opened), ?_, ?_, ?_⟩
  · rw [hframes', List.append_assoc]
  · rw [hplaces', List.append_assoc]
  · have hsplit : (front.take left ++ front.drop left).countP Frame.opened =
        (front.take left).countP Frame.opened + (front.drop left).countP Frame.opened :=
      List.countP_append
    rw [List.take_append_drop] at hsplit
    rw [List.length_append, List.length_drop, List.countP_append]
    omega

theorem above_of_after {base : State} (hc : c.Sound) {n : Nat} (h : Above base s)
    (hlong : ∀ k sₖ, k < n → s.after c (k + 1) = some sₖ → base.frames.length < sₖ.frames.length)
    (hs' : s.after c n = some s') : Above base s' := by
  induction n generalizing s' with
  | zero =>
    cases hs'
    exact h
  | succ n ih =>
    obtain ⟨s₁, hs₁, hstep⟩ := after_succ_eq_some.mp hs'
    have hbefore := ih (fun k sₖ hk => hlong k sₖ (Nat.lt_succ_of_lt hk)) hs₁
    exact hbefore.step hc hstep (hlong n s' (Nat.lt_succ_self n) hs')

/-! ## Text that stays inside -/

/-- Leaving modes that opened nothing leaves the tree alone. -/
theorem leaveAll_tree (s : State) (c : Context) {n : Nat}
    (h : (s.frames.take n).any Frame.opened = false) : (s.leaveAll c n).tree = s.tree := by
  induction n generalizing s with
  | zero => rfl
  | succ n ih =>
    rcases hframes : s.frames with _ | ⟨f, frames⟩
    · rw [State.leaveAll, ih]
      · simp [State.leave, hframes]
      · simp [leave_frames, hframes]
    · rw [hframes, List.take_succ_cons, List.any_cons, Bool.or_eq_false_iff] at h
      rw [State.leaveAll, ih]
      · rw [leave_tree s c hframes, h.1]
        rfl
      · rw [leave_frames, hframes]
        exact h.2

section

variable {places : List (List String × Nat)} {stop : Nat}

theorem holds_leaveAll (h : s.tree.Holds places stop) (hstop : stop ≤ s.tree.text.length)
    (n : Nat) : (s.leaveAll c n).tree.Holds places stop := by
  induction n generalizing s with
  | zero => exact h
  | succ n ih =>
    apply ih
    · rcases hframes : s.frames with _ | ⟨f, frames⟩
      · simpa [State.leave, hframes] using h
      · rw [leave_tree s c hframes]
        split
        · exact h.close hstop
        · exact h
    · rw [leave_text]
      exact hstop

theorem holds_enter (h : s.tree.Holds places stop) (id : Nat) (bound : Option Pattern) :
    (s.enter c id bound).tree.Holds places stop := by
  unfold State.enter
  split
  · exact h.openElement _
  · exact h

theorem holds_follow (h : s.tree.Holds places stop) (closed : Option Frame) :
    (s.follow c closed).tree.Holds places stop := by
  unfold State.follow
  split
  · exact holds_enter h _ _
  · exact h

/-- What a step collects comes to stand inside the elements that are open, unless the
step closes one in a mode that skips while some of it waits. -/
theorem holds_step (hc : c.PutsOut) {o : Outcome} (hstep : s.step c = .ok o)
    (hspills : s.tree.text.length < stop → s.spills c = false) (h : s.tree.Holds places stop)
    (hstop : stop ≤ (s.gathered c).length) : o.state.tree.Holds places stop := by
  cases takes_of_step hstep with
  | done _ => exact h
  | forced t _ _ =>
    rw [(forceChar_sameTree (s.reach c t) c t.start).1]
    exact h
  | text t _ _ _ =>
    rw [(asText_sameTree ((s.reach c t).note t) c t).1]
    exact h
  | begins t id s' hnext _ hrule hbegin =>
    obtain ⟨m, hm⟩ := nextTerminator?_begins hc.toSound hnext hrule
    obtain ⟨bound, s₁, _, htake, hs'⟩ := (beginMode_eq_ok hm).mp hbegin
    subst hs'
    have hgrows := takeBegin_grows htake
    exact holds_enter (h.of_grows hgrows) id bound
  | ends t n s' hnext hdegenerate hrule hclosed hend =>
    obtain ⟨m, hm, _⟩ := nextTerminator?_some hnext
    obtain ⟨s₁, htake, hs'⟩ := (endModes_eq_ok (s := (s.reach c t).note t) hm).mp hend
    subst hs'
    have hframes : s₁.frames = s.frames := (takeEnd_sameControl _ _ _ _ _ htake).frames
    have hgrows := takeEnd_grows htake
    have htaken := h.of_grows hgrows
    apply holds_follow
    rcases hskip : m.skip with _ | _
    · -- all that was collected is put out before anything closes
      rw [gathered_of_ends hnext hdegenerate hrule hclosed hm] at hstop
      have htext := takeEnd_text hc hskip htake
      have hput : s₁.tree.text = (s.reach c t).written ++
          (if m.takesEnd then c.slice t.start t.stop else "") := by
        rw [htext, CompiledMode.takesEnd, hskip, Bool.false_or]
        cases m.returnEnd || m.excludeEnd <;> simp
        · rfl
        · rfl
      exact holds_leaveAll htaken (hput ▸ hstop) n
    · by_cases hput : stop ≤ s₁.tree.text.length
      · exact holds_leaveAll htaken hput n
      · have htree : s₁.tree = s.tree := by
          rw [State.takeEnd, if_pos hskip] at htake
          cases htake
          rfl
        have hnone := hspills (htree ▸ Nat.not_le.mp hput)
        rw [leaveAll_tree]
        · exact htaken
        · rw [hframes]
          simpa [State.spills, hnext, hdegenerate, hrule, hm, hskip, hclosed] using hnone

end

/-! ## To the end of the text -/

theorem account_beginsWith (s : State) (c : Context) : BeginsWith (s.account c) s.written :=
  .append _ _

/-- What a step collects is part of all the text after it. -/
theorem account_of_step (hc : c.PutsOut) {o : Outcome} (h : s.step c = .ok o) :
    BeginsWith (o.state.account c) (s.gathered c) := by
  rcases hnext : s.nextTerminator? c with _ | t
  · simp only [State.step, hnext, Except.ok.injEq] at h
    subst h
    simp only [State.gathered, hnext]
    exact .refl _
  · exact (account_beginsWith _ c).trans (written_of_step hc hnext h)

/-- A step that does not end the scan gets to a terminator. -/
theorem exists_terminator (h : s.step c = .ok (.next s')) : ∃ t, s.nextTerminator? c = some t := by
  rcases hnext : s.nextTerminator? c with _ | t
  · simp [State.step, hnext] at h
  · exact ⟨t, rfl⟩

/-- What is collected is there at the end of the run, inside the elements that were open. -/
theorem holds_run (hc : c.PutsOut) {places : List (List String × Nat)} {stop n : Nat}
    (hrun : State.run c n s = .ok s')
    (hspills : ∀ k sₖ, s.after c k = some sₖ → sₖ.tree.text.length < stop → sₖ.spills c = false)
    (h : s.tree.Holds places stop) (hstop : stop ≤ (s.gathered c).length) :
    s'.tree.Holds places stop ∧ BeginsWith (s'.account c) (s.gathered c) := by
  induction n generalizing s with
  | zero => cases hrun
  | succ n ih =>
    rw [State.run] at hrun
    obtain ⟨o, ho, hrun⟩ := bind_eq_ok.mp hrun
    have hstep := holds_step hc ho (hspills 0 s rfl) h hstop
    rcases o with s₁ | s₁
    · obtain ⟨t, hnext⟩ := exists_terminator ho
      have hwritten := written_of_step hc hnext ho
      have hkept : BeginsWith (s₁.gathered c) (s.gathered c) :=
        (gathered_beginsWith s₁ c).trans hwritten
      have hrest := (forall_after_iff
        (P := fun sₖ => sₖ.tree.text.length < stop → sₖ.spills c = false) ho).mp hspills
      obtain ⟨hholds, hthere⟩ := ih hrun hrest.2 hstep (hstop.trans hkept.length_le)
      exact ⟨hholds, hthere.trans hkept⟩
    · have hthere := account_of_step hc ho
      cases hrun
      exact ⟨hstep, hthere⟩

/-- A run goes on from each of its states. -/
theorem run_of_after {n k : Nat} {s₁ : State} (hrun : State.run c n s = .ok s')
    (h : s.after c k = some s₁) : ∃ m, State.run c m s₁ = .ok s' := by
  induction k generalizing s n with
  | zero =>
    cases h
    exact ⟨n, hrun⟩
  | succ k ih =>
    cases n with
    | zero => cases hrun
    | succ n =>
      rw [State.run] at hrun
      obtain ⟨o, ho, hrun⟩ := bind_eq_ok.mp hrun
      rcases o with s₂ | s₂
      · exact ih hrun ((after_of_step ho k).symm.trans h)
      · rw [Nat.add_comm, after_add] at h
        simp [State.after, State.next?, ho] at h

/-- The finished tree has the elements that hold what was collected. -/
theorem holds_finish (hc : c.PutsOut) {places : List (List String × Nat)} {stop : Nat}
    {r : Scanned} (hfinish : s.finish c = .ok r) (h : s.tree.Holds places stop)
    (hstop : stop ≤ (s.account c).length) :
    ∃ es, es.Sublist (Node.elementsAll 0 r.nodes) ∧
      List.Forall₂ (Element.HoldsTo stop) places es := by
  unfold State.finish at hfinish
  obtain ⟨s₁, hflush, hfinish⟩ := bind_eq_ok.mp hfinish
  cases hfinish
  obtain ⟨htext, _⟩ := flush_text hc hflush
  have hput : s₁.tree.text = s.account c := htext.trans (written_push _ _)
  have hgrows := flush_grows hflush
  have hholds := h.of_grows hgrows
  show ∃ es : List Element,
    es.Sublist (Node.elementsAll 0 (s₁.leaveAll c (s₁.frames.length - 1)).tree.finish) ∧ _
  rw [finish_leaveAll]
  exact hholds.finish (hput ▸ hstop)

/-! ## Text that comes to stand behind an element -/

/-- No act takes a closed element away. -/
theorem play_closed (s : State) (c : Context) (a : Act) : s.tree.closed <+: (s.play c a).tree.closed := by
  cases a with
  | put p => exact (emitAll_grows [p] s).closed
  | embedded language weight e =>
    rw [State.play, embed_tree]
    exact (Tree.Builder.Grows.addEmbedded _ _ _).closed
  | enter id bound =>
    rw [State.play, State.enter]
    split
    · exact (Tree.Builder.closed_openElement _ _).symm ▸ List.prefix_rfl
    · exact List.prefix_rfl
  | leave =>
    rcases hframes : s.frames with _ | ⟨f, frames⟩
    · simp [State.play, State.leave, hframes]
    · rw [State.play, leave_tree s c hframes]
      split
      · exact Tree.Builder.closed_close _
      · exact List.prefix_rfl

theorem Plays.closed {acts : List Act} (h : Plays c s acts s') (hs : s.frames ≠ []) :
    s.tree.closed <+: s'.tree.closed :=
  (h.keeps (P := fun s₁ => s.tree.closed <+: s₁.tree.closed)
    (fun _ _ hsame hclosed => hsame.tree ▸ hclosed)
    (fun s₁ a _ _ hclosed => hclosed.trans (play_closed s₁ c a)) hs List.prefix_rfl).1

theorem leaveAll_closed (s : State) (c : Context) (n : Nat) :
    s.tree.closed <+: (s.leaveAll c n).tree.closed := by
  induction n generalizing s with
  | zero => exact List.prefix_rfl
  | succ n ih => exact (play_closed s c .leave).trans (ih (s.leave c))

/-- The innermost element closes with the text that was put out until then. -/
theorem leaveAll_closes {n : Nat} {p : List String × Nat} {rest : List (List String × Nat)}
    (hopened : (s.frames.take n).any Frame.opened = true) (hplaces : s.tree.places = p :: rest) :
    ⟨p.1, p.2, String.ofList (s.tree.text.toList.drop p.2)⟩ ∈ (s.leaveAll c n).tree.closed := by
  induction n generalizing s with
  | zero => simp at hopened
  | succ n ih =>
    rcases hframes : s.frames with _ | ⟨f, frames⟩
    · simp [hframes] at hopened
    · have hleave := leave_tree s c hframes
      rcases hf : f.opened with _ | _
      · rw [hf] at hleave
        have hsame : (s.leave c).tree = s.tree := hleave
        rw [State.leaveAll, ← hsame]
        apply ih
        · rw [leave_frames, hframes]
          simpa [hframes, hf] using hopened
        · rw [hsame, hplaces]
      · rw [hf, if_pos rfl] at hleave
        apply (leaveAll_closed (s.leave c) c n).subset
        rw [hleave, (Tree.Builder.close_of_places hplaces).2]
        exact List.mem_append_right _ List.mem_cons_self

theorem spills_eq_true (h : s.spills c = true) :
    ∃ t m n, s.nextTerminator? c = some t ∧ (s.reach c t).isDegenerate t = false ∧
      t.rule = .ends ∧ s.top? c = some m ∧ m.skip = true ∧ closedBy? c t.start s.frames = some n ∧
      (s.frames.take n).any Frame.opened = true := by
  unfold State.spills at h
  split at h
  · cases h
  · rename_i t hnext
    simp only [Bool.and_eq_true, Bool.not_eq_true', beq_iff_eq, Option.any_eq_true] at h
    obtain ⟨⟨⟨hdegenerate, hrule⟩, m, hm, hskip⟩, n, hclosed, hopened⟩ := h
    exact ⟨t, m, n, hnext, hdegenerate, hrule, hm, hskip, hclosed, hopened⟩

theorem length_placesIn (pos : Nat) (es : List Tree.OpenElement) :
    (Tree.placesIn pos es).length = es.length := by
  induction es with
  | nil => rfl
  | cons e es ih => rw [Tree.placesIn, List.length_cons, List.length_cons, ih]

/-- Where a mode is open that opened an element, an element is open. -/
theorem InStep.places_ne_nil (h : InStep c.language lead s) {n : Nat}
    (hopened : (s.frames.take n).any Frame.opened = true) : s.tree.places ≠ [] := by
  obtain ⟨f, hf, hfopened⟩ := List.any_eq_true.mp hopened
  have hmem : f ∈ s.frames.filter Frame.opened :=
    List.mem_filter.mpr ⟨List.mem_of_mem_take hf, hfopened⟩
  intro hnone
  have hlength := length_placesIn (Node.textOfAll s.tree.top.reverse).length s.tree.openElements
  rw [show Tree.placesIn _ _ = s.tree.places from rfl, hnone, h.elements.length_eq] at hlength
  rw [List.length_eq_zero_iff.mp hlength.symm] at hmem
  cases hmem

/-- Where a step closes an element in a mode that skips, the innermost element closes
with what was put out before, and without what was waiting. -/
theorem closed_of_spills (hs : InStep c.language lead s) (hspills : s.spills c = true) {o : Outcome}
    (hstep : s.step c = .ok o) :
    ∃ s₁ p rest, o = .next s₁ ∧ s.tree.places = p :: rest ∧
      ⟨p.1, p.2, String.ofList (s.tree.text.toList.drop p.2)⟩ ∈ s₁.tree.closed := by
  obtain ⟨t, m, n, hnext, hdegenerate, hrule, hm, hskip, hclosed, hopened⟩ :=
    spills_eq_true hspills
  obtain ⟨p, rest, hplaces⟩ := List.exists_cons_of_ne_nil (hs.places_ne_nil hopened)
  have hturn : s.step c = ((s.reach c t).note t).endModes c n t >>= fun s' => .ok (.next s') := by
    have hframes : ((s.reach c t).note t).frames = s.frames := rfl
    simp only [State.step, hnext, handle_eq, hdegenerate, hrule, hframes, hclosed,
      Bool.false_eq_true, if_false]
  rw [hturn] at hstep
  obtain ⟨s', hend, ho⟩ := bind_eq_ok.mp hstep
  obtain ⟨s₁, htake, hs'⟩ := (endModes_eq_ok (s := (s.reach c t).note t) hm).mp hend
  cases ho
  subst hs'
  rw [State.takeEnd, if_pos hskip] at htake
  cases htake
  have hfollowed : ∀ s₁ : State, (s₁.follow c (s.lastClosed? n)).tree.closed = s₁.tree.closed := by
    intro s₁
    unfold State.follow State.enter
    split
    · split
      · exact Tree.Builder.closed_openElement _ _
      · rfl
    · rfl
  have hcloses := leaveAll_closes
    (s := ((s.reach c t).note t).push (c.slice t.start t.stop)) (c := c) hopened hplaces
  exact ⟨_, p, rest, rfl, hplaces, (hfollowed _).symm ▸ hcloses⟩

/-! ## Modes that skip and close nothing -/

end

end Scan

/-- If the mode skips, it has no class name, and it neither ends with the mode around it
nor ends that. -/
def CompiledMode.SkipsInside (m : CompiledMode) : Prop :=
  m.skip = true → m.className = none ∧ m.endsWithParent = false ∧ m.endsParent = false

namespace Scan

section

variable {c : Context} {s s' : State} {lead : String}

/-- An end found in such a mode closes that mode alone, and no element with it. -/
theorem spills_of_skipsInside (hskips : ∀ m ∈ c.language.modes, m.SkipsInside)
    (hs : InStep c.language lead s) : s.spills c = false := by
  by_contra hspills
  rw [Bool.not_eq_false] at hspills
  obtain ⟨t, m, n, _, _, _, hm, hskip, hclosed, hopened⟩ := spills_eq_true hspills
  obtain ⟨hname, hwith, hends⟩ := hskips m (top?_mem hm) hskip
  rcases hframes : s.frames with _ | ⟨f, below⟩
  · simp [hframes] at hopened
  · have hmode : c.modeOf? f = some m := by
      rw [State.top?, hframes] at hm
      exact hm
    rw [hframes] at hclosed hopened
    obtain rfl := closedBy?_alone hmode hwith hends hclosed
    have hf : f.opened = true := by simpa using hopened
    have helements := hs.elements
    rw [hframes, List.filter_cons_of_pos hf] at helements
    obtain ⟨e, es, ⟨name, hfound, _⟩, _⟩ := List.forall₂_cons_right_iff.mp helements
    rw [show c.language.mode? f.mode = some m from hmode, Option.bind_some, hname] at hfound
    cases hfound

/-! ## Whole scans -/

theorem Plays.inStep {acts : List Act} (h : Plays c s acts s') (hne : s.frames ≠ [])
    (hs : InStep c.language lead s) : InStep c.language lead s' ∧ s'.frames ≠ [] :=
  h.keeps (fun _ _ hsame hs => hs.congr hsame) (fun _ a _ _ hs => hs.play a) hne hs

/-- In every state of a scan the open elements are those of the open modes. -/
theorem inStep_of_after {n : Nat} (h : s.after c n = some s') (hne : s.frames ≠ [])
    (hs : InStep c.language lead s) : InStep c.language lead s' ∧ s'.frames ≠ [] := by
  induction n generalizing s' with
  | zero =>
    cases h
    exact ⟨hs, hne⟩
  | succ n ih =>
    obtain ⟨s₁, h₁, hstep⟩ := after_succ_eq_some.mp h
    obtain ⟨hs₁, hne₁⟩ := ih h₁
    exact (step_plays hstep).inStep hne₁ hs₁

/-- What was collected is still there later on. -/
theorem gathered_of_after (hc : c.PutsOut) {k : Nat} (h : s.after c k = some s') :
    BeginsWith (s'.gathered c) (s.gathered c) := by
  induction k generalizing s' with
  | zero =>
    cases h
    exact .refl _
  | succ k ih =>
    obtain ⟨s₁, h₁, hstep⟩ := after_succ_eq_some.mp h
    obtain ⟨t, hnext⟩ := exists_terminator hstep
    have hwritten := written_of_step hc hnext hstep
    exact ((gathered_beginsWith s' c).trans hwritten).trans (ih h₁)

theorem exists_step_of_run {n : Nat} (h : State.run c n s = .ok s') : ∃ o, s.step c = .ok o := by
  cases n with
  | zero => cases h
  | succ n =>
    rw [State.run] at h
    obtain ⟨o, ho, _⟩ := bind_eq_ok.mp h
    exact ⟨o, ho⟩

/-- A scan of a text goes from each of its states to a last one, which it finishes. -/
theorem finish_of_after {steps n : Nat} {resume : Option Continuation} {r : Scanned}
    (htext : c.text ≠ #[]) (h : scanWithin steps c lead resume = .ok r)
    (hs : (startState lead resume).after c n = some s) :
    ∃ m s', State.run c m s = .ok s' ∧ s'.finish c = .ok r := by
  rcases scanWithin_eq_ok.mp h with ⟨hempty, _⟩ | ⟨_, s', hrun, hfinish⟩
  · exact absurd (Array.isEmpty_iff.mp hempty) htext
  · obtain ⟨m, hrest⟩ := run_of_after hrun hs
    exact ⟨m, s', hrest, hfinish⟩

/-- The elements of the finished tree are those that were closed, and more. -/
theorem closed_of_finish {n : Nat} {r : Scanned} (hne : s.frames ≠ [])
    (hrun : State.run c n s = .ok s') (hfinish : s'.finish c = .ok r) :
    s.tree.closed <+: Node.elementsAll 0 r.nodes := by
  have hclosed := (run_plays hrun).closed hne
  unfold State.finish at hfinish
  obtain ⟨s₁, hflush, hfinish⟩ := bind_eq_ok.mp hfinish
  cases hfinish
  have hgrows := (flush_grows hflush).closed
  show s.tree.closed <+: Node.elementsAll 0 (s₁.leaveAll c (s₁.frames.length - 1)).tree.finish
  rw [finish_leaveAll, Tree.Builder.elementsAll_finish_eq]
  exact (hclosed.trans hgrows).trans (Tree.Builder.closed_closeAll _ _)

end

/-- In a scan of a text take a state, and a later one such that more modes were open
after each step in between. What is collected in the later one begins with what is
collected in the first, and comes to stand inside all elements that were open in the
first: whatever the flags of the modes, unless an end found in a mode that skips closes
an element while some of that text waits. No such end is found where the modes that skip
have no class names, do not end with the modes around them, and do not end those. Where
one is found, the innermost element closes without the text that waits. -/
theorem text_stays_inside_unless_a_skipping_mode_closes_an_element (r : Registry) (g : Grammar)
    (c : Context) (hg : g.CompilesTo c.language)
    (hpatterns : ∀ m ∈ c.language.modes, m.StaysInText) (limits : Option Limits) (lead : String)
    (level : Nat) (hhost : c.host = hostWithin limits r lead level)
    (hembedded : ∀ l, r.Embeds c.language l → r.KeepsTextFrom l) (htext : c.text ≠ #[])
    (steps : Option Nat) (resume : Option Continuation) (scanned : Scanned)
    (hscan : scanUnder steps c lead resume = .ok scanned) :
    (∀ n k s s', (startState lead resume).after c n = some s → s.after c k = some s' →
      (∀ j sⱼ, j < k → s.after c (j + 1) = some sⱼ → s.frames.length < sⱼ.frames.length) →
      (∀ j sⱼ, s'.after c j = some sⱼ → sⱼ.tree.text.length < (s'.gathered c).length →
        sⱼ.spills c = false) →
      BeginsWith (s'.gathered c) (s.gathered c) ∧
      BeginsWith (Node.textOfAll scanned.nodes) (s'.gathered c) ∧
      (∀ place ∈ s.tree.places, place.2 ≤ s.tree.text.length) ∧
      ∃ es, es.Sublist (Node.elementsAll 0 scanned.nodes) ∧
        List.Forall₂ (Element.HoldsTo (s'.gathered c).length) s.tree.places es) ∧
    ((∀ m ∈ c.language.modes, m.SkipsInside) →
      ∀ n s, (startState lead resume).after c n = some s → s.spills c = false) ∧
    (∀ n s, (startState lead resume).after c n = some s → s.spills c = true →
      ∃ place rest, s.tree.places = place :: rest ∧
        ⟨place.1, place.2, String.ofList (s.tree.text.toList.drop place.2)⟩ ∈
          Node.elementsAll 0 scanned.nodes) := by
  have hc : c.PutsOut := putsOut_of_compile hg hpatterns hhost hembedded
  obtain ⟨enough, henough⟩ := exists_scanWithin steps c lead resume
  have hscan := henough.symm.trans hscan
  have hinStep : ∀ n s, (startState lead resume).after c n = some s →
      InStep c.language lead s ∧ s.frames ≠ [] := fun n s hs =>
    inStep_of_after hs (startFrames_opened resume).1 (inStep_start c.language lead resume)
  refine ⟨?_, ?_, ?_⟩
  · intro n k s s' hs hs' hlong hspills
    obtain ⟨m, sₘ, hrun, hfinish⟩ : ∃ m sₘ, State.run c m s' = .ok sₘ ∧ sₘ.finish c = .ok scanned := by
      refine finish_of_after htext hscan (n := n + k) ?_
      rw [after_add, hs]
      exact hs'
    have hopen := Tree.Builder.holds_of_open (s'.gathered c).length
      (above_of_after hc.toSound (.refl s) hlong hs').places
    obtain ⟨hholds, hthere⟩ := holds_run hc hrun hspills hopen (Nat.le_refl _)
    refine ⟨gathered_of_after hc hs', ?_, fun place hplace => Tree.Builder.places_le hplace, ?_⟩
    · rw [finish_account hc hfinish]
      exact hthere
    · exact holds_finish hc hfinish hholds hthere.length_le
  · intro hskips n s hs
    exact spills_of_skipsInside hskips (hinStep n s hs).1
  · intro n s hs hspills
    obtain ⟨hin, hne⟩ := hinStep n s hs
    obtain ⟨m, sₘ, hrun, _⟩ := finish_of_after htext hscan hs
    obtain ⟨o, ho⟩ := exists_step_of_run hrun
    obtain ⟨s₁, place, rest, rfl, hplaces, hclosed⟩ := closed_of_spills hin hspills ho
    have hs₁ := after_succ_eq_some.mpr ⟨s, hs, ho⟩
    obtain ⟨m₁, sₙ, hrun₁, hfinish⟩ := finish_of_after htext hscan hs₁
    exact ⟨place, rest, hplaces,
      (closed_of_finish (hinStep (n + 1) s₁ hs₁).2 hrun₁ hfinish).subset hclosed⟩

/-- Strings in quotes, in which a backslash escapes the character behind it. -/
def escapingStrings : Grammar where
  root := { contains := [.inline {
    className := some "string", begins := some "'", ends := some "'"
    contains := [.inline { begins := some "\\\\", ends := some ".", skip := true }] }] }

/-- The escaped quote stands in the string, with the text in front of it. -/
theorem escaped_quote_stays_in_the_string :
    ∃ l s s' r place e, compile escapingStrings = .ok l ∧
      (startState "" none).after (scanOf l "'a\\'b'") 1 = some s ∧
      s.after (scanOf l "'a\\'b'") 1 = some s' ∧ s'.gathered (scanOf l "'a\\'b'") = "'a\\'" ∧
      scanWithin 9 (scanOf l "'a\\'b'") "" none = .ok r ∧ s.tree.places = [place] ∧
      e ∈ Node.elementsAll 0 r.nodes ∧ e.HoldsTo 4 place := by
  have hrun : ((compileWithin escapingStrings 9).toOption.any fun l =>
      l.modes.all (fun m => !m.keeps) &&
      l.modes.all (fun m => !m.skip || m.className.isNone && !m.endsWithParent && !m.endsParent) &&
      (((startState "" none).after (scanOf l "'a\\'b'") 1).any fun s =>
        s.tree.places.length == 1 && (s.after (scanOf l "'a\\'b'") 1).any fun s' =>
          s'.gathered (scanOf l "'a\\'b'") == "'a\\'" && s.frames.length < s'.frames.length) &&
      (scanWithin 9 (scanOf l "'a\\'b'") "" none).isOk) = true := by
    decide +kernel
  obtain ⟨l, hl, hrun⟩ := compile_of_any hrun
  simp only [Bool.and_eq_true, Option.any_eq_true, beq_iff_eq, decide_eq_true_eq] at hrun
  obtain ⟨⟨⟨hkeeps, hskips⟩, s, hs, hlength, s', hs', hgathered, hlong⟩, hscan⟩ := hrun
  obtain ⟨r, hr⟩ := exists_of_isOk hscan
  obtain ⟨place, hplace⟩ := List.length_eq_one_iff.mp hlength
  have hinside : ∀ m ∈ l.modes, m.SkipsInside := by
    intro m hm hskip
    have hnone := Array.all_eq_true_iff_forall_mem.mp hskips m hm
    simpa [hskip, and_assoc] using hnone
  have htext : (scanOf l "'a\\'b'").text ≠ #[] := by simp [scanOf]
  obtain ⟨hstays, hnever, _⟩ := text_stays_inside_unless_a_skipping_mode_closes_an_element {} _
    (scanOf l "'a\\'b'") (compilesTo_iff.mpr hl) (CompiledMode.staysInText_of_all hkeeps) none "" 0
    rfl (fun _ h => absurd h not_embeds_empty) htext (some 9) none r hr
  obtain ⟨_, _, _, es, hes, hholds⟩ := hstays 1 1 s s' hs hs'
    (by
      intro j sⱼ hj hsⱼ
      obtain rfl := Nat.lt_one_iff.mp hj
      rw [hs'] at hsⱼ
      cases hsⱼ
      exact hlong)
    (by
      intro j sⱼ hsⱼ _
      refine hnever hinside (1 + 1 + j) sⱼ ?_
      rw [after_add, after_add, hs, Option.bind_some, hs']
      exact hsⱼ)
  rw [hplace, hgathered] at hholds
  obtain ⟨e, _, hheld, _, rfl⟩ := List.forall₂_cons_left_iff.mp hholds
  exact ⟨l, s, s', r, place, e, hl, hs, hs', hgathered, hr, hplace,
    hes.subset List.mem_cons_self, hheld⟩

/-- In the scan of the text a mode that skips begins, and what is collected in it does
not come to stand inside the element that was innermost there. -/
def LeavesOut (g : Grammar) (text : String) : Prop :=
  ∃ l n s s' m r place rest, compile g = .ok l ∧
    (startState "" none).after (scanOf l text) n = some s ∧
    s.step (scanOf l text) = .ok (.next s') ∧ s'.frames.length = s.frames.length + 1 ∧
    s'.top? (scanOf l text) = some m ∧ m.skip = true ∧ s.tree.places = place :: rest ∧
    scanWithin 9 (scanOf l text) "" none = .ok r ∧
    ∀ e ∈ Node.elementsAll 0 r.nodes, ¬ e.HoldsTo (s'.gathered (scanOf l text)).length place

/-- Whether the mode that begins in step `n` skips, and no element goes as far as what is
collected in it. -/
def leavesOut (g : Grammar) (text : String) (n : Nat) : Bool :=
  (compileWithin g 9).toOption.any fun l => ((startState "" none).after (scanOf l text) n).any fun s =>
    !s.tree.places.isEmpty && (s.next? (scanOf l text)).any fun s' =>
      s'.frames.length == s.frames.length + 1 &&
      (s'.top? (scanOf l text)).any CompiledMode.skip &&
      (scanWithin 9 (scanOf l text) "" none).toOption.any fun r =>
        (Node.elementsAll 0 r.nodes).all fun e =>
          e.start + e.text.length < (s'.gathered (scanOf l text)).length

theorem leavesOut_of_eq_true {g : Grammar} {text : String} (n : Nat)
    (h : leavesOut g text n = true) : LeavesOut g text := by
  obtain ⟨l, hl, h⟩ := compile_of_any h
  obtain ⟨s, hs, h⟩ := (Option.any_eq_true _ _).mp h
  obtain ⟨hplaces, h⟩ := (Bool.and_eq_true _ _).mp h
  obtain ⟨s', hs', h⟩ := (Option.any_eq_true _ _).mp h
  simp only [Bool.and_eq_true, beq_iff_eq] at h
  obtain ⟨⟨hlength, htop⟩, hscan⟩ := h
  obtain ⟨m, hm, hskip⟩ := (Option.any_eq_true _ _).mp htop
  obtain ⟨r, hr, hall⟩ := toOption_any_eq_true.mp hscan
  obtain ⟨place, rest, hplace⟩ := List.exists_cons_of_ne_nil (by simpa using hplaces)
  refine ⟨l, n, s, s', m, r, place, rest, hl, hs, next?_eq_some.mp hs', hlength, hm, hskip,
    hplace, hr, ?_⟩
  intro e he hholds
  have hshort := List.all_eq_true.mp hall e he
  have hstop := hholds.stop
  simp only [decide_eq_true_eq] at hshort
  omega

/-- A mode in which only one that skips can begin. -/
def around (outer inner : Mode) : Grammar where
  root := { contains := [.inline { outer with
    className := some "c", contains := [.inline { inner with skip := true }] }] }

/-- Text is left out where a mode that skips ends its parent, where it ends with its
parent, and where it stands in another one that skips and has a class name. -/
theorem text_that_is_left_out :
    LeavesOut (around { begins := some "<", ends := some ">" }
      { begins := some "a", ends := some "b", endsParent := true }) "<ab" ∧
    LeavesOut (around { begins := some "<", ends := some ">" }
      { begins := some "a", endsWithParent := true }) "<a>" ∧
    LeavesOut (around { begins := some "<", ends := some ">", skip := true }
      { begins := some "a", ends := some "b" }) "<ab>" := by
  refine ⟨leavesOut_of_eq_true 1 ?_, leavesOut_of_eq_true 1 ?_, leavesOut_of_eq_true 1 ?_⟩
  all_goals decide +kernel

end Scan

end Highlighting
