-- The flushes of a scan. All that a scan puts out it puts out when it flushes its
-- buffer, so the states that are flushed tell the output, in its order; and what an
-- embedded language gave stands as an element of its own in the finished tree.
import Highlighting.Proofs.ScanLog

namespace Highlighting

/-! ## The elements of a tree, with what they hold -/

namespace Node

mutual

/-- The elements of a node, each after those inside it. -/
def within : Node → List Node
  | text _ => []
  | element classNames children => withinAll children ++ [element classNames children]

/-- The elements of the nodes of a list. -/
def withinAll : List Node → List Node
  | [] => []
  | n :: ns => n.within ++ withinAll ns

end

@[simp] theorem within_text (value : String) : (text value).within = [] := by simp [within]

@[simp] theorem within_element (classNames : List String) (children : List Node) :
    (element classNames children).within =
      withinAll children ++ [element classNames children] := by
  simp [within]

@[simp] theorem withinAll_nil : withinAll [] = [] := by simp [withinAll]

@[simp] theorem withinAll_cons (n : Node) (ns : List Node) :
    withinAll (n :: ns) = n.within ++ withinAll ns := by
  simp [withinAll]

@[simp] theorem withinAll_append (xs ys : List Node) :
    withinAll (xs ++ ys) = withinAll xs ++ withinAll ys := by
  induction xs with
  | nil => simp
  | cons n ns ih => simp [ih]

theorem withinAll_reverse_cons (n : Node) (ns : List Node) :
    withinAll (n :: ns).reverse = withinAll ns.reverse ++ n.within := by
  simp

/-- Text adds no element. -/
theorem withinAll_pushText (value : String) (ns : List Node) :
    withinAll (pushText value ns).reverse = withinAll ns.reverse := by
  unfold pushText
  split
  · rfl
  · split <;> simp

@[simp] theorem withinAll_plain (value : String) : withinAll (plain value) = [] := by
  unfold plain appendText
  rw [List.reverse_nil, withinAll_pushText]
  simp

end Node

namespace Tree

/-- The finished elements inside the open ones. -/
def finishedIn : List OpenElement → List Node
  | [] => []
  | e :: es => finishedIn es ++ Node.withinAll e.children.reverse

namespace Builder

/-- The elements that are finished, in the order in which they were. -/
def finished (b : Builder) : List Node :=
  Node.withinAll b.top.reverse ++ finishedIn b.openElements

/-- What `modify` adds to the innermost nodes is finished. -/
theorem finished_modify (b : Builder) (f : List Node → List Node) (added : List Node)
    (hf : ∀ ns, Node.withinAll (f ns).reverse = Node.withinAll ns.reverse ++ added) :
    (b.modify f).finished = b.finished ++ added := by
  unfold modify
  rcases ho : b.openElements with _ | ⟨e, es⟩
  · simp [finished, ho, finishedIn, hf]
  · simp [finished, ho, finishedIn, hf]

theorem finished_addText (b : Builder) (value : String) :
    (b.addText value).finished = b.finished := by
  have h := finished_modify b (Node.pushText value) [] fun ns => by
    rw [Node.withinAll_pushText, List.append_nil]
  rwa [List.append_nil] at h

/-- A node that is added is finished, after all that stands in it. -/
theorem finished_addNode (b : Builder) (n : Node) :
    (b.modify (n :: ·)).finished = b.finished ++ n.within :=
  finished_modify b (n :: ·) n.within (Node.withinAll_reverse_cons n)

theorem finished_openElement (b : Builder) (className : String) :
    (b.openElement className).finished = b.finished := by
  simp [finished, openElement, finishedIn]

theorem finished_close (b : Builder) : b.finished <+: b.close.finished := by
  unfold close close?
  rcases ho : b.openElements with _ | ⟨e, es⟩
  · exact List.prefix_rfl
  · rw [Option.getD_some, finished_addNode]
    refine ⟨[.element e.classNames e.children.reverse], ?_⟩
    simp [finished, ho, finishedIn]

theorem finished_closeAll (b : Builder) (n : Nat) : b.finished <+: (b.closeAll n).finished := by
  induction n generalizing b with
  | zero => exact List.prefix_rfl
  | succ n ih => exact b.finished_close.trans (ih b.close)

/-- What is finished stands in the finished tree. -/
theorem finished_finish (b : Builder) : b.finished <+: Node.withinAll b.finish := by
  refine (b.finished_closeAll b.depth).trans ?_
  simp [finish, finished, openElements_closeAll_depth, finishedIn]

end Builder

end Tree

namespace Scan

/-! ## What acts put out -/

/-- Whether an act puts something out. The others open and close modes. -/
def Act.putsOut : Act → Bool
  | .put _ | .embedded .. => true
  | .enter .. | .leave => false

/-- The element of an embedded result. -/
def Act.embeddedNode? : Act → Option Node
  | .embedded language _ e => some (.element [language] e.nodes)
  | .put _ | .enter .. | .leave => none

section

variable {c : Context}

theorem emit_finished (s : State) (p : Piece) : s.tree.finished <+: (s.emit p).tree.finished := by
  cases p with
  | text value => exact (s.tree.finished_addText value).symm ▸ List.prefix_rfl
  | keyword k lexeme => exact (s.tree.finished_addNode _).symm ▸ List.prefix_append _ _

theorem leave_finished (s : State) : s.tree.finished <+: (s.leave c).tree.finished := by
  rcases hframes : s.frames with _ | ⟨f, frames⟩
  · have hleave : s.leave c = s := by
      unfold State.leave
      rw [hframes]
    rw [hleave]
  · rw [leave_tree s c hframes]
    split
    · exact s.tree.finished_close
    · exact List.prefix_rfl

theorem enter_finished (s : State) (id : Nat) (bound : Option Pattern) :
    (s.enter c id bound).tree.finished = s.tree.finished := by
  unfold State.enter
  split
  · exact s.tree.finished_openElement _
  · rfl

/-- No act takes an element away, and an embedded result adds its own. -/
theorem play_finished (s : State) (a : Act) :
    (s.tree.finished ++ a.embeddedNode?.toList).Sublist (s.play c a).tree.finished := by
  cases a with
  | put p =>
    rw [Act.embeddedNode?, Option.toList_none, List.append_nil]
    exact (emit_finished s p).sublist
  | embedded language weight e =>
    have htree : (s.play c (.embedded language weight e)).tree = s.tree.addEmbedded language e.nodes :=
      embed_tree s language weight e
    rw [htree, Tree.Builder.addEmbedded, Tree.Builder.finished_addNode, Node.within_element]
    exact .append (.refl _) (List.sublist_append_right _ _)
  | enter id bound =>
    have hplay : (s.play c (.enter id bound)).tree.finished = s.tree.finished := enter_finished s id bound
    rw [hplay, Act.embeddedNode?, Option.toList_none, List.append_nil]
  | leave =>
    rw [Act.embeddedNode?, Option.toList_none, List.append_nil]
    exact (leave_finished s).sublist

/-- The embedded results of a log stand in the tree that it builds, in their order. -/
theorem playAll_finished (s : State) (acts : List Act) :
    (s.tree.finished ++ acts.filterMap Act.embeddedNode?).Sublist
      (s.playAll c acts).tree.finished := by
  induction acts generalizing s with
  | nil =>
    rw [List.filterMap_nil, List.append_nil]
    exact .refl _
  | cons a acts ih =>
    have hsplit : (a :: acts).filterMap Act.embeddedNode? =
        a.embeddedNode?.toList ++ acts.filterMap Act.embeddedNode? := by
      rw [List.filterMap_cons]
      cases a.embeddedNode? <;> rfl
    rw [hsplit, ← List.append_assoc]
    exact ((play_finished s a).append (.refl _)).trans (ih (s.play c a))

end

/-! ## The flushes of a scan -/

/-- The state that is flushed before a mode begins at a lexeme, if any is. -/
def State.flushedAtBegin (s : State) (m : CompiledMode) (lexeme : String) : List State :=
  if m.skip then [] else [if m.excludeBegin then s.push lexeme else s]

/-- The state that is flushed before modes end at a lexeme, if any is. -/
def State.flushedAtEnd (s : State) (m : CompiledMode) (lexeme : String) : List State :=
  if m.skip then [] else [if m.returnEnd || m.excludeEnd then s else s.push lexeme]

/-- The state that is flushed at a terminator, if any is. -/
def State.flushedAt (s : State) (c : Context) (t : Terminator) : List State :=
  if (s.reach c t).isDegenerate t then []
  else match t.rule with
    | .begins id =>
      match c.language.mode? id with
      | some m => ((s.reach c t).note t).flushedAtBegin m (c.slice t.start t.stop)
      | none => []
    | .ends =>
      match closedBy? c t.start s.frames, s.top? c with
      | some _, some m => ((s.reach c t).note t).flushedAtEnd m (c.slice t.start t.stop)
      | _, _ => []
    | .illegal => []

/-- The state that is flushed in one step, if any is. -/
def State.stepFlushes (s : State) (c : Context) : List State :=
  match s.nextTerminator? c with
  | some t => s.flushedAt c t
  | none => []

/-- The states that are flushed in at most so many steps. -/
def State.runFlushes (c : Context) : (steps : Nat) → State → List State
  | 0, _ => []
  | n + 1, s =>
    match s.step c with
    | .ok (.next s') => s.stepFlushes c ++ s'.runFlushes c n
    | _ => s.stepFlushes c

/-- The states that a scan flushes. The last one holds the rest of the text. -/
def scanFlushes (steps : Nat) (c : Context) (lead : String) (resume : Option Continuation) :
    List State :=
  if c.text.isEmpty then []
  else
    (startState lead resume).runFlushes c steps ++
      match State.run c steps (startState lead resume) with
      | .ok s => [s.push (c.slice s.cursor c.text.size)]
      | .error _ => []

/-! ### All output comes from flushes -/

section

variable {c : Context}

theorem filter_embedActs (s : State) (language : SubLanguage) (weight : Nat) (text : String) :
    (s.embedActs c language weight text).filter Act.putsOut =
      s.embedActs c language weight text := by
  unfold State.embedActs
  generalize c.host = host
  rcases host with _ | host
  · rfl
  · cases language with
    | name name =>
      simp only
      split
      · split <;> rfl
      · rfl
    | candidates names =>
      simp only
      split <;> rfl

/-- A flush only puts out. -/
theorem filter_flushActs (s : State) : (s.flushActs c).filter Act.putsOut = s.flushActs c := by
  unfold State.flushActs
  split
  · rfl
  · split
    · rfl
    · rw [List.filter_eq_self]
      intro a ha
      obtain ⟨p, _, rfl⟩ := List.mem_map.mp ha
      rfl
    · split
      · rfl
      · exact filter_embedActs s _ _ _

theorem filter_actsAtBegin (s : State) (m : CompiledMode) (lexeme : String) :
    (s.actsAtBegin c m lexeme).filter Act.putsOut =
      (s.flushedAtBegin m lexeme).flatMap (·.flushActs c) := by
  unfold State.actsAtBegin State.flushedAtBegin
  split
  · rfl
  · rw [filter_flushActs, List.flatMap_singleton]

theorem filter_actsAtEnd (s : State) (m : CompiledMode) (lexeme : String) :
    (s.actsAtEnd c m lexeme).filter Act.putsOut =
      (s.flushedAtEnd m lexeme).flatMap (·.flushActs c) := by
  unfold State.actsAtEnd State.flushedAtEnd
  split
  · rfl
  · rw [filter_flushActs, List.flatMap_singleton]

theorem filter_handleActs (s : State) (t : Terminator) :
    (s.handleActs c t).filter Act.putsOut = (s.flushedAt c t).flatMap (·.flushActs c) := by
  unfold State.handleActs State.flushedAt
  split
  · rfl
  · rcases t.rule with id | _ | _
    · unfold State.beginActs
      simp only
      rcases c.language.mode? id with _ | m
      · rfl
      · simp only
        rw [List.filter_append, filter_actsAtBegin]
        exact List.append_nil _
    · simp only
      have htop : ((s.reach c t).note t).top? c = s.top? c := rfl
      rcases closedBy? c t.start s.frames with _ | n
      · rfl
      · unfold State.endActs
        rw [htop]
        rcases s.top? c with _ | m
        · rfl
        · simp only
          rw [List.filter_append, filter_actsAtEnd]
          have hrest : ∀ closed : Option Frame, (List.replicate n Act.leave ++
              ((closed.bind (continuation? c)).toList.map fun k => Act.enter k.1 k.2)).filter
                Act.putsOut = [] := by
            intro closed
            rw [List.filter_eq_nil_iff]
            intro a ha
            rcases List.mem_append.mp ha with ha | ha
            · rw [List.eq_of_mem_replicate ha]
              simp [Act.putsOut]
            · obtain ⟨k, _, rfl⟩ := List.mem_map.mp ha
              simp [Act.putsOut]
          rw [hrest, List.append_nil]
    · rfl

theorem filter_stepActs (s : State) :
    (s.stepActs c).filter Act.putsOut = (s.stepFlushes c).flatMap (·.flushActs c) := by
  unfold State.stepActs State.stepFlushes
  rcases s.nextTerminator? c with _ | t
  · rfl
  · exact filter_handleActs s t

theorem filter_runActs (n : Nat) (s : State) :
    (s.runActs c n).filter Act.putsOut = (s.runFlushes c n).flatMap (·.flushActs c) := by
  induction n generalizing s with
  | zero => rfl
  | succ n ih =>
    unfold State.runActs State.runFlushes
    rcases s.step c with e | s₁ | s₁
    · exact filter_stepActs s
    · simp only
      rw [List.filter_append, filter_stepActs, ih, List.flatMap_append]
    · exact filter_stepActs s

/-- All that a scan puts out comes from its flushes, in their order. -/
theorem filter_scanActs (steps : Nat) (c : Context) (lead : String)
    (resume : Option Continuation) :
    (scanActs steps c lead resume).filter Act.putsOut =
      (scanFlushes steps c lead resume).flatMap (·.flushActs c) := by
  unfold scanActs scanFlushes
  split
  · rfl
  · rw [List.filter_append, filter_runActs, List.flatMap_append]
    rcases State.run c steps (startState lead resume) with e | s
    · rfl
    · simp only
      rw [State.finishActs, filter_flushActs, List.flatMap_singleton]

end

end Scan

end Highlighting
