-- What a tree has to do with the calls that built it. An element joins the one
-- around it when it closes, so a builder holds the tree in pieces. The
-- finished tree does not show it: its texts and its elements stand in the
-- order of the calls, and an element holds what was built from its opening up
-- to the close that matches, or up to the end. The calls need not be balanced.
import Highlighting.Proofs.TreeElements

namespace Highlighting

/-! ## The elements of a tree in document order -/

namespace Node

/-- The class names of an element. -/
def names : Node → List String
  | text _ => []
  | element classNames _ => classNames

mutual

/-- The elements of a node, each before those inside it. -/
def inOrder : Node → List Node
  | text _ => []
  | element classNames children => element classNames children :: inOrderAll children

/-- The elements of the nodes of a list. -/
def inOrderAll : List Node → List Node
  | [] => []
  | n :: ns => n.inOrder ++ inOrderAll ns

end

@[simp] theorem inOrder_text (value : String) : (text value).inOrder = [] := by simp [inOrder]

@[simp] theorem inOrder_element (classNames : List String) (children : List Node) :
    (element classNames children).inOrder =
      element classNames children :: inOrderAll children := by
  simp [inOrder]

@[simp] theorem inOrderAll_nil : inOrderAll [] = [] := by simp [inOrderAll]

@[simp] theorem inOrderAll_cons (n : Node) (ns : List Node) :
    inOrderAll (n :: ns) = n.inOrder ++ inOrderAll ns := by
  simp [inOrderAll]

@[simp] theorem inOrderAll_append (xs ys : List Node) :
    inOrderAll (xs ++ ys) = inOrderAll xs ++ inOrderAll ys := by
  induction xs with
  | nil => simp
  | cons n ns ih => simp [ih]

theorem inOrderAll_reverse_cons (n : Node) (ns : List Node) :
    inOrderAll (n :: ns).reverse = inOrderAll ns.reverse ++ n.inOrder := by
  simp

/-- Text adds no element. -/
theorem inOrderAll_pushText (value : String) (ns : List Node) :
    inOrderAll (pushText value ns).reverse = inOrderAll ns.reverse := by
  unfold pushText
  split
  · rfl
  · split <;> simp

@[simp] theorem inOrderAll_plain (value : String) : inOrderAll (plain value) = [] := by
  unfold plain appendText
  rw [List.reverse_nil, inOrderAll_pushText]
  simp

end Node

namespace Tree

/-! ## Calls -/

/-- A call of a builder. -/
inductive Call where
  | text (value : String)
  | openElement (className : String)
  | close
  | keyword (className lexeme : String)
  | embedded (language : String) (nodes : List Node)

namespace Call

/-- The text that a call adds. -/
def written : Call → String
  | text value => value
  | keyword _ lexeme => lexeme
  | embedded _ nodes => Node.textOfAll nodes
  | openElement _ | close => ""

/-- The class names of the elements that a call adds. What is embedded brings its own. -/
def names (lead : String) : Call → List (List String)
  | openElement className | keyword className _ => [classNames lead className]
  | embedded language nodes => [language] :: (Node.inOrderAll nodes).map Node.names
  | text _ | close => []

/-- How many elements are open after a call, of those that were opened since some
call; none if it closes an element from before. -/
def depthAfter : Nat → Call → Option Nat
  | n, openElement _ => some (n + 1)
  | 0, close => none
  | n + 1, close => some n
  | n, text _ | n, keyword .. | n, embedded .. => some n

theorem depthAfter_eq_none {c : Call} {n : Nat} : c.depthAfter n = none ↔ c = close ∧ n = 0 := by
  cases c with
  | close => cases n <;> simp [depthAfter]
  | _ => simp [depthAfter]

end Call

/-- The texts that calls add, put together. -/
def writtenBy : List Call → String
  | [] => ""
  | c :: calls => c.written ++ writtenBy calls

/-- The calls inside an element, from where `depth` more are open in it: those before
the close that matches, or all if there is none. -/
def within (depth : Nat) : List Call → List Call
  | [] => []
  | c :: calls =>
    match c.depthAfter depth with
    | some depth => c :: within depth calls
    | none => []

/-- The calls behind the close that matches. -/
def behind (depth : Nat) : List Call → List Call
  | [] => []
  | c :: calls =>
    match c.depthAfter depth with
    | some depth => behind depth calls
    | none => calls

namespace Builder

/-- Makes a call. -/
def call (b : Builder) : Call → Builder
  | .text value => b.addText value
  | .openElement className => b.openElement className
  | .close => b.close
  | .keyword className lexeme => b.addKeyword className lexeme
  | .embedded language nodes => b.addEmbedded language nodes

/-- Makes calls, one after another. -/
def callAll (b : Builder) (calls : List Call) : Builder := calls.foldl call b

@[simp] theorem callAll_nil (b : Builder) : b.callAll [] = b := rfl

@[simp] theorem callAll_cons (b : Builder) (c : Call) (calls : List Call) :
    b.callAll (c :: calls) = (b.call c).callAll calls := rfl

end Builder

/-- The tree that calls build. -/
def treeOf (lead : String) (calls : List Call) : List Node :=
  ((Builder.start lead).callAll calls).finish

/-! ## The text -/

namespace Builder

theorem text_call (b : Builder) (c : Call) : (b.call c).text = b.text ++ c.written := by
  cases c <;> simp [call, Call.written]

theorem text_callAll (b : Builder) (calls : List Call) :
    (b.callAll calls).text = b.text ++ writtenBy calls := by
  induction calls generalizing b with
  | nil => simp [writtenBy]
  | cons c calls ih => rw [callAll_cons, ih, text_call, writtenBy, String.append_assoc]

end Builder

theorem textOfAll_treeOf (lead : String) (calls : List Call) :
    Node.textOfAll (treeOf lead calls) = writtenBy calls := by
  rw [treeOf, Builder.textOfAll_finish, Builder.text_callAll, Builder.text_start, String.empty_append]

/-! ## What is built inside an element -/

namespace Builder

variable {inner outer : Builder} {classNames : List String}

/-- The builder in which `inner` builds the children of an element of `outer` that is
still open. -/
def under (inner : Builder) (classNames : List String) (outer : Builder) : Builder :=
  { outer with openElements := inner.openElements ++ ⟨classNames, inner.top⟩ :: outer.openElements }

theorem modify_under (f : List Node → List Node) :
    (inner.under classNames outer).modify f = (inner.modify f).under classNames outer := by
  rcases ho : inner.openElements with _ | ⟨e, es⟩
  · simp [modify, under, ho]
  · simp [modify, under, ho]

/-- With nothing open in it, the element joins what is around it. -/
theorem close_under_of_none (h : inner.openElements = []) :
    (inner.under classNames outer).close =
      outer.modify (.element classNames inner.top.reverse :: ·) := by
  simp [close, close?, under, h]

theorem close_under_of_some {e : OpenElement} {es : List OpenElement}
    (h : inner.openElements = e :: es) :
    (inner.under classNames outer).close = inner.close.under classNames outer := by
  have hclose : inner.close = { inner with openElements := es }.modify
      (.element e.classNames e.children.reverse :: ·) := by
    simp [close, close?, h]
  rw [hclose, ← modify_under]
  simp [close, close?, under, h]

theorem lead_call (b : Builder) (c : Call) : (b.call c).lead = b.lead := by
  cases c with
  | openElement className => rfl
  | close => exact b.lead_close
  | _ => exact lead_modify b _

theorem depth_modify (b : Builder) (f : List Node → List Node) : (b.modify f).depth = b.depth := by
  unfold modify depth
  split <;> simp [*]

/-- A call that does not close the element is made inside it. -/
theorem call_under (classNames : List String) (hlead : inner.lead = outer.lead) {c : Call}
    {n : Nat} (h : c.depthAfter inner.depth = some n) :
    (inner.under classNames outer).call c = (inner.call c).under classNames outer ∧
      (inner.call c).depth = n := by
  cases c with
  | text value =>
    cases h
    exact ⟨modify_under _, depth_modify inner _⟩
  | openElement className =>
    cases h
    refine ⟨?_, rfl⟩
    simp [call, openElement, under, hlead]
  | close =>
    rcases ho : inner.openElements with _ | ⟨e, es⟩
    · simp [depth, ho, Call.depthAfter] at h
    · have hdepth : es.length = n := by simpa [depth, ho, Call.depthAfter] using h
      refine ⟨close_under_of_some ho, ?_⟩
      rw [call, depth_close, depth, ho, List.length_cons, hdepth, Nat.add_sub_cancel]
  | keyword className lexeme =>
    cases h
    refine ⟨?_, depth_modify inner _⟩
    rw [call, call, addKeyword, addKeyword, modify_under]
    simp [under, hlead]
  | embedded language nodes =>
    cases h
    exact ⟨modify_under _, depth_modify inner _⟩

theorem finish_of_none (h : inner.openElements = []) : inner.finish = inner.top.reverse := by
  simp [finish, depth, h, closeAll]

/-- What is open at the end is closed, the element after what is inside it. -/
theorem finish_under (inner : Builder) :
    (inner.under classNames outer).finish =
      (outer.modify (.element classNames inner.finish :: ·)).finish := by
  rcases ho : inner.openElements with _ | ⟨e, es⟩
  · rw [← finish_close, close_under_of_none ho, finish_of_none ho]
  · have hless : inner.close.depth < inner.depth := by
      rw [depth_close, depth, ho, List.length_cons]
      omega
    rw [← finish_close, close_under_of_some ho, finish_under inner.close, finish_close]
termination_by inner.depth

/-- An element takes the calls up to the close that matches, and what they build are
its children. -/
theorem finish_callAll_under (inner outer : Builder) (classNames : List String)
    (hlead : inner.lead = outer.lead) (calls : List Call) :
    ((inner.under classNames outer).callAll calls).finish =
      ((outer.modify
        (.element classNames (inner.callAll (within inner.depth calls)).finish :: ·)).callAll
          (behind inner.depth calls)).finish := by
  induction calls generalizing inner with
  | nil => exact finish_under inner
  | cons c calls ih =>
    rcases hn : c.depthAfter inner.depth with _ | n
    · obtain ⟨rfl, hdepth⟩ := Call.depthAfter_eq_none.mp hn
      have ho := List.eq_nil_of_length_eq_zero hdepth
      simp only [within, behind, hn, callAll_nil, callAll_cons]
      rw [call, close_under_of_none ho, finish_of_none ho]
    · obtain ⟨hcall, hdepth⟩ := call_under classNames hlead hn
      simp only [within, behind, hn, callAll_cons]
      rw [hcall, ih (inner.call c) ((lead_call inner c).trans hlead), hdepth]

end Builder

/-! ## The elements -/

/-- The elements that a call adds, and for an opening those inside it later on. -/
def Call.elements (lead : String) (rest : List Call) : Call → List Node
  | openElement className => [.element (classNames lead className) (treeOf lead (within 0 rest))]
  | keyword className lexeme => [.element (classNames lead className) (Node.plain lexeme)]
  | embedded language nodes => .element [language] nodes :: Node.inOrderAll nodes
  | text _ | close => []

/-- The elements that calls add, in the order of the calls. -/
def elementsOf (lead : String) : List Call → List Node
  | [] => []
  | c :: rest => c.elements lead rest ++ elementsOf lead rest

theorem within_within {m n : Nat} (h : m ≤ n) (calls : List Call) :
    within m (within n calls) = within m calls := by
  induction calls generalizing m n with
  | nil => rfl
  | cons c calls ih =>
    cases c with
    | openElement className => simp [within, Call.depthAfter, ih (Nat.succ_le_succ h)]
    | close =>
      cases m with
      | zero => cases n <;> simp [within, Call.depthAfter]
      | succ m =>
        cases n with
        | zero => omega
        | succ n => simp [within, Call.depthAfter, ih (Nat.le_of_succ_le_succ h)]
    | _ => simp [within, Call.depthAfter, ih h]

/-- What is opened inside an element is closed inside it too, so its calls are the same
ones whether those behind the element are there or not. -/
theorem elementsOf_within_append_behind (lead : String) (n : Nat) (calls : List Call) :
    elementsOf lead (within n calls) ++ elementsOf lead (behind n calls) =
      elementsOf lead calls := by
  induction calls generalizing n with
  | nil => rfl
  | cons c calls ih =>
    rcases hn : c.depthAfter n with _ | n'
    · obtain ⟨rfl, rfl⟩ := Call.depthAfter_eq_none.mp hn
      simp [within, behind, elementsOf, Call.elements, Call.depthAfter]
    · have helements : c.elements lead (within n' calls) = c.elements lead calls := by
        cases c with
        | openElement className =>
          cases hn
          simp [Call.elements, within_within]
        | _ => rfl
      simp only [within, behind, hn, elementsOf, helements, List.append_assoc, ih]

/-- The calls inside are all the calls, or those before the close that matches. -/
theorem within_behind (n : Nat) (calls : List Call) :
    (within n calls = calls ∧ behind n calls = []) ∨
      calls = within n calls ++ .close :: behind n calls := by
  induction calls generalizing n with
  | nil => exact .inl ⟨rfl, rfl⟩
  | cons c calls ih =>
    rcases hn : c.depthAfter n with _ | n'
    · obtain ⟨rfl, rfl⟩ := Call.depthAfter_eq_none.mp hn
      exact .inr rfl
    · simp only [within, behind, hn]
      rcases ih n' with ⟨hwithin, hbehind⟩ | hclosed
      · exact .inl ⟨by rw [hwithin], hbehind⟩
      · exact .inr (congrArg (c :: ·) hclosed)

theorem length_within_behind_le (n : Nat) (calls : List Call) :
    (within n calls).length ≤ calls.length ∧ (behind n calls).length ≤ calls.length := by
  rcases within_behind n calls with ⟨hwithin, hbehind⟩ | hclosed
  · simp [hwithin, hbehind]
  · have hlength := congrArg List.length hclosed
    rw [List.length_append, List.length_cons] at hlength
    omega

/-- The elements of a finished tree are those that stood at the top, and then those of
the calls. An element that opens is taken as a whole, with all that its calls build. -/
theorem inOrderAll_finish_callAll (lead : String) (top : List Node) (calls : List Call) :
    Node.inOrderAll ((⟨lead, top, []⟩ : Builder).callAll calls).finish =
      Node.inOrderAll top.reverse ++ elementsOf lead calls := by
  match calls with
  | [] =>
    rw [elementsOf, List.append_nil]
    rfl
  | .text value :: rest =>
    have h := inOrderAll_finish_callAll lead (Node.pushText value top) rest
    rw [Node.inOrderAll_pushText] at h
    exact h
  | .close :: rest => exact inOrderAll_finish_callAll lead top rest
  | .keyword className lexeme :: rest =>
    have h := inOrderAll_finish_callAll lead
      (.element (classNames lead className) (Node.plain lexeme) :: top) rest
    rw [Node.inOrderAll_reverse_cons, Node.inOrder_element, Node.inOrderAll_plain,
      List.append_assoc] at h
    exact h
  | .embedded language nodes :: rest =>
    have h := inOrderAll_finish_callAll lead (.element [language] nodes :: top) rest
    rw [Node.inOrderAll_reverse_cons, Node.inOrder_element, List.append_assoc] at h
    exact h
  | .openElement className :: rest =>
    have hlength := length_within_behind_le 0 rest
    have hinside : Node.inOrderAll (treeOf lead (within 0 rest)) =
        elementsOf lead (within 0 rest) := inOrderAll_finish_callAll lead [] (within 0 rest)
    have hafter := inOrderAll_finish_callAll lead
      (.element (classNames lead className) (treeOf lead (within 0 rest)) :: top) (behind 0 rest)
    rw [Node.inOrderAll_reverse_cons, Node.inOrder_element, hinside, List.append_assoc,
      List.cons_append, elementsOf_within_append_behind] at hafter
    calc Node.inOrderAll ((⟨lead, top, []⟩ : Builder).callAll (.openElement className :: rest)).finish
        = Node.inOrderAll (((Builder.start lead).under (classNames lead className)
            ⟨lead, top, []⟩).callAll rest).finish := rfl
      _ = Node.inOrderAll ((⟨lead, .element (classNames lead className)
            (treeOf lead (within 0 rest)) :: top, []⟩ : Builder).callAll (behind 0 rest)).finish :=
          congrArg Node.inOrderAll
            (Builder.finish_callAll_under (.start lead) ⟨lead, top, []⟩ _ rfl rest)
      _ = Node.inOrderAll top.reverse ++ elementsOf lead (.openElement className :: rest) := hafter
termination_by calls.length
decreasing_by all_goals simp only [List.length_cons]; omega

theorem inOrderAll_treeOf (lead : String) (calls : List Call) :
    Node.inOrderAll (treeOf lead calls) = elementsOf lead calls :=
  inOrderAll_finish_callAll lead [] calls

theorem names_elements (lead : String) (rest : List Call) (c : Call) :
    (c.elements lead rest).map Node.names = c.names lead := by
  cases c <;> rfl

theorem names_elementsOf (lead : String) (calls : List Call) :
    (elementsOf lead calls).map Node.names = calls.flatMap (Call.names lead) := by
  induction calls with
  | nil => rfl
  | cons c calls ih => rw [elementsOf, List.map_append, names_elements, ih, List.flatMap_cons]

/-- What calls add stands behind what the calls before them add. -/
theorem elementsOf_append (lead : String) (before later : List Call) :
    ∃ ahead, elementsOf lead (before ++ later) = ahead ++ elementsOf lead later ∧
      ahead.map Node.names = before.flatMap (Call.names lead) := by
  induction before with
  | nil => exact ⟨[], rfl, rfl⟩
  | cons c before ih =>
    obtain ⟨ahead, happend, hnames⟩ := ih
    refine ⟨c.elements lead (before ++ later) ++ ahead, ?_, ?_⟩
    · rw [List.cons_append, elementsOf, happend, List.append_assoc]
    · rw [List.map_append, names_elements, hnames, List.flatMap_cons]

/-- However the calls are balanced, the finished tree has their texts and their elements
in the order of the calls: one element for each opening, each keyword and each
embedded result, with the class names of the call. An opened element holds what
the calls up to its close build, and its elements come right after it. -/
theorem tree_keeps_the_order_of_calls (lead : String) :
    (∀ calls, Node.textOfAll (treeOf lead calls) = writtenBy calls ∧
      (Node.inOrderAll (treeOf lead calls)).map Node.names = calls.flatMap (Call.names lead)) ∧
    (∀ before className rest, ∃ ahead after,
      Node.inOrderAll (treeOf lead (before ++ .openElement className :: rest)) =
        ahead ++ .element (classNames lead className) (treeOf lead (within 0 rest)) ::
          (Node.inOrderAll (treeOf lead (within 0 rest)) ++ after) ∧
      ahead.map Node.names = before.flatMap (Call.names lead)) ∧
    (∀ before className lexeme rest, ∃ ahead after,
      Node.inOrderAll (treeOf lead (before ++ .keyword className lexeme :: rest)) =
        ahead ++ .element (classNames lead className) (Node.plain lexeme) :: after ∧
      ahead.map Node.names = before.flatMap (Call.names lead)) ∧
    (∀ before language nodes rest, ∃ ahead after,
      Node.inOrderAll (treeOf lead (before ++ .embedded language nodes :: rest)) =
        ahead ++ .element [language] nodes :: (Node.inOrderAll nodes ++ after) ∧
      ahead.map Node.names = before.flatMap (Call.names lead)) := by
  refine ⟨?_, ?_, ?_, ?_⟩
  · intro calls
    exact ⟨textOfAll_treeOf lead calls, inOrderAll_treeOf lead calls ▸ names_elementsOf lead calls⟩
  · intro before className rest
    obtain ⟨ahead, happend, hnames⟩ := elementsOf_append lead before (.openElement className :: rest)
    refine ⟨ahead, elementsOf lead (behind 0 rest), ?_, hnames⟩
    rw [inOrderAll_treeOf, happend, inOrderAll_treeOf, elementsOf_within_append_behind]
    rfl
  · intro before className lexeme rest
    obtain ⟨ahead, happend, hnames⟩ :=
      elementsOf_append lead before (.keyword className lexeme :: rest)
    exact ⟨ahead, elementsOf lead rest, (inOrderAll_treeOf lead _).trans happend, hnames⟩
  · intro before language nodes rest
    obtain ⟨ahead, happend, hnames⟩ :=
      elementsOf_append lead before (.embedded language nodes :: rest)
    exact ⟨ahead, elementsOf lead rest, (inOrderAll_treeOf lead _).trans happend, hnames⟩

-- The first close closes nothing, and the outer element stays open.
example : treeOf "" [.close, .openElement "a", .text "x", .openElement "b", .text "y", .close,
      .text "z", .text "!"] =
    [.element (classNames "" "a") [.text "x", .element (classNames "" "b") [.text "y"],
      .text "z!"]] := rfl

end Tree

end Highlighting
