-- Where the elements of a tree stand. An element is recorded with the place at
-- which it starts and with its text, in the order in which elements close.
-- Under construction a tree has the records of what is closed, and for what is
-- open the class names and the place. Closing turns one into the other, and
-- nothing else changes what is open.
import Highlighting.Proofs.TreeText

namespace Highlighting

/-! ## Lists of nodes -/

/-- An element of a tree: its classes, the place in the text at which it
starts, and its text. -/
structure Element where
  classNames : List String
  start : Nat
  text : String
  deriving DecidableEq, Repr

namespace Node

mutual

/-- The elements of a node that starts at `pos`, each after those inside it. -/
def elements (pos : Nat) : Node → List Element
  | text _ => []
  | element classNames children =>
    elementsAll pos children ++ [⟨classNames, pos, textOfAll children⟩]

/-- The elements of nodes of which the first starts at `pos`. -/
def elementsAll (pos : Nat) : List Node → List Element
  | [] => []
  | n :: ns => n.elements pos ++ elementsAll (pos + n.textOf.length) ns

end

@[simp] theorem elements_text (pos : Nat) (value : String) : (text value).elements pos = [] := by
  simp [elements]

@[simp] theorem elements_element (pos : Nat) (classNames : List String) (children : List Node) :
    (element classNames children).elements pos =
      elementsAll pos children ++ [⟨classNames, pos, textOfAll children⟩] := by
  simp [elements]

@[simp] theorem elementsAll_nil (pos : Nat) : elementsAll pos [] = [] := by simp [elementsAll]

@[simp] theorem elementsAll_cons (pos : Nat) (n : Node) (ns : List Node) :
    elementsAll pos (n :: ns) = n.elements pos ++ elementsAll (pos + n.textOf.length) ns := by
  simp [elementsAll]

@[simp] theorem elementsAll_append (pos : Nat) (xs ys : List Node) :
    elementsAll pos (xs ++ ys) =
      elementsAll pos xs ++ elementsAll (pos + (textOfAll xs).length) ys := by
  induction xs generalizing pos with
  | nil => simp
  | cons n ns ih => simp [ih, Nat.add_assoc]

theorem elementsAll_reverse_cons (pos : Nat) (n : Node) (ns : List Node) :
    elementsAll pos (n :: ns).reverse =
      elementsAll pos ns.reverse ++ n.elements (pos + (textOfAll ns.reverse).length) := by
  simp

/-- Text adds no element. -/
theorem elementsAll_pushText (pos : Nat) (value : String) (ns : List Node) :
    elementsAll pos (pushText value ns).reverse = elementsAll pos ns.reverse := by
  unfold pushText
  split
  · rfl
  · split <;> simp

@[simp] theorem elementsAll_plain (pos : Nat) (value : String) :
    elementsAll pos (plain value) = [] := by
  unfold plain appendText
  rw [List.reverse_nil, elementsAll_pushText]
  simp

end Node

/-! ## Builders -/

namespace Tree

/-- The closed elements inside the open ones, of which the outermost starts at
`pos`. -/
def closedIn (pos : Nat) : List OpenElement → List Element
  | [] => []
  | e :: es =>
    closedIn pos es ++ Node.elementsAll (pos + (openText es).length) e.children.reverse

/-- The open elements with the place at which each starts, the innermost
first. -/
def placesIn (pos : Nat) : List OpenElement → List (List String × Nat)
  | [] => []
  | e :: es => (e.classNames, pos + (openText es).length) :: placesIn pos es

namespace Builder

/-- The elements that are closed, in the order in which they closed. -/
def closed (b : Builder) : List Element :=
  Node.elementsAll 0 b.top.reverse ++
    closedIn (Node.textOfAll b.top.reverse).length b.openElements

/-- The elements that are open, the innermost first. -/
def places (b : Builder) : List (List String × Nat) :=
  placesIn (Node.textOfAll b.top.reverse).length b.openElements

/-- What `modify` adds to the innermost nodes it adds to the closed elements. -/
theorem closed_modify (b : Builder) (f : List Node → List Node) (added : Nat → List Element)
    (hf : ∀ pos ns, Node.elementsAll pos (f ns).reverse =
      Node.elementsAll pos ns.reverse ++ added (pos + (Node.textOfAll ns.reverse).length)) :
    (b.modify f).closed = b.closed ++ added b.text.length := by
  unfold modify
  rcases ho : b.openElements with _ | ⟨e, es⟩
  · simp [closed, text, ho, closedIn, openText, hf]
  · simp [closed, text, ho, closedIn, openText, hf, Nat.add_assoc]

theorem closed_addText (b : Builder) (value : String) : (b.addText value).closed = b.closed := by
  have h := b.closed_modify (Node.pushText value) (fun _ => []) fun pos ns => by
    rw [Node.elementsAll_pushText, List.append_nil]
  rwa [List.append_nil] at h

/-- A node that is added brings its own elements, from where the text stops. -/
theorem closed_addNode (b : Builder) (n : Node) :
    (b.modify (n :: ·)).closed = b.closed ++ n.elements b.text.length :=
  b.closed_modify (n :: ·) n.elements fun pos ns => Node.elementsAll_reverse_cons pos n ns

theorem places_modify (b : Builder) (f : List Node → List Node) :
    (b.modify f).places = b.places := by
  unfold modify
  rcases ho : b.openElements with _ | ⟨e, es⟩
  · simp [places, ho, placesIn]
  · simp [places, ho, placesIn]

theorem lead_modify (b : Builder) (f : List Node → List Node) : (b.modify f).lead = b.lead := by
  unfold modify
  split <;> rfl

/-! ### What grows -/

/-- The second builder has the same elements open, and all the closed ones and
perhaps more. -/
structure Grows (b b' : Builder) : Prop where
  lead : b'.lead = b.lead
  places : b'.places = b.places
  closed : b.closed <+: b'.closed

namespace Grows

theorem refl (b : Builder) : b.Grows b := ⟨rfl, rfl, List.prefix_rfl⟩

theorem trans {b₁ b₂ b₃ : Builder} (h : b₁.Grows b₂) (h' : b₂.Grows b₃) : b₁.Grows b₃ :=
  ⟨h'.lead.trans h.lead, h'.places.trans h.places, h.closed.trans h'.closed⟩

theorem addText (b : Builder) (value : String) : b.Grows (b.addText value) :=
  ⟨lead_modify b _, places_modify b _, b.closed_addText value ▸ List.prefix_rfl⟩

theorem addNode (b : Builder) (n : Node) : b.Grows (b.modify (n :: ·)) :=
  ⟨lead_modify b _, places_modify b _, b.closed_addNode n ▸ List.prefix_append _ _⟩

theorem addKeyword (b : Builder) (className lexeme : String) :
    b.Grows (b.addKeyword className lexeme) := addNode b _

theorem addEmbedded (b : Builder) (language : String) (nodes : List Node) :
    b.Grows (b.addEmbedded language nodes) := addNode b _

end Grows

/-! ### Opening, closing and finishing -/

@[simp] theorem places_start (lead : String) : (start lead).places = [] := rfl

/-- An element that opens starts where the text stops. -/
theorem places_openElement (b : Builder) (className : String) :
    (b.openElement className).places =
      (Highlighting.classNames b.lead className, b.text.length) :: b.places := by
  simp [places, openElement, placesIn, text]

theorem closed_openElement (b : Builder) (className : String) :
    (b.openElement className).closed = b.closed := by
  simp [closed, openElement, closedIn]

theorem lead_close (b : Builder) : b.close.lead = b.lead := by
  unfold close close?
  split
  · exact lead_modify _ _
  · rfl

/-- An element that closes has the text from the place at which it started. -/
theorem close_of_places {b : Builder} {classNames : List String} {pos : Nat}
    {rest : List (List String × Nat)} (h : b.places = (classNames, pos) :: rest) :
    b.close.places = rest ∧
      b.close.closed = b.closed ++ [⟨classNames, pos, String.ofList (b.text.toList.drop pos)⟩] := by
  rcases ho : b.openElements with _ | ⟨e, es⟩
  · simp [places, ho, placesIn] at h
  · simp only [places, ho, placesIn, List.cons.injEq, Prod.mk.injEq] at h
    obtain ⟨⟨hnames, hpos⟩, hrest⟩ := h
    have hclose : b.close = { b with openElements := es }.modify
        (.element e.classNames e.children.reverse :: ·) := by
      simp [close, close?, ho]
    have htext : b.text.toList.drop pos = (Node.textOfAll e.children.reverse).toList := by
      have hlength : pos = (Node.textOfAll b.top.reverse ++ openText es).toList.length := by
        rw [← hpos, String.length_toList, String.length_append]
      simp only [text, ho, openText]
      rw [← String.append_assoc, String.toList_append, hlength, List.drop_left]
    rw [hclose, places_modify, closed_addNode]
    refine ⟨hrest, ?_⟩
    rw [htext, String.ofList_toList]
    simp [closed, ho, closedIn, text, hnames, ← hpos]

/-- With nothing open, the elements of the finished tree are those that are
closed. -/
theorem elementsAll_finish {b : Builder} (h : b.places = []) :
    Node.elementsAll 0 b.finish = b.closed := by
  have hopen : b.openElements = [] := by
    rcases ho : b.openElements with _ | ⟨e, es⟩
    · rfl
    · simp [places, ho, placesIn] at h
  simp [finish, depth, hopen, closeAll, closed, closedIn]

end Builder

end Tree

end Highlighting
