-- Building a tree from the start of a text to its end. The elements that are
-- open stand on a stack, and an element joins the one around it when it
-- closes.
import Highlighting.Tree.Node

namespace Highlighting.Tree

/-- An element that is still open. Its children are listed with the last one
first. -/
structure OpenElement where
  classNames : List String
  children : List Node

/-- A tree under construction. `top` holds the finished nodes at the top, the
last one first, and `openElements` the open ones, the innermost first. -/
structure Builder where
  /-- What the first class name of an element starts with. -/
  lead : String
  top : List Node := []
  openElements : List OpenElement := []

namespace Builder

/-- A builder with nothing in it. -/
def start (lead : String) : Builder := { lead }

/-- Changes the children of the innermost open element, or the nodes at the
top if none is open. -/
def modify (f : List Node → List Node) (b : Builder) : Builder :=
  match b.openElements with
  | e :: es => { b with openElements := { e with children := f e.children } :: es }
  | [] => { b with top := f b.top }

/-- Adds text. -/
def addText (b : Builder) (value : String) : Builder := b.modify (Node.pushText value)

/-- Opens an element. What follows goes inside it. -/
def openElement (b : Builder) (className : String) : Builder :=
  { b with openElements := ⟨Highlighting.classNames b.lead className, []⟩ :: b.openElements }

/-- Closes the innermost open element, if there is one. -/
def close? (b : Builder) : Option Builder :=
  match b.openElements with
  | e :: es =>
    some ({ b with openElements := es }.modify (.element e.classNames e.children.reverse :: ·))
  | [] => none

/-- Closes the innermost open element; nothing changes if none is open. -/
def close (b : Builder) : Builder := b.close?.getD b

/-- Adds a keyword as an element of its own. -/
def addKeyword (b : Builder) (className lexeme : String) : Builder :=
  b.modify (.element (Highlighting.classNames b.lead className) (Node.plain lexeme) :: ·)

/-- Adds the nodes of an embedded language, in an element with its name. -/
def addEmbedded (b : Builder) (language : String) (nodes : List Node) : Builder :=
  b.modify (.element [language] nodes :: ·)

/-- The number of open elements. -/
def depth (b : Builder) : Nat := b.openElements.length

/-- Closes so many elements. -/
def closeAll (b : Builder) : Nat → Builder
  | 0 => b
  | n + 1 => b.close.closeAll n

/-- Closes what is open and gives the nodes at the top, in order. -/
def finish (b : Builder) : List Node := (b.closeAll b.depth).top.reverse

end Builder

end Highlighting.Tree
