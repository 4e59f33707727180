-- The result of highlighting: a tree of texts and classified elements. The
-- texts of the tree, read in order, are the text that was highlighted.

namespace Highlighting

/-- A node of the tree. -/
inductive Node where
  | text (value : String)
  | element (classNames : List String) (children : List Node)
  deriving Inhabited

namespace Node

mutual

/-- The texts under a node, in order. -/
def textOf : Node → String
  | text value => value
  | element _ children => textOfAll children

/-- The texts under the nodes of a list, in order. -/
def textOfAll : List Node → String
  | [] => ""
  | n :: ns => n.textOf ++ textOfAll ns

end

@[simp] theorem textOf_text (value : String) : (text value).textOf = value := by
  simp [textOf]

@[simp] theorem textOf_element (classNames : List String) (children : List Node) :
    (element classNames children).textOf = textOfAll children := by
  simp [textOf]

@[simp] theorem textOfAll_nil : textOfAll [] = "" := by simp [textOfAll]

@[simp] theorem textOfAll_cons (n : Node) (ns : List Node) :
    textOfAll (n :: ns) = n.textOf ++ textOfAll ns := by
  simp [textOfAll]

/-- Adds a text to nodes that are listed with the last one first. It joins a
text that stands there, and an empty text adds nothing. -/
def pushText (value : String) (nodes : List Node) : List Node :=
  if value.isEmpty then nodes
  else match nodes with
    | text last :: ns => text (last ++ value) :: ns
    | ns => text value :: ns

/-- Adds a text at the end of nodes that are listed in order. -/
def appendText (nodes : List Node) (value : String) : List Node :=
  (pushText value nodes.reverse).reverse

/-- The whole of a text as nodes. -/
def plain (value : String) : List Node := appendText [] value

end Node

/-! ## Class names -/

/-- The class names of a dotted classification. The first part takes the
`lead`, and every later part takes one underscore for each part before it. -/
def classNames (lead name : String) : List String :=
  (name.splitOn ".").mapIdx fun depth part =>
    if depth = 0 then lead ++ part else part ++ String.ofList (List.replicate depth '_')

end Highlighting
