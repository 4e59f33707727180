-- The text of a tree under construction. Every call of a builder adds its
-- text at the end of the text that is there, and opening, closing and
-- finishing change nothing in it.
import Highlighting.Tree.Builder

namespace Highlighting

/-! ## Lists of nodes -/

namespace Node

@[simp] theorem textOfAll_append (xs ys : List Node) :
    textOfAll (xs ++ ys) = textOfAll xs ++ textOfAll ys := by
  induction xs with
  | nil => simp
  | cons n ns ih => simp [ih, String.append_assoc]

theorem textOfAll_reverse_cons (n : Node) (ns : List Node) :
    textOfAll (n :: ns).reverse = textOfAll ns.reverse ++ n.textOf := by
  simp

theorem textOfAll_pushText (value : String) (ns : List Node) :
    textOfAll (pushText value ns).reverse = textOfAll ns.reverse ++ value := by
  unfold pushText
  split
  · rename_i h
    rw [String.isEmpty_iff.mp h, String.append_empty]
  · split
    · simp [String.append_assoc]
    · simp

@[simp] theorem textOfAll_plain (value : String) : textOfAll (plain value) = value := by
  unfold plain appendText
  rw [List.reverse_nil, textOfAll_pushText]
  simp

end Node

/-! ## Builders -/

namespace Tree

/-- The texts of the open elements, the outermost first. -/
def openText : List OpenElement → String
  | [] => ""
  | e :: es => openText es ++ Node.textOfAll e.children.reverse

namespace Builder

/-- The text that was put out so far, in the order of the document. -/
def text (b : Builder) : String := Node.textOfAll b.top.reverse ++ openText b.openElements

@[simp] theorem text_start (lead : String) : (start lead).text = "" := rfl

theorem text_modify (b : Builder) (f : List Node → List Node) (value : String)
    (hf : ∀ ns, Node.textOfAll (f ns).reverse = Node.textOfAll ns.reverse ++ value) :
    (b.modify f).text = b.text ++ value := by
  unfold modify
  rcases ho : b.openElements with _ | ⟨e, es⟩
  · simp only [text, ho, openText, hf, String.append_empty]
  · simp only [text, ho, openText, hf, String.append_assoc]

@[simp] theorem text_addText (b : Builder) (value : String) :
    (b.addText value).text = b.text ++ value :=
  text_modify b _ value (Node.textOfAll_pushText value)

@[simp] theorem text_addKeyword (b : Builder) (className lexeme : String) :
    (b.addKeyword className lexeme).text = b.text ++ lexeme := by
  apply text_modify
  intro ns
  rw [Node.textOfAll_reverse_cons, Node.textOf_element, Node.textOfAll_plain]

@[simp] theorem text_addEmbedded (b : Builder) (language : String) (nodes : List Node) :
    (b.addEmbedded language nodes).text = b.text ++ Node.textOfAll nodes := by
  apply text_modify
  intro ns
  rw [Node.textOfAll_reverse_cons, Node.textOf_element]

@[simp] theorem text_openElement (b : Builder) (className : String) :
    (b.openElement className).text = b.text := by
  simp [text, openElement, openText]

@[simp] theorem text_close (b : Builder) : b.close.text = b.text := by
  unfold close close?
  rcases ho : b.openElements with _ | ⟨e, es⟩
  · rfl
  · simp only [Option.getD_some]
    rw [text_modify _ _ (Node.textOfAll e.children.reverse)]
    · simp only [text, ho, openText, String.append_assoc]
    · intro ns
      rw [Node.textOfAll_reverse_cons, Node.textOf_element]

theorem depth_close (b : Builder) : b.close.depth = b.depth - 1 := by
  unfold close close? depth
  rcases ho : b.openElements with _ | ⟨e, es⟩
  · simp [ho]
  · simp only [Option.getD_some, modify]
    rcases es with _ | ⟨e', es⟩ <;> simp

theorem text_closeAll (b : Builder) (n : Nat) : (b.closeAll n).text = b.text := by
  induction n generalizing b with
  | zero => rfl
  | succ n ih => rw [closeAll, ih, text_close]

theorem depth_closeAll (b : Builder) (n : Nat) : (b.closeAll n).depth = b.depth - n := by
  induction n generalizing b with
  | zero => rfl
  | succ n ih =>
    rw [closeAll, ih, depth_close]
    omega

/-- Finishing closes what is open, so it makes no difference to have closed some of it. -/
theorem finish_close (b : Builder) : b.close.finish = b.finish := by
  rcases ho : b.openElements with _ | ⟨e, es⟩
  · have hclose : b.close = b := by simp [close, close?, ho]
    rw [hclose]
  · have hopen : b.depth = es.length + 1 := by simp [depth, ho]
    have hdepth : b.depth = b.close.depth + 1 := by
      rw [depth_close]
      omega
    unfold finish
    rw [hdepth, closeAll]

theorem openElements_closeAll_depth (b : Builder) : (b.closeAll b.depth).openElements = [] := by
  apply List.eq_nil_of_length_eq_zero
  have hd := depth_closeAll b b.depth
  rwa [Nat.sub_self] at hd

/-- Finishing loses nothing and adds nothing. -/
theorem textOfAll_finish (b : Builder) : Node.textOfAll b.finish = b.text := by
  have hopen := openElements_closeAll_depth b
  calc Node.textOfAll b.finish
      = Node.textOfAll (b.closeAll b.depth).top.reverse := rfl
    _ = (b.closeAll b.depth).text := by simp [text, hopen, openText]
    _ = b.text := text_closeAll b b.depth

end Builder

end Tree

end Highlighting
