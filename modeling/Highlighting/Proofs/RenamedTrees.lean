-- What class names start with. It is threaded through every scan, nested scans
-- and detections included, and only names the classes: nothing is matched, scored,
-- ranked or joined by it.
import Mathlib.Data.List.Forall2
import Highlighting.Proofs.AlikeHosts

namespace Highlighting

/-! ## Renamed trees -/

/-- Nodes that differ only in what the first class name of an element starts with. The element of
an embedded language has the name of that language in both. -/
inductive Renamed (r : Registry) (p q : String) : Node → Node → Prop
  | text (value : String) : Renamed r p q (.text value) (.text value)
  | marked (s : String) (others : List String) {children children' : List Node}
      (h : List.Forall₂ (Renamed r p q) children children') :
      Renamed r p q (.element ((p ++ s) :: others) children) (.element ((q ++ s) :: others) children')
  | embedded {name : String} (hname : r.isRegistered name = true) {children children' : List Node}
      (h : List.Forall₂ (Renamed r p q) children children') :
      Renamed r p q (.element [name] children) (.element [name] children')

/-- Builders with different leads that differ in nothing else. -/
structure BuildersRenamed (r : Registry) (p q : String) (b b' : Tree.Builder) : Prop where
  lead : b.lead = p
  lead' : b'.lead = q
  top : List.Forall₂ (Renamed r p q) b.top b'.top
  openElements : List.Forall₂ (fun e e' => (∃ s others, e.classNames = (p ++ s) :: others ∧
      e'.classNames = (q ++ s) :: others) ∧ List.Forall₂ (Renamed r p q) e.children e'.children)
    b.openElements b'.openElements

theorem splitOnAux_ne_nil (s sep : String) (b i j : String.Pos.Raw) (r : List String) :
    s.splitOnAux sep b i j r ≠ [] := by
  fun_induction String.splitOnAux s sep b i j r with
  | case1 => simp
  | case2 => assumption
  | case3 => assumption
  | case4 => assumption

/-- The lead goes into the first class name alone. -/
theorem classNames_eq (name : String) :
    ∃ s others, ∀ lead, classNames lead name = (lead ++ s) :: others := by
  have hparts : name.splitOn "." ≠ [] := by
    unfold String.splitOn
    split
    · exact List.cons_ne_nil _ _
    · exact splitOnAux_ne_nil _ _ _ _ _ _
  obtain ⟨s, parts, hs⟩ := List.exists_cons_of_ne_nil hparts
  refine ⟨s, parts.mapIdx fun depth part => part ++ String.ofList (List.replicate (depth + 1) '_'), ?_⟩
  intro lead
  unfold classNames
  rw [hs, List.mapIdx_cons]
  rfl

section

variable {r : Registry} {p q : String}

theorem pushText_renamed (value : String) {ns ns' : List Node}
    (h : List.Forall₂ (Renamed r p q) ns ns') :
    List.Forall₂ (Renamed r p q) (Node.pushText value ns) (Node.pushText value ns') := by
  unfold Node.pushText
  split
  · exact h
  · cases h with
    | nil => exact .cons (.text value) .nil
    | cons hn hns =>
      cases hn with
      | text last => exact .cons (.text _) hns
      | marked s others h => exact .cons (.text value) (.cons (.marked s others h) hns)
      | embedded hname h => exact .cons (.text value) (.cons (.embedded hname h) hns)

theorem plain_renamed (value : String) :
    List.Forall₂ (Renamed r p q) (Node.plain value) (Node.plain value) :=
  List.rel_reverse (pushText_renamed value .nil)

theorem element_renamed (className : String) {children children' : List Node}
    (h : List.Forall₂ (Renamed r p q) children children') :
    Renamed r p q (.element (classNames p className) children)
      (.element (classNames q className) children') := by
  obtain ⟨s, others, hnames⟩ := classNames_eq className
  rw [hnames p, hnames q]
  exact .marked s others h

namespace BuildersRenamed

variable {b b' : Tree.Builder}

theorem modify (h : BuildersRenamed r p q b b') {f f' : List Node → List Node}
    (hf : ∀ ns ns', List.Forall₂ (Renamed r p q) ns ns' → List.Forall₂ (Renamed r p q) (f ns) (f' ns')) :
    BuildersRenamed r p q (b.modify f) (b'.modify f') := by
  obtain ⟨lead, top, es⟩ := b
  obtain ⟨lead', top', es'⟩ := b'
  obtain ⟨hlead, hlead', htop, hopen⟩ := h
  simp only at htop hopen
  cases hopen with
  | nil => exact ⟨hlead, hlead', hf _ _ htop, .nil⟩
  | cons he hes => exact ⟨hlead, hlead', htop, .cons ⟨he.1, hf _ _ he.2⟩ hes⟩

theorem addText (h : BuildersRenamed r p q b b') (value : String) :
    BuildersRenamed r p q (b.addText value) (b'.addText value) :=
  h.modify fun _ _ hns => pushText_renamed value hns

theorem addKeyword (h : BuildersRenamed r p q b b') (className lexeme : String) :
    BuildersRenamed r p q (b.addKeyword className lexeme) (b'.addKeyword className lexeme) := by
  unfold Tree.Builder.addKeyword
  rw [h.lead, h.lead']
  exact h.modify fun _ _ hns => .cons (element_renamed className (plain_renamed lexeme)) hns

theorem addEmbedded (h : BuildersRenamed r p q b b') {name : String}
    (hname : r.isRegistered name = true) {ns ns' : List Node}
    (hns : List.Forall₂ (Renamed r p q) ns ns') :
    BuildersRenamed r p q (b.addEmbedded name ns) (b'.addEmbedded name ns') :=
  h.modify fun _ _ hrest => .cons (.embedded hname hns) hrest

theorem openElement (h : BuildersRenamed r p q b b') (className : String) :
    BuildersRenamed r p q (b.openElement className) (b'.openElement className) := by
  obtain ⟨s, others, hnames⟩ := classNames_eq className
  refine ⟨h.lead, h.lead', h.top, .cons ⟨⟨s, others, ?_, ?_⟩, .nil⟩ h.openElements⟩
  · rw [h.lead]
    exact hnames p
  · rw [h.lead']
    exact hnames q

theorem close (h : BuildersRenamed r p q b b') : BuildersRenamed r p q b.close b'.close := by
  obtain ⟨lead, top, es⟩ := b
  obtain ⟨lead', top', es'⟩ := b'
  have hopen := h.openElements
  simp only at hopen
  cases hopen with
  | nil => exact h
  | @cons e e' es es' he hes =>
    obtain ⟨⟨s, others, hnames, hnames'⟩, hchildren⟩ := he
    have hrest : BuildersRenamed r p q ⟨lead, top, es⟩ ⟨lead', top', es'⟩ :=
      ⟨h.lead, h.lead', h.top, hes⟩
    refine hrest.modify fun ns ns' hns => .cons ?_ hns
    rw [hnames, hnames']
    exact .marked s others (List.rel_reverse hchildren)

theorem closeAll (h : BuildersRenamed r p q b b') (n : Nat) :
    BuildersRenamed r p q (b.closeAll n) (b'.closeAll n) := by
  induction n generalizing b b' with
  | zero => exact h
  | succ n ih => exact ih h.close

theorem finish (h : BuildersRenamed r p q b b') :
    List.Forall₂ (Renamed r p q) b.finish b'.finish := by
  have hdepth : b.depth = b'.depth := h.openElements.length_eq
  unfold Tree.Builder.finish
  rw [hdepth]
  exact List.rel_reverse (h.closeAll _).top

end BuildersRenamed

/-- Trees are alike if they differ in the lead alone. Languages are embedded under names that
are registered. -/
def renamedTrees (r : Registry) (p q : String) : Scan.Likeness p q where
  mayStop := False
  trees := BuildersRenamed r p q
  nodes := List.Forall₂ (Renamed r p q)
  named name := r.isRegistered name = true
  start := ⟨rfl, rfl, .nil, .nil⟩
  addText value h := h.addText value
  addKeyword className lexeme h := h.addKeyword className lexeme
  openElement className h := h.openElement className
  close h := h.close
  addEmbedded _ h hname hns := h.addEmbedded hname hns
  finish h := h.finish

/-! ## Renamed results -/

/-- Results that are the same but for their nodes, which are renamed, also in the runner-up. -/
inductive ResultsRenamed (r : Registry) (p q : String) : Highlighted → Highlighted → Prop
  | alone (language : Option String) (relevance : Nat) (illegal : Bool) {nodes nodes' : List Node}
      (hnodes : List.Forall₂ (Renamed r p q) nodes nodes') :
      ResultsRenamed r p q { language, relevance, nodes, illegal, secondBest := none }
        { language, relevance, nodes := nodes', illegal, secondBest := none }
  | runnerUp (language : Option String) (relevance : Nat) (illegal : Bool) {nodes nodes' : List Node}
      {second second' : Highlighted} (hnodes : List.Forall₂ (Renamed r p q) nodes nodes')
      (hsecond : ResultsRenamed r p q second second') :
      ResultsRenamed r p q { language, relevance, nodes, illegal, secondBest := some second }
        { language, relevance, nodes := nodes', illegal, secondBest := some second' }

theorem resultsRenamed_of_alike {h h' : Highlighted} (hh : (renamedTrees r p q).Results h h') :
    ResultsRenamed r p q h h' := by
  induction hh with
  | alone language relevance illegal _ hnodes => exact .alone language relevance illegal hnodes
  | runnerUp language relevance illegal _ hnodes _ ih =>
    exact .runnerUp language relevance illegal hnodes ih

theorem hostWithin_renamed (k : Option Limits) (r : Registry) (p q : String) (n : Nat)
    (l : CompiledLanguage) :
    (renamedTrees r p q).HostsMatch l (hostWithin k r p n) (hostWithin k r q n) := by
  have halike : ∀ l : CompiledLanguage, True →
      (renamedTrees r p q).HostsMatch l (hostWithin k r p n) (hostWithin k r q n) := by
    refine hostWithin_alike (.inl rfl) (fun l _ m hm sub hsub => ?_) n
    exact ⟨rfl, fun _ _ => rfl, fun _ _ h => h, fun _ _ _ _ _ _ => trivial⟩
  exact halike l trivial

end

/-! ## The two operations -/

theorem highlightWithin_renamed (k : Option Limits) (r : Registry) (p q name text : String)
    (illegals : Illegals) :
    Scan.SameWay (ResultsRenamed r p q) (r.highlightWithin k name text ⟨p, illegals⟩)
      (r.highlightWithin k name text ⟨q, illegals⟩) := by
  have hway : (renamedTrees r p q).Way (renamedTrees r p q).Highlights
      (highlightWithin k r p (hostWithin k r p embeddingLimit) name text illegals none)
      (highlightWithin k r q (hostWithin k r q embeddingLimit) name text illegals none) :=
    highlightWithin_alike (.inl rfl) rfl (fun h => h)
      (fun _ l _ _ => hostWithin_renamed k r p q embeddingLimit l) text illegals none
  exact (hway.map fun _ _ h => resultsRenamed_of_alike h.1).sameWay not_false

theorem detectWithin_renamed (k : Option Limits) (r : Registry) (p q text : String)
    (subset : Option (List String)) :
    Scan.SameWay (ResultsRenamed r p q) (r.detectWithin k text ⟨p, subset⟩)
      (r.detectWithin k text ⟨q, subset⟩) := by
  have hway : (renamedTrees r p q).Way (renamedTrees r p q).Results
      (detectWithin k r p (hostWithin k r p embeddingLimit) text subset)
      (detectWithin k r q (hostWithin k r q embeddingLimit) text subset) :=
    detectWithin_alike rfl (fun _ _ => rfl) (fun _ _ h => h) fun _ _ =>
      highlightWithin_alike (.inl rfl) rfl (fun h => h)
        (fun _ l _ _ => hostWithin_renamed k r p q embeddingLimit l) text .fallback none
  exact (hway.sameWay not_false).mono fun _ _ => resultsRenamed_of_alike

/-- What class names start with only renames. Whatever is highlighted or detected, two leads give
the same error, or the same language, relevance, illegal flag and presence of a runner-up, and
trees that are renamed: of the same shape and with the same texts, and in each element the first
class name starts with the one lead or the other and goes on alike, while the other class names
and the names of embedded languages are the same. -/
theorem lead_only_renames (r : Registry) (p q text : String) :
    (∀ k name illegals, Scan.SameWay (ResultsRenamed r p q)
      (r.highlightWithin k name text ⟨p, illegals⟩) (r.highlightWithin k name text ⟨q, illegals⟩)) ∧
    (∀ k subset, Scan.SameWay (ResultsRenamed r p q)
      (r.detectWithin k text ⟨p, subset⟩) (r.detectWithin k text ⟨q, subset⟩)) ∧
    (∀ name illegals, Scan.SameWay (ResultsRenamed r p q)
      (r.highlight name text ⟨p, illegals⟩) (r.highlight name text ⟨q, illegals⟩)) ∧
    (∀ subset, Scan.SameWay (ResultsRenamed r p q)
      (r.detect text ⟨p, subset⟩) (r.detect text ⟨q, subset⟩)) := by
  have hhighlight := fun k name => highlightWithin_renamed k r p q name text
  have hdetect := fun k => detectWithin_renamed k r p q text
  refine ⟨hhighlight, hdetect, fun name illegals => ?_, fun subset => ?_⟩
  · rw [← r.highlightWithin_none, ← r.highlightWithin_none]
    exact hhighlight none name illegals
  · rw [← r.detectWithin_none, ← r.detectWithin_none]
    exact hdetect none subset

end Highlighting
