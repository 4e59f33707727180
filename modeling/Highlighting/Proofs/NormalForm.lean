-- The trees of the library are in normal form: no text in them is empty, and no two texts
-- stand side by side. Text goes to the end of the innermost open nodes, where it joins a text
-- that stands there, and all else that a builder adds is an element.
--
-- A scan, with all that it embeds, builds its trees by the operations of a builder only. So to
-- be in normal form is a likeness of trees to themselves, and what is known of alike scans says
-- that no scan loses it.
import Mathlib.Data.List.Chain
import Highlighting.Proofs.AlikeHosts
import Highlighting.Proofs.RankedCandidates

namespace Highlighting

/-! ## Lists of nodes -/

namespace Node

/-- The node is a text. -/
def isText : Node → Bool
  | text _ => true
  | element _ _ => false

mutual

/-- No text under the node is empty, and no two texts under it stand side by side. -/
def isNormal : Node → Bool
  | text value => !value.isEmpty
  | element _ children => isNormalAll children

/-- The nodes of a list are in normal form, and no two texts among them stand side by side. -/
def isNormalAll : List Node → Bool
  | [] => true
  | n :: ns => n.isNormal && !(n.isText && ns.head?.any isText) && isNormalAll ns

end

example : isNormalAll [.text "a", .element [] [.text "b"], .text "c"] = true := by decide

example : isNormalAll [.text "a", .element [] [.text "b", .text "c"]] = false := by decide

/-- The nodes are not both texts. -/
def Parted (n n' : Node) : Prop := ¬ (n.isText = true ∧ n'.isText = true)

theorem parted_comm {n n' : Node} : n.Parted n' ↔ n'.Parted n := by
  unfold Parted
  rw [and_comm]

@[simp] theorem isNormal_text (value : String) : (text value).isNormal = !value.isEmpty := by
  simp [isNormal]

@[simp] theorem isNormal_element (classNames : List String) (children : List Node) :
    (element classNames children).isNormal = isNormalAll children := by
  simp [isNormal]

@[simp] theorem isNormalAll_nil : isNormalAll [] = true := by simp [isNormalAll]

/-- The two conditions apart: of all siblings, and of what is under each node. -/
theorem isNormalAll_iff {ns : List Node} :
    isNormalAll ns = true ↔ ns.IsChain Parted ∧ ∀ n ∈ ns, n.isNormal = true := by
  induction ns with
  | nil => simp
  | cons n ns ih =>
    have hparted : (!(n.isText && ns.head?.any isText)) = true ↔ ∀ n' ∈ ns.head?, n.Parted n' := by
      unfold Parted
      cases ns with
      | nil => simp
      | cons n' ns => by_cases htext : n.isText = true <;> simp [htext]
    rw [isNormalAll, Bool.and_eq_true, Bool.and_eq_true, hparted, ih, List.isChain_cons,
      List.forall_mem_cons]
    tauto

/-- A node may be added at the end if it does not follow a text as a text. -/
theorem isNormalAll_reverse_cons {n : Node} {ns : List Node} :
    isNormalAll (n :: ns).reverse = true ↔
      n.isNormal = true ∧ (∀ last ∈ ns.head?, n.Parted last) ∧ isNormalAll ns.reverse = true := by
  have hflip : (fun n n' : Node => n'.Parted n) = Parted := by
    funext n n'
    exact propext parted_comm
  simp only [isNormalAll_iff, List.isChain_reverse, hflip, List.isChain_cons, List.mem_reverse,
    List.forall_mem_cons]
  tauto

theorem isNormalAll_reverse_element (classNames : List String) {children ns : List Node}
    (hchildren : isNormalAll children = true) (h : isNormalAll ns.reverse = true) :
    isNormalAll (element classNames children :: ns).reverse = true := by
  rw [isNormalAll_reverse_cons, isNormal_element]
  refine ⟨hchildren, ?_, h⟩
  rintro last _ ⟨htext, _⟩
  cases htext

theorem isNormalAll_pushText (value : String) {ns : List Node}
    (h : isNormalAll ns.reverse = true) : isNormalAll (pushText value ns).reverse = true := by
  unfold pushText
  by_cases hempty : value.isEmpty = true
  · rw [if_pos hempty]
    exact h
  · rw [if_neg hempty]
    split
    · -- the last text grows, and what stands before it is no text
      rename_i last ns
      rw [isNormalAll_reverse_cons] at h ⊢
      obtain ⟨_, hparted, hrest⟩ := h
      refine ⟨?_, hparted, hrest⟩
      simp at hempty
      simp [hempty]
    · rename_i hlast
      rw [isNormalAll_reverse_cons]
      refine ⟨by simpa using hempty, ?_, h⟩
      intro last hhead
      unfold Parted
      cases last with
      | text value =>
        obtain ⟨rest, hrest⟩ := List.head?_eq_some_iff.mp hhead
        exact absurd hrest (hlast value rest)
      | element _ _ => simp [isText]

theorem isNormalAll_plain (value : String) : isNormalAll (plain value) = true :=
  isNormalAll_pushText value isNormalAll_nil

end Node

/-! ## Builders -/

namespace Tree.Builder

/-- The finished nodes at the top are in normal form, and those in the open elements. -/
structure Normal (b : Builder) : Prop where
  top : Node.isNormalAll b.top.reverse = true
  openElements : ∀ e ∈ b.openElements, Node.isNormalAll e.children.reverse = true

theorem normal_start (lead : String) : (start lead).Normal :=
  ⟨Node.isNormalAll_nil, fun _ he => (nomatch he)⟩

theorem Normal.modify {b : Builder} (hb : b.Normal) {f : List Node → List Node}
    (hf : ∀ ns, Node.isNormalAll ns.reverse = true → Node.isNormalAll (f ns).reverse = true) :
    (b.modify f).Normal := by
  obtain ⟨htop, hopen⟩ := hb
  unfold Builder.modify
  rcases ho : b.openElements with _ | ⟨e, es⟩
  · rw [ho] at hopen
    exact ⟨hf _ htop, hopen⟩
  · rw [ho, List.forall_mem_cons] at hopen
    refine ⟨htop, ?_⟩
    rw [List.forall_mem_cons]
    exact ⟨hf _ hopen.1, hopen.2⟩

theorem Normal.addText {b : Builder} (hb : b.Normal) (value : String) : (b.addText value).Normal :=
  hb.modify fun _ => Node.isNormalAll_pushText value

theorem Normal.addKeyword {b : Builder} (hb : b.Normal) (className lexeme : String) :
    (b.addKeyword className lexeme).Normal :=
  hb.modify fun _ => Node.isNormalAll_reverse_element _ (Node.isNormalAll_plain lexeme)

theorem Normal.addEmbedded {b : Builder} (hb : b.Normal) (language : String) {nodes : List Node}
    (hnodes : Node.isNormalAll nodes = true) : (b.addEmbedded language nodes).Normal :=
  hb.modify fun _ => Node.isNormalAll_reverse_element _ hnodes

theorem Normal.openElement {b : Builder} (hb : b.Normal) (className : String) :
    (b.openElement className).Normal := by
  refine ⟨hb.top, ?_⟩
  unfold Builder.openElement
  rw [List.forall_mem_cons]
  exact ⟨Node.isNormalAll_nil, hb.openElements⟩

theorem Normal.close {b : Builder} (hb : b.Normal) : b.close.Normal := by
  unfold Builder.close Builder.close?
  rcases ho : b.openElements with _ | ⟨e, es⟩
  · exact hb
  · have hopen := hb.openElements
    rw [ho, List.forall_mem_cons] at hopen
    have hrest : Normal { b with openElements := es } := ⟨hb.top, hopen.2⟩
    exact hrest.modify fun _ => Node.isNormalAll_reverse_element _ hopen.1

theorem Normal.finish {b : Builder} (hb : b.Normal) : Node.isNormalAll b.finish = true := by
  have hall : ∀ n b, Normal b → (b.closeAll n).Normal := by
    intro n
    induction n with
    | zero => exact fun b hb => hb
    | succ n ih => exact fun b hb => ih _ hb.close
  exact (hall b.depth b hb).top

end Tree.Builder

/-! ## Scans, with all that they embed -/

/-- A tree in normal form is like itself. -/
def Scan.Likeness.normal (lead : String) : Scan.Likeness lead lead where
  mayStop := False
  trees b _ := b.Normal
  nodes ns _ := Node.isNormalAll ns = true
  named _ := True
  start := Tree.Builder.normal_start lead
  addText value h := h.addText value
  addKeyword className lexeme h := h.addKeyword className lexeme
  openElement className h := h.openElement className
  close h := h.close
  addEmbedded name h _ hns := h.addEmbedded name hns
  finish h := h.finish

open Scan (Likeness)

/-- What comes out of a computation is like itself, if the computation goes the same way as
itself. -/
theorem rel_of_way {lead : String} {L : Likeness lead lead} {α : Type} {S : α → α → Prop}
    {x : Except HighlightError α} {a : α} (h : L.Way S x x) (hx : x = .ok a) : S a a := by
  rw [hx] at h
  cases h with
  | ok h => exact h

section

variable (limits : Option Limits) (r : Registry) (lead : String)

theorem hostWithin_normal (n : Nat) (l : CompiledLanguage) :
    (Likeness.normal lead).HostsMatch l (hostWithin limits r lead n) (hostWithin limits r lead n) := by
  have hall : ∀ l : CompiledLanguage, True →
      (Likeness.normal lead).HostsMatch l (hostWithin limits r lead n) (hostWithin limits r lead n) := by
    refine hostWithin_alike (.inl rfl) (fun l _ m hm sub hsub => ?_) n
    exact ⟨rfl, fun _ _ => rfl, fun _ _ _ => trivial, fun _ _ _ _ _ _ => trivial⟩
  exact hall l trivial

theorem highlightWithin_normal (n : Nat) (name text : String) (illegals : Illegals)
    (resume : Option Scan.Continuation) :
    (Likeness.normal lead).Way (Likeness.normal lead).Highlights
      (highlightWithin limits r lead (hostWithin limits r lead n) name text illegals resume)
      (highlightWithin limits r lead (hostWithin limits r lead n) name text illegals resume) :=
  highlightWithin_alike (.inl rfl) rfl (fun _ => trivial)
    (fun _ l _ _ => hostWithin_normal limits r lead n l) text illegals resume

theorem detectWithin_normal (n : Nat) (text : String) (candidates : Option (List String)) :
    (Likeness.normal lead).Way (Likeness.normal lead).Results
      (detectWithin limits r lead (hostWithin limits r lead n) text candidates)
      (detectWithin limits r lead (hostWithin limits r lead n) text candidates) :=
  detectWithin_alike rfl (fun _ _ => rfl) (fun _ _ _ => trivial)
    fun name _ => highlightWithin_normal limits r lead n name text .fallback none

theorem scanUnder_normal {steps : Option Nat} {n : Nat} {c : Scan.Context}
    (hc : c.host = hostWithin limits r lead n) {resume : Option Scan.Continuation} {s : Scan.Scanned}
    (h : Scan.scanUnder steps c lead resume = .ok s) : Node.isNormalAll s.nodes = true := by
  have hhost := hostWithin_normal limits r lead n c.language
  rw [← hc] at hhost
  exact (rel_of_way (scanUnder_match hhost (.inl rfl) resume) h).nodes

end

/-! ## Texts without a character -/

theorem scanUnder_empty {steps : Option Nat} {c : Scan.Context} {lead : String}
    {resume : Option Scan.Continuation} {s : Scan.Scanned} (hc : c.text = #[])
    (h : Scan.scanUnder steps c lead resume = .ok s) : s.nodes = [] := by
  obtain ⟨n, hn⟩ := Scan.exists_scanWithin steps c lead resume
  rcases Scan.scanWithin_eq_ok.mp (hn.symm.trans h) with ⟨_, rfl⟩ | ⟨hempty, _⟩
  · rfl
  · rw [hc] at hempty
    cases hempty

section

variable {limits : Option Limits} {r : Registry} {lead : String} {host : Option Scan.Host}

theorem highlightWithin_empty {name : String} {illegals : Illegals}
    {resume : Option Scan.Continuation} {res : Highlighted × Option Scan.Continuation}
    (h : highlightWithin limits r lead host name "" illegals resume = .ok res) : res.1.nodes = [] := by
  unfold highlightWithin at h
  split at h
  · cases h
  · split at h
    · cases h
    · simp only at h
      split at h
      · rename_i hscan
        cases h
        exact scanUnder_empty rfl hscan
      · split at h
        · cases h
          rfl
        · cases h
      · cases h

/-- The first two of results that have no nodes have none. -/
theorem detectWithin_empty {candidates : Option (List String)} {h : Highlighted}
    (hh : detectWithin limits r lead host "" candidates = .ok h) :
    h.nodes = [] ∧ ∀ second, h.secondBest = some second → second.nodes = [] := by
  rw [detectWithin_eq] at hh
  obtain ⟨results, hresults, rfl⟩ := map_eq_ok.mp hh
  have hnodes : ∀ h ∈ ranked results, h.nodes = [] := by
    intro h hh
    obtain ⟨name, _, hname⟩ := mapM_mem hresults (mem_ranked hh).1
    unfold candidateWithin at hname
    obtain ⟨found, hfound, rfl⟩ := map_eq_ok.mp hname
    exact highlightWithin_empty hfound
  generalize ranked results = sorted at hnodes ⊢
  rcases sorted with _ | ⟨best, rest⟩
  · exact ⟨rfl, fun _ hs => (nomatch hs)⟩
  · refine ⟨hnodes best List.mem_cons_self, ?_⟩
    intro second hsecond
    exact hnodes second (List.mem_cons_of_mem _ (List.mem_of_head? hsecond))

end

/-! ## The three operations -/

/-- The nodes for a text are in normal form, and there are none for the empty text. -/
structure NormalFor (text : String) (nodes : List Node) : Prop where
  normal : Node.isNormalAll nodes = true
  empty : text = "" → nodes = []

/-- The nodes of a result are in normal form, and so are those of the runner-up. -/
structure Highlighted.NormalFor (h : Highlighted) (text : String) : Prop where
  first : Highlighting.NormalFor text h.nodes
  second : ∀ second, h.secondBest = some second → Highlighting.NormalFor text second.nodes

section

variable {limits : Option Limits} {r : Registry} {text : String}

theorem highlightWithin_normalFor {name : String} {o : HighlightOptions} {h : Highlighted}
    (hh : r.highlightWithin limits name text o = .ok h) : h.NormalFor text := by
  unfold Registry.highlightWithin at hh
  obtain ⟨res, hres, rfl⟩ := map_eq_ok.mp hh
  have hnormal := rel_of_way (highlightWithin_normal limits r o.lead _ name text o.illegals none) hres
  refine ⟨⟨hnormal.1.nodes, ?_⟩, ?_⟩
  · rintro rfl
    exact highlightWithin_empty hres
  · intro second hsecond
    rw [(highlightWithin_alone hres).1] at hsecond
    cases hsecond

theorem detectWithin_normalFor {o : DetectOptions} {h : Highlighted}
    (hh : r.detectWithin limits text o = .ok h) : h.NormalFor text := by
  unfold Registry.detectWithin at hh
  have hnormal := rel_of_way (detectWithin_normal limits r o.lead _ text o.subset) hh
  refine ⟨⟨hnormal.nodes, ?_⟩, ?_⟩
  · rintro rfl
    exact (detectWithin_empty hh).1
  · intro second hsecond
    refine ⟨?_, ?_⟩
    · cases hnormal with
      | alone => cases hsecond
      | runnerUp _ _ _ _ _ hrunnerUp =>
        cases hsecond
        exact hrunnerUp.nodes
    · rintro rfl
      exact (detectWithin_empty hh).2 second hsecond

theorem scanUnder_normalFor {steps : Option Nat} {n : Nat} {lead : String} {l : CompiledLanguage}
    {illegals : Illegals} {resume : Option Scan.Continuation} {s : Scan.Scanned}
    (h : Scan.scanUnder steps
      { host := hostWithin limits r lead n, language := l, text := text.toList.toArray, illegals }
      lead resume = .ok s) : NormalFor text s.nodes := by
  refine ⟨scanUnder_normal limits r lead rfl h, ?_⟩
  rintro rfl
  exact scanUnder_empty rfl h

end

/-- All trees are in normal form, at every depth: those of highlighting as a language, of a
detection with its runner-up, and of a scan with any language, fresh or resumed. The empty
text has no nodes. -/
theorem trees_are_in_normal_form (r : Registry) (text : String) :
    (∀ limits name o h, r.highlightWithin limits name text o = .ok h → h.NormalFor text) ∧
    (∀ limits o h, r.detectWithin limits text o = .ok h → h.NormalFor text) ∧
    (∀ limits steps lead n l illegals resume s, Scan.scanUnder steps
      { host := hostWithin limits r lead n, language := l, text := text.toList.toArray, illegals }
      lead resume = .ok s → NormalFor text s.nodes) ∧
    (∀ name o h, r.highlight name text o = .ok h → h.NormalFor text) ∧
    (∀ o h, r.detect text o = .ok h → h.NormalFor text) ∧
    (∀ lead depth l illegals resume s, r.scan lead depth l text illegals resume = .ok s →
      NormalFor text s.nodes) := by
  refine ⟨fun _ _ _ _ => highlightWithin_normalFor, fun _ _ _ => detectWithin_normalFor,
    fun _ _ _ _ _ _ _ _ => scanUnder_normalFor, ?_, ?_, ?_⟩
  · intro name o h hh
    rw [← r.highlightWithin_none] at hh
    exact highlightWithin_normalFor hh
  · intro o h hh
    rw [← r.detectWithin_none] at hh
    exact detectWithin_normalFor hh
  · intro lead depth l illegals resume s h
    rw [r.scan_eq] at h
    exact scanUnder_normalFor h

/-- A quotation that holds another one, after an exclamation mark that is only text. -/
theorem quotations_are_in_normal_form :
    (∃ h, quotingBothWays.highlight "f" "!((<b>((" {} = .ok h ∧ h.nodes.length = 2 ∧
      h.NormalFor "!((<b>((") ∧
    (∃ h second, quotingBothWays.detect "((<b>((" {} = .ok h ∧ h.secondBest = some second ∧
      NormalFor "((<b>((" h.nodes ∧ NormalFor "((<b>((" second.nodes) ∧
    (∃ l s, compile quotingAlike = .ok l ∧
      quotingBothWays.scan "" 0 l "((<b>((" .raise none = .ok s ∧ NormalFor "((<b>((" s.nodes) ∧
    (∃ h, quotingBothWays.highlight "f" "" {} = .ok h ∧ h.nodes = []) := by
  have hempty := (trees_are_in_normal_form quotingBothWays "").2.2.2.1
  have hhighlight := (trees_are_in_normal_form quotingBothWays "!((<b>((").2.2.2.1
  obtain ⟨_, _, _, _, hdetect, hscan⟩ := trees_are_in_normal_form quotingBothWays "((<b>(("
  refine ⟨?_, ?_, ?_, ?_⟩
  · have hlength : (quotingBothWays.highlightWithin (some .few) "f" "!((<b>((" {}).toOption.any
        (·.nodes.length == 2) = true := by decide +kernel
    obtain ⟨h, hh, hlength⟩ := toOption_any_eq_true.mp hlength
    have hh' := highlight_of_within hh not_ofLimits_of_ok
    exact ⟨h, hh', eq_of_beq hlength, hhighlight "f" {} h hh'⟩
  · have hsecond : (quotingBothWays.detectWithin (some .few) "((<b>((" {}).toOption.any
        (·.secondBest.isSome) = true := by decide +kernel
    obtain ⟨h, hd, hsecond⟩ := toOption_any_eq_true.mp hsecond
    obtain ⟨second, hsecond⟩ := Option.isSome_iff_exists.mp hsecond
    have hd' := detect_of_within hd not_ofLimits_of_ok
    have hnormal := hdetect {} h hd'
    exact ⟨h, second, hd', hsecond, hnormal.first, hnormal.second second hsecond⟩
  · have hok : (compileWithin quotingAlike Limits.few.depth).toOption.any (fun l =>
        (Scan.scanUnder (some 99)
          { host := hostWithin (some .few) quotingBothWays "" (embeddingLimit - 0), language := l
            text := "((<b>((".toList.toArray, illegals := .raise } "" none).isOk) = true := by
      decide +kernel
    obtain ⟨l, hl, hok⟩ := compile_of_any hok
    obtain ⟨s, hs⟩ := exists_of_isOk hok
    have hs' := scan_of_within hs not_ofLimits_of_ok
    exact ⟨l, s, hl, hs', hscan "" 0 l .raise none s hs'⟩
  · have hok : (quotingBothWays.highlightWithin (some .few) "f" "" {}).isOk = true := by
      decide +kernel
    obtain ⟨h, hh⟩ := exists_of_isOk hok
    have hh' := highlight_of_within hh not_ofLimits_of_ok
    exact ⟨h, hh', (hempty "f" {} h hh').first.empty rfl⟩

end Highlighting
