-- Reading a pattern that is part of a longer text. What the reader makes of it is the
-- same as on its own, with all group numbers moved behind the groups that come
-- before, unless it refers to a group and some come before, or leaves an option on at
-- its end and something follows.
import Highlighting.Proofs.MovedReading
import Highlighting.Proofs.WiderPieces

namespace Highlighting.Regex

open Alternation

variable {off : Nat} {names : List (String × Nat)} {stop : List Char}

/-! ## Where a text ends -/

/-- No group of options in the text holds for what comes behind the group. -/
def keepsOptions (cs : List Char) : Bool :=
  everywhere (fun
    | '(' :: '?' :: rest =>
      match readOptions {} true rest with
      | .ok (_, false, _) => false
      | _ => true
    | _ => true) cs

/-- Which letters are options, and where they end, does not hang on the options before. -/
theorem readOptions_alike {o inner : Options} {on limited : Bool} {cs after : List Char}
    (h : readOptions o on cs = .ok (inner, limited, after)) (o' : Options) (on' : Bool) :
    ∃ inner', readOptions o' on' cs = .ok (inner', limited, after) := by
  induction cs generalizing o on o' on' with
  | nil => cases h
  | cons c cs ih =>
    by_cases hcolon : c = ':'
    · subst hcolon
      cases h
      exact ⟨o', rfl⟩
    by_cases hclose : c = ')'
    · subst hclose
      cases h
      exact ⟨o', rfl⟩
    by_cases hminus : c = '-'
    · subst hminus
      exact ih h o' false
    · rw [readOptions_letter hcolon hclose hminus] at h ⊢
      rcases hswitch : o.switch on c with _ | o₁
      · rw [hswitch] at h
        cases h
      · rw [hswitch] at h
        have hswitch' : ∃ o₂, o'.switch on' c = some o₂ := by
          unfold Options.switch at hswitch ⊢
          split at hswitch
          all_goals first | exact ⟨_, rfl⟩ | cases hswitch
        obtain ⟨o₂, ho₂⟩ := hswitch'
        rw [ho₂]
        exact ih h o₂ on'

/-- What is read from the text `cs`, up to `rest`, is not affected by what stands behind:
nothing does, the reader stops before its end, or no option is left on there. -/
def EndsApart (stop : List Char) (o : Options) (cs rest : List Char) : Prop :=
  stop = [] ∨ rest ≠ [] ∨ o.extended = false ∧ keepsOptions cs = true

theorem EndsApart.of_suffix {o : Options} {cs cs' rest : List Char} (h : EndsApart stop o cs rest)
    (hcs : cs' <:+ cs) : EndsApart stop o cs' rest :=
  h.imp_right fun h => h.imp_right fun h => ⟨h.1, everywhere_suffix hcs h.2⟩

theorem EndsApart.before {o : Options} {cs rest mid : List Char} (h : EndsApart stop o cs rest)
    (hrest : rest <:+ mid) : stop = [] ∨ o.extended = false ∨ mid ≠ [] := by
  rcases h with h | h | h
  · exact .inl h
  · refine .inr (.inr ?_)
    rintro rfl
    exact h (List.suffix_nil.mp hrest)
  · exact .inr (.inl h.1)

theorem EndsPattern.append (hstop : EndsPattern stop) {cs : List Char} (h : EndsPattern cs) :
    EndsPattern (cs ++ stop) := by
  rcases h with rfl | ⟨r, rfl⟩ | ⟨r, rfl⟩
  · exact hstop
  · exact .inr (.inl ⟨r ++ stop, rfl⟩)
  · exact .inr (.inr ⟨r ++ stop, rfl⟩)

/-! ## Parts that refer to no group -/

theorem isPlain_ofList (rs : List Regex) : (ofList rs).isPlain = rs.all isPlain := by
  induction rs with
  | nil => rfl
  | cons r rs ih =>
    rcases rs with _ | ⟨r', rs⟩
    · simp [ofList]
    · exact congrArg (r.isPlain && ·) ih

theorem isPlain_ofBranches (rs : List Regex) : (ofBranches rs).isPlain = rs.all isPlain := by
  induction rs with
  | nil => rfl
  | cons r rs ih =>
    rcases rs with _ | ⟨r', rs⟩
    · simp [ofBranches]
    · exact congrArg (r.isPlain && ·) ih

/-- What is put together refers to no group only if no part does. -/
theorem isPlain_of_joinParts {o : Options} {parts : List Part} {run : List Char} {done : List Regex}
    (h : (joinParts o parts run done).isPlain = true) :
    (∀ part ∈ parts, part.isPlain = true) ∧ ∀ r ∈ done, r.isPlain = true := by
  have hrun : ∀ {run : List Char} {done : List Regex},
      (∀ r ∈ (if run.isEmpty then done else literal o run :: done), r.isPlain = true) →
        ∀ r ∈ done, r.isPlain = true := by
    intro run done hall r hr
    refine hall r ?_
    split
    · exact hr
    · exact List.mem_cons_of_mem _ hr
  induction parts generalizing run done with
  | nil =>
    rw [joinParts, isPlain_ofList, List.all_eq_true] at h
    exact ⟨by simp, hrun h⟩
  | cons part parts ih =>
    cases part with
    | char c =>
      obtain ⟨hparts, hdone⟩ := ih h
      refine ⟨fun part hpart => ?_, hdone⟩
      rcases List.mem_cons.mp hpart with rfl | hpart
      · rfl
      · exact hparts part hpart
    | node r =>
      obtain ⟨hparts, hdone⟩ := ih h
      refine ⟨fun part hpart => ?_, hrun fun r' hr' => hdone r' (List.mem_cons_of_mem _ hr')⟩
      rcases List.mem_cons.mp hpart with rfl | hpart
      · exact hdone r List.mem_cons_self
      · exact hparts part hpart

/-! ## The steps of the reader -/

/-- The reader comes from the first cursor to the second: it leaves a later part of the
text, and meets no more names than groups. -/
structure Onward (cur cur₁ : Cursor) : Prop where
  rest : cur₁.rest <:+ cur.rest
  names : cur₁.names.length + cur.groups ≤ cur.names.length + cur₁.groups

theorem Onward.refl (cur : Cursor) : Onward cur cur := ⟨List.suffix_rfl, Nat.le_refl _⟩

theorem Onward.trans {cur cur₁ cur₂ : Cursor} (h : Onward cur cur₁) (h' : Onward cur₁ cur₂) :
    Onward cur cur₂ := by
  have hnames := h.names
  have hnames' := h'.names
  exact ⟨h'.rest.trans h.rest, by omega⟩

theorem Onward.of_suffix {cur : Cursor} {rest : List Char} (h : rest <:+ cur.rest) :
    Onward cur { cur with rest := rest } := ⟨h, Nat.le_refl _⟩

/-- What was read from `cur` up to `cur₁`, with the parts `parts` in it, is read again in
the longer text. `again` says so for the steps that are given. -/
structure Widens (off : Nat) (names : List (String × Nat)) (stop : List Char) (o : Options)
    (cur cur₁ : Cursor) (r : Regex) (parts : List Part) (fuel : Nat)
    (again : Nat → Regex × Cursor → Prop) : Prop where
  onward : Onward cur cur₁
  plain : r.isPlain = true → ∀ part ∈ parts, part.isPlain = true
  again : EndsApart stop o cur.rest cur₁.rest → Unaffected off names r.isPlain cur.rest →
    ∀ {m : Nat}, fuel ≤ m → again m (r.shift off, cur₁.widen off names stop)

/-- The parts of a branch are read again in the longer text. -/
def PartsWiden (off : Nat) (names : List (String × Nat)) (stop : List Char) (fuel : Nat) : Prop :=
  ∀ {o : Options} {cur cur₁ : Cursor} {done : List Part} {r : Regex},
    readParts fuel o cur done = .ok (r, cur₁) →
      Widens off names stop o cur cur₁ r done fuel fun m x =>
        readParts m o (cur.widen off names stop) (done.map (movePart off)) = .ok x

/-- So are branches that something ends before the end of the text. -/
def BranchesWiden (off : Nat) (names : List (String × Nat)) (stop : List Char) (fuel : Nat) : Prop :=
  ∀ {o : Options} {cur cur₁ : Cursor} {rs : List Regex},
    readBranches fuel o cur = .ok (rs, cur₁) →
      Onward cur cur₁ ∧ (stop = [] ∨ cur₁.rest ≠ [] →
        Unaffected off names (rs.all isPlain) cur.rest → ∀ {m : Nat}, fuel ≤ m →
          readBranches m o (cur.widen off names stop) =
            .ok (rs.map (shift off), cur₁.widen off names stop))

/-- So are groups that begin with a question mark. -/
def GroupWidens (off : Nat) (names : List (String × Nat)) (stop : List Char) (fuel : Nat) : Prop :=
  ∀ {o : Options} {cur cur₁ : Cursor} {r : Regex}, readGroup fuel o cur = .ok (r, cur₁) →
    Onward cur cur₁ ∧ (Unaffected off names r.isPlain cur.rest → ∀ {m : Nat}, fuel ≤ m →
      readGroup m o (cur.widen off names stop) = .ok (r.shift off, cur₁.widen off names stop))

/-- So are conditions. -/
def ConditionWidens (off : Nat) (names : List (String × Nat)) (stop : List Char) (fuel : Nat) : Prop :=
  ∀ {o : Options} {cur cur₁ : Cursor} {test : Regex} {checks : Bool},
    readCondition fuel o cur = .ok (test, checks, cur₁) →
      Onward cur cur₁ ∧ (Unaffected off names test.isPlain cur.rest → ∀ {m : Nat}, fuel ≤ m →
        readCondition m o (cur.widen off names stop) =
          .ok (test.shift off, checks, cur₁.widen off names stop))

section

variable {o : Options} {cur cur₁ : Cursor} {done : List Part} {r : Regex} {fuel : Nat}

theorem afterNode_widen (hstop : EndsPattern stop) (hparts : PartsWiden off names stop fuel)
    {node : Regex} (h : afterNode fuel o done node cur = .ok (r, cur₁)) :
    Widens off names stop o cur cur₁ r (.node node :: done) fuel fun m x =>
      afterNode m o (done.map (movePart off)) (node.shift off) (cur.widen off names stop) = .ok x := by
  obtain ⟨⟨node₂, cur₂⟩, hread, h₂⟩ := bind_eq_ok.mp h
  obtain ⟨⟨rest, hsuffix, rfl⟩, hplain⟩ := readQuantifiers_suffix hread
  have hmore := hparts h₂
  refine ⟨(Onward.of_suffix hsuffix).trans hmore.onward, ?_, ?_⟩
  · intro hr part hpart
    have hall := hmore.plain hr
    rcases List.mem_cons.mp hpart with rfl | hpart
    · rw [Part.isPlain, ← hplain]
      exact hall _ List.mem_cons_self
    · exact hall part (List.mem_cons_of_mem _ hpart)
  · intro hends hun m hm
    have hagain := readQuantifiers_widen off names hstop (Nat.le_refl _) hread
      (hends.before hmore.onward.rest) (m := (cur.rest ++ stop).length) (by simp)
    unfold afterNode
    rw [show (cur.widen off names stop).rest.length = (cur.rest ++ stop).length from rfl, hagain]
    exact hmore.again (hends.of_suffix hsuffix) (hun.of_suffix id hsuffix) hm

theorem Widens.of_parts {parts : List Part} {again : Nat → Regex × Cursor → Prop}
    (h : Widens off names stop o cur cur₁ r parts fuel again) (parts' : List Part)
    (hparts : (∀ part ∈ parts, part.isPlain = true) → ∀ part ∈ parts', part.isPlain = true) :
    Widens off names stop o cur cur₁ r parts' fuel again :=
  ⟨h.onward, fun hr => hparts (h.plain hr), h.again⟩

/-- Steps that come behind ignored text. -/
theorem Widens.advance (hstop : EndsPattern stop) {cur₂ : Cursor} {parts : List Part}
    {again again' : Nat → Regex × Cursor → Prop} (hadvance : cur.advance o = .ok cur₂)
    (h : Widens off names stop o cur₂ cur₁ r parts fuel again)
    (hagain : (cur.widen off names stop).advance o = .ok (cur₂.widen off names stop) →
      ∀ m x, again m x → again' m x) :
    Widens off names stop o cur cur₁ r parts fuel again' := by
  obtain ⟨rest, hsuffix, rfl⟩ := advance_suffix hadvance
  refine ⟨(Onward.of_suffix hsuffix).trans h.onward, h.plain, fun hends hun m hm => ?_⟩
  exact hagain (advance_widen hstop hadvance (hends.before h.onward.rest)) m _
    (h.again (hends.of_suffix hsuffix) (hun.of_suffix id hsuffix) hm)

theorem afterPart_widen (hstop : EndsPattern stop) (hparts : PartsWiden off names stop fuel)
    {part : Part} (h : afterPart fuel o done part cur = .ok (r, cur₁)) :
    Widens off names stop o cur cur₁ r (part :: done) fuel fun m x =>
      afterPart m o (done.map (movePart off)) (movePart off part) (cur.widen off names stop) = .ok x := by
  obtain ⟨cur₂, hadvance, h₂⟩ := bind_eq_ok.mp h
  obtain ⟨x, hx, h₃⟩ := bind_eq_ok.mp h₂
  have hx' : readQuantifier (cur₂.widen off names stop).rest = _ := readQuantifier_widen hstop hx
  cases part with
  | char d =>
    rcases x with _ | ⟨q, rest⟩
    · refine (hparts h₃).advance hstop hadvance fun hadvance' m x hm => ?_
      unfold afterPart
      rw [hadvance', ok_bind_eq, hx']
      exact hm
    · have hnode := (afterNode_widen hstop hparts h₃).of_parts (.char d :: done) ?_
      refine hnode.advance hstop hadvance fun hadvance' m x hm => ?_
      · rw [(free_literal o [d]).1] at hm
        unfold afterPart
        rw [hadvance', ok_bind_eq, hx']
        exact hm
      · intro hall part hpart
        rcases List.mem_cons.mp hpart with rfl | hpart
        · rfl
        · exact hall part (List.mem_cons_of_mem _ hpart)
  | node node =>
    have hnode : afterNode fuel o done node cur₂ = .ok (r, cur₁) := by
      rcases x with _ | _
      · exact h₃
      · exact h₃
    refine (afterNode_widen hstop hparts hnode).advance hstop hadvance fun hadvance' m x' hm => ?_
    unfold afterPart
    rw [hadvance', ok_bind_eq, hx']
    rcases x with _ | _
    · exact hm
    · exact hm

theorem closeGroup_widen (off : Nat) (names : List (String × Nat)) (stop : List Char)
    (h : closeGroup cur = .ok cur₁) :
    ∃ rest, cur.rest = ')' :: rest ∧ cur₁ = { cur with rest := rest } ∧
      closeGroup (cur.widen off names stop) = .ok (cur₁.widen off names stop) := by
  unfold closeGroup at h
  split at h
  · rename_i rest hrest
    cases h
    refine ⟨rest, hrest, rfl, ?_⟩
    simp only [closeGroup, Cursor.widen, hrest, List.cons_append]
  · cases h

/-- A group ends before the end of the text. -/
theorem readBody_closes (hbranches : BranchesWiden off names stop fuel)
    (h : readBody fuel o cur = .ok (r, cur₁)) :
    Onward cur cur₁ ∧ ')' :: cur₁.rest <:+ cur.rest := by
  obtain ⟨⟨rs, cur₂⟩, hread, h₂⟩ := bind_eq_ok.mp h
  obtain ⟨cur₃, hclose, h₃⟩ := bind_eq_ok.mp h₂
  cases h₃
  obtain ⟨rest, hrest, rfl, _⟩ := closeGroup_widen off names stop hclose
  have honward := (hbranches hread).1
  refine ⟨honward.trans (.of_suffix ?_), hrest ▸ honward.rest⟩
  rw [hrest]
  exact List.suffix_cons _ _

theorem readBody_widen (hbranches : BranchesWiden off names stop fuel)
    (h : readBody fuel o cur = .ok (r, cur₁)) :
    Onward cur cur₁ ∧ (Unaffected off names r.isPlain cur.rest → ∀ {m : Nat}, fuel ≤ m →
      readBody m o (cur.widen off names stop) = .ok (r.shift off, cur₁.widen off names stop)) := by
  refine ⟨(readBody_closes hbranches h).1, fun hun m hm => ?_⟩
  obtain ⟨⟨rs, cur₂⟩, hread, h₂⟩ := bind_eq_ok.mp h
  obtain ⟨cur₃, hclose, h₃⟩ := bind_eq_ok.mp h₂
  cases h₃
  obtain ⟨rest, hrest, rfl, hclose'⟩ := closeGroup_widen off names stop hclose
  rw [isPlain_ofBranches] at hun
  unfold readBody
  rw [(hbranches hread).2 (.inr (by simp [hrest])) hun hm, ok_bind_eq]
  simp only [hclose', shift_ofBranches]
  rfl

end

/-- The parts that begin at `cur`, behind ignored text, are read again. -/
def WidensAt (off : Nat) (names : List (String × Nat)) (stop : List Char) (o : Options)
    (cur cur₁ : Cursor) (r : Regex) (done : List Part) (fuel : Nat) : Prop :=
  Widens off names stop o cur cur₁ r done (fuel + 1) fun m x => ∀ cur₀ : Cursor,
    cur₀.advance o = .ok (cur.widen off names stop) →
      readParts m o cur₀ (done.map (movePart off)) = .ok x

section

variable {o : Options} {cur₀ cur cur₁ : Cursor} {done : List Part} {r : Regex} {fuel : Nat}

/-- Steps that come behind a part. -/
theorem Widens.behind {cur₂ : Cursor} {part : Part} {again again' : Nat → Regex × Cursor → Prop}
    (h : Widens off names stop o cur₂ cur₁ r (part :: done) fuel again)
    (honward : Onward cur cur₂)
    (hagain : Unaffected off names part.isPlain cur.rest → ∀ {m : Nat}, fuel ≤ m →
      ∀ x, again m x → again' (m + 1) x) :
    Widens off names stop o cur cur₁ r done (fuel + 1) again' := by
  refine ⟨honward.trans h.onward, ?_, ?_⟩
  · intro hr part' hpart'
    exact h.plain hr part' (List.mem_cons_of_mem _ hpart')
  · intro hends hun m hm
    obtain ⟨m, rfl⟩ := Nat.exists_eq_succ_of_ne_zero (show m ≠ 0 by omega)
    refine hagain (hun.of_suffix (fun hr => h.plain hr _ List.mem_cons_self) List.suffix_rfl)
      (Nat.le_of_succ_le_succ hm) _ ?_
    exact h.again (hends.of_suffix honward.rest) (hun.of_suffix id honward.rest)
      (Nat.le_of_succ_le_succ hm)

variable (hstop : EndsPattern stop) (hparts : PartsWiden off names stop fuel)
  (hadvance : cur₀.advance o = .ok cur) (h : readParts (fuel + 1) o cur₀ done = .ok (r, cur₁))

include hadvance h hstop

theorem widensAt_stop (hrest : EndsPattern cur.rest) :
    WidensAt off names stop o cur cur₁ r done fuel := by
  rw [readParts_stop hadvance hrest] at h
  cases h
  refine ⟨.refl _, fun hr => (isPlain_of_joinParts hr).1, fun _ _ m hm cur₀' hadvance' => ?_⟩
  obtain ⟨m, rfl⟩ := Nat.exists_eq_succ_of_ne_zero (show m ≠ 0 by omega)
  rw [Nat.succ_eq_add_one, readParts_stop hadvance' (hstop.append hrest), shift_joinParts]
  rfl

include hparts

theorem widensAt_class {rest : List Char} (hrest : cur.rest = '[' :: rest) :
    WidensAt off names stop o cur cur₁ r done fuel := by
  rw [readParts_class hadvance hrest] at h
  obtain ⟨⟨negated, members, rest₁⟩, hclass, h₂⟩ := bind_eq_ok.mp h
  obtain ⟨a, rfl, _, hagain⟩ := readClass_local hclass
  refine (afterNode_widen hstop hparts h₂).behind (.of_suffix ?_) fun _ m hm x hx cur₀' hadvance' => ?_
  · rw [hrest]
    exact ⟨'[' :: a, rfl⟩
  · have hrest' : (cur.widen off names stop).rest = '[' :: (a ++ (rest₁ ++ stop)) := by
      simp [Cursor.widen, hrest]
    rw [(free_classRegex o negated members).1] at hx
    rw [readParts_class hadvance' hrest', hagain]
    · exact hx
    · rw [List.length_append]
      omega

theorem widensAt_escape {rest : List Char} (hrest : cur.rest = '\\' :: rest) :
    WidensAt off names stop o cur cur₁ r done fuel := by
  rw [readParts_escape hadvance hrest] at h
  obtain ⟨⟨part, cur₂⟩, hescape, h₂⟩ := bind_eq_ok.mp h
  obtain ⟨⟨rest₂, hsuffix, hcur₂⟩, hagain⟩ :=
    readEscape_widen off names hstop hescape
  subst hcur₂
  refine (afterPart_widen hstop hparts h₂).behind (.of_suffix ?_)
    fun hun m hm x hx cur₀' hadvance' => ?_
  · rw [hrest]
    exact hsuffix.trans (List.suffix_cons _ _)
  · have hrest' : (cur.widen off names stop).rest = '\\' :: (rest ++ stop) := by
      simp [Cursor.widen, hrest]
    rw [hrest] at hun
    rw [readParts_escape hadvance' hrest', hagain hun]
    exact hx

theorem widensAt_char {c : Char} {rest : List Char} (hrest : cur.rest = c :: rest)
    (hc : isOrdinary c = true) (hend : c ≠ '|' ∧ c ≠ ')') :
    WidensAt off names stop o cur cur₁ r done fuel := by
  rw [readParts_char hadvance hrest hc hend] at h
  obtain ⟨x, hx, h₂⟩ := bind_eq_ok.mp h
  rcases x with _ | x
  · have hfree : (charPart o c).Free := by
      unfold charPart
      split
      · exact free_set _
      · exact ⟨fun _ => rfl, fun _ _ => trivial⟩
      · exact ⟨fun _ => rfl, fun _ _ => trivial⟩
      · trivial
    refine (afterPart_widen hstop hparts h₂).behind (.of_suffix ?_)
      fun _ m hm x hx' cur₀' hadvance' => ?_
    · rw [hrest]
      exact List.suffix_cons _ _
    · have hrest' : (cur.widen off names stop).rest = c :: (rest ++ stop) := by
        simp [Cursor.widen, hrest]
      have hnone : readQuantifier (c :: (rest ++ stop)) = .ok none := readQuantifier_widen hstop hx
      rw [movePart_free hfree] at hx'
      rw [readParts_char hadvance' hrest' hc hend, hnone]
      exact hx'
  · cases h₂

theorem widensAt_capture (hbranches : BranchesWiden off names stop fuel) {c : Char} {rest : List Char}
    (hrest : cur.rest = '(' :: c :: rest) (hc : c ≠ '?') :
    WidensAt off names stop o cur cur₁ r done fuel := by
  rw [readParts_capture hadvance hrest hc] at h
  obtain ⟨⟨r₂, cur₂⟩, hbody, h₂⟩ := bind_eq_ok.mp h
  obtain ⟨honward, hagain⟩ := readBody_widen hbranches hbody
  have hinner : c :: rest <:+ cur.rest := by
    rw [hrest]
    exact List.suffix_cons _ _
  have hopen : Onward cur { cur with rest := c :: rest, groups := cur.groups + 1 } :=
    ⟨hinner, Nat.add_le_add_left (Nat.le_succ _) _⟩
  refine (afterNode_widen hstop hparts h₂).behind (hopen.trans honward)
    fun hun m hm x hx cur₀' hadvance' => ?_
  have hrest' : (cur.widen off names stop).rest = '(' :: c :: (rest ++ stop) := by
    simp [Cursor.widen, hrest]
  have hnumber : cur.groups + 1 + off = cur.groups + off + 1 := Nat.add_right_comm _ _ _
  have hbody' := hagain (hun.of_suffix id hinner) hm
  simp only [Cursor.widen, hnumber] at hbody'
  rw [shift, hnumber] at hx
  rw [readParts_capture hadvance' hrest' hc]
  exact bind_eq_ok.mpr ⟨_, hbody', hx⟩

theorem widensAt_group (hgroup : GroupWidens off names stop fuel) {c : Char} {rest : List Char}
    (hrest : cur.rest = '(' :: '?' :: c :: rest)
    (hc : c ∈ [':', '=', '!', '>', '<', '\'', '~', '(']) :
    WidensAt off names stop o cur cur₁ r done fuel := by
  rw [readParts_group hadvance hrest hc] at h
  obtain ⟨⟨r₂, cur₂⟩, hread, h₂⟩ := bind_eq_ok.mp h
  obtain ⟨honward, hagain⟩ := hgroup hread
  have hinner : '?' :: c :: rest <:+ cur.rest := by
    rw [hrest]
    exact List.suffix_cons _ _
  refine (afterNode_widen hstop hparts h₂).behind ((Onward.of_suffix hinner).trans honward)
    fun hun m hm x hx cur₀' hadvance' => ?_
  have hrest' : (cur.widen off names stop).rest = '(' :: '?' :: c :: (rest ++ stop) := by
    simp [Cursor.widen, hrest]
  rw [readParts_group hadvance' hrest' hc]
  exact bind_eq_ok.mpr ⟨_, hagain (hun.of_suffix id hinner) hm, hx⟩

theorem widensAt_options (hbranches : BranchesWiden off names stop fuel) {c : Char}
    {rest : List Char} (hrest : cur.rest = '(' :: '?' :: c :: rest)
    (hc : c ∉ [':', '=', '!', '>', '<', '\'', '~', '(']) :
    WidensAt off names stop o cur cur₁ r done fuel := by
  rw [readParts_options hadvance hrest hc] at h
  obtain ⟨⟨inner, limited, after⟩, hoptions, h₂⟩ := bind_eq_ok.mp h
  obtain ⟨t, hne, htext, _, _, hoptions'⟩ := readOptions_local hoptions
  have hinner : after <:+ cur.rest := by
    rw [hrest, htext]
    exact ⟨'(' :: '?' :: t, by simp⟩
  have hrest' : (cur.widen off names stop).rest = '(' :: '?' :: c :: (rest ++ stop) := by
    simp [Cursor.widen, hrest]
  have hagain : readOptions o true (c :: (rest ++ stop)) = .ok (inner, limited, after ++ stop) := by
    rw [← List.cons_append, htext, List.append_assoc]
    exact hoptions' _
  cases limited with
  | true =>
    simp only [if_true] at h₂
    obtain ⟨⟨r₃, cur₃⟩, hbody, h₃⟩ := bind_eq_ok.mp h₂
    obtain ⟨honward, hbody'⟩ := readBody_widen hbranches hbody
    refine (afterNode_widen hstop hparts h₃).behind ((Onward.of_suffix hinner).trans honward)
      fun hun m hm x hx cur₀' hadvance' => ?_
    rw [readParts_options hadvance' hrest' hc, hagain]
    simp only [ok_bind_eq, if_true]
    exact bind_eq_ok.mpr ⟨_, hbody' (hun.of_suffix id hinner) hm, hx⟩
  | false =>
    simp only [Bool.false_eq_true, if_false] at h₂
    obtain ⟨⟨rs, cur₃⟩, hread, h₃⟩ := bind_eq_ok.mp h₂
    cases h₃
    obtain ⟨honward, hread'⟩ := hbranches hread
    have hplain : (joinParts o (.node (ofBranches rs) :: done) [] []).isPlain = true →
        rs.all isPlain = true ∧ ∀ part ∈ done, part.isPlain = true := by
      intro hr
      have hall := (isPlain_of_joinParts hr).1
      rw [← isPlain_ofBranches]
      exact ⟨hall _ List.mem_cons_self, fun part hpart => hall part (List.mem_cons_of_mem _ hpart)⟩
    refine ⟨(Onward.of_suffix hinner).trans honward, fun hr => (hplain hr).2,
      fun hends hun m hm cur₀' hadvance' => ?_⟩
    obtain ⟨m, rfl⟩ := Nat.exists_eq_succ_of_ne_zero (show m ≠ 0 by omega)
    -- Options that would be left on at the end of the text are excluded.
    have hends' : stop = [] ∨ cur₃.rest ≠ [] := by
      refine hends.imp_right fun hends => hends.resolve_right fun hapart => ?_
      obtain ⟨inner', halike⟩ := readOptions_alike hoptions {} true
      have hhere := everywhere_here hapart.2
      simp [hrest, halike] at hhere
    rw [Nat.succ_eq_add_one, readParts_options hadvance' hrest' hc, hagain]
    simp only [ok_bind_eq, Bool.false_eq_true, if_false]
    refine bind_eq_ok.mpr ⟨_, hread' hends' (hun.of_suffix (fun hr => (hplain hr).1) hinner)
      (Nat.le_of_succ_le_succ hm), ?_⟩
    rw [shift_joinParts, List.map_cons, movePart, shift_ofBranches]
    rfl

end

/-! ## Groups that begin with a question mark -/

/-- A group with a name, from the name on. -/
def readNamed (fuel : Nat) (o : Options) (cur : Cursor) (close : Char) (cs : List Char) :
    Except ReadError (Regex × Cursor) := do
  let (name, rest) ← readGroupName close cs
  let (r, cur₁) ← readBody fuel o ⟨rest, cur.groups + 1, cur.names ++ [(name, cur.groups + 1)]⟩
  return (.group (cur.groups + 1) r, cur₁)

/-- The branches of a group with a condition. -/
def twoWays (test : Regex) : List Regex → Regex
  | yes :: no :: more => .ifElse test yes (ofBranches (no :: more))
  | branches => .ifElse test (ofBranches branches) .empty

/-- A group with a condition, behind the condition. -/
def afterCondition (fuel : Nat) (o : Options) (test : Regex) (checks : Bool) (cur : Cursor) :
    Except ReadError (Regex × Cursor) :=
  match cur.rest with
  | [] => throw .endInGroup
  | ')' :: rest => if checks then return (test, { cur with rest := rest }) else throw .conditional
  | '|' :: rest => do
    let (r, cur) ← readBody fuel o { cur with rest := rest }
    return (.ifElse test .empty r, cur)
  | _ => do
    let (branches, cur) ← readBranches fuel o cur
    return (twoWays test branches, ← closeGroup cur)

section

variable {o : Options} {cur cur₁ : Cursor} {r : Regex} {fuel : Nat} {rest : List Char}

theorem readGroup_quoted (hrest : cur.rest = '?' :: '\'' :: rest) :
    readGroup (fuel + 1) o cur = readNamed fuel o cur '\'' rest := by
  simp only [readGroup, hrest, readNamed, readBody, bind_assoc, pure_bind]

theorem readGroup_angled {c : Char} (hc : c ≠ '=' ∧ c ≠ '!') (hrest : cur.rest = '?' :: '<' :: c :: rest) :
    readGroup (fuel + 1) o cur = readNamed fuel o cur '>' (c :: rest) := by
  simp only [readGroup, hrest, readNamed, readBody, bind_assoc, pure_bind]
  split
  case h_11 he =>
    cases he
    rfl
  case h_13 hno _ => exact absurd rfl (hno _)
  -- Nothing else begins with an angle bracket and this character.
  all_goals
    rename_i he
    exact absurd he (by simp [hc])

theorem readGroup_condition (hrest : cur.rest = '?' :: '(' :: rest) :
    readGroup (fuel + 1) o cur = (do
      let (test, checks, cur) ← readCondition fuel o { cur with rest := rest }
      afterCondition fuel o test checks cur) := by
  simp only [readGroup, hrest]
  refine bind_congr fun x => ?_
  obtain ⟨test, checks, cur₂⟩ := x
  dsimp only
  split
  · rename_i hnil
    simp only [afterCondition, hnil]
  · rename_i hclose
    simp only [afterCondition, hclose]
  · rename_i hbar
    simp only [afterCondition, hbar, readBody, bind_assoc, pure_bind]
  · rename_i hnil hclose hbar
    unfold afterCondition
    split
    · rename_i h
      exact absurd h hnil
    · rename_i h
      exact absurd h (hclose _)
    · rename_i h
      exact absurd h (hbar _)
    · refine bind_congr fun x => bind_congr fun cur₄ => ?_
      obtain ⟨branches, cur₃⟩ := x
      rcases branches with _ | ⟨yes, _ | ⟨no, more⟩⟩
      · rfl
      · rfl
      · rfl

/-- What a group begins with. -/
theorem readGroup_cases (h : readGroup (fuel + 1) o cur = .ok (r, cur₁)) :
    (∃ opener f rest, Opens opener f ∧ cur.rest = '?' :: (opener ++ rest)) ∨
      (∃ rest, cur.rest = '?' :: '\'' :: rest) ∨
      (∃ c rest, (c ≠ '=' ∧ c ≠ '!') ∧ cur.rest = '?' :: '<' :: c :: rest) ∨
      ∃ rest, cur.rest = '?' :: '(' :: rest := by
  unfold readGroup at h
  split at h
  · rename_i rest hrest
    exact .inl ⟨_, _, rest, .plain, hrest⟩
  · rename_i rest hrest
    exact .inl ⟨_, _, rest, .ahead, hrest⟩
  · rename_i rest hrest
    exact .inl ⟨_, _, rest, .notAhead, hrest⟩
  · rename_i rest hrest
    exact .inl ⟨_, _, rest, .atomic, hrest⟩
  · cases h
  · rename_i rest _ hrest
    exact .inl ⟨_, _, rest, .absent, hrest⟩
  · rename_i rest hrest
    exact .inr (.inl ⟨rest, hrest⟩)
  · rename_i rest hrest
    exact .inl ⟨_, _, rest, .behind, hrest⟩
  · rename_i rest hrest
    exact .inl ⟨_, _, rest, .notBehind, hrest⟩
  · cases h
  · rename_i rest hequal hnot hne hrest
    rcases rest with _ | ⟨c, rest⟩
    · exact absurd rfl hne
    · refine .inr (.inr (.inl ⟨c, rest, ⟨?_, ?_⟩, hrest⟩))
      · rintro rfl
        exact hequal rest rfl
      · rintro rfl
        exact hnot rest rfl
  · rename_i rest hrest
    exact .inr (.inr (.inr ⟨rest, hrest⟩))
  · cases h

theorem readGroup_opener {opener : List Char} {f : Regex → Regex} (hopens : Opens opener f)
    (hrest : cur.rest = '?' :: (opener ++ rest)) (hrange : NoRange opener rest) :
    readGroup (fuel + 1) o cur =
      (readBody fuel o { cur with rest := rest }).map fun (r, cur) => (f r, cur) := by
  have h := readGroup_opens hopens fuel o cur hrange
  rwa [← hrest] at h

theorem isPlain_opens {opener : List Char} {f : Regex → Regex} (h : Opens opener f) (r : Regex) :
    (f r).isPlain = r.isPlain := by
  cases h <;> rfl

theorem readNamed_widen (hbranches : BranchesWiden off names stop fuel) {close : Char}
    {cs : List Char} (h : readNamed fuel o cur close cs = .ok (r, cur₁)) :
    Onward { cur with rest := cs } cur₁ ∧ (Unaffected off names r.isPlain cs → ∀ {m : Nat}, fuel ≤ m →
      readNamed m o (cur.widen off names stop) close (cs ++ stop) =
        .ok (r.shift off, cur₁.widen off names stop)) := by
  obtain ⟨⟨name, rest⟩, hname, h₂⟩ := bind_eq_ok.mp h
  obtain ⟨⟨r₂, cur₂⟩, hbody, h₃⟩ := bind_eq_ok.mp h₂
  cases h₃
  obtain ⟨t, _, rfl, hname'⟩ := (readsName_readGroupName close).local hname
  obtain ⟨honward, hbody'⟩ := readBody_widen hbranches hbody
  have hrest : rest <:+ t ++ rest := ⟨t, rfl⟩
  refine ⟨Onward.trans ⟨hrest, ?_⟩ honward, fun hun m hm => ?_⟩
  · simp only [List.length_append, List.length_singleton]
    omega
  have hnumber : cur.groups + 1 + off = cur.groups + off + 1 := Nat.add_right_comm _ _ _
  have hagain := hbody' (hun.of_suffix id hrest) hm
  simp only [Cursor.widen, List.map_append, List.map_cons, List.map_nil, hnumber,
    ← List.append_assoc] at hagain
  rw [List.append_assoc, readNamed, hname', shift, hnumber]
  simp only [ok_bind_eq, Cursor.widen, hagain]
  rfl

theorem shift_twoWays (off : Nat) (test : Regex) (branches : List Regex) :
    (twoWays test branches).shift off = twoWays (test.shift off) (branches.map (shift off)) := by
  rcases branches with _ | ⟨yes, _ | ⟨no, more⟩⟩
  · rfl
  · rfl
  · simp only [twoWays, List.map_cons, shift, shift_ofBranches]

theorem isPlain_twoWays (test : Regex) (branches : List Regex) :
    (twoWays test branches).isPlain = (test.isPlain && branches.all isPlain) := by
  rcases branches with _ | ⟨yes, _ | ⟨no, more⟩⟩
  · simp [twoWays, isPlain, ofBranches]
  · simp [twoWays, isPlain, ofBranches]
  · simp [twoWays, isPlain, isPlain_ofBranches, Bool.and_assoc]

theorem afterCondition_widen (hbranches : BranchesWiden off names stop fuel) {test : Regex}
    {checks : Bool} (h : afterCondition fuel o test checks cur = .ok (r, cur₁)) :
    Onward cur cur₁ ∧ (r.isPlain = true → test.isPlain = true) ∧
      (Unaffected off names r.isPlain cur.rest → ∀ {m : Nat}, fuel ≤ m →
        afterCondition m o (test.shift off) checks (cur.widen off names stop) =
          .ok (r.shift off, cur₁.widen off names stop)) := by
  obtain ⟨rest, groups, names'⟩ := cur
  unfold afterCondition at h
  split at h
  · cases h
  · rename_i rest' he
    obtain rfl : rest = ')' :: rest' := he
    split at h
    · rename_i hchecks
      cases h
      refine ⟨.of_suffix (List.suffix_cons _ _), id, fun _ m _ => ?_⟩
      simp only [afterCondition, Cursor.widen, List.cons_append, hchecks, if_true]
      rfl
    · cases h
  · rename_i rest' he
    obtain rfl : rest = '|' :: rest' := he
    obtain ⟨⟨r₂, cur₂⟩, hbody, hresult⟩ := bind_eq_ok.mp h
    cases hresult
    obtain ⟨honward, hbody'⟩ := readBody_widen hbranches hbody
    have hplain : (Regex.ifElse test .empty r₂).isPlain = true → test.isPlain = true ∧ r₂.isPlain = true := by
      simp [isPlain]
    refine ⟨Onward.trans (.of_suffix (List.suffix_cons _ _)) honward, fun hr => (hplain hr).1,
      fun hun m hm => ?_⟩
    have hagain := hbody' (hun.of_suffix (fun hr => (hplain hr).2) (List.suffix_cons _ _)) hm
    simp only [Cursor.widen] at hagain
    simp only [afterCondition, Cursor.widen, List.cons_append, hagain, ok_bind_eq]
    rfl
  · rename_i hnil hclose hbar
    obtain ⟨⟨branches, cur₂⟩, hread, h₂⟩ := bind_eq_ok.mp h
    obtain ⟨cur₃, hgroup, hresult⟩ := bind_eq_ok.mp h₂
    cases hresult
    obtain ⟨honward, hread'⟩ := hbranches hread
    obtain ⟨rest₂, hrest₂, rfl, hgroup'⟩ :=
      closeGroup_widen off names stop hgroup
    have hclosed : Onward cur₂ { cur₂ with rest := rest₂ } := by
      refine .of_suffix ?_
      rw [hrest₂]
      exact List.suffix_cons _ _
    have hplain : (twoWays test branches).isPlain = true →
        test.isPlain = true ∧ branches.all isPlain = true := by
      rw [isPlain_twoWays, Bool.and_eq_true]
      exact id
    refine ⟨honward.trans hclosed, fun hr => (hplain hr).1, fun hun m hm => ?_⟩
    have hagain := hread' (.inr (by simp [hrest₂]))
      (hun.of_suffix (fun hr => (hplain hr).2) List.suffix_rfl) hm
    rcases rest with _ | ⟨c, rest⟩
    · exact absurd rfl hnil
    simp only [Cursor.widen, List.cons_append] at hagain
    unfold afterCondition
    simp only [Cursor.widen, List.cons_append]
    split
    · rename_i he
      cases he
    · rename_i he
      cases he
      exact absurd rfl (hclose rest)
    · rename_i he
      cases he
      exact absurd rfl (hbar rest)
    · rw [hagain, shift_twoWays]
      exact bind_eq_ok.mpr ⟨_, rfl, bind_eq_ok.mpr ⟨_, hgroup', rfl⟩⟩

end

theorem groupWidens_succ {fuel : Nat} (hbranches : BranchesWiden off names stop fuel)
    (hcondition : ConditionWidens off names stop fuel) : GroupWidens off names stop (fuel + 1) := by
  intro o cur cur₁ r h
  rcases readGroup_cases h with ⟨opener, f, rest, hopens, hrest⟩ | ⟨rest, hrest⟩ |
    ⟨c, rest, hc, hrest⟩ | ⟨rest, hrest⟩
  · have hgroup : Regex.readGroup (fuel + 1) o { cur with rest := '?' :: (opener ++ rest) } =
        .ok (r, cur₁) := by
      rw [← hrest]
      exact h
    have hrange := noRange_of_readGroup hgroup
    rw [readGroup_opener hopens hrest hrange] at h
    obtain ⟨⟨r₂, cur₂⟩, hbody, hresult⟩ := map_eq_ok.mp h
    cases hresult
    obtain ⟨honward, hbody'⟩ := readBody_widen hbranches hbody
    have hinner : rest <:+ cur.rest := by
      rw [hrest]
      exact ⟨'?' :: opener, rfl⟩
    refine ⟨(Onward.of_suffix hinner).trans honward, fun hun m hm => ?_⟩
    obtain ⟨m, rfl⟩ := Nat.exists_eq_succ_of_ne_zero (show m ≠ 0 by omega)
    have hrest' : (cur.widen off names stop).rest = '?' :: (opener ++ (rest ++ stop)) := by
      simp [Cursor.widen, hrest]
    have hrange' : NoRange opener (rest ++ stop) := by
      rcases rest with _ | ⟨c, rest⟩
      · exact absurd rfl (readBody_ne_nil hbody)
      · exact hrange
    rw [isPlain_opens hopens] at hun
    rw [Nat.succ_eq_add_one, readGroup_opener hopens hrest' hrange', hopens.shift]
    exact map_eq_ok.mpr ⟨_, hbody' (hun.of_suffix id hinner) (Nat.le_of_succ_le_succ hm), rfl⟩
  · rw [readGroup_quoted hrest] at h
    obtain ⟨honward, hnamed⟩ := readNamed_widen hbranches h
    have hinner : rest <:+ cur.rest := by
      rw [hrest]
      exact ⟨['?', '\''], rfl⟩
    refine ⟨(Onward.of_suffix hinner).trans honward, fun hun m hm => ?_⟩
    obtain ⟨m, rfl⟩ := Nat.exists_eq_succ_of_ne_zero (show m ≠ 0 by omega)
    have hrest' : (cur.widen off names stop).rest = '?' :: '\'' :: (rest ++ stop) := by
      simp [Cursor.widen, hrest]
    rw [Nat.succ_eq_add_one, readGroup_quoted hrest']
    exact hnamed (hun.of_suffix id hinner) (Nat.le_of_succ_le_succ hm)
  · rw [readGroup_angled hc hrest] at h
    obtain ⟨honward, hnamed⟩ := readNamed_widen hbranches h
    have hinner : c :: rest <:+ cur.rest := by
      rw [hrest]
      exact ⟨['?', '<'], rfl⟩
    refine ⟨(Onward.of_suffix hinner).trans honward, fun hun m hm => ?_⟩
    obtain ⟨m, rfl⟩ := Nat.exists_eq_succ_of_ne_zero (show m ≠ 0 by omega)
    have hrest' : (cur.widen off names stop).rest = '?' :: '<' :: c :: (rest ++ stop) := by
      simp [Cursor.widen, hrest]
    rw [Nat.succ_eq_add_one, readGroup_angled hc hrest']
    exact hnamed (hun.of_suffix id hinner) (Nat.le_of_succ_le_succ hm)
  · rw [readGroup_condition hrest] at h
    obtain ⟨⟨test, checks, cur₂⟩, hread, h₂⟩ := bind_eq_ok.mp h
    obtain ⟨honward, hread'⟩ := hcondition hread
    obtain ⟨honward₂, hplain, hafter⟩ := afterCondition_widen hbranches h₂
    have hinner : rest <:+ cur.rest := by
      rw [hrest]
      exact ⟨['?', '('], rfl⟩
    have honward₁ := (Onward.of_suffix hinner).trans honward
    refine ⟨honward₁.trans honward₂, fun hun m hm => ?_⟩
    obtain ⟨m, rfl⟩ := Nat.exists_eq_succ_of_ne_zero (show m ≠ 0 by omega)
    have hrest' : (cur.widen off names stop).rest = '?' :: '(' :: (rest ++ stop) := by
      simp [Cursor.widen, hrest]
    have hle := Nat.le_of_succ_le_succ hm
    rw [Nat.succ_eq_add_one, readGroup_condition hrest']
    exact bind_eq_ok.mpr ⟨_, hread' (hun.of_suffix hplain hinner) hle,
      hafter (hun.of_suffix id honward₁.rest) hle⟩

/-! ## Conditions -/

/-- The sign that closes the name of a group, if the first sign opens one. -/
def closing? (c : Char) : Option Char :=
  if c = '<' then some '>' else if c = '\'' then some '\'' else none

/-- A condition that names a group between signs. -/
def readEnclosed (cur : Cursor) (close : Char) (cs : List Char) :
    Except ReadError (Regex × Bool × Cursor) := do
  let (r, rest) ← readNameRef close cs
  let groups ← resolveRef cur r
  match rest with
  | ')' :: rest => return (.matched groups, true, { cur with rest := rest })
  | _ => throw .conditional

/-- A condition that is a pattern. -/
def readTest (fuel : Nat) (o : Options) (cur : Cursor) : Except ReadError (Regex × Bool × Cursor) :=
  (readBody fuel o cur).map fun (r, cur) => (r, false, cur)

/-- A condition that begins like a number. -/
def readNumbered (fuel : Nat) (o : Options) (cur : Cursor) : Except ReadError (Regex × Bool × Cursor) :=
  match readNameRef ')' cur.rest with
  | .ok (r, rest) => (resolveRef cur r).map fun groups =>
      (.matched groups, true, { cur with rest := rest })
  | .error _ => readTest fuel o cur

section

variable {o : Options} {cur cur₁ : Cursor} {test : Regex} {checks : Bool} {fuel : Nat}
  {c d close : Char} {rest : List Char}

theorem readCondition_enclosed (hclose : closing? c = some close) (hrest : cur.rest = c :: d :: rest) :
    readCondition (fuel + 1) o cur = readEnclosed cur close (d :: rest) := by
  unfold closing? at hclose
  split at hclose
  · rename_i hc
    subst hc
    cases hclose
    simp only [readCondition, hrest]
    rfl
  · split at hclose
    · rename_i hc
      subst hc
      cases hclose
      simp only [readCondition, hrest]
      rfl
    · cases hclose

theorem readCondition_other (hclose : closing? c = none) (hrest : cur.rest = c :: d :: rest) :
    readCondition (fuel + 1) o cur =
      if c.isDigit || c = '-' || c = '+' then readNumbered fuel o cur else readTest fuel o cur := by
  have htest : (do
      let (branches, cur) ← readBranches fuel o cur
      let cur ← closeGroup cur
      return (ofBranches branches, false, cur)) = readTest fuel o cur := by
    unfold readTest readBody
    rcases readBranches fuel o cur with _ | ⟨branches, cur₂⟩
    · rfl
    · simp only [ok_bind_eq]
      rcases closeGroup cur₂ with _ | _
      · rfl
      · rfl
  unfold readNumbered
  rw [readCondition, ← htest]
  simp only [hrest]
  split
  case h_3 he =>
    cases he
    cases hclose
  case h_4 he =>
    cases he
    cases hclose
  case h_5 he =>
    cases he
    rcases readNameRef ')' (c :: d :: rest) with _ | ⟨r, rest'⟩
    · rfl
    · simp only
      rcases resolveRef cur r with _ | _
      · rfl
      · rfl
  all_goals
    rename_i he
    cases he

/-- A condition that refers to a group does so in a longer text if no groups come before. -/
theorem matched_widen (stop : List Char) {ref : NameRef} {groups : List Nat}
    (href : resolveRef cur ref = .ok groups) {cs : List Char}
    (hun : Unaffected off names (Regex.matched groups).isPlain cs) :
    off = 0 ∧ names = [] ∧ resolveRef (cur.widen off names stop) ref = .ok groups := by
  obtain ⟨rfl, rfl⟩ | ⟨hplain, _⟩ := hun
  · exact ⟨rfl, rfl, (resolveRef_widen stop cur ref).trans href⟩
  · cases hplain

theorem readEnclosed_widen (off : Nat) (names : List (String × Nat)) (stop : List Char) {cs : List Char}
    (h : readEnclosed cur close cs = .ok (test, checks, cur₁)) :
    Onward { cur with rest := cs } cur₁ ∧ (Unaffected off names test.isPlain cs →
      readEnclosed (cur.widen off names stop) close (cs ++ stop) =
        .ok (test.shift off, checks, cur₁.widen off names stop)) := by
  obtain ⟨⟨ref, rest⟩, hname, h₂⟩ := bind_eq_ok.mp h
  obtain ⟨groups, hgroups, h₃⟩ := bind_eq_ok.mp h₂
  obtain ⟨t, _, rfl, hname'⟩ := (readsName_readNameRef close).local hname
  split at h₃
  · cases h₃
    rename_i rest'
    refine ⟨⟨⟨t ++ [')'], by simp⟩, Nat.le_refl _⟩, fun hun => ?_⟩
    obtain ⟨rfl, rfl, hgroups'⟩ := matched_widen stop hgroups hun
    rw [List.append_assoc, readEnclosed, hname', shift_zero]
    simp only [ok_bind_eq, hgroups', List.cons_append]
    rw [widen_zero, widen_zero]
    rfl
  · cases h₃

theorem readTest_widen (hbranches : BranchesWiden off names stop fuel)
    (h : readTest fuel o cur = .ok (test, checks, cur₁)) :
    (Onward cur cur₁ ∧ ')' :: cur₁.rest <:+ cur.rest) ∧
      (Unaffected off names test.isPlain cur.rest → ∀ {m : Nat}, fuel ≤ m →
        readTest m o (cur.widen off names stop) =
          .ok (test.shift off, checks, cur₁.widen off names stop)) := by
  obtain ⟨⟨r, cur₂⟩, hbody, hresult⟩ := map_eq_ok.mp h
  cases hresult
  refine ⟨readBody_closes hbranches hbody, fun hun m hm => ?_⟩
  exact map_eq_ok.mpr ⟨_, (readBody_widen hbranches hbody).2 hun hm, rfl⟩

/-- The closing parenthesis that ends a number stands in the text itself. -/
theorem readNameRef_of_append {c : Char} {more : List Char} (hclose : ')' ∈ more)
    {ref : NameRef} {rest : List Char} (h : readNameRef ')' (c :: (more ++ stop)) = .ok (ref, rest)) :
    ∃ rest', readNameRef ')' (c :: more) = .ok (ref, rest') := by
  have hstops : inName ')' ')' = false := rfl
  obtain ⟨hc, hdrop, hname⟩ := ((readsName_readNameRef ')').2 ..).mp h
  rw [takeWhile_append_of_mem _ hclose hstops] at hdrop hname
  obtain ⟨hmem, hdrop'⟩ := drop_append_of_takeWhile _ hclose hstops (Nat.le_refl _)
  rw [hdrop'] at hdrop
  rcases hleft : more.drop (more.takeWhile (inName ')')).length with _ | ⟨d, rest'⟩
  · rw [hleft] at hmem
    cases hmem
  · rw [hleft] at hdrop
    refine ⟨rest', ((readsName_readNameRef ')').2 ..).mpr ⟨hc, ?_, hname⟩⟩
    rw [hleft, (List.cons.inj hdrop).1]

theorem readNumbered_widen (hbranches : BranchesWiden off names stop fuel) (hc : c ≠ ')')
    (hrest : cur.rest = c :: d :: rest) (h : readNumbered fuel o cur = .ok (test, checks, cur₁)) :
    Onward cur cur₁ ∧ (Unaffected off names test.isPlain cur.rest → ∀ {m : Nat}, fuel ≤ m →
      readNumbered m o (cur.widen off names stop) =
        .ok (test.shift off, checks, cur₁.widen off names stop)) := by
  have hrest' : (cur.widen off names stop).rest = c :: (d :: rest ++ stop) := by
    simp [Cursor.widen, hrest]
  unfold readNumbered at h
  rcases hname : readNameRef ')' cur.rest with e | ⟨ref, rest₂⟩
  · -- What is no number here is none in the longer text.
    rw [hname] at h
    obtain ⟨⟨honward, hclose⟩, hagain⟩ := readTest_widen hbranches h
    refine ⟨honward, fun hun m hm => ?_⟩
    have hmem : ')' ∈ d :: rest := by
      have hmem := hclose.subset List.mem_cons_self
      rw [hrest] at hmem
      exact (List.mem_cons.mp hmem).resolve_left hc.symm
    rw [hrest] at hname
    unfold readNumbered
    rw [hrest']
    rcases hname' : readNameRef ')' (c :: (d :: rest ++ stop)) with e' | ⟨ref', rest'⟩
    · exact hagain hun hm
    · obtain ⟨_, hname''⟩ := readNameRef_of_append hmem hname'
      rw [hname] at hname''
      cases hname''
  · rw [hname] at h
    obtain ⟨groups, hgroups, hresult⟩ := map_eq_ok.mp h
    cases hresult
    obtain ⟨t, _, ht, hagain⟩ := (readsName_readNameRef ')').local hname
    refine ⟨.of_suffix ⟨t, ht.symm⟩, fun hun m hm => ?_⟩
    obtain ⟨rfl, rfl, hgroups'⟩ := matched_widen stop hgroups hun
    have hname' : readNameRef ')' (cur.widen 0 [] stop).rest = .ok (ref, rest₂ ++ stop) := by
      show readNameRef ')' (cur.rest ++ stop) = _
      rw [ht, List.append_assoc]
      exact hagain _
    unfold readNumbered
    rw [hname', shift_zero]
    exact map_eq_ok.mpr ⟨_, hgroups', by rw [widen_zero, widen_zero]⟩

end

theorem conditionWidens_succ {fuel : Nat} (hbranches : BranchesWiden off names stop fuel) :
    ConditionWidens off names stop (fuel + 1) := by
  intro o cur cur₁ test checks h
  have hlong : ∃ c d rest, cur.rest = c :: d :: rest := by
    rcases hrest : cur.rest with _ | ⟨c, _ | ⟨d, rest⟩⟩
    · rw [readCondition] at h
      simp only [hrest] at h
      cases h
    · rw [readCondition] at h
      simp only [hrest] at h
      cases h
    · exact ⟨c, d, rest, rfl⟩
  obtain ⟨c, d, rest, hrest⟩ := hlong
  have hrest' : (cur.widen off names stop).rest = c :: d :: (rest ++ stop) := by
    simp [Cursor.widen, hrest]
  have hsucc : ∀ {m : Nat}, fuel + 1 ≤ m → ∃ m', m = m' + 1 ∧ fuel ≤ m' := fun {m} hm =>
    ⟨m - 1, by omega, by omega⟩
  rcases hclose : closing? c with _ | close
  · rw [readCondition_other hclose hrest] at h
    by_cases hsign : (c.isDigit || c = '-' || c = '+') = true
    · rw [if_pos hsign] at h
      have hc : c ≠ ')' := by
        rintro rfl
        cases hsign
      obtain ⟨honward, hagain⟩ := readNumbered_widen hbranches hc hrest h
      refine ⟨honward, fun hun m hm => ?_⟩
      obtain ⟨m, rfl, hle⟩ := hsucc hm
      rw [readCondition_other hclose hrest', if_pos hsign]
      exact hagain hun hle
    · rw [if_neg hsign] at h
      obtain ⟨⟨honward, _⟩, hagain⟩ := readTest_widen hbranches h
      refine ⟨honward, fun hun m hm => ?_⟩
      obtain ⟨m, rfl, hle⟩ := hsucc hm
      rw [readCondition_other hclose hrest', if_neg hsign]
      exact hagain hun hle
  · rw [readCondition_enclosed hclose hrest] at h
    obtain ⟨honward, hagain⟩ := readEnclosed_widen off names stop h
    have hinner : d :: rest <:+ cur.rest := by
      rw [hrest]
      exact List.suffix_cons _ _
    refine ⟨(Onward.of_suffix hinner).trans honward, fun hun m hm => ?_⟩
    obtain ⟨m, rfl, _⟩ := hsucc hm
    rw [readCondition_enclosed hclose hrest']
    exact hagain (hun.of_suffix id hinner)

/-! ## The whole reader -/

theorem branchesWiden_succ {fuel : Nat} (hparts : PartsWiden off names stop fuel)
    (hbranches : BranchesWiden off names stop fuel) : BranchesWiden off names stop (fuel + 1) := by
  intro o cur cur₁ rs h
  have hfirst : ∃ x, readParts fuel o cur [] = .ok x := by
    rw [readBranches] at h
    obtain ⟨x, hx, _⟩ := bind_eq_ok.mp h
    exact ⟨x, hx⟩
  obtain ⟨⟨r, cur₂⟩, hread⟩ := hfirst
  have hwiden := hparts hread
  by_cases hbar : ∃ rest, cur₂.rest = '|' :: rest
  · obtain ⟨rest, hrest⟩ := hbar
    rw [readBranches_bar hread hrest] at h
    obtain ⟨⟨rs₂, cur₃⟩, hmore, hresult⟩ := bind_eq_ok.mp h
    cases hresult
    obtain ⟨honward, hagain⟩ := hbranches hmore
    have hinner : Onward cur { cur₂ with rest := rest } := by
      refine hwiden.onward.trans (.of_suffix ?_)
      rw [hrest]
      exact List.suffix_cons _ _
    refine ⟨hinner.trans honward, fun hends hun m hm => ?_⟩
    obtain ⟨m, rfl⟩ := Nat.exists_eq_succ_of_ne_zero (show m ≠ 0 by omega)
    have hle := Nat.le_of_succ_le_succ hm
    have hplain : (r :: rs₂).all isPlain = true → r.isPlain = true ∧ rs₂.all isPlain = true := by
      rw [List.all_cons, Bool.and_eq_true]
      exact id
    have hread' := hwiden.again (.inr (.inl (by simp [hrest])))
      (hun.of_suffix (fun hr => (hplain hr).1) List.suffix_rfl) hle
    have hrest' : (cur₂.widen off names stop).rest = '|' :: (rest ++ stop) := by
      simp [Cursor.widen, hrest]
    rw [Nat.succ_eq_add_one, readBranches_bar hread' hrest']
    exact bind_eq_ok.mpr ⟨_, hagain hends (hun.of_suffix (fun hr => (hplain hr).2) hinner.rest) hle, rfl⟩
  · have hlast := readBranches_last hread fun rest hrest => hbar ⟨rest, hrest⟩
    rw [hlast] at h
    cases h
    refine ⟨hwiden.onward, fun hends hun m hm => ?_⟩
    obtain ⟨m, rfl⟩ := Nat.exists_eq_succ_of_ne_zero (show m ≠ 0 by omega)
    have hread' := hwiden.again (hends.imp_right .inl) (hun.of_suffix (by simp) List.suffix_rfl)
      (Nat.le_of_succ_le_succ hm)
    refine readBranches_last hread' fun rest hrest => ?_
    rcases hcur : cur₁.rest with _ | ⟨c, rest'⟩
    · have hstop := hends.resolve_right (fun hne => hne hcur)
      simp [Cursor.widen, hcur, hstop] at hrest
    · simp only [Cursor.widen, hcur, List.cons_append, List.cons.injEq] at hrest
      exact hbar ⟨rest', by rw [hcur, hrest.1]⟩

theorem partsWiden_succ (hstop : EndsPattern stop) {fuel : Nat} (hparts : PartsWiden off names stop fuel)
    (hbranches : BranchesWiden off names stop fuel) (hgroup : GroupWidens off names stop fuel) :
    PartsWiden off names stop (fuel + 1) := by
  intro o cur₀ cur₁ done r h
  have hadvance : ∃ cur, cur₀.advance o = .ok cur := by
    rw [readParts] at h
    obtain ⟨cur, hcur, _⟩ := bind_eq_ok.mp h
    exact ⟨cur, hcur⟩
  obtain ⟨cur, hadvance⟩ := hadvance
  suffices hat : WidensAt off names stop o cur cur₁ r done fuel from
    hat.advance hstop hadvance fun hadvance' m x hm => hm _ hadvance'
  rcases hrest : cur.rest with _ | ⟨c, rest⟩
  · exact widensAt_stop hstop hadvance h (.inl hrest)
  by_cases hbar : c = '|'
  · subst hbar
    exact widensAt_stop hstop hadvance h (.inr (.inl ⟨rest, hrest⟩))
  by_cases hclose : c = ')'
  · subst hclose
    exact widensAt_stop hstop hadvance h (.inr (.inr ⟨rest, hrest⟩))
  by_cases hbracket : c = '['
  · subst hbracket
    exact widensAt_class hstop hparts hadvance h hrest
  by_cases hescape : c = '\\'
  · subst hescape
    exact widensAt_escape hstop hparts hadvance h hrest
  by_cases hparen : c = '('
  · subst hparen
    rcases rest with _ | ⟨d, rest⟩
    · rw [readParts, hadvance] at h
      simp only [ok_bind_eq, hrest] at h
      cases h
    by_cases hquestion : d = '?'
    · subst hquestion
      rcases rest with _ | ⟨e, rest⟩
      · rw [readParts, hadvance] at h
        simp only [ok_bind_eq, hrest] at h
        cases h
      by_cases he : e ∈ [':', '=', '!', '>', '<', '\'', '~', '(']
      · exact widensAt_group hstop hparts hadvance h hgroup hrest he
      · exact widensAt_options hstop hparts hadvance h hbranches hrest he
    · exact widensAt_capture hstop hparts hadvance h hbranches hrest hquestion
  · exact widensAt_char hstop hparts hadvance h hrest (by simp [isOrdinary, hparen, hbracket, hescape])
      ⟨hbar, hclose⟩

/-- The reader makes the same of a text within a longer one. -/
theorem reader_widens (off : Nat) (names : List (String × Nat)) (hstop : EndsPattern stop) (fuel : Nat) :
    BranchesWiden off names stop fuel ∧ PartsWiden off names stop fuel ∧
      GroupWidens off names stop fuel ∧ ConditionWidens off names stop fuel := by
  induction fuel with
  | zero =>
    refine ⟨?_, ?_, ?_, ?_⟩
    · intro o cur cur₁ rs h
      rw [readBranches] at h
      cases h
    · intro o cur cur₁ done r h
      rw [readParts] at h
      cases h
    · intro o cur cur₁ r h
      rw [readGroup] at h
      cases h
    · intro o cur cur₁ test checks h
      rw [readCondition] at h
      cases h
  | succ fuel ih =>
    obtain ⟨hbranches, hparts, hgroup, hcondition⟩ := ih
    exact ⟨branchesWiden_succ hparts hbranches, partsWiden_succ hstop hparts hbranches hgroup,
      groupWidens_succ hbranches hcondition, conditionWidens_succ hbranches⟩

end Highlighting.Regex
