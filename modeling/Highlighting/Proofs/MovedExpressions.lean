-- Expressions that are made of moved expressions. What the reader puts together
-- out of the parts of a pattern, and what it makes of look-behinds in the end, is
-- moved as a whole when its parts are.
import Highlighting.Proofs.ReadPieces

namespace Highlighting.Alternation

open Regex (Options Part Quantifier ReadError)

/-! ## What holds throughout an expression -/

/-- An expression has the property if and only if its parts do. A group may have it for
the sake of its number. -/
structure Hereditary (P : Regex → Prop) : Prop where
  empty : P .empty
  fail : P .fail
  set : ∀ s, P (.set s)
  seq : ∀ a b, P (.seq a b) ↔ P a ∧ P b
  alt : ∀ a b, P (.alt a b) ↔ P a ∧ P b
  loop : ∀ a min max greedy, P (.loop a min max greedy) ↔ P a
  group : ∀ n a, P (.group n a) → P a ∧ ∀ b, P b → P (.group n b)
  atomic : ∀ a, P (.atomic a) ↔ P a
  ahead : ∀ negated a, P (.ahead negated a) ↔ P a
  behind : ∀ negated width a, P (.behind negated width a) ↔ P a
  ifElse : ∀ a b c, P (.ifElse a b c) ↔ P a ∧ P b ∧ P c
  absent : ∀ a, P (.absent a) ↔ P a

theorem hereditary_tame (lo hi : Nat) : Hereditary (Regex.Tame lo hi) where
  empty := trivial
  fail := trivial
  set _ := trivial
  seq _ _ := Iff.rfl
  alt _ _ := Iff.rfl
  loop _ _ _ _ := Iff.rfl
  group _ _ h := ⟨h.2, fun _ hb => ⟨h.1, hb⟩⟩
  atomic _ := Iff.rfl
  ahead _ _ := Iff.rfl
  behind _ _ _ := Iff.rfl
  ifElse _ _ _ := Iff.rfl
  absent _ := Iff.rfl

section

variable {P : Regex → Prop} (hP : Hereditary P)

include hP

theorem Hereditary.ofList {rs : List Regex} (h : ∀ r ∈ rs, P r) : P (Regex.ofList rs) := by
  induction rs with
  | nil => exact hP.empty
  | cons r rs ih =>
    rcases rs with _ | ⟨r', rs⟩
    · exact h r List.mem_cons_self
    · exact (hP.seq _ _).mpr ⟨h r List.mem_cons_self, ih fun r'' hr'' => h r'' (List.mem_cons_of_mem _ hr'')⟩

theorem Hereditary.ofBranches {rs : List Regex} (h : ∀ r ∈ rs, P r) : P (Regex.ofBranches rs) := by
  induction rs with
  | nil => exact hP.empty
  | cons r rs ih =>
    rcases rs with _ | ⟨r', rs⟩
    · exact h r List.mem_cons_self
    · exact (hP.alt _ _).mpr ⟨h r List.mem_cons_self, ih fun r'' hr'' => h r'' (List.mem_cons_of_mem _ hr'')⟩

theorem Hereditary.apply (q : Quantifier) {r : Regex} (h : P r) : P (q.apply r) := by
  have hloop : ∀ min max greedy, P (.loop r min max greedy) := fun _ _ _ => (hP.loop _ _ _ _).mpr h
  unfold Quantifier.apply
  split
  · exact h
  · split
    · exact hloop _ _ _
    · exact hloop _ _ _
    · exact (hP.atomic _).mpr (hloop _ _ _)

end

/-! ## Rows and branches -/

theorem shift_ofList (off : Nat) (rs : List Regex) :
    (Regex.ofList rs).shift off = Regex.ofList (rs.map (Regex.shift off)) := by
  induction rs with
  | nil => rfl
  | cons r rs ih =>
    rcases rs with _ | ⟨r', rs⟩
    · rfl
    · exact congrArg (Regex.seq (r.shift off)) ih

theorem shift_ofBranches (off : Nat) (rs : List Regex) :
    (Regex.ofBranches rs).shift off = Regex.ofBranches (rs.map (Regex.shift off)) := by
  induction rs with
  | nil => rfl
  | cons r rs ih =>
    rcases rs with _ | ⟨r', rs⟩
    · rfl
    · exact congrArg (Regex.alt (r.shift off)) ih

theorem free_set (s : Regex.CharSet) : (Regex.set s).Free := ⟨fun _ => rfl, fun _ _ => trivial⟩

theorem free_ofList {rs : List Regex} (h : ∀ r ∈ rs, r.Free) : (Regex.ofList rs).Free := by
  constructor
  · intro off
    rw [shift_ofList, List.map_congr_left fun r hr => (h r hr).1 off, List.map_id']
  · intro lo hi
    exact (hereditary_tame lo hi).ofList fun r hr => (h r hr).2 lo hi

theorem free_ofBranches {rs : List Regex} (h : ∀ r ∈ rs, r.Free) : (Regex.ofBranches rs).Free := by
  constructor
  · intro off
    rw [shift_ofBranches, List.map_congr_left fun r hr => (h r hr).1 off, List.map_id']
  · intro lo hi
    exact (hereditary_tame lo hi).ofBranches fun r hr => (h r hr).2 lo hi

theorem free_literal (o : Options) (cs : List Char) : (Regex.literal o cs).Free := by
  unfold Regex.literal
  split
  · split
    · exact ⟨fun _ => rfl, fun _ _ => trivial⟩
    · exact ⟨fun _ => rfl, fun _ _ => trivial⟩
  · refine free_ofList fun r hr => ?_
    obtain ⟨c, _, rfl⟩ := List.mem_map.mp hr
    exact free_set _

theorem free_classRegex (o : Options) (negated : Bool) (s : Regex.CharSet) :
    (Regex.classRegex o negated s).Free := by
  unfold Regex.classRegex
  split
  · split
    · exact free_set _
    · refine free_ofBranches fun r hr => ?_
      rcases List.mem_cons.mp hr with rfl | hr
      · exact free_set _
      · obtain ⟨⟨n, cs⟩, _, he⟩ := List.mem_filterMap.mp hr
        simp only at he
        split at he
        · cases he
          refine free_ofList fun r' hr' => ?_
          obtain ⟨c, _, rfl⟩ := List.mem_map.mp hr'
          exact free_set _
        · cases he
  · exact free_set _

/-! ## Parts -/

/-- The part with all group numbers higher by `off`. -/
def movePart (off : Nat) : Part → Part
  | .char c => .char c
  | .node r => .node (r.shift off)

/-- What the part holds is tame. -/
def PartTame (hi : Nat) : Part → Prop
  | .char _ => True
  | .node r => r.Tame 0 hi

theorem movePart_free {part : Part} (h : part.Free) (off : Nat) : movePart off part = part := by
  cases part with
  | char c => rfl
  | node r => rw [movePart, h.1]

theorem partTame_free {part : Part} (h : part.Free) (hi : Nat) : PartTame hi part := by
  cases part with
  | char c => trivial
  | node r => exact h.2 0 hi

theorem shift_joinParts (off : Nat) (o : Options) (parts : List Part) (run : List Char)
    (done : List Regex) :
    (Regex.joinParts o parts run done).shift off =
      Regex.joinParts o (parts.map (movePart off)) run (done.map (Regex.shift off)) := by
  have hrun : ∀ (run : List Char) (done : List Regex),
      (if run.isEmpty then done else Regex.literal o run :: done).map (Regex.shift off) =
        if run.isEmpty then done.map (Regex.shift off)
        else Regex.literal o run :: done.map (Regex.shift off) := by
    intro run done
    split
    · rfl
    · rw [List.map_cons, (free_literal o run).1]
  induction parts generalizing run done with
  | nil => rw [Regex.joinParts, shift_ofList, hrun, List.map_nil, Regex.joinParts]
  | cons part parts ih =>
    cases part with
    | char c => exact ih (c :: run) done
    | node r =>
      rw [Regex.joinParts, ih, List.map_cons, hrun]
      rfl

theorem tame_joinParts {hi : Nat} (o : Options) {parts : List Part} (run : List Char)
    {done : List Regex} (hparts : ∀ part ∈ parts, PartTame hi part)
    (hdone : ∀ r ∈ done, r.Tame 0 hi) : (Regex.joinParts o parts run done).Tame 0 hi := by
  have hrun : ∀ (run : List Char) {done : List Regex}, (∀ r ∈ done, r.Tame 0 hi) →
      ∀ r ∈ (if run.isEmpty then done else Regex.literal o run :: done), r.Tame 0 hi := by
    intro run done hdone r hr
    split at hr
    · exact hdone r hr
    · rcases List.mem_cons.mp hr with rfl | hr
      · exact (free_literal o run).2 0 hi
      · exact hdone r hr
  induction parts generalizing run done with
  | nil => exact (hereditary_tame 0 hi).ofList (hrun run hdone)
  | cons part parts ih =>
    have hmore : ∀ part ∈ parts, PartTame hi part := fun part' h =>
      hparts part' (List.mem_cons_of_mem _ h)
    cases part with
    | char c => exact ih (c :: run) hmore hdone
    | node r =>
      refine ih [] hmore fun r' hr' => ?_
      rcases List.mem_cons.mp hr' with rfl | hr'
      · exact hparts _ List.mem_cons_self
      · exact hrun run hdone r' hr'

theorem shift_apply (off : Nat) (q : Quantifier) (r : Regex) :
    (q.apply r).shift off = q.apply (r.shift off) := by
  unfold Quantifier.apply
  split
  · rfl
  · split
    · rfl
    · rfl
    · rfl

/-! ## Looking behind -/

theorem extent?_shift (off : Nat) (r : Regex) : Regex.extent? (r.shift off) = Regex.extent? r := by
  induction r with
  | seq a b iha ihb | alt a b iha ihb => simp only [Regex.shift, Regex.extent?, iha, ihb]
  | ifElse a b c iha ihb ihc => simp only [Regex.shift, Regex.extent?, iha, ihb, ihc]
  | loop a _ _ _ ih | group _ a ih | atomic a ih => simp only [Regex.shift, Regex.extent?, ih]
  | _ => rfl

theorem hasGroup_shift (off : Nat) (r : Regex) : Regex.hasGroup (r.shift off) = Regex.hasGroup r := by
  induction r with
  | seq a b iha ihb | alt a b iha ihb => simp only [Regex.shift, Regex.hasGroup, iha, ihb]
  | ifElse a b c iha ihb ihc => simp only [Regex.shift, Regex.hasGroup, iha, ihb, ihc]
  | loop a _ _ _ ih | atomic a ih | ahead _ a ih | behind _ _ a ih | absent a ih =>
    simp only [Regex.shift, Regex.hasGroup, ih]
  | _ => rfl

theorem charByChar_shift (off : Nat) (r : Regex) :
    Regex.charByChar (r.shift off) = (Regex.charByChar r).shift off := by
  induction r with
  | folded cs =>
    have hfree : (Regex.ofList (cs.map fun c => .set (.anyCase (.single c)))).Free := by
      refine free_ofList fun r hr => ?_
      obtain ⟨c, _, rfl⟩ := List.mem_map.mp hr
      exact free_set _
    exact (hfree.1 off).symm
  | seq a b iha ihb | alt a b iha ihb => simp only [Regex.shift, Regex.charByChar, iha, ihb]
  | ifElse a b c iha ihb ihc => simp only [Regex.shift, Regex.charByChar, iha, ihb, ihc]
  | loop a _ _ _ ih | group _ a ih | atomic a ih => simp only [Regex.shift, Regex.charByChar, ih]
  | _ => rfl

theorem topBranches_shift (off : Nat) (r : Regex) :
    Regex.topBranches (r.shift off) = (Regex.topBranches r).map (Regex.shift off) := by
  induction r with
  | alt a b iha ihb => simp only [Regex.shift, Regex.topBranches, iha, ihb, List.map_append]
  | _ => rfl

theorem isSimple_shift (off : Nat) (r : Regex) : Regex.isSimple (r.shift off) = Regex.isSimple r := by
  cases r <;> rfl

theorem shortenFront_shift (off : Nat) (r : Regex) :
    Regex.shortenFront (r.shift off) = (Regex.shortenFront r).shift off := by
  have hloop : ∀ (a : Regex) (min : Nat) (max : Option Nat) (greedy : Bool),
      Regex.shortenFront ((Regex.loop a min max greedy).shift off) =
        (Regex.shortenFront (.loop a min max greedy)).shift off := by
    intro a min max greedy
    simp only [Regex.shift, Regex.shortenFront, isSimple_shift]
    split
    · split
      · rfl
      · rfl
    · rfl
  induction r with
  | loop a min max greedy _ => exact hloop a min max greedy
  | seq a b _ ihb =>
    cases a with
    | loop a min max greedy =>
      simp only [Regex.shift, Regex.shortenFront, isSimple_shift]
      split
      · split
        · exact ihb
        · rfl
      · rfl
    | _ => rfl
  | _ => rfl

theorem mapM_behindBranch {negated : Bool} (off : Nat) {branches parts : List Regex}
    (h : branches.mapM (Regex.behindBranch negated) = .ok parts) :
    (branches.map (Regex.shift off)).mapM (Regex.behindBranch negated) =
      .ok (parts.map (Regex.shift off)) := by
  induction branches generalizing parts with
  | nil =>
    cases h
    rfl
  | cons r branches ih =>
    rw [List.mapM_cons] at h
    obtain ⟨part, hpart, h₂⟩ := bind_eq_ok.mp h
    obtain ⟨parts', hparts, h₃⟩ := bind_eq_ok.mp h₂
    cases h₃
    unfold Regex.behindBranch at hpart
    split at hpart
    · rename_i n hn
      cases hpart
      have hbranch : Regex.behindBranch negated (r.shift off) = .ok (.behind negated n (r.shift off)) := by
        unfold Regex.behindBranch
        rw [extent?_shift, hn]
      rw [List.map_cons, List.mapM_cons, hbranch, ih hparts]
      rfl
    · cases hpart

/-- What looks behind is moved as a whole. -/
theorem lookBehind_shift {negated : Bool} (off : Nat) {a r : Regex}
    (h : Regex.lookBehind negated a = .ok r) :
    Regex.lookBehind negated (a.shift off) = .ok (r.shift off) := by
  have hshift : (Regex.topBranches (Regex.charByChar (a.shift off))).map Regex.shortenFront =
      ((Regex.topBranches (Regex.charByChar a)).map Regex.shortenFront).map (Regex.shift off) := by
    rw [charByChar_shift, topBranches_shift, List.map_map, List.map_map]
    exact List.map_congr_left fun b _ => shortenFront_shift off b
  unfold Regex.lookBehind at h ⊢
  rw [hasGroup_shift, hshift]
  by_cases hgroup : (negated && Regex.hasGroup a) = true
  · simp only [hgroup, if_true] at h
    cases h
  simp only [hgroup, if_false, Bool.false_eq_true] at h ⊢
  rw [← shift_ofBranches, extent?_shift]
  generalize (Regex.topBranches (Regex.charByChar a)).map Regex.shortenFront = branches at *
  split at h
  · cases h
  · rename_i e he
    split at h
    · rename_i hmin
      cases h
      simp only [hmin, if_true]
      cases negated
      · rfl
      · rfl
    · rename_i hmin
      obtain ⟨parts, hparts, h₂⟩ := bind_eq_ok.mp h
      cases h₂
      simp only [hmin, if_false, mapM_behindBranch off hparts]
      cases negated
      · simp only [Bool.false_eq_true, if_false, shift_ofBranches]
        rfl
      · simp only [if_true, shift_ofList]
        rfl

/-! ## Checks on the whole -/

theorem any_shift {groups total off : Nat} (htotal : groups + off ≤ total) {ns : List Nat}
    (h : ns.any (groups < ·) = false) : (ns.map (· + off)).any (total < ·) = false := by
  rw [List.any_eq_false] at h ⊢
  intro n hn
  obtain ⟨n', hn', rfl⟩ := List.mem_map.mp hn
  have := h n' hn'
  simp only [decide_eq_true_eq] at this ⊢
  omega

/-- An expression that passes the checks passes them moved, among more groups. -/
theorem settle_shift (off : Nat) {groups total : Nat} (htotal : groups + off ≤ total) {r r' : Regex}
    (h : Regex.settle groups r = .ok r') :
    Regex.settle total (r.shift off) = .ok (r'.shift off) := by
  induction r generalizing r' with
  | seq a b iha ihb | alt a b iha ihb =>
    rw [Regex.settle] at h
    obtain ⟨a', ha', h₂⟩ := bind_eq_ok.mp h
    obtain ⟨b', hb', h₃⟩ := bind_eq_ok.mp h₂
    cases h₃
    rw [Regex.shift, Regex.settle, iha ha', ihb hb']
    rfl
  | ifElse a b c iha ihb ihc =>
    rw [Regex.settle] at h
    obtain ⟨a', ha', h₂⟩ := bind_eq_ok.mp h
    obtain ⟨b', hb', h₃⟩ := bind_eq_ok.mp h₂
    obtain ⟨c', hc', h₄⟩ := bind_eq_ok.mp h₃
    cases h₄
    rw [Regex.shift, Regex.settle, iha ha', ihb hb', ihc hc']
    rfl
  | group _ a ih | loop a _ _ _ ih | atomic a ih | ahead _ a ih | absent a ih =>
    rw [Regex.settle] at h
    obtain ⟨a', ha', h₂⟩ := bind_eq_ok.mp h
    cases h₂
    rw [Regex.shift, Regex.settle, ih ha']
    rfl
  | behind negated width a ih =>
    rw [Regex.settle] at h
    obtain ⟨a', ha', h₂⟩ := bind_eq_ok.mp h
    rw [Regex.shift, Regex.settle, ih ha']
    exact lookBehind_shift off h₂
  | backref ns anyCase | matched ns =>
    rw [Regex.settle] at h
    split at h
    · cases h
    · rename_i hany
      cases h
      rw [Regex.shift, Regex.settle, any_shift htotal (Bool.eq_false_iff.mpr hany)]
      rfl
  | empty | fail | set _ | folded _ | anchor _ | call _ | keep =>
    cases h
    rfl

/-! ### The passes keep it -/

section

variable {P : Regex → Prop} (hP : Hereditary P)

include hP

theorem Hereditary.charByChar {r : Regex} (h : P r) : P (Regex.charByChar r) := by
  induction r with
  | folded cs =>
    refine hP.ofList fun r hr => ?_
    obtain ⟨c, _, rfl⟩ := List.mem_map.mp hr
    exact hP.set _
  | seq a b iha ihb =>
    obtain ⟨ha, hb⟩ := (hP.seq a b).mp h
    exact (hP.seq _ _).mpr ⟨iha ha, ihb hb⟩
  | alt a b iha ihb =>
    obtain ⟨ha, hb⟩ := (hP.alt a b).mp h
    exact (hP.alt _ _).mpr ⟨iha ha, ihb hb⟩
  | ifElse a b c iha ihb ihc =>
    obtain ⟨ha, hb, hc⟩ := (hP.ifElse a b c).mp h
    exact (hP.ifElse _ _ _).mpr ⟨iha ha, ihb hb, ihc hc⟩
  | group n a ih => exact (hP.group n a h).2 _ (ih (hP.group n a h).1)
  | loop a _ _ _ ih => exact (hP.loop _ _ _ _).mpr (ih ((hP.loop _ _ _ _).mp h))
  | atomic a ih => exact (hP.atomic _).mpr (ih ((hP.atomic _).mp h))
  | _ => exact h

theorem Hereditary.topBranches {r : Regex} (h : P r) : ∀ b ∈ Regex.topBranches r, P b := by
  induction r with
  | alt a b iha ihb =>
    obtain ⟨ha, hb⟩ := (hP.alt a b).mp h
    intro x hx
    rcases List.mem_append.mp hx with hx | hx
    · exact iha ha x hx
    · exact ihb hb x hx
  | _ =>
    intro x hx
    rw [List.mem_singleton.mp hx]
    exact h

theorem Hereditary.shortenFront {r : Regex} (h : P r) : P (Regex.shortenFront r) := by
  have hloop : ∀ {a : Regex} {min min' : Nat} {max max' : Option Nat} {greedy greedy' : Bool},
      P (.loop a min max greedy) → P (.loop a min' max' greedy') := fun h =>
    (hP.loop _ _ _ _).mpr ((hP.loop _ _ _ _).mp h)
  induction r with
  | loop a min max greedy _ =>
    simp only [Regex.shortenFront]
    split
    · split
      · exact hP.empty
      · exact hloop h
    · exact h
  | seq a b _ ihb =>
    obtain ⟨ha, hb⟩ := (hP.seq a b).mp h
    cases a with
    | loop a min max greedy =>
      simp only [Regex.shortenFront]
      split
      · split
        · exact ihb hb
        · exact (hP.seq _ _).mpr ⟨hloop ha, hb⟩
      · exact h
    | _ => exact h
  | _ => exact h

theorem Hereditary.lookBehind {negated : Bool} {a r : Regex} (ha : P a)
    (h : Regex.lookBehind negated a = .ok r) : P r := by
  have hbranches : ∀ b ∈ (Regex.topBranches (Regex.charByChar a)).map Regex.shortenFront, P b := by
    intro b hb
    obtain ⟨b', hb', rfl⟩ := List.mem_map.mp hb
    exact hP.shortenFront (hP.topBranches (hP.charByChar ha) b' hb')
  unfold Regex.lookBehind at h
  by_cases hgroup : (negated && Regex.hasGroup a) = true
  · simp only [hgroup, if_true] at h
    cases h
  simp only [hgroup, if_false, Bool.false_eq_true] at h
  split at h
  · cases h
  · split at h
    · cases h
      cases negated
      · exact hP.empty
      · exact hP.fail
    · obtain ⟨parts, hparts, h₂⟩ := bind_eq_ok.mp h
      cases h₂
      have hall : ∀ r ∈ parts, P r := by
        intro r hr
        obtain ⟨b, hb, hbranch⟩ := mapM_mem hparts hr
        unfold Regex.behindBranch at hbranch
        split at hbranch
        · cases hbranch
          exact (hP.behind _ _ _).mpr (hbranches b hb)
        · cases hbranch
      cases negated
      · exact hP.ofBranches hall
      · exact hP.ofList hall

/-- The checks keep what holds throughout an expression. -/
theorem Hereditary.settle {groups : Nat} {r r' : Regex} (hr : P r)
    (h : Regex.settle groups r = .ok r') : P r' := by
  induction r generalizing r' with
  | seq a b iha ihb =>
    obtain ⟨ha, hb⟩ := (hP.seq a b).mp hr
    rw [Regex.settle] at h
    obtain ⟨a', ha', h₂⟩ := bind_eq_ok.mp h
    obtain ⟨b', hb', h₃⟩ := bind_eq_ok.mp h₂
    cases h₃
    exact (hP.seq _ _).mpr ⟨iha ha ha', ihb hb hb'⟩
  | alt a b iha ihb =>
    obtain ⟨ha, hb⟩ := (hP.alt a b).mp hr
    rw [Regex.settle] at h
    obtain ⟨a', ha', h₂⟩ := bind_eq_ok.mp h
    obtain ⟨b', hb', h₃⟩ := bind_eq_ok.mp h₂
    cases h₃
    exact (hP.alt _ _).mpr ⟨iha ha ha', ihb hb hb'⟩
  | ifElse a b c iha ihb ihc =>
    obtain ⟨ha, hb, hc⟩ := (hP.ifElse a b c).mp hr
    rw [Regex.settle] at h
    obtain ⟨a', ha', h₂⟩ := bind_eq_ok.mp h
    obtain ⟨b', hb', h₃⟩ := bind_eq_ok.mp h₂
    obtain ⟨c', hc', h₄⟩ := bind_eq_ok.mp h₃
    cases h₄
    exact (hP.ifElse _ _ _).mpr ⟨iha ha ha', ihb hb hb', ihc hc hc'⟩
  | group n a ih =>
    rw [Regex.settle] at h
    obtain ⟨a', ha', h₂⟩ := bind_eq_ok.mp h
    cases h₂
    exact (hP.group n a hr).2 _ (ih (hP.group n a hr).1 ha')
  | loop a _ _ _ ih =>
    rw [Regex.settle] at h
    obtain ⟨a', ha', h₂⟩ := bind_eq_ok.mp h
    cases h₂
    exact (hP.loop _ _ _ _).mpr (ih ((hP.loop _ _ _ _).mp hr) ha')
  | atomic a ih =>
    rw [Regex.settle] at h
    obtain ⟨a', ha', h₂⟩ := bind_eq_ok.mp h
    cases h₂
    exact (hP.atomic _).mpr (ih ((hP.atomic _).mp hr) ha')
  | ahead _ a ih =>
    rw [Regex.settle] at h
    obtain ⟨a', ha', h₂⟩ := bind_eq_ok.mp h
    cases h₂
    exact (hP.ahead _ _).mpr (ih ((hP.ahead _ _).mp hr) ha')
  | absent a ih =>
    rw [Regex.settle] at h
    obtain ⟨a', ha', h₂⟩ := bind_eq_ok.mp h
    cases h₂
    exact (hP.absent _).mpr (ih ((hP.absent _).mp hr) ha')
  | behind negated width a ih =>
    rw [Regex.settle] at h
    obtain ⟨a', ha', h₂⟩ := bind_eq_ok.mp h
    exact hP.lookBehind (ih ((hP.behind _ _ _).mp hr) ha') h₂
  | backref ns anyCase | matched ns =>
    rw [Regex.settle] at h
    split at h
    · cases h
    · cases h
      exact hr
  | empty | fail | set _ | folded _ | anchor _ | call _ | keep =>
    cases h
    exact hr

/-- The body of a group has what holds throughout the expression. -/
theorem Hereditary.groupBody? {n : Nat} {r body : Regex} (hr : P r)
    (h : r.groupBody? n = some body) : P body := by
  induction r with
  | group m a ih =>
    obtain ⟨ha, _⟩ := hP.group m a hr
    rw [Regex.groupBody?] at h
    split at h
    · cases h
      exact ha
    · exact ih ha h
  | seq a b iha ihb =>
    obtain ⟨ha, hb⟩ := (hP.seq a b).mp hr
    simp only [Regex.groupBody?, Option.orElse_eq_orElse, Option.orElse_eq_or, Option.or_eq_some_iff] at h
    rcases h with h | ⟨_, h⟩
    · exact iha ha h
    · exact ihb hb h
  | alt a b iha ihb =>
    obtain ⟨ha, hb⟩ := (hP.alt a b).mp hr
    simp only [Regex.groupBody?, Option.orElse_eq_orElse, Option.orElse_eq_or, Option.or_eq_some_iff] at h
    rcases h with h | ⟨_, h⟩
    · exact iha ha h
    · exact ihb hb h
  | ifElse a b c iha ihb ihc =>
    obtain ⟨ha, hb, hc⟩ := (hP.ifElse a b c).mp hr
    simp only [Regex.groupBody?, Option.orElse_eq_orElse, Option.orElse_eq_or, Option.or_eq_some_iff] at h
    rcases h with h | ⟨_, h | ⟨_, h⟩⟩
    · exact iha ha h
    · exact ihb hb h
    · exact ihc hc h
  | loop a _ _ _ ih => exact ih ((hP.loop _ _ _ _).mp hr) h
  | atomic a ih => exact ih ((hP.atomic _).mp hr) h
  | ahead _ a ih => exact ih ((hP.ahead _ _).mp hr) h
  | behind _ _ a ih => exact ih ((hP.behind _ _ _).mp hr) h
  | absent a ih => exact ih ((hP.absent _).mp hr) h
  | _ => cases h

end

end Highlighting.Alternation
