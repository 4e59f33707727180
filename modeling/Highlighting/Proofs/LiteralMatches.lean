-- Where a text stands in another one. A pattern that stands for a text matches
-- wherever the same text stands, and takes just that: up to case, if case does not
-- matter, two texts are the same when they have the same folding. As every character
-- folds to something, two texts from one place are the same only if they are equally
-- long.
import Highlighting.Proofs.LiteralPatterns
import Highlighting.Proofs.ScanText

namespace Highlighting

open Regex (slice foldedEnd? literalEnd? matcher)

/-! ## Equal texts -/

/-- What a language sees of a text: its folding, if case does not matter. -/
def seenText (anyCase : Bool) (cs : List Char) : List Char :=
  if anyCase then Unicode.foldAll cs else cs

/-- Two texts are the same to a language: they are equal, or they have the same
folding if case does not matter. -/
def SameText (anyCase : Bool) (x y : String) : Prop :=
  seenText anyCase x.toList = seenText anyCase y.toList

instance (anyCase : Bool) (x y : String) : Decidable (SameText anyCase x y) :=
  inferInstanceAs (Decidable (_ = _))

theorem sameText_false {x y : String} : SameText false x y ↔ x = y := String.toList_inj

theorem sameText_true {x y : String} :
    SameText true x y ↔ Unicode.foldAll x.toList = Unicode.foldAll y.toList := Iff.rfl

/-- Every character folds to something. -/
theorem fold_ne_nil (c : Char) : Unicode.fold c ≠ [] := by
  have hsequences : Unicode.foldSequences.all (fun p => !p.2.isEmpty) = true := by decide +kernel
  unfold Unicode.fold
  split
  · exact List.cons_ne_nil _ _
  · split
    · rename_i n cs hfind
      have hne := List.all_eq_true.mp hsequences _ (List.mem_of_find?_eq_some hfind)
      simpa using hne
    · exact List.cons_ne_nil _ _

theorem foldAll_eq_nil {cs : List Char} (h : Unicode.foldAll cs = []) : cs = [] := by
  rcases cs with _ | ⟨c, cs⟩
  · rfl
  · have hc := List.flatMap_eq_nil_iff.mp h c List.mem_cons_self
    exact absurd hc (fold_ne_nil c)

theorem foldAll_cons (c : Char) (cs : List Char) :
    Unicode.foldAll (c :: cs) = Unicode.fold c ++ Unicode.foldAll cs := List.flatMap_cons

theorem seenText_append (anyCase : Bool) (cs ds : List Char) :
    seenText anyCase (cs ++ ds) = seenText anyCase cs ++ seenText anyCase ds := by
  unfold seenText
  split
  · exact List.flatMap_append
  · rfl

theorem seenText_eq_nil {anyCase : Bool} {cs : List Char} (h : seenText anyCase cs = []) :
    cs = [] := by
  unfold seenText at h
  split at h
  · exact foldAll_eq_nil h
  · exact h

/-- A text is the same as what it starts with only if they are equally long. -/
theorem sameText_of_initial {anyCase : Bool} {x y : String} (h : x.toList <+: y.toList) :
    SameText anyCase x y ↔ x.length = y.length := by
  obtain ⟨rest, hrest⟩ := h
  have hlength : y.length = x.length + rest.length := by
    rw [← String.length_toList, ← hrest, List.length_append, String.length_toList]
  constructor
  · intro hsame
    rw [SameText, ← hrest, seenText_append] at hsame
    have hnil : rest = [] := seenText_eq_nil (List.self_eq_append_right.mp hsame)
    rw [hlength, hnil, List.length_nil, Nat.add_zero]
  · intro heq
    obtain rfl : rest = [] := List.eq_nil_of_length_eq_zero (by omega)
    obtain rfl : x = y := String.toList_injective (by rw [← hrest, List.append_nil])
    rfl

/-! ## Slices -/

theorem slice_self (text : Array Char) (pos : Nat) : slice text pos pos = [] := by
  simp [slice]

theorem slice_cons {text : Array Char} {pos stop : Nat} {c : Char} (hc : text[pos]? = some c)
    (hstop : pos + 1 ≤ stop) : slice text pos stop = c :: slice text (pos + 1) stop := by
  obtain ⟨hlt, hget⟩ := Array.getElem?_eq_some_iff.mp hc
  have hone : slice text pos (pos + 1) = [c] := by
    have hdrop := List.drop_eq_getElem_cons (l := text.toList) hlt
    simp [slice, Array.toList_extract, hdrop, hget]
  rw [← Scan.slice_append text (Nat.le_succ pos) hstop, hone]
  rfl

/-! ## Where a text stands -/

/-- The end of the text `cs` at a place, if it stands there. -/
def textEnd? (anyCase : Bool) (text : Array Char) (cs : List Char) (pos : Nat) : Option Nat :=
  if anyCase then foldedEnd? text (Unicode.foldAll cs).length (Unicode.foldAll cs) pos
  else literalEnd? text cs pos

theorem foldedEnd?_nil (text : Array Char) (fuel pos : Nat) :
    foldedEnd? text fuel [] pos = some pos := by
  rcases fuel with _ | fuel <;> rfl

/-- What is found up to case folds to what was looked for. -/
theorem foldedEnd?_slice {text : Array Char} {fuel : Nat} {want : List Char} {pos stop : Nat}
    (hpos : pos ≤ text.size) (h : foldedEnd? text fuel want pos = some stop) :
    Unicode.foldAll (slice text pos stop) = want := by
  induction fuel generalizing want pos with
  | zero =>
    rcases want with _ | ⟨w, want⟩
    · cases h
      rw [slice_self]
      rfl
    · cases h
  | succ fuel ih =>
    rcases want with _ | ⟨w, want⟩
    · cases h
      rw [slice_self]
      rfl
    · rw [foldedEnd?] at h
      · rcases hc : text[pos]? with _ | c
        · simp [hc] at h
        · have hlt : pos < text.size := (Array.getElem?_eq_some_iff.mp hc).1
          simp only [hc] at h
          split at h
          · rename_i hprefix
            obtain ⟨rest, hrest⟩ := List.isPrefixOf_iff_prefix.mp hprefix
            rw [← hrest, List.drop_left] at h
            have hbounds := Regex.foldedEnd?_bounds _ _ _ (pos + 1) _ hlt h
            rw [slice_cons hc hbounds.1, ← hrest, foldAll_cons, ih hlt h]
          · cases h
      · simp

/-- What folds to what is looked for is found up to case. -/
theorem foldedEnd?_of_slice {text : Array Char} {fuel : Nat} {pos stop : Nat} (hle : pos ≤ stop)
    (hstop : stop ≤ text.size) (hfuel : (Unicode.foldAll (slice text pos stop)).length ≤ fuel) :
    foldedEnd? text fuel (Unicode.foldAll (slice text pos stop)) pos = some stop := by
  induction fuel generalizing pos with
  | zero =>
    have hnil := foldAll_eq_nil (List.eq_nil_of_length_eq_zero (Nat.le_zero.mp hfuel))
    rcases Nat.lt_or_ge pos stop with hlt | hge
    · rw [slice_cons (Array.getElem?_eq_getElem (show pos < text.size by omega)) hlt] at hnil
      cases hnil
    · obtain rfl : pos = stop := by omega
      rw [hnil]
      rfl
  | succ fuel ih =>
    rcases Nat.lt_or_ge pos stop with hlt | hge
    · have hc : text[pos]? = some text[pos] := Array.getElem?_eq_getElem (by omega)
      obtain ⟨w, ws, hfold⟩ := List.exists_cons_of_ne_nil (fold_ne_nil text[pos])
      rw [slice_cons hc hlt, foldAll_cons] at hfuel ⊢
      have hrest : (Unicode.foldAll (slice text (pos + 1) stop)).length ≤ fuel := by
        rw [List.length_append, hfold, List.length_cons] at hfuel
        omega
      have hprefix : (Unicode.fold text[pos]).isPrefixOf
          (Unicode.fold text[pos] ++ Unicode.foldAll (slice text (pos + 1) stop)) = true :=
        List.isPrefixOf_iff_prefix.mpr (List.prefix_append _ _)
      rw [foldedEnd?]
      · simp only [hc, hprefix, if_true, List.drop_left]
        exact ih hlt hrest
      · rw [hfold]
        simp
    · obtain rfl : pos = stop := by omega
      rw [slice_self]
      exact foldedEnd?_nil _ _ _

theorem literalEnd?_eq_some_iff {text : Array Char} {cs : List Char} {pos stop : Nat}
    (hpos : pos ≤ text.size) : literalEnd? text cs pos = some stop ↔
      pos ≤ stop ∧ stop ≤ text.size ∧ slice text pos stop = cs := by
  constructor
  · intro h
    obtain ⟨hle, hstop⟩ := Regex.literalEnd?_bounds _ _ _ _ hpos h
    refine ⟨hle, hstop, ?_⟩
    clear hle hstop
    induction cs generalizing pos with
    | nil =>
      cases h
      exact slice_self text _
    | cons c cs ih =>
      rw [literalEnd?] at h
      split at h
      · rename_i hc
        have hlt : pos < text.size := (Array.getElem?_eq_some_iff.mp hc).1
        have hbounds := Regex.literalEnd?_bounds _ _ _ _ hlt h
        rw [slice_cons hc hbounds.1, ih hlt h]
      · cases h
  · rintro ⟨hle, hstop, rfl⟩
    induction hn : stop - pos generalizing pos with
    | zero =>
      obtain rfl : pos = stop := by omega
      rw [slice_self]
      rfl
    | succ n ih =>
      have hc : text[pos]? = some text[pos] := Array.getElem?_eq_getElem (by omega)
      rw [slice_cons hc (by omega), literalEnd?, if_pos hc]
      exact ih (by omega) (by omega) (by omega)

/-- A text stands at a place if and only if the text is there, up to case if case does
not matter. -/
theorem textEnd?_eq_some_iff {anyCase : Bool} {text : Array Char} {cs : List Char} {pos stop : Nat}
    (hpos : pos ≤ text.size) : textEnd? anyCase text cs pos = some stop ↔
      pos ≤ stop ∧ stop ≤ text.size ∧ seenText anyCase (slice text pos stop) = seenText anyCase cs := by
  rcases anyCase with _ | _
  · exact literalEnd?_eq_some_iff hpos
  · constructor
    · intro h
      have hbounds := Regex.foldedEnd?_bounds _ _ _ _ _ hpos h
      exact ⟨hbounds.1, hbounds.2, foldedEnd?_slice hpos h⟩
    · rintro ⟨hle, hstop, hsame⟩
      have hfolds : Unicode.foldAll (slice text pos stop) = Unicode.foldAll cs := hsame
      show foldedEnd? text (Unicode.foldAll cs).length (Unicode.foldAll cs) pos = some stop
      rw [← hfolds]
      exact foldedEnd?_of_slice hle hstop (Nat.le_refl _)

/-! ## Literals -/

/-- A row of characters goes on behind the text where it stands. -/
theorem matcher_chars (s : Regex.Subject) (call : Regex.GroupRef → Regex.Matcher) (cs : List Char)
    (p : Regex.Place) (k : Regex.Rest) :
    matcher s call (Regex.ofList (cs.map fun c => .set (.single c))) p k =
      (literalEnd? s.text cs p.pos).bind fun stop => k { p with pos := stop } := by
  -- One character, with whatever is matched behind it.
  have hone : ∀ (c : Char) (p : Regex.Place) (k : Regex.Rest),
      matcher s call (.set (.single c)) p k =
        if s.text[p.pos]? = some c then k { p with pos := p.pos + 1 } else none := by
    intro c p k
    rw [matcher]
    rcases hc : s.text[p.pos]? with _ | d
    · simp
    · simp
  induction cs generalizing p k with
  | nil => rfl
  | cons c cs ih =>
    rcases cs with _ | ⟨d, cs⟩
    · rw [List.map_singleton, Regex.ofList, hone, literalEnd?]
      split <;> rfl
    · rw [List.map_cons, Regex.ofList, matcher, hone, literalEnd?]
      · split
        · exact ih _ _
        · rfl
      · simp

/-- A literal goes on behind its text where it stands. -/
theorem matcher_literal (s : Regex.Subject) (call : Regex.GroupRef → Regex.Matcher)
    (o : Regex.Options) (cs : List Char) (p : Regex.Place) (k : Regex.Rest) :
    matcher s call (Regex.literal o cs) p k =
      (textEnd? o.anyCase s.text cs p.pos).bind fun stop => k { p with pos := stop } := by
  unfold Regex.literal textEnd?
  rcases o.anyCase with _ | _
  · exact matcher_chars s call cs p k
  · rcases cs with _ | ⟨c, cs⟩
    · rfl
    · simp only [if_true, List.isEmpty_cons, Bool.false_eq_true, if_false]
      rw [matcher]
      rcases foldedEnd? s.text (Unicode.foldAll (c :: cs)).length (Unicode.foldAll (c :: cs)) p.pos with
        _ | stop
      · rfl
      · rfl

/-- The pattern that stands for a text matches where the same text stands. -/
theorem literal_matchesAt_iff {lexeme : String} {anyCase : Bool} {p : Pattern}
    (hp : Pattern.literal lexeme anyCase = .ok p) {text : Array Char} {pos : Nat} :
    p.matchesAt text pos = true ↔ ∃ stop, pos ≤ stop ∧ stop ≤ text.size ∧
      SameText anyCase (String.ofList (slice text pos stop)) lexeme := by
  rw [literal_eq_ok] at hp
  cases hp
  simp only [Pattern.matchesAt, Bool.and_eq_true, decide_eq_true_eq, Pattern.matchFrom,
    matcher_literal, SameText, String.toList_ofList]
  constructor
  · rintro ⟨hpos, hmatch⟩
    obtain ⟨q, hq⟩ := Option.isSome_iff_exists.mp hmatch
    obtain ⟨stop, hstop, _⟩ := Option.bind_eq_some_iff.mp hq
    exact ⟨stop, (textEnd?_eq_some_iff hpos).mp hstop⟩
  · rintro ⟨stop, hle, hstop, hsame⟩
    have hpos : pos ≤ text.size := Nat.le_trans hle hstop
    have hfound := (textEnd?_eq_some_iff hpos).mpr ⟨hle, hstop, hsame⟩
    refine ⟨hpos, ?_⟩
    rw [hfound]
    rfl

end Highlighting
