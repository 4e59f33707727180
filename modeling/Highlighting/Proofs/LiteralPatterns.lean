-- Patterns that stand for a text as it is. Whatever the text, its escaped form
-- is read, and as the row of its characters: an escape stands for the character
-- behind the backslash, and no character that is left bare means anything else.
import Highlighting.Proofs.WhichRule

namespace Highlighting

open Regex (Part Cursor Options)
open Alternation (afterPart charPart readParts_stop readParts_escape readParts_char
  skipIgnored_of_not_comment)

/-! ## The escaped text -/

/-- The characters of an escaped text. -/
def escaped (cs : List Char) : List Char :=
  cs.flatMap fun c => if Pattern.isSpecial c then ['\\', c] else [c]

theorem toList_escape (text : String) : (Pattern.escape text).toList = escaped text.toList := by
  simp [Pattern.escape, escaped]

theorem escaped_cons_of_special {c : Char} (h : Pattern.isSpecial c = true) (cs : List Char) :
    escaped (c :: cs) = '\\' :: c :: escaped cs := by
  simp [escaped, h]

theorem escaped_cons_of_bare {c : Char} (h : Pattern.isSpecial c = false) (cs : List Char) :
    escaped (c :: cs) = c :: escaped cs := by
  simp [escaped, h]

theorem length_le_escaped (cs : List Char) : cs.length ≤ (escaped cs).length := by
  induction cs with
  | nil => simp
  | cons c cs ih =>
    rcases h : Pattern.isSpecial c with _ | _
    · rw [escaped_cons_of_bare h, List.length_cons, List.length_cons]
      omega
    · rw [escaped_cons_of_special h, List.length_cons, List.length_cons, List.length_cons]
      omega

theorem not_special_of_bare {c : Char} (h : Pattern.isSpecial c = false) :
    ∀ d ∈ Pattern.specials, c ≠ d := by
  rintro d hd rfl
  rw [Pattern.isSpecial, List.contains_iff_mem.mpr hd] at h
  cases h

/-- An escaped text starts no comment. -/
theorem advance_escaped {o : Options} (ho : o.extended = false) {cur : Cursor} {cs : List Char}
    (hrest : cur.rest = escaped cs) : cur.advance o = .ok cur := by
  have hplain : ∀ r, cur.rest ≠ '(' :: '?' :: '#' :: r := by
    intro r hr
    rw [hrest] at hr
    rcases cs with _ | ⟨c, cs⟩
    · cases hr
    · rcases h : Pattern.isSpecial c with _ | _
      · rw [escaped_cons_of_bare h] at hr
        exact not_special_of_bare h '(' (by decide) (List.cons.inj hr).1
      · rw [escaped_cons_of_special h] at hr
        exact absurd (List.cons.inj hr).1 (by decide)
  unfold Cursor.advance
  rw [ho, skipIgnored_of_not_comment hplain]
  rfl

theorem readQuantifier_bare {c : Char} (h : Pattern.isSpecial c = false) (rest : List Char) :
    Regex.readQuantifier (c :: rest) = .ok none := by
  have hbare := not_special_of_bare h
  unfold Regex.readQuantifier
  split
  · rename_i heq
    exact absurd (List.cons.inj heq).1 (hbare _ (by decide))
  · rename_i heq
    exact absurd (List.cons.inj heq).1 (hbare _ (by decide))
  · rename_i heq
    exact absurd (List.cons.inj heq).1 (hbare _ (by decide))
  · rename_i heq
    exact absurd (List.cons.inj heq).1 (hbare _ (by decide))
  · rfl

/-- An escaped text starts no repetition. -/
theorem readQuantifier_escaped (cs : List Char) : Regex.readQuantifier (escaped cs) = .ok none := by
  rcases cs with _ | ⟨c, cs⟩
  · rfl
  · rcases h : Pattern.isSpecial c with _ | _
    · rw [escaped_cons_of_bare h]
      exact readQuantifier_bare h _
    · rw [escaped_cons_of_special h]
      rfl

/-- A special character behind a backslash stands for itself. -/
theorem readEscape_special {c : Char} (h : Pattern.isSpecial c = true) (cur : Cursor) (o : Options)
    (rest : List Char) :
    Regex.readEscape cur o (c :: rest) = .ok (.char c, { cur with rest := rest }) := by
  rw [Pattern.isSpecial, List.contains_iff_mem] at h
  simp only [Pattern.specials, List.mem_cons, List.not_mem_nil, or_false] at h
  rcases h with rfl | rfl | rfl | rfl | rfl | rfl | rfl | rfl | rfl | rfl | rfl | rfl | rfl | rfl |
    rfl | rfl
  all_goals rfl

theorem charPart_bare {c : Char} (h : Pattern.isSpecial c = false) (o : Options) :
    charPart o c = .char c := by
  have hbare := not_special_of_bare h
  unfold charPart
  split
  · exact absurd rfl (hbare '.' (by decide))
  · exact absurd rfl (hbare '^' (by decide))
  · exact absurd rfl (hbare '$' (by decide))
  · rfl

/-! ## Reading it -/

/-- The parts of an escaped text are its characters. -/
theorem readParts_escaped {o : Options} (ho : o.extended = false) {cs : List Char} {fuel : Nat}
    (hfuel : cs.length < fuel) {cur : Cursor} (hrest : cur.rest = escaped cs) (done : List Part) :
    Regex.readParts fuel o cur done =
      .ok (Regex.joinParts o ((cs.map Part.char).reverse ++ done) [] [], { cur with rest := [] }) := by
  induction cs generalizing fuel cur done with
  | nil =>
    obtain ⟨fuel, rfl⟩ := Nat.exists_eq_succ_of_ne_zero (Nat.ne_zero_of_lt hfuel)
    rw [readParts_stop (advance_escaped ho hrest) (.inl hrest)]
    rcases cur with ⟨rest, groups, names⟩
    cases hrest
    rfl
  | cons c cs ih =>
    obtain ⟨fuel, rfl⟩ := Nat.exists_eq_succ_of_ne_zero (Nat.ne_zero_of_lt hfuel)
    have hmore : afterPart fuel o done (.char c) { cur with rest := escaped cs } =
        .ok (Regex.joinParts o (((c :: cs).map Part.char).reverse ++ done) [] [],
          { cur with rest := [] }) := by
      unfold afterPart
      rw [advance_escaped ho rfl, ok_bind_eq, readQuantifier_escaped, ok_bind_eq]
      simp only
      rw [ih (by simpa using hfuel) rfl]
      simp
    have hadvance := advance_escaped ho hrest
    rcases h : Pattern.isSpecial c with _ | _
    · rw [escaped_cons_of_bare h] at hrest
      have hbare := not_special_of_bare h
      have hordinary : Regex.isOrdinary c = true := by
        simp [Regex.isOrdinary, hbare '(' (by decide), hbare '[' (by decide), hbare '\\' (by decide)]
      rw [readParts_char hadvance hrest hordinary ⟨hbare _ (by decide), hbare _ (by decide)⟩,
        readQuantifier_bare h, ok_bind_eq, charPart_bare h]
      exact hmore
    · rw [escaped_cons_of_special h] at hrest
      rw [readParts_escape hadvance hrest, readEscape_special h, ok_bind_eq]
      exact hmore

/-- A row of characters is a literal. -/
theorem joinParts_chars (o : Options) (cs run : List Char) :
    Regex.joinParts o (cs.map Part.char) run [] = Regex.literal o (cs.reverse ++ run) := by
  induction cs generalizing run with
  | nil =>
    rw [List.map_nil, Regex.joinParts]
    rcases run with _ | ⟨c, run⟩
    · rcases h : o.anyCase with _ | _
      · simp [Regex.literal, Regex.ofList, h]
      · simp [Regex.literal, Regex.ofList, h]
    · rfl
  | cons c cs ih =>
    rw [List.map_cons, Regex.joinParts, ih]
    simp

/-- What is settled part by part is settled as a row. -/
theorem settle_ofList {groups : Nat} {rs : List Regex} (h : ∀ r ∈ rs, Regex.settle groups r = .ok r) :
    Regex.settle groups (Regex.ofList rs) = .ok (Regex.ofList rs) := by
  induction rs with
  | nil => rfl
  | cons r rs ih =>
    have hrs := ih fun r' hr' => h r' (List.mem_cons_of_mem r hr')
    rcases rs with _ | ⟨r', rs⟩
    · exact h r List.mem_cons_self
    · rw [Regex.ofList, Regex.settle, h r List.mem_cons_self, hrs]
      · rfl
      · exact List.cons_ne_nil r' rs

theorem calls_ofList {rs : List Regex} (h : ∀ r ∈ rs, r.calls = []) : (Regex.ofList rs).calls = [] := by
  induction rs with
  | nil => rfl
  | cons r rs ih =>
    have hrs := ih fun r' hr' => h r' (List.mem_cons_of_mem r hr')
    rcases rs with _ | ⟨r', rs⟩
    · exact h r List.mem_cons_self
    · rw [Regex.ofList, Regex.calls, h r List.mem_cons_self, hrs]
      · rfl
      · exact List.cons_ne_nil r' rs

theorem settle_literal (groups : Nat) (o : Options) (cs : List Char) :
    Regex.settle groups (Regex.literal o cs) = .ok (Regex.literal o cs) := by
  unfold Regex.literal
  split
  · split <;> rfl
  · refine settle_ofList fun r hr => ?_
    obtain ⟨c, _, rfl⟩ := List.mem_map.mp hr
    rfl

theorem calls_literal (o : Options) (cs : List Char) : (Regex.literal o cs).calls = [] := by
  unfold Regex.literal
  split
  · split <;> rfl
  · refine calls_ofList fun r hr => ?_
    obtain ⟨c, _, rfl⟩ := List.mem_map.mp hr
    rfl

/-- The escaped text is read, as the literal that it stands for. -/
theorem read_escape (text : String) (anyCase : Bool) :
    Regex.read (Pattern.escape text) anyCase =
      .ok ⟨Regex.literal { anyCase := anyCase } text.toList, 0, []⟩ := by
  have hlength := length_le_escaped text.toList
  have hparts : Regex.readParts (4 * (Pattern.escape text).toList.length + 3) { anyCase := anyCase }
      { rest := (Pattern.escape text).toList } [] =
        .ok (Regex.literal { anyCase := anyCase } text.toList, { rest := [] }) := by
    have hrest : ({ rest := (Pattern.escape text).toList } : Cursor).rest = escaped text.toList := by
      rw [toList_escape]
    have hfuel : text.toList.length < 4 * (Pattern.escape text).toList.length + 3 := by
      rw [toList_escape]
      omega
    rw [readParts_escaped rfl hfuel hrest, List.append_nil, ← List.map_reverse, joinParts_chars,
      List.reverse_reverse, List.append_nil]
  have hread : Regex.readBranches (4 * (Pattern.escape text).toList.length + 4)
      { anyCase := anyCase } { rest := (Pattern.escape text).toList } =
        .ok ([Regex.literal { anyCase := anyCase } text.toList], { rest := [] }) := by
    rw [Regex.readBranches, hparts]
    rfl
  exact read_of_ok hread rfl (calls_literal _ _) (settle_literal _ _ _)

/-- Every text has a pattern that stands for it. -/
theorem literal_eq_ok (text : String) (anyCase : Bool) :
    Pattern.literal text anyCase = .ok {
      source := Pattern.escape text
      program := ⟨Regex.literal { anyCase := anyCase } text.toList, 0, []⟩ } := by
  unfold Pattern.literal Pattern.ofSource
  rw [read_escape]

end Highlighting
