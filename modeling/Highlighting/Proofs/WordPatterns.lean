-- Patterns that choose from a list of words, as a mode that begins at keywords has one.
-- Words of characters that stand for themselves are read as they are, and the pattern
-- takes the first of them that stands between two word edges.
import Highlighting.Proofs.JoinedEnds
import Highlighting.Proofs.LiteralMatches

namespace Highlighting

open Regex (Cursor EndsPattern Options Part matcher_choice)
open Alternation (afterNode afterPart charPart readBody readParts_capture readParts_char
  readParts_escape readParts_stop skipIgnored_of_not_comment)

namespace Regex

/-! ## Reading the words -/

/-- The characters that do not stand for themselves in the text of a pattern. -/
def operators : List Char :=
  ['\\', '(', ')', '[', '|', '.', '^', '$', '*', '+', '?', '\x7b']

/-- The character stands for itself in the text of a pattern. -/
def isBare (c : Char) : Bool := !operators.contains c

theorem ne_of_isBare {c : Char} (h : isBare c = true) : ∀ d ∈ operators, c ≠ d := by
  rintro d hd rfl
  rw [isBare, List.contains_iff_mem.mpr hd] at h
  cases h

/-- Nothing is repeated before such a character, or at the end of a branch. -/
theorem readQuantifier_none {cs : List Char} (h : ∀ c, cs.head? = some c →
    c ≠ '*' ∧ c ≠ '+' ∧ c ≠ '?' ∧ c ≠ '\x7b') : readQuantifier cs = .ok none := by
  rcases cs with _ | ⟨c, cs⟩
  · rfl
  · obtain ⟨hstar, hplus, hquestion, hbrace⟩ := h c rfl
    unfold readQuantifier
    split
    · rename_i heq
      exact absurd (List.cons.inj heq).1 hstar
    · rename_i heq
      exact absurd (List.cons.inj heq).1 hplus
    · rename_i heq
      exact absurd (List.cons.inj heq).1 hquestion
    · rename_i heq
      exact absurd (List.cons.inj heq).1 hbrace
    · rfl

theorem readQuantifiers_none {o : Options} {cur : Cursor} (hadvance : cur.advance o = .ok cur)
    (h : readQuantifier cur.rest = .ok none) (n : Nat) (r : Regex) :
    readQuantifiers o n r cur = .ok (r, cur) := by
  rcases n with _ | n
  · rfl
  · rw [readQuantifiers, hadvance, ok_bind_eq, h]
    rfl

theorem advance_of_not_comment {o : Options} (ho : o.extended = false) {cur : Cursor}
    (h : ∀ r, cur.rest ≠ '(' :: '?' :: '#' :: r) : cur.advance o = .ok cur := by
  unfold Cursor.advance
  rw [ho, skipIgnored_of_not_comment h]
  rfl

section

variable {o : Options} {cs rest : List Char} {groups : Nat} {names : List (String × Nat)}

/-- Bare characters up to the end of a branch start no repetition and no comment. -/
theorem readQuantifier_bare_append (hcs : ∀ c ∈ cs, isBare c = true) (hrest : EndsPattern rest) :
    readQuantifier (cs ++ rest) = .ok none := by
  refine readQuantifier_none fun c hc => ?_
  rcases cs with _ | ⟨d, cs⟩
  · rcases hrest with rfl | ⟨r, rfl⟩ | ⟨r, rfl⟩
    · cases hc
    · cases hc
      decide
    · cases hc
      decide
  · cases hc
    have hbare := ne_of_isBare (hcs c List.mem_cons_self)
    exact ⟨hbare _ (by decide), hbare _ (by decide), hbare _ (by decide), hbare _ (by decide)⟩

theorem advance_bare_append (ho : o.extended = false) (hcs : ∀ c ∈ cs, isBare c = true)
    (hrest : EndsPattern rest) :
    Cursor.advance ⟨cs ++ rest, groups, names⟩ o = .ok ⟨cs ++ rest, groups, names⟩ := by
  refine advance_of_not_comment ho fun r hr => ?_
  rcases cs with _ | ⟨d, cs⟩
  · rcases hrest with rfl | ⟨r', rfl⟩ | ⟨r', rfl⟩
    · cases hr
    · cases hr
    · cases hr
  · exact ne_of_isBare (hcs d List.mem_cons_self) '(' (by decide) (List.cons.inj hr).1

/-- Bare characters are a literal. -/
theorem readParts_bare (ho : o.extended = false) (hcs : ∀ c ∈ cs, isBare c = true)
    (hrest : EndsPattern rest) {fuel : Nat} (hfuel : cs.length < fuel) (done : List Part) :
    readParts fuel o ⟨cs ++ rest, groups, names⟩ done =
      .ok (joinParts o ((cs.map Part.char).reverse ++ done) [] [], ⟨rest, groups, names⟩) := by
  induction cs generalizing fuel done with
  | nil =>
    obtain ⟨fuel, rfl⟩ := Nat.exists_eq_succ_of_ne_zero (Nat.ne_zero_of_lt hfuel)
    exact readParts_stop (advance_bare_append ho hcs hrest) hrest
  | cons c cs ih =>
    obtain ⟨fuel, rfl⟩ := Nat.exists_eq_succ_of_ne_zero (Nat.ne_zero_of_lt hfuel)
    have hbare := ne_of_isBare (hcs c List.mem_cons_self)
    have hcs' : ∀ c' ∈ cs, isBare c' = true := fun c' hc' => hcs c' (List.mem_cons_of_mem c hc')
    have hordinary : isOrdinary c = true := by
      simp [isOrdinary, hbare '(' (by decide), hbare '[' (by decide), hbare '\\' (by decide)]
    have hchar : charPart o c = .char c := by
      unfold charPart
      split
      · exact absurd rfl (hbare '.' (by decide))
      · exact absurd rfl (hbare '^' (by decide))
      · exact absurd rfl (hbare '$' (by decide))
      · rfl
    have hquantifier := readQuantifier_bare_append hcs hrest
    rw [List.cons_append] at hquantifier
    have htext : (Cursor.mk (c :: cs ++ rest) groups names).rest = c :: (cs ++ rest) := rfl
    rw [readParts_char (advance_bare_append ho hcs hrest) htext hordinary
      ⟨hbare _ (by decide), hbare _ (by decide)⟩, hquantifier, ok_bind_eq, hchar]
    show afterPart fuel o done (.char c) ⟨cs ++ rest, groups, names⟩ = _
    unfold afterPart
    rw [advance_bare_append ho hcs' hrest, ok_bind_eq, readQuantifier_bare_append hcs' hrest,
      ok_bind_eq]
    simp only
    rw [ih hcs' (by simpa using hfuel)]
    simp

theorem readParts_word (ho : o.extended = false) (hcs : ∀ c ∈ cs, isBare c = true)
    (hrest : EndsPattern rest) {fuel : Nat} (hfuel : cs.length < fuel) :
    readParts fuel o ⟨cs ++ rest, groups, names⟩ [] = .ok (literal o cs, ⟨rest, groups, names⟩) := by
  rw [readParts_bare ho hcs hrest hfuel, List.append_nil, ← List.map_reverse, joinParts_chars,
    List.reverse_reverse, List.append_nil]

/-- Words between bars are literals to choose from. -/
theorem readBranches_words (ho : o.extended = false) {words : List (List Char)} (hne : words ≠ [])
    (hwords : ∀ w ∈ words, ∀ c ∈ w, isBare c = true) (more : List Char) {fuel : Nat}
    (hfuel : (['|'].intercalate words).length + 1 < fuel) :
    readBranches fuel o ⟨['|'].intercalate words ++ ')' :: more, groups, names⟩ =
      .ok (words.map (literal o), ⟨')' :: more, groups, names⟩) := by
  induction words generalizing fuel with
  | nil => exact absurd rfl hne
  | cons w words ih =>
    obtain ⟨fuel, rfl⟩ := Nat.exists_eq_succ_of_ne_zero (Nat.ne_zero_of_lt hfuel)
    have hw := hwords w List.mem_cons_self
    rcases words with _ | ⟨w', words⟩
    · have htext : ['|'].intercalate [w] = w := by simp [List.intercalate]
      rw [htext] at hfuel ⊢
      have hparts : readParts fuel o ⟨w ++ ')' :: more, groups, names⟩ [] =
          .ok (literal o w, ⟨')' :: more, groups, names⟩) :=
        readParts_word ho hw (.inr (.inr ⟨more, rfl⟩)) (by omega)
      exact Alternation.readBranches_last hparts fun rest h => by cases h
    · have htext : ['|'].intercalate (w :: w' :: words) =
          w ++ '|' :: ['|'].intercalate (w' :: words) := by
        simp [List.intercalate]
      rw [htext] at hfuel ⊢
      rw [List.length_append, List.length_cons] at hfuel
      rw [List.append_assoc, List.cons_append]
      have hparts : readParts fuel o
          ⟨w ++ '|' :: (['|'].intercalate (w' :: words) ++ ')' :: more), groups, names⟩ [] =
            .ok (literal o w, ⟨'|' :: (['|'].intercalate (w' :: words) ++ ')' :: more), groups, names⟩) :=
        readParts_word ho hw (.inr (.inl ⟨_, rfl⟩)) (by omega)
      rw [Alternation.readBranches_bar hparts rfl,
        ih (List.cons_ne_nil _ _) (fun w hw => hwords w (List.mem_cons_of_mem _ hw)) (by omega)]
      rfl

end

/-- A word edge, as a pattern without options sees it. -/
def edge : Regex := .anchor (.wordEdge (.property .wordPart))

/-- The expression for one of the words between word edges. -/
def ofWords (anyCase : Bool) (words : List (List Char)) : Regex :=
  .seq edge (.seq (.group 1 (ofBranches (words.map (literal { anyCase := anyCase })))) edge)

theorem settle_ofBranches {groups : Nat} {rs : List Regex}
    (h : ∀ r ∈ rs, settle groups r = .ok r) : settle groups (ofBranches rs) = .ok (ofBranches rs) := by
  induction rs with
  | nil => rfl
  | cons r rs ih =>
    have hrs := ih fun r' hr' => h r' (List.mem_cons_of_mem r hr')
    rcases rs with _ | ⟨r', rs⟩
    · exact h r List.mem_cons_self
    · rw [ofBranches, settle, h r List.mem_cons_self, hrs]
      · rfl
      · exact List.cons_ne_nil r' rs

section

variable {o : Options} {cur : Cursor} (hadvance : cur.advance o = .ok cur)
  (hquantifier : readQuantifier cur.rest = .ok none) (fuel : Nat) (done : List Part) (r : Regex)

include hadvance hquantifier

/-- An expression that is not repeated is a part. -/
theorem afterNode_once : afterNode fuel o done r cur = readParts fuel o cur (.node r :: done) := by
  unfold afterNode
  rw [readQuantifiers_none hadvance hquantifier]
  rfl

theorem afterPart_once :
    afterPart fuel o done (.node r) cur = readParts fuel o cur (.node r :: done) := by
  unfold afterPart
  rw [hadvance, ok_bind_eq, hquantifier, ok_bind_eq]
  exact afterNode_once hadvance hquantifier fuel done r

end

section

variable {anyCase : Bool} {words : List (List Char)} (hne : words ≠ [])
  (hwords : ∀ w ∈ words, w ≠ [] ∧ ∀ c ∈ w, isBare c = true)

include hne hwords

/-- Words between bars start with a bare character. -/
theorem words_head (rest : List Char) : ∃ c body,
    ['|'].intercalate words ++ ')' :: rest = c :: body ∧ isBare c = true := by
  obtain ⟨w, words, rfl⟩ := List.exists_cons_of_ne_nil hne
  obtain ⟨hw, hbare⟩ := hwords w List.mem_cons_self
  obtain ⟨c, w, rfl⟩ := List.exists_cons_of_ne_nil hw
  rcases words with _ | ⟨w', words⟩
  · exact ⟨c, w ++ ')' :: rest, by simp [List.intercalate], hbare c List.mem_cons_self⟩
  · exact ⟨c, w ++ '|' :: (['|'].intercalate (w' :: words) ++ ')' :: rest),
      by simp [List.intercalate], hbare c List.mem_cons_self⟩

theorem advance_words (rest : List Char) (groups : Nat) :
    Cursor.advance ⟨'(' :: (['|'].intercalate words ++ ')' :: rest), groups, []⟩
        { anyCase := anyCase } =
      .ok ⟨'(' :: (['|'].intercalate words ++ ')' :: rest), groups, []⟩ := by
  obtain ⟨c, body, hbody, hc⟩ := words_head hne hwords rest
  refine advance_of_not_comment rfl fun r hr => ?_
  rw [hbody] at hr
  exact ne_of_isBare hc '?' (by decide) (List.cons.inj (List.cons.inj hr).2).1

omit hne hwords in
/-- The word edge at the end of a pattern is its last part. -/
theorem readParts_edge (fuel : Nat) (done : List Part) :
    readParts (fuel + 2) { anyCase := anyCase } ⟨['\\', 'b'], 1, []⟩ done =
      .ok (joinParts { anyCase := anyCase } (.node edge :: done) [] [], ⟨[], 1, []⟩) := by
  rw [readParts_escape (advance_of_not_comment rfl (by simp)) rfl]
  show afterPart (fuel + 1) _ done (.node edge) ⟨[], 1, []⟩ = _
  rw [afterPart_once (advance_of_not_comment rfl (by simp)) rfl]
  exact readParts_stop (advance_of_not_comment rfl (by simp)) (.inl rfl)

/-- The group of the words, with the edge behind it. -/
theorem readParts_words {fuel : Nat} (hfuel : (['|'].intercalate words).length + 1 < fuel + 2) :
    readParts (fuel + 3) { anyCase := anyCase }
        ⟨'(' :: (['|'].intercalate words ++ ')' :: ['\\', 'b']), 0, []⟩ [.node edge] =
      .ok (ofWords anyCase words, ⟨[], 1, []⟩) := by
  obtain ⟨c, body, hbody, hc⟩ := words_head hne hwords ['\\', 'b']
  have hwhole : readBody (fuel + 2) { anyCase := anyCase }
      ⟨['|'].intercalate words ++ ')' :: ['\\', 'b'], 1, []⟩ =
        .ok (ofBranches (words.map (literal { anyCase := anyCase })), ⟨['\\', 'b'], 1, []⟩) := by
    unfold readBody
    rw [readBranches_words rfl hne (fun w hw => (hwords w hw).2) _ hfuel]
    rfl
  have hopens : (Cursor.mk ('(' :: (['|'].intercalate words ++ ')' :: ['\\', 'b'])) 0 []).rest =
      '(' :: c :: body := by rw [hbody]
  rw [readParts_capture (advance_words hne hwords _ _) hopens (ne_of_isBare hc '?' (by decide)),
    ← hbody, hwhole, ok_bind_eq]
  show afterNode (fuel + 2) _ [.node edge] (.group 1 _) ⟨['\\', 'b'], 1, []⟩ = _
  rw [afterNode_once (advance_of_not_comment rfl (by simp)) rfl, readParts_edge]
  rfl

/-- Words of bare characters are read as they are. -/
theorem read_words {source : String}
    (hsource : source.toList = '\\' :: 'b' :: '(' :: (['|'].intercalate words ++ ')' :: ['\\', 'b'])) :
    read source anyCase = .ok ⟨ofWords anyCase words, 1, []⟩ := by
  have hlength : source.toList.length = (['|'].intercalate words).length + 6 := by
    rw [hsource]
    simp
  obtain ⟨fuel, hfuel, hlarge⟩ : ∃ fuel, 4 * source.toList.length + 4 = fuel + 5 ∧
      (['|'].intercalate words).length + 1 < fuel + 2 := ⟨4 * source.toList.length - 1, by omega⟩
  have hread : readBranches (4 * source.toList.length + 4) { anyCase := anyCase }
      { rest := source.toList } = .ok ([ofWords anyCase words], ⟨[], 1, []⟩) := by
    rw [hfuel, hsource]
    refine Alternation.readBranches_last ?_ fun rest h => by cases h
    rw [readParts_escape (advance_of_not_comment rfl (by simp)) rfl]
    show afterPart (fuel + 3) _ [] (.node edge)
      ⟨'(' :: (['|'].intercalate words ++ ')' :: ['\\', 'b']), 0, []⟩ = _
    rw [afterPart_once (advance_words hne hwords _ _) rfl, readParts_words hne hwords hlarge]
  refine read_of_ok hread rfl ?_ ?_
  · simp only [ofBranches, ofWords, edge, calls, calls_ofBranches, List.nil_append, List.append_nil]
    rw [List.flatMap_eq_nil_iff]
    intro r hr
    obtain ⟨w, _, rfl⟩ := List.mem_map.mp hr
    exact calls_literal _ _
  · have hsettle : settle 1 (ofBranches (words.map (literal { anyCase := anyCase }))) = .ok _ :=
      settle_ofBranches fun r hr => by
        obtain ⟨w, _, rfl⟩ := List.mem_map.mp hr
        exact settle_literal _ _ _
    simp only [ofBranches, ofWords, edge, settle, hsettle]
    rfl

end

end Regex

/-! ## Where the pattern matches -/

/-- The place lies between a word character and another. -/
def wordEdge (text : Array Char) (pos : Nat) : Bool :=
  Regex.atWordEdge ⟨text, 0⟩ (.property .wordPart) pos

/-- The end of the first of the words that stands at a place with a word edge behind
it. -/
def firstWordEnd? (anyCase : Bool) (text : Array Char) (pos : Nat) (words : List (List Char)) :
    Option Nat :=
  words.findSome? fun w => (textEnd? anyCase text w pos).filter (wordEdge text)

/-- The pattern of the words takes the first of them that stands between word edges. -/
theorem matchFrom_words {p : Pattern} {anyCase : Bool} {words : List (List Char)}
    (hroot : p.program.root = Regex.ofWords anyCase words) (hne : words ≠ []) (s : Regex.Subject)
    (pos : Nat) : p.matchFrom s pos =
      if wordEdge s.text pos then (firstWordEnd? anyCase s.text pos words).map fun stop =>
        ⟨stop, pos, [.closed 1 pos stop, .opened 1 pos]⟩
      else none := by
  have hedge : ∀ call p k, Regex.matcher s call Regex.edge p k =
      if wordEdge s.text p.pos then k p else none := fun _ _ _ => rfl
  unfold Pattern.matchFrom firstWordEnd?
  simp only [hroot, Regex.ofWords, Regex.matcher, hedge]
  rcases wordEdge s.text pos with _ | _
  · rfl
  · simp only [if_true]
    rw [matcher_choice _ _ (by simpa using hne), List.findSome?_map, List.map_findSome?]
    refine congrArg (List.findSome? · words) (funext fun w => ?_)
    simp only [Function.comp_apply, matcher_literal]
    rcases textEnd? anyCase s.text w pos with _ | stop
    · rfl
    · rcases hstop : wordEdge s.text stop with _ | _
      · simp [hstop, Option.filter]
      · simp [hstop, Option.filter]

end Highlighting
