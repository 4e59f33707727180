-- Joining plain patterns. A pattern is plain if it is a row of characters, escapes, references to
-- its own groups, flat classes and opening parentheses, each written so that what follows is
-- no part of it. The one pass over such a text finds exactly these pieces, so that joining
-- moves the references and changes nothing else. Where the reader finds the same pieces, each
-- group of a pattern is where joining says; a parenthesis that opens no group is in the way.
import Highlighting.Proofs.WhichRule

namespace Highlighting.Alternation

/-! ## Plain patterns -/

/-- What stands in a flat class. -/
inductive ClassItem where
  | literal (c : Char)
  | escape (c : Char)
  deriving DecidableEq, Repr

/-- What follows the question mark of a parenthesis that opens no group with a number. -/
inductive Opening where
  | together
  | ahead
  | notAhead
  | atomic
  | behind
  | notBehind
  deriving DecidableEq, Repr

/-- A piece of a plain pattern. -/
inductive Piece where
  | literal (c : Char)
  | escape (c : Char)
  /-- A reference to a group by its number. -/
  | reference (n : Nat)
  | charClass (items : List ClassItem)
  /-- A parenthesis that opens a group with a number. -/
  | capture
  | special (opening : Opening)
  deriving DecidableEq, Repr

def ClassItem.text : ClassItem → List Char
  | literal c => [c]
  | escape c => ['\\', c]

def Opening.text : Opening → List Char
  | together => [':']
  | ahead => ['=']
  | notAhead => ['!']
  | atomic => ['>']
  | behind => ['<', '=']
  | notBehind => ['<', '!']

/-- The text of a piece, with references moved by `off`. -/
def Piece.text (off : Nat) : Piece → List Char
  | literal c => [c]
  | escape c => ['\\', c]
  | reference n => '\\' :: (toString (n + off)).toList
  | charClass items => '[' :: (items.flatMap ClassItem.text ++ [']'])
  | capture => ['(']
  | special opening => '(' :: '?' :: opening.text

def text (off : Nat) (p : List Piece) : List Char := p.flatMap (Piece.text off)

/-- The pattern as it is written, with references moved by `off`. -/
def written (off : Nat) (p : List Piece) : String := String.ofList (text off p)

/-- How many groups with a number the pieces open. -/
def groups (p : List Piece) : Nat := p.count .capture

def ClassItem.fits : ClassItem → Bool
  | literal c => c != '\\' && c != '[' && c != ']'
  | escape c => c != '\n'

/-- A piece may stand in a pattern with so many groups, where the given character is next. -/
def Piece.fits (groups : Nat) (next : Option Char) : Piece → Bool
  | literal c => c != '\\' && c != '[' && c != '('
  | escape c => !('1' ≤ c && c ≤ '9') && c != '\n'
  | reference n => 0 < n && n ≤ groups && !next.any isNumeral
  | charClass items => items.all ClassItem.fits
  | capture => next != some '?'
  | special _ => true

/-- All pieces may stand in a pattern with so many groups. -/
def allFit (groups : Nat) : List Piece → Bool
  | [] => true
  | piece :: p => piece.fits groups (text 0 p).head? && allFit groups p

/-- The pieces are a plain pattern. -/
def isPlain (p : List Piece) : Bool := allFit (groups p) p

/-! ## The parts of a text without fuel -/

theorem length_dropWhile_isDigit (cs : List Char) :
    (cs.dropWhile isNumeral).length ≤ cs.length :=
  (List.dropWhile_suffix isNumeral).length_le

/-- Where there is fuel for each character, more changes nothing. -/
theorem tokensWith_succ {n : Nat} {cs : List Char} (h : cs.length ≤ n) :
    tokensWith (n + 1) cs = tokensWith n cs := by
  fun_induction tokensWith n cs with
  | case1 cs =>
    rw [List.eq_nil_of_length_eq_zero (Nat.le_zero.mp h)]
    rfl
  | case2 => rfl
  | case3 n cs body rest hbody ih =>
    have hlength := congrArg List.length (classBody?_eq hbody)
    rw [List.length_append] at hlength
    rw [List.length_cons] at h
    rw [tokensWith, hbody]
    simp only [ih (by omega)]
  | case4 n cs hbody ih =>
    rw [tokensWith, hbody]
    simp only [ih (Nat.le_of_succ_le_succ h)]
  | case5 n cs ih =>
    rw [tokensWith, ih (Nat.le_of_succ_le (Nat.le_of_succ_le_succ h))]
  | case6 n cs hnext ih =>
    rw [tokensWith, ih (Nat.le_of_succ_le_succ h)]
    exact hnext
  | case7 n c cs hdigit digits ih =>
    have hlength := length_dropWhile_isDigit cs
    rw [List.length_cons, List.length_cons] at h
    rw [tokensWith, if_pos hdigit, ih (by omega)]
  | case8 n cs hdigit ih =>
    rw [tokensWith, if_neg hdigit, if_pos rfl, ih (Nat.le_of_succ_le_succ h)]
  | case9 n c cs hdigit hline ih =>
    rw [tokensWith, if_neg hdigit, if_neg hline,
      ih (Nat.le_of_succ_le (Nat.le_of_succ_le_succ h))]
  | case10 n c cs h1 h2 h3 h4 ih =>
    rw [tokensWith, ih (Nat.le_of_succ_le_succ h)]
    all_goals assumption

/-- The parts of characters, with fuel for all of them. -/
def partsOf (cs : List Char) : List Token := tokensWith cs.length cs

theorem tokensWith_eq_partsOf {n : Nat} {cs : List Char} (h : cs.length ≤ n) :
    tokensWith n cs = partsOf cs := by
  induction h with
  | refl => rfl
  | step h ih => rw [tokensWith_succ h, ih]

theorem tokens_eq_partsOf (source : String) : tokens source = partsOf source.toList := by
  unfold tokens partsOf
  rw [String.length_toList]

section

variable {c : Char} {cs : List Char}

theorem partsOf_class {body rest : List Char} (h : classBody? cs = some (body, rest)) :
    partsOf ('[' :: cs) = .charClass ('[' :: body) :: partsOf rest := by
  have hlength := congrArg List.length (classBody?_eq h)
  rw [List.length_append] at hlength
  unfold partsOf
  rw [List.length_cons, tokensWith, h]
  simp only
  rw [tokensWith_eq_partsOf (by omega)]
  rfl

theorem partsOf_special : partsOf ('(' :: '?' :: cs) = .special :: partsOf cs := by
  unfold partsOf
  rw [List.length_cons, List.length_cons, tokensWith, tokensWith_eq_partsOf (Nat.le_succ _)]
  rfl

theorem partsOf_capture (h : cs.head? ≠ some '?') :
    partsOf ('(' :: cs) = .capture :: partsOf cs := by
  unfold partsOf
  rw [List.length_cons, tokensWith]
  rintro cs' rfl
  exact h rfl

theorem partsOf_reference (h : ('1' ≤ c && c ≤ '9') = true) :
    partsOf ('\\' :: c :: cs) =
      .reference (c :: cs.takeWhile isNumeral) :: partsOf (cs.dropWhile isNumeral) := by
  have hlength := length_dropWhile_isDigit cs
  unfold partsOf
  rw [List.length_cons, List.length_cons, tokensWith, if_pos h,
    tokensWith_eq_partsOf (by omega)]
  rfl

theorem partsOf_escape (h : ('1' ≤ c && c ≤ '9') = false) (hline : c ≠ '\n') :
    partsOf ('\\' :: c :: cs) = .escape c :: partsOf cs := by
  unfold partsOf
  rw [List.length_cons, List.length_cons, tokensWith, if_neg (by simp [h]), if_neg hline,
    tokensWith_eq_partsOf (Nat.le_succ _)]
  rfl

theorem partsOf_plain (hescape : c ≠ '\\') (hclass : c ≠ '[') (hgroup : c ≠ '(') :
    partsOf (c :: cs) = .plain c :: partsOf cs := by
  unfold partsOf
  rw [List.length_cons, tokensWith]
  all_goals simp_all

end

/-! ## The parts of a plain pattern -/

/-- The digits that follow the backslash of a reference. -/
def referenceDigits (n : Nat) : List Char := (toString n).toList

/-- The parts of a piece, with references moved by `off`. -/
def Piece.parts (off : Nat) : Piece → List Token
  | literal c => [.plain c]
  | escape c => [.escape c]
  | reference n => [.reference (referenceDigits (n + off))]
  | charClass items => [.charClass (charClass items |>.text off)]
  | capture => [.capture]
  | special opening => .special :: opening.text.map .plain

def parts (off : Nat) (p : List Piece) : List Token := p.flatMap (Piece.parts off)

theorem isDigit_of_ascii {c : Char} (h : c.isDigit = true) : isNumeral c = true := by
  have hall : ['0', '1', '2', '3', '4', '5', '6', '7', '8', '9'].all isNumeral = true := by
    decide +kernel
  exact List.all_eq_true.mp hall c (isDigit_cases h)

theorem referenceDigits_eq (n : Nat) : referenceDigits n = Nat.toDigits 10 n := by
  unfold referenceDigits
  rw [Nat.toString_eq_repr, Nat.toList_repr]

theorem isDigit_of_mem_referenceDigits {n : Nat} {c : Char} (h : c ∈ referenceDigits n) :
    c.isDigit = true := by
  rw [referenceDigits_eq] at h
  exact Nat.isDigit_of_mem_toDigits (by omega) (by omega) h

/-- A number above zero is written with a first digit that is not zero, and more digits. -/
theorem referenceDigits_eq_cons {n : Nat} (h : 0 < n) : ∃ d ds, referenceDigits n = d :: ds ∧
    ('1' ≤ d && d ≤ '9') = true ∧ ∀ c ∈ ds, isNumeral c = true := by
  have hzero := head?_toDigits h
  have hne : Nat.toDigits 10 n ≠ [] := Nat.toDigits_ne_nil
  have hall : ∀ c ∈ referenceDigits n, c.isDigit = true := fun _ => isDigit_of_mem_referenceDigits
  rw [← referenceDigits_eq] at hzero hne
  rcases hcons : referenceDigits n with _ | ⟨d, ds⟩
  · exact absurd hcons hne
  · rw [hcons] at hzero hall
    have hd := isDigit_cases (hall d List.mem_cons_self)
    rw [List.mem_cons] at hd
    have hfirst : (['1', '2', '3', '4', '5', '6', '7', '8', '9'].all
        fun d => '1' ≤ d && d ≤ '9') = true := by decide
    refine ⟨d, ds, rfl, ?_, fun c hc => isDigit_of_ascii (hall c (List.mem_cons_of_mem _ hc))⟩
    rcases hd with rfl | hd
    · exact absurd rfl hzero
    · exact List.all_eq_true.mp hfirst d hd

/-- Where a run of digits ends, the reference is over. -/
theorem partsOf_referenceDigits {n : Nat} (hn : 0 < n) {rest : List Char}
    (hrest : rest.head?.any isNumeral = false) :
    partsOf ('\\' :: (referenceDigits n ++ rest)) =
      .reference (referenceDigits n) :: partsOf rest := by
  obtain ⟨d, ds, hdigits, hfirst, hmore⟩ := referenceDigits_eq_cons hn
  have hstop : rest.takeWhile isNumeral = [] ∧ rest.dropWhile isNumeral = rest := by
    rcases rest with _ | ⟨c, rest⟩
    · exact ⟨rfl, rfl⟩
    · have hc : ¬ isNumeral c = true := by simpa using hrest
      exact ⟨List.takeWhile_cons_of_neg hc, List.dropWhile_cons_of_neg hc⟩
  rw [hdigits, List.cons_append, partsOf_reference hfirst, List.takeWhile_append_of_pos hmore,
    List.dropWhile_append_of_pos hmore, hstop.1, hstop.2, List.append_nil]

/-- A flat class closes behind its last item. -/
theorem classBody?_items {items : List ClassItem} (h : items.all ClassItem.fits = true)
    (rest : List Char) : classBody? (items.flatMap ClassItem.text ++ ']' :: rest) =
      some (items.flatMap ClassItem.text ++ [']'], rest) := by
  induction items with
  | nil => rfl
  | cons item items ih =>
    rw [List.all_cons, Bool.and_eq_true] at h
    have hitems := ih h.2
    rw [List.flatMap_cons, List.append_assoc]
    cases item with
    | literal c =>
      have hc := h.1
      simp only [ClassItem.fits, Bool.and_eq_true, bne_iff_ne] at hc
      rw [ClassItem.text, List.singleton_append, classBody?, hitems]
      · rfl
      · exact hc.2
      · rintro d cs rfl
        exact absurd rfl hc.1.1
      · rintro rfl
        exact absurd rfl hc.1.1
    | escape c =>
      have hc := h.1
      simp only [ClassItem.fits, bne_iff_ne] at hc
      rw [ClassItem.text, List.cons_append, List.singleton_append, classBody?, if_neg hc, hitems]
      rfl

/-- What follows an opening is plain. -/
theorem partsOf_opening (opening : Opening) (rest : List Char) :
    partsOf (opening.text ++ rest) = opening.text.map .plain ++ partsOf rest := by
  have hplain : ∀ c ∈ opening.text, c ≠ '\\' ∧ c ≠ '[' ∧ c ≠ '(' := by
    have hall : (opening.text.all fun c => c != '\\' && c != '[' && c != '(') = true := by
      cases opening <;> decide
    simpa only [List.all_eq_true, Bool.and_eq_true, bne_iff_ne, and_assoc] using hall
  generalize opening.text = cs at hplain
  induction cs with
  | nil => rfl
  | cons c cs ih =>
    obtain ⟨hescape, hclass, hgroup⟩ := hplain c List.mem_cons_self
    rw [List.cons_append, partsOf_plain hescape hclass hgroup,
      ih fun d hd => hplain d (List.mem_cons_of_mem _ hd)]
    rfl

/-- A piece is found where it may stand. -/
theorem partsOf_piece {piece : Piece} {groups : Nat} (off : Nat) {rest : List Char}
    (h : piece.fits groups rest.head? = true) :
    partsOf (piece.text off ++ rest) = piece.parts off ++ partsOf rest := by
  cases piece with
  | literal c =>
    simp only [Piece.fits, Bool.and_eq_true, bne_iff_ne] at h
    exact partsOf_plain h.1.1 h.1.2 h.2
  | escape c =>
    simp only [Piece.fits, Bool.and_eq_true, bne_iff_ne, Bool.not_eq_true'] at h
    exact partsOf_escape h.1 h.2
  | reference n =>
    simp only [Piece.fits, Bool.and_eq_true, decide_eq_true_eq, Bool.not_eq_true'] at h
    exact partsOf_referenceDigits (Nat.add_pos_left h.1.1 off) h.2
  | charClass items =>
    have hbody := classBody?_items h rest
    rw [Piece.text, List.cons_append, List.append_assoc]
    exact partsOf_class hbody
  | capture =>
    simp only [Piece.fits, bne_iff_ne] at h
    exact partsOf_capture h
  | special opening =>
    rw [Piece.text, List.cons_append, List.cons_append, partsOf_special, partsOf_opening]
    rfl

theorem text_nil (off : Nat) : text off [] = [] := by
  unfold text
  exact List.flatMap_nil

theorem text_cons (off : Nat) (piece : Piece) (p : List Piece) :
    text off (piece :: p) = piece.text off ++ text off p := by
  unfold text
  exact List.flatMap_cons

/-- Moving references leaves the first character as it is. -/
theorem head?_text (off : Nat) (p : List Piece) : (text off p).head? = (text 0 p).head? := by
  induction p with
  | nil => rw [text_nil, text_nil]
  | cons piece p ih =>
    have hpiece : (piece.text off).head? = (piece.text 0).head? := by
      cases piece <;> simp [Piece.text]
    rw [text_cons, text_cons, List.head?_append, List.head?_append, hpiece, ih]

/-- What may come after a whole pattern: its end, or a character that belongs to none of its
pieces. -/
def endsPieces (next : Option Char) : Bool := next != some '?' && !next.any isNumeral

theorem Piece.fits_of_endsPieces {piece : Piece} {groups : Nat} {next : Option Char}
    (h : piece.fits groups none = true) (hnext : endsPieces next = true) :
    piece.fits groups next = true := by
  unfold endsPieces at hnext
  rw [Bool.and_eq_true] at hnext
  cases piece with
  | literal _ | escape _ | charClass _ | special _ => exact h
  | reference n =>
    simp only [Piece.fits, Bool.and_eq_true] at h ⊢
    exact ⟨h.1, hnext.2⟩
  | capture => exact hnext.1

theorem parts_cons (off : Nat) (piece : Piece) (p : List Piece) :
    parts off (piece :: p) = piece.parts off ++ parts off p := by
  unfold parts
  exact List.flatMap_cons

/-- The pass over a plain pattern finds its pieces. -/
theorem partsOf_text {p : List Piece} {groups : Nat} (off : Nat) {rest : List Char}
    (h : allFit groups p = true) (hrest : endsPieces rest.head? = true) :
    partsOf (text off p ++ rest) = parts off p ++ partsOf rest := by
  induction p with
  | nil => rfl
  | cons piece p ih =>
    rw [allFit, Bool.and_eq_true] at h
    have hhead : piece.fits groups (text off p ++ rest).head? = true := by
      rw [List.head?_append, head?_text]
      rcases hnext : (text 0 p).head? with _ | c
      · rw [hnext] at h
        exact Piece.fits_of_endsPieces h.1 hrest
      · rw [hnext] at h
        exact h.1
    rw [text_cons, List.append_assoc, partsOf_piece off hhead, ih h.2, parts_cons,
      List.append_assoc]

theorem tokens_written {p : List Piece} {groups : Nat} (off : Nat) (h : allFit groups p = true) :
    tokens (written off p) = parts off p := by
  have hparts : partsOf (text off p ++ []) = parts off p ++ [] := partsOf_text off h rfl
  rw [List.append_nil, List.append_nil] at hparts
  rw [tokens_eq_partsOf, written, String.toList_ofList, hparts]

/-! ## Joining plain patterns -/

/-- The number of the group that is made of a pattern: one for each pattern up to it, and the
groups inside the patterns before it. -/
def groupStart (patterns : List (List Piece)) (i : Nat) : Nat :=
  1 + i + groups (patterns.take i).flatten

/-- A part with its reference moved by `off`. -/
def Token.move (off : Nat) : Token → Token
  | reference digits => reference (referenceDigits (groupNumber digits + off))
  | t => t

theorem groupNumber_referenceDigits {n : Nat} (h : n < 0x10000000000000000) :
    groupNumber (referenceDigits n) = n := by
  have hvalue : decimal (referenceDigits n) = n := by
    rw [referenceDigits_eq]
    exact decimal_toDigits n
  have hall : (referenceDigits n).all Char.isDigit = true :=
    List.all_eq_true.mpr fun _ => isDigit_of_mem_referenceDigits
  unfold decimal at hvalue
  unfold groupNumber
  simp only [hvalue, hall, Bool.true_and, decide_eq_true_eq]
  rw [if_pos h]

section

variable {p : List Piece} {bound : Nat}

/-- Numbers of groups that a machine word holds are read as they were written. -/
theorem Piece.map_move_parts {piece : Piece} {next : Option Char} (off : Nat)
    (h : piece.fits bound next = true) (hbound : bound < 0x10000000000000000) :
    (piece.parts 0).map (Token.move off) = piece.parts off := by
  cases piece with
  | literal _ | escape _ | charClass _ | capture => rfl
  | special opening =>
    rw [Piece.parts, List.map_cons, List.map_map]
    rfl
  | reference n =>
    simp only [Piece.fits, Bool.and_eq_true, decide_eq_true_eq] at h
    have hn : n < 0x10000000000000000 := Nat.lt_of_le_of_lt h.1.2 hbound
    simp only [Piece.parts, List.map_cons, List.map_nil, Token.move, Nat.add_zero]
    rw [groupNumber_referenceDigits hn]

theorem map_move_parts (off : Nat) (h : allFit bound p = true) (hbound : bound < 0x10000000000000000) :
    (parts 0 p).map (Token.move off) = parts off p := by
  induction p with
  | nil => rfl
  | cons piece p ih =>
    rw [allFit, Bool.and_eq_true] at h
    rw [parts_cons, parts_cons, List.map_append, piece.map_move_parts off h.1 hbound, ih h.2]

/-- A part is written as the moved part. -/
theorem Token.raw_move (off : Nat) (t : Token) : (t.move off).raw = (t.render off).toList := by
  cases t <;> simp [Token.move, Token.raw, Token.render, referenceDigits]

theorem rawAll_map_move (off : Nat) (ts : List Token) :
    rawAll (ts.map (Token.move off)) = moved off ts := by
  unfold rawAll moved
  rw [List.flatMap_map]
  simp only [Token.raw_move]

theorem rawAll_parts (off : Nat) (p : List Piece) : rawAll (parts off p) = text off p := by
  induction p with
  | nil => rw [text_nil, parts, List.flatMap_nil, rawAll_nil]
  | cons piece p ih =>
    have hpiece : rawAll (piece.parts off) = piece.text off := by
      cases piece with
      | special opening => cases opening <;> rfl
      | literal _ | escape _ | reference _ | charClass _ | capture =>
        simp [Piece.parts, Piece.text, Token.raw, referenceDigits]
    rw [parts_cons, text_cons, rawAll_append, hpiece, ih]

theorem moved_parts (off : Nat) (h : allFit bound p = true) (hbound : bound < 0x10000000000000000) :
    moved off (parts 0 p) = text off p := by
  rw [← rawAll_map_move, map_move_parts off h hbound, rawAll_parts]

theorem captures_append (ts ts' : List Token) : captures (ts ++ ts') = captures ts + captures ts' :=
  List.count_append

theorem captures_parts (off : Nat) (p : List Piece) : captures (parts off p) = groups p := by
  induction p with
  | nil => rfl
  | cons piece p ih =>
    have hpiece : captures (piece.parts off) = if piece == .capture then 1 else 0 := by
      cases piece with
      | special opening => cases opening <;> rfl
      | literal _ | escape _ | reference _ | charClass _ | capture => rfl
    unfold groups at ih ⊢
    rw [parts_cons, captures_append, hpiece, ih, List.count_cons, Nat.add_comm]

/-- A plain pattern becomes a group with nothing but its references moved. -/
theorem wrap_written (off : Nat) (h : allFit bound p = true) (hbound : bound < 0x10000000000000000) :
    wrap off (tokens (written 0 p)) = "(" ++ written off p ++ ")" := by
  apply String.toList_injective
  rw [toList_wrap, tokens_written 0 h, moved_parts off h hbound]
  simp [written]

end

section

variable {patterns : List (List Piece)}

theorem groupStart_cons (p : List Piece) (i : Nat) :
    groupStart (p :: patterns) (i + 1) = 1 + groups p + groupStart patterns i := by
  unfold groupStart groups
  rw [List.take_succ_cons, List.flatten_cons, List.count_append]
  omega

/-- The groups of plain patterns, when `before` groups come before them. -/
theorem wrapAll_written (before : Nat) (hplain : ∀ p ∈ patterns, isPlain p = true)
    (hmemory : ∀ p ∈ patterns, groups p < 0x10000000000000000) :
    wrapAll before (patterns.map (written 0)) = patterns.mapIdx fun i p =>
      ("(" ++ written (before + groupStart patterns i) p ++ ")",
        before + groupStart patterns i) := by
  induction patterns generalizing before with
  | nil => rfl
  | cons p patterns ih =>
    have hp : allFit (groups p) p = true := hplain p List.mem_cons_self
    have hrest := ih (before + 1 + groups p) (fun q hq => hplain q (List.mem_cons_of_mem _ hq))
      fun q hq => hmemory q (List.mem_cons_of_mem _ hq)
    have hcaptures : captures (tokens (written 0 p)) = groups p := by
      rw [tokens_written 0 hp, captures_parts]
    have hstart : ∀ i, before + 1 + groups p + groupStart patterns i =
        before + groupStart (p :: patterns) (i + 1) := by
      intro i
      rw [groupStart_cons]
      omega
    rw [List.map_cons, wrapAll, List.mapIdx_cons]
    simp only [wrap_written _ hp (hmemory p List.mem_cons_self), hcaptures, hrest, hstart]
    rfl

end

/-! ## Groups in a joined pattern -/

section

variable {anyCase : Bool}

/-- Patterns that are read alone are the patterns of some rules. -/
theorem readAlone_of_mapM {sources : List String} {qs : List Pattern}
    (h : sources.mapM (fun source => Pattern.ofSource source anyCase) = .ok qs) :
    readAlone anyCase (sources.map (Prod.mk Rule.ends)) = .ok (qs.map (Prod.mk Rule.ends)) := by
  induction sources generalizing qs with
  | nil =>
    cases h
    rfl
  | cons source sources ih =>
    obtain ⟨q, qs, hq, hqs, rfl⟩ := mapM_cons_eq_ok.mp h
    unfold readAlone at ih ⊢
    refine mapM_cons_eq_ok.mpr ⟨(Rule.ends, q), _, ?_, ih hqs, rfl⟩
    simp only [hq, ok_bind_eq]
    rfl

/-- Patterns that are read alone, and in step, are joined to one that tries them in order. -/
theorem ofSource_join_of_mapM {sources : List String} {qs : List Pattern} (hne : sources ≠ [])
    (hread : sources.mapM (fun source => Pattern.ofSource source anyCase) = .ok qs)
    (hstep : allInStep 0 sources = true) :
    ∃ joined, Pattern.ofSource (join sources).source anyCase = .ok joined ∧
      joined.program.root = .ofBranches (wrapped 0 qs) ∧ joined.program.groups = groupTotal 0 qs ∧
      ∀ q ∈ qs, q.Tame := by
  have halone := readAlone_of_mapM hread
  have hsources : (sources.map (Prod.mk Rule.ends)).map (·.2) = sources := by
    rw [List.map_map]
    exact List.map_id _
  have hqs : (qs.map (Prod.mk Rule.ends)).map (·.2) = qs := by
    rw [List.map_map]
    exact List.map_id _
  rw [← hsources] at hstep
  obtain ⟨joined, hjoined, hroot, hgroups⟩ := ofSource_join halone (by simpa using hne) hstep
  rw [hsources] at hjoined
  rw [hqs] at hroot hgroups
  exact ⟨joined, hjoined, hroot, hgroups,
    fun q hq => tame_readAlone halone hstep (Rule.ends, q) (List.mem_map_of_mem hq)⟩

/-- Where joining is in step with the reader, the reader finds the groups that the pieces open. -/
theorem map_groups_of_inStep {patterns : List (List Piece)} {qs : List Pattern} {before : Nat}
    (hplain : ∀ p ∈ patterns, isPlain p = true)
    (hread : (patterns.map (written 0)).mapM (fun source => Pattern.ofSource source anyCase) = .ok qs)
    (hstep : allInStep before (patterns.map (written 0)) = true) :
    qs.map (fun q => q.program.groups) = patterns.map groups := by
  induction patterns generalizing qs before with
  | nil =>
    cases hread
    rfl
  | cons p patterns ih =>
    obtain ⟨q, qs, hq, hqs, rfl⟩ := mapM_cons_eq_ok.mp hread
    rw [List.map_cons, allInStep, Bool.and_eq_true] at hstep
    obtain ⟨raw, hmoves⟩ := moves_of_inStep hq hstep.1
    have hp : allFit (groups p) p = true := hplain p List.mem_cons_self
    have hcounted : q.program.groups = groups p := by
      rw [hmoves.counted, tokens_written 0 hp, captures_parts]
    rw [List.map_cons, List.map_cons, hcounted,
      ih (fun p hp => hplain p (List.mem_cons_of_mem _ hp)) hqs hstep.2]

/-- The group after those of the patterns before is the one that is made of the pattern. -/
theorem groupTotal_eq_groupStart {patterns : List (List Piece)} {earlier later : List Pattern}
    {before : Nat}
    (h : (earlier ++ later).map (fun q => q.program.groups) = patterns.map groups) :
    groupTotal before earlier + 1 = before + groupStart patterns earlier.length := by
  induction earlier generalizing patterns before with
  | nil => rfl
  | cons q earlier ih =>
    rcases patterns with _ | ⟨p, patterns⟩
    · cases h
    · rw [List.cons_append, List.map_cons, List.map_cons, List.cons.injEq] at h
      rw [groupTotal, ih h.2, List.length_cons, groupStart_cons, h.1]
      omega

end

theorem map_mapIdx {α β γ : Type} (f : Nat → α → β) (g : β → γ) (as : List α) :
    (as.mapIdx f).map g = as.mapIdx fun i a => g (f i a) := by
  apply List.ext_getElem?
  intro i
  rw [List.getElem?_map, List.getElem?_mapIdx, List.getElem?_mapIdx, Option.map_map]
  rfl

/-- Plain patterns are joined exactly. Each is put in parentheses and they are joined by bars.
The number of each pattern's group is one more than the groups before it, and every reference
is moved by the number of its pattern's group; nothing else is changed. A machine word holds
the number of groups of any text in memory.

Where each pattern is accepted alone, and joining takes each for what the reader takes it for,
the joined text is accepted, and group `k` of a pattern is the group with the number of this
pattern's group and `k` more: in the joined expression, and in whatever it finds. -/
theorem plain_patterns_are_joined_exactly (patterns : List (List Piece))
    (hplain : ∀ p ∈ patterns, isPlain p = true)
    (hmemory : ∀ p ∈ patterns, groups p < 0x10000000000000000) :
    (join (patterns.map (written 0))).source = "|".intercalate
      (patterns.mapIdx fun i p => "(" ++ written (groupStart patterns i) p ++ ")") ∧
    (join (patterns.map (written 0))).groupStarts =
      patterns.mapIdx (fun i _ => groupStart patterns i) ∧
    ∀ (anyCase : Bool) (qs : List Pattern), patterns ≠ [] →
      (patterns.map (written 0)).mapM (fun source => Pattern.ofSource source anyCase) = .ok qs →
      allInStep 0 (patterns.map (written 0)) = true →
      ∃ joined, Pattern.ofSource (join (patterns.map (written 0))).source anyCase = .ok joined ∧
        qs.map (fun q => q.program.groups) = patterns.map groups ∧
        (∀ (i : Nat) (q : Pattern), qs[i]? = some q → q.HoldsAt joined (groupStart patterns i)) ∧
        ∀ text start found, joined.search text start = some found →
          ∃ (i : Nat) (q : Pattern) (alone : Pattern.Found), qs[i]? = some q ∧
            q.search text start = some alone ∧ found.Shows alone (groupStart patterns i) := by
  have hparts := wrapAll_written 0 hplain hmemory
  simp only [Nat.zero_add] at hparts
  refine ⟨?_, ?_, ?_⟩
  · unfold join
    simp only [hparts, map_mapIdx]
  · unfold join
    simp only [hparts, map_mapIdx]
  · intro anyCase qs hne hread hstep
    have hgroups := map_groups_of_inStep hplain hread hstep
    have hqs : qs ≠ [] := by
      rintro rfl
      exact hne (by simpa using hgroups)
    obtain ⟨joined, hjoined, hroot, htotal, htame⟩ :=
      ofSource_join_of_mapM (by simpa using hne) hread hstep
    refine ⟨joined, hjoined, hgroups, ?_, ?_⟩
    · intro i q hi
      obtain ⟨hlt, rfl⟩ := List.getElem?_eq_some_iff.mp hi
      have hsplit : qs = qs.take i ++ qs[i] :: qs.drop (i + 1) := by
        rw [List.getElem_cons_drop, List.take_append_drop]
      rw [hsplit] at hroot htame hgroups
      refine holdsAt_of_joined hroot htame ?_
      rw [groupTotal_eq_groupStart hgroups, List.length_take_of_le (Nat.le_of_lt hlt), Nat.zero_add]
    · intro text start found hfound
      obtain ⟨earlier, q, later, alone, rfl, hq, hshows⟩ :=
        search_joined hroot htotal hqs htame hfound
      rw [groupTotal_eq_groupStart hgroups, Nat.zero_add] at hshows
      exact ⟨earlier.length, q, alone, by simp, hq, hshows⟩

/-- A quotation that ends as it begins, a pattern without groups, and a letter twice. -/
def plainPatterns : List (List Piece) :=
  [[.capture, .charClass [.literal '\'', .literal '"'], .literal ')', .literal 'x', .reference 1],
    [.special .behind, .literal 'a', .literal ')', .charClass [.escape ']', .literal '('], .escape '('],
    [.capture, .literal 'c', .literal ')', .reference 1]]

theorem quotation_and_letters_are_joined_exactly :
    plainPatterns.map (written 0) = ["(['\"])x\\1", "(?<=a)[\\](]\\(", "(c)\\1"] ∧
    (∀ p ∈ plainPatterns, isPlain p = true) ∧
    (∀ p ∈ plainPatterns, groups p < 0x10000000000000000) ∧
    (join (plainPatterns.map (written 0))).source =
      "((['\"])x\\2)|((?<=a)[\\](]\\()|((c)\\5)" ∧
    (join (plainPatterns.map (written 0))).groupStarts = [1, 3, 4] ∧
    allInStep 0 (plainPatterns.map (written 0)) = true ∧
    ∃ qs joined,
      (plainPatterns.map (written 0)).mapM (fun source => Pattern.ofSource source false) = .ok qs ∧
      Pattern.ofSource "((['\"])x\\2)|((?<=a)[\\](]\\()|((c)\\5)" false = .ok joined ∧
      ∀ q, qs[2]? = some q → q.HoldsAt joined 4 := by
  have hplain : ∀ p ∈ plainPatterns, isPlain p = true := by decide +kernel
  have hmemory : ∀ p ∈ plainPatterns, groups p < 0x10000000000000000 := by decide +kernel
  have hstep : allInStep 0 (plainPatterns.map (written 0)) = true := by decide +kernel
  have hsource : (join (plainPatterns.map (written 0))).source =
      "((['\"])x\\2)|((?<=a)[\\](]\\()|((c)\\5)" := by decide +kernel
  obtain ⟨qs, hread⟩ : ∃ qs,
      (plainPatterns.map (written 0)).mapM (fun source => Pattern.ofSource source false) = .ok qs :=
    exists_of_isOk (by decide +kernel)
  obtain ⟨-, hstarts, hgroups⟩ := plain_patterns_are_joined_exactly plainPatterns hplain hmemory
  obtain ⟨joined, hjoined, -, hholds, -⟩ := hgroups false qs (by simp [plainPatterns]) hread hstep
  have hstart : groupStart plainPatterns 2 = 4 := by decide +kernel
  rw [hsource] at hjoined
  refine ⟨by decide +kernel, hplain, hmemory, hsource, ?_, hstep, qs, joined, hread, hjoined, ?_⟩
  · rw [hstarts]
    decide +kernel
  · intro q hq
    rw [← hstart]
    exact hholds 2 q hq

/-- The joined text is accepted, and no group in it has the number. -/
def LacksGroup (sources : List String) (number : Nat) : Prop :=
  ∃ joined, Pattern.ofSource (join sources).source false = .ok joined ∧
    joined.program.groups < number ∧ joined.program.root.groupBody? number = none

theorem lacksGroup_of_any {sources : List String} {number : Nat}
    (h : ((Pattern.ofSource (join sources).source false).toOption.any fun joined =>
      joined.program.groups < number && (joined.program.root.groupBody? number).isNone) = true) :
    LacksGroup sources number := by
  obtain ⟨joined, hjoined, h⟩ := toOption_any_eq_true.mp h
  simp only [Bool.and_eq_true, decide_eq_true_eq, Option.isNone_iff_eq_none] at h
  exact ⟨joined, hjoined, h.1, h.2⟩

/-- An escape that takes the parenthesis behind it, and a letter. -/
def escapingPatterns : List (List Piece) :=
  [[.escape 'c', .capture], [.literal 'y']]

/-- A pattern that begins with a question mark, and a group. -/
def markedPatterns : List (List Piece) :=
  [[.literal '?', .literal ':', .literal 'x'], [.capture, .literal 'y', .literal ')']]

/-- A plain parenthesis may open no group: behind a control escape it is a character, and before
a question mark the one that is put there opens something else. The numbers from there on are too
large. The letter is the group 2 where joining gives it the number 3, so that it is not found as
the rule that it belongs to; the group of the second marked pattern has the number 2 and not 3. -/
theorem plain_parentheses_may_open_no_group :
    escapingPatterns.map (written 0) = ["\\c(", "y"] ∧
    markedPatterns.map (written 0) = ["?:x", "(y)"] ∧
    (∀ p ∈ escapingPatterns ++ markedPatterns, isPlain p = true) ∧
    (∀ p ∈ escapingPatterns ++ markedPatterns, groups p < 0x10000000000000000) ∧
    join ["\\c(", "y"] = ⟨"(\\c()|(y)", [1, 3]⟩ ∧ LacksGroup ["\\c(", "y"] 3 ∧
    LosesRule [(.begins 1, "\\c("), (.begins 2, "y")] #['y'] ∧
    join ["?:x", "(y)"] = ⟨"(?:x)|((y))", [1, 2]⟩ ∧ LacksGroup ["?:x", "(y)"] (2 + 1) := by
  refine ⟨by decide +kernel, by decide +kernel, by decide +kernel, by decide +kernel,
    by decide +kernel, ?_, ?_, by decide +kernel, ?_⟩
  · apply lacksGroup_of_any
    decide +kernel
  · apply losesRule_of_hidesRule
    decide +kernel
  · apply lacksGroup_of_any
    decide +kernel

end Highlighting.Alternation
