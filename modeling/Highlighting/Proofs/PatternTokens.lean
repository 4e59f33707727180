-- The parts of a pattern as joining sees them, side by side with what the reader
-- sees. Joining moves the references and leaves all other text as it is. Where
-- the two views agree on what opens a group and what refers to one, they walk
-- through the text in step.
import Highlighting.Pattern.Alternation
import Highlighting.Proofs.ReadPieces

namespace Highlighting.Alternation

open Regex (isOrdinary Beside)

/-! ## The text of the parts -/

/-- The text that a part stands for in the pattern. -/
def Token.raw : Token → List Char
  | plain c => [c]
  | charClass cs => cs
  | capture => ['(']
  | special => ['(', '?']
  | reference digits => '\\' :: digits
  | escape c => ['\\', c]

def rawAll (ts : List Token) : List Char := ts.flatMap Token.raw

/-- The text of the parts with references moved by `off`. -/
def moved (off : Nat) (ts : List Token) : List Char := ts.flatMap fun t => (t.render off).toList

@[simp] theorem rawAll_nil : rawAll [] = [] := rfl

@[simp] theorem rawAll_cons (t : Token) (ts : List Token) : rawAll (t :: ts) = t.raw ++ rawAll ts := rfl

@[simp] theorem rawAll_append (ts ts' : List Token) : rawAll (ts ++ ts') = rawAll ts ++ rawAll ts' := by
  simp [rawAll]

@[simp] theorem moved_nil (off : Nat) : moved off [] = [] := rfl

@[simp] theorem moved_cons (off : Nat) (t : Token) (ts : List Token) :
    moved off (t :: ts) = (t.render off).toList ++ moved off ts := rfl

theorem toList_wrap (off : Nat) (ts : List Token) :
    (wrap off ts).toList = '(' :: (moved off ts ++ [')']) := by
  have hjoin : (String.join (ts.map (Token.render off))).toList = moved off ts := by
    simp [String.toList_join, moved, List.flatMap_map]
  simp [wrap, String.toList_append, hjoin]

theorem classBody?_eq {cs body rest : List Char} (h : classBody? cs = some (body, rest)) :
    cs = body ++ rest := by
  fun_induction classBody? cs generalizing body with
  | case1 => cases h
  | case2 cs =>
    cases h
    rfl
  | case3 cs => cases h
  | case4 c cs hc ih =>
    obtain ⟨⟨body', rest'⟩, hbody, he⟩ := Option.map_eq_some_iff.mp h
    cases he
    rw [ih hbody]
    rfl
  | case5 => cases h
  | case6 c cs _ _ _ ih =>
    obtain ⟨⟨body', rest'⟩, hbody, he⟩ := Option.map_eq_some_iff.mp h
    cases he
    rw [ih hbody]
    rfl

/-- The parts of a text are the whole text. -/
theorem rawAll_tokensWith (fuel : Nat) (cs : List Char) : rawAll (tokensWith fuel cs) = cs := by
  fun_induction tokensWith fuel cs with
  | case1 cs =>
    induction cs with
    | nil => rfl
    | cons c cs ih => simpa [Token.raw] using ih
  | case2 => rfl
  | case3 fuel cs body rest hbody ih =>
    rw [rawAll_cons, ih, classBody?_eq hbody]
    rfl
  | case4 fuel cs hbody ih =>
    rw [rawAll_cons, ih]
    rfl
  | case5 fuel cs ih =>
    rw [rawAll_cons, ih]
    rfl
  | case6 fuel cs hnot ih =>
    rw [rawAll_cons, ih]
    rfl
  | case7 fuel c cs hdigit digits ih =>
    rw [rawAll_cons, ih]
    simp [Token.raw, digits]
  | case8 fuel cs hdigit ih =>
    rw [rawAll_cons, ih]
    rfl
  | case9 fuel c cs hdigit hline ih =>
    rw [rawAll_cons, ih]
    rfl
  | case10 fuel c cs _ _ _ _ ih =>
    rw [rawAll_cons, ih]
    rfl

theorem rawAll_tokens (source : String) : rawAll (tokens source) = source.toList :=
  rawAll_tokensWith _ _

/-! ## In step -/

/-- The part neither opens a group nor refers to one. -/
def Token.isInert : Token → Bool
  | capture | reference _ => false
  | _ => true

/-- What follows a parenthesis with a question mark opens neither a named group
nor a condition, and does not change how blanks are read. -/
def opensQuietly : List Char → Bool
  | ':' :: _ | '=' :: _ | '!' :: _ | '>' :: _ | '~' :: _ => true
  | '<' :: '=' :: _ | '<' :: '!' :: _ => true
  | '<' :: _ | '\'' :: _ | '(' :: _ => false
  | cs => (cs.takeWhile fun c => c != ':' && c != ')').all (· != 'x')

/-- The rest of a text after the first thing that the reader takes as a whole: a
class, an escape, a comment, the opening of a group without a number, or one
character. -/
def afterItem? : List Char → Option (List Char)
  | '[' :: cs =>
    match Regex.readClass {} (2 * cs.length + 2) cs with
    | .ok (_, _, rest) => some rest
    | .error _ => none
  | '\\' :: cs =>
    if Regex.isQuiet cs then
      match Regex.readEscape { rest := cs } {} cs with
      | .ok (_, cur) => some cur.rest
      | .error _ => none
    else none
  | '(' :: '?' :: '#' :: cs => Regex.afterComment cs
  | '(' :: '?' :: cs => if opensQuietly cs then some cs else none
  | '(' :: _ => none
  | _ :: cs => some cs
  | [] => none

/-- The digits are a reference to a group before and after they are moved, when
`groups` groups are open before them and `rest` follows. -/
def refersAlike (off groups : Nat) (digits rest : List Char) : Bool :=
  let n := groupNumber digits
  digits.all Char.isDigit && digits.head? != some '0' && !(rest.head?.any Char.isDigit) &&
    0 < n && n + off ≤ 1000 && (n ≤ groups || n + off ≤ 9)

/-- The parts agree with what the reader takes: each class, escape and comment is
a row of whole parts that count no group, and each reference stays one when it is
moved by `off`. The first `skip` characters belong to something that the reader
has begun. -/
def inStep (off : Nat) : Nat → Nat → List Token → Bool
  | skip, _, [] => skip == 0
  | skip + 1, groups, t :: ts =>
    t.isInert && t.raw.length ≤ skip + 1 && inStep off (skip + 1 - t.raw.length) groups ts
  | 0, groups, .capture :: ts => (rawAll ts).head? != some '?' && inStep off 0 (groups + 1) ts
  | 0, groups, .reference digits :: ts =>
    refersAlike off groups digits (rawAll ts) && inStep off 0 groups ts
  | 0, groups, t :: ts =>
    match afterItem? (rawAll (t :: ts)) with
    | some rest =>
      let taken := (rawAll (t :: ts)).length - rest.length
      t.raw.length ≤ taken && inStep off (taken - t.raw.length) groups ts
    | none => false

/-- The parts `ts` are the text `text` and then the parts `rest`, and `text` has
nothing to do with groups. -/
structure Continues (off groups : Nat) (ts : List Token) (text : List Char) (rest : List Token) :
    Prop where
  raw : rawAll ts = text ++ rawAll rest
  moved : Alternation.moved off ts = text ++ Alternation.moved off rest
  captures : captures ts = captures rest
  inStep : Alternation.inStep off 0 groups rest = true

theorem Token.toList_render_of_isInert (off : Nat) {t : Token} (h : t.isInert = true) :
    (t.render off).toList = t.raw := by
  cases t with
  | capture | reference _ => cases h
  | plain c => simp [Token.render, Token.raw]
  | charClass cs => simp [Token.render, Token.raw]
  | special => simp [Token.render, Token.raw]
  | escape c => simp [Token.render, Token.raw]

theorem captures_cons_of_isInert {t : Token} (h : t.isInert = true) (ts : List Token) :
    captures (t :: ts) = captures ts := by
  have hne : t ≠ .capture := by
    rintro rfl
    cases h
  simp [captures, hne]

/-- What the reader has begun ends between two parts. -/
theorem continues_of_skip {off groups skip : Nat} {ts : List Token}
    (h : inStep off skip groups ts = true) :
    ∃ text rest, text.length = skip ∧ Continues off groups ts text rest := by
  induction ts generalizing skip with
  | nil =>
    rcases skip with _ | skip
    · exact ⟨[], [], rfl, rfl, rfl, rfl, h⟩
    · cases h
  | cons t ts ih =>
    rcases skip with _ | skip
    · exact ⟨[], t :: ts, rfl, rfl, rfl, rfl, h⟩
    · simp only [inStep, Bool.and_eq_true, decide_eq_true_eq] at h
      obtain ⟨⟨hinert, hle⟩, hrest⟩ := h
      obtain ⟨text, rest, hlength, hraw, hmoved, hcaptures, hstep⟩ := ih hrest
      refine ⟨t.raw ++ text, rest, ?_, ?_, ?_, ?_, hstep⟩
      · rw [List.length_append]
        omega
      · rw [rawAll_cons, hraw, List.append_assoc]
      · rw [moved_cons, hmoved, Token.toList_render_of_isInert off hinert, List.append_assoc]
      · rw [captures_cons_of_isInert hinert, hcaptures]

/-- The ways in which parts in step go on. -/
theorem inStep_cases {off groups : Nat} {ts : List Token} (h : inStep off 0 groups ts = true) :
    ts = [] ∨
    (∃ ts', ts = .capture :: ts' ∧ (rawAll ts').head? ≠ some '?' ∧
      inStep off 0 (groups + 1) ts' = true) ∨
    (∃ digits ts', ts = .reference digits :: ts' ∧
      refersAlike off groups digits (rawAll ts') = true ∧ inStep off 0 groups ts' = true) ∨
    ∃ rest, afterItem? (rawAll ts) = some rest ∧ ∀ text, rawAll ts = text ++ rest →
      ∃ ts', rest = rawAll ts' ∧ Continues off groups ts text ts' := by
  rcases ts with _ | ⟨t, ts⟩
  · exact .inl rfl
  by_cases hcapture : t = .capture
  · subst hcapture
    simp only [inStep, Bool.and_eq_true, bne_iff_ne] at h
    exact .inr (.inl ⟨ts, rfl, h.1, h.2⟩)
  by_cases hreference : ∃ digits, t = .reference digits
  · obtain ⟨digits, rfl⟩ := hreference
    simp only [inStep, Bool.and_eq_true] at h
    exact .inr (.inr (.inl ⟨digits, ts, rfl, h.1, h.2⟩))
  have hinert : t.isInert = true := by
    cases t with
    | capture => exact absurd rfl hcapture
    | reference digits => exact absurd ⟨digits, rfl⟩ hreference
    | plain _ | charClass _ | special | escape _ => rfl
  rw [inStep] at h
  · refine .inr (.inr (.inr ?_))
    split at h
    · rename_i rest hrest
      simp only [Bool.and_eq_true, decide_eq_true_eq] at h
      obtain ⟨hle, hskip⟩ := h
      refine ⟨rest, hrest, ?_⟩
      intro text htext
      obtain ⟨more, ts', hlength, hraw, hmoved, hcaptures, hstep⟩ := continues_of_skip hskip
      have hwhole : rawAll (t :: ts) = (t.raw ++ more) ++ rawAll ts' := by
        rw [rawAll_cons, hraw, List.append_assoc]
      have hsame : text.length = (t.raw ++ more).length := by
        rw [List.length_append, hlength, htext, List.length_append]
        rw [htext, List.length_append] at hle
        omega
      obtain ⟨rfl, rfl⟩ := List.append_inj (htext.symm.trans hwhole) hsame
      refine ⟨ts', rfl, hwhole, ?_, ?_, hstep⟩
      · rw [moved_cons, hmoved, Token.toList_render_of_isInert off hinert, List.append_assoc]
      · rw [captures_cons_of_isInert hinert, hcaptures]
    · cases h
  · exact hcapture
  · intro digits hd
    exact hreference ⟨digits, hd⟩

theorem Continues.trans {off groups : Nat} {ts ts' ts'' : List Token} {text text' : List Char}
    (h : Continues off groups ts text ts') (h' : Continues off groups ts' text' ts'') :
    Continues off groups ts (text ++ text') ts'' where
  raw := by rw [h.raw, h'.raw, List.append_assoc]
  moved := by rw [h.moved, h'.moved, List.append_assoc]
  captures := h.captures.trans h'.captures
  inStep := h'.inStep

theorem continues_nil {off groups : Nat} {ts : List Token} (h : inStep off 0 groups ts = true) :
    Continues off groups ts [] ts := ⟨rfl, rfl, rfl, h⟩

/-- Ordinary characters are parts of their own. -/
theorem continues_ordinary {off groups : Nat} {ts : List Token} {text rest : List Char}
    (h : inStep off 0 groups ts = true) (hraw : rawAll ts = text ++ rest)
    (htext : ∀ c ∈ text, isOrdinary c = true) :
    ∃ ts', rest = rawAll ts' ∧ Continues off groups ts text ts' := by
  induction text generalizing ts with
  | nil => exact ⟨ts, hraw.symm, continues_nil h⟩
  | cons c text ih =>
    have hc := htext c List.mem_cons_self
    simp only [isOrdinary, Bool.and_eq_true, bne_iff_ne, ne_eq] at hc
    obtain ⟨⟨hparen, hbracket⟩, hescape⟩ := hc
    rw [List.cons_append] at hraw
    rcases inStep_cases h with rfl | ⟨ts', rfl, _⟩ | ⟨digits, ts', rfl, _⟩ | ⟨rest', hitem, hnext⟩
    · cases hraw
    · exact absurd (List.cons.inj hraw).1.symm hparen
    · exact absurd (List.cons.inj hraw).1.symm hescape
    · rw [hraw, afterItem?] at hitem
      · cases hitem
        obtain ⟨ts', hrest, hcontinues⟩ := hnext [c] hraw
        obtain ⟨ts'', hrest', hcontinues'⟩ := ih hcontinues.inStep hrest.symm
          fun d hd => htext d (List.mem_cons_of_mem _ hd)
        exact ⟨ts'', hrest', hcontinues.trans hcontinues'⟩
      · exact hbracket
      · exact hescape
      · intro cs he
        exact absurd he hparen
      · intro cs he
        exact absurd he hparen
      · exact hparen

/-- The two texts of a row of parts are side by side. -/
theorem beside_moved (off : Nat) (ts : List Token) (more : List Char) :
    Beside (rawAll ts) (moved off ts ++ ')' :: more) := by
  induction ts with
  | nil => exact .ended (.inr (.inr ⟨more, rfl⟩))
  | cons t ts ih =>
    by_cases hreference : ∃ digits, t = .reference digits
    · obtain ⟨digits, rfl⟩ := hreference
      simp only [rawAll_cons, Token.raw, moved_cons, Token.render, String.toList_append]
      exact .escaped _ _
    · have hraw : (t.render off).toList = t.raw := by
        cases t with
        | reference digits => exact absurd ⟨digits, rfl⟩ hreference
        | capture => simp [Token.render, Token.raw]
        | plain _ | charClass _ | special | escape _ => exact Token.toList_render_of_isInert off rfl
      rw [rawAll_cons, moved_cons, hraw, List.append_assoc]
      exact ih.append t.raw

/-! ## References -/

/-- The number that decimal digits stand for. -/
def decimal (digits : List Char) : Nat :=
  digits.foldl (fun n c => n * 10 + (c.toNat - '0'.toNat)) 0

theorem isDigit_cases {c : Char} (h : c.isDigit = true) :
    c ∈ ['0', '1', '2', '3', '4', '5', '6', '7', '8', '9'] := by
  simp only [Char.isDigit, Bool.and_eq_true, decide_eq_true_eq, UInt32.le_iff_toNat_le] at h
  have h1 : 48 ≤ c.toNat := h.1
  have h2 : c.toNat ≤ 57 := h.2
  have hc : c = Char.ofNat c.toNat := (Char.ofNat_toNat c).symm
  have hn : c.toNat = 48 ∨ c.toNat = 49 ∨ c.toNat = 50 ∨ c.toNat = 51 ∨ c.toNat = 52 ∨
      c.toNat = 53 ∨ c.toNat = 54 ∨ c.toNat = 55 ∨ c.toNat = 56 ∨ c.toNat = 57 := by omega
  rcases hn with hn | hn | hn | hn | hn | hn | hn | hn | hn | hn
  all_goals
    rw [hc, hn]
    decide

theorem digitValue?_ten {c : Char} :
    Regex.digitValue? 10 c = if c.isDigit then some (c.toNat - '0'.toNat) else none := by
  unfold Regex.digitValue?
  rcases hd : c.isDigit with _ | _
  · simp only [Bool.false_eq_true, if_false]
    split
    · rw [Option.filter_some, if_neg (by simp)]
    · split
      · rw [Option.filter_some, if_neg (by simp)]
      · rfl
  · simp only [Char.isDigit, Bool.and_eq_true, decide_eq_true_eq, UInt32.le_iff_toNat_le] at hd
    have hhigh : c.toNat ≤ 57 := hd.2
    have hless : c.toNat - '0'.toNat < 10 := by
      show c.toNat - 48 < 10
      omega
    simp only [if_true, Option.filter_some, hless, decide_true]

theorem readDigits_run {digits rest : List Char} (hdigits : ∀ c ∈ digits, c.isDigit = true)
    (hrest : ∀ c, rest.head? = some c → c.isDigit = false) {n k v : Nat} (hn : digits.length ≤ n) :
    Regex.readDigits 10 n (digits ++ rest) k v =
      (k + digits.length, digits.foldl (fun n c => n * 10 + (c.toNat - '0'.toNat)) v, rest) := by
  induction digits generalizing n k v with
  | nil =>
    refine Regex.readDigits_stop fun c hc => ?_
    rw [digitValue?_ten, hrest c hc]
    rfl
  | cons c digits ih =>
    rcases n with _ | n
    · cases hn
    · rw [List.cons_append, Regex.readDigits, digitValue?_ten, hdigits c List.mem_cons_self]
      simp only [if_true]
      rw [ih (fun d hd => hdigits d (List.mem_cons_of_mem _ hd)) (Nat.le_of_succ_le_succ hn)]
      simp only [List.length_cons, List.foldl_cons]
      congr 1
      omega

/-- Digits that name a group are a reference to it. -/
theorem readEscape_reference {cur : Regex.Cursor} {o : Regex.Options} {digits rest : List Char}
    (hne : digits ≠ []) (hdigits : ∀ c ∈ digits, c.isDigit = true)
    (hzero : digits.head? ≠ some '0') (hrest : ∀ c, rest.head? = some c → c.isDigit = false)
    (hpos : 0 < decimal digits) (hmost : decimal digits ≤ 1000)
    (hgroups : decimal digits ≤ cur.groups ∨ decimal digits ≤ 9) :
    Regex.readEscape cur o (digits ++ rest) =
      .ok (.node (.backref [decimal digits] o.anyCase), { cur with rest := rest }) := by
  rcases digits with _ | ⟨c, digits⟩
  · exact absurd rfl hne
  have hescape : Regex.readEscape cur o (c :: (digits ++ rest)) =
      Regex.readNumberEscape cur o (c :: (digits ++ rest)) := by
    have hc := isDigit_cases (hdigits c List.mem_cons_self)
    simp only [List.mem_cons, List.not_mem_nil, or_false] at hc
    rcases hc with rfl | rfl | rfl | rfl | rfl | rfl | rfl | rfl | rfl | rfl
    all_goals rfl
  have hread := readDigits_run hdigits hrest (n := ((c :: digits) ++ rest).length) (k := 0) (v := 0)
    (by simp)
  rw [List.cons_append, hescape, Regex.readNumberEscape.eq_def]
  rw [List.cons_append] at hread
  simp only [hread]
  have hvalue : digits.foldl (fun n c => n * 10 + (c.toNat - '0'.toNat))
      (0 * 10 + (c.toNat - '0'.toNat)) = decimal (c :: digits) := rfl
  have hcond : (decide (0 < decimal (c :: digits)) && ((c :: (digits ++ rest)).head? != some '0') &&
      decide (decimal (c :: digits) ≤ 1000) &&
      (decide (decimal (c :: digits) ≤ cur.groups) || decide (decimal (c :: digits) ≤ 9))) = true := by
    simp only [Bool.and_eq_true, Bool.or_eq_true, decide_eq_true_eq, bne_iff_ne]
    exact ⟨⟨⟨hpos, hzero⟩, hmost⟩, hgroups⟩
  simp only [List.foldl_cons, hvalue, hcond, if_true]
  rfl

theorem decimal_toDigits (n : Nat) : decimal (Nat.toDigits 10 n) = n := by
  have hcomm : (fun (n : Nat) (c : Char) => n * 10 + (c.toNat - '0'.toNat)) =
      fun n c => 10 * n + (c.toNat - '0'.toNat) := by
    funext n c
    rw [Nat.mul_comm]
  unfold decimal
  rw [hcomm, ← Nat.ofDigitChars_eq_foldl]
  exact Nat.ofDigitChars_ten_toDigits

theorem head?_toDigits {n : Nat} (h : 0 < n) : (Nat.toDigits 10 n).head? ≠ some '0' := by
  induction n using Nat.strongRecOn with
  | ind n ih =>
    by_cases hn : n < 10
    · have hdigit : ∀ n < 10, 0 < n → n.digitChar ≠ '0' := by decide
      rw [Nat.toDigits_of_lt_base hn]
      intro he
      exact hdigit n hn h (Option.some.inj he)
    · rw [Nat.toDigits_of_base_le (by omega) (by omega)]
      have hhead := ih (n / 10) (by omega) (by omega)
      rcases hd : Nat.toDigits 10 (n / 10) with _ | ⟨c, cs⟩
      · exact absurd hd Nat.toDigits_ne_nil
      · rw [hd] at hhead
        exact hhead

/-- A reference that stays one is read as the group, and moved as the moved group. -/
theorem readEscape_refersAlike {off groups : Nat} {digits : List Char} {ts : List Token}
    (h : refersAlike off groups digits (rawAll ts) = true) :
    0 < groupNumber digits ∧
    (∀ (cur : Regex.Cursor) (o : Regex.Options), cur.groups = groups →
      Regex.readEscape cur o (digits ++ rawAll ts) =
        .ok (.node (.backref [groupNumber digits] o.anyCase), { cur with rest := rawAll ts })) ∧
    (∀ (cur : Regex.Cursor) (o : Regex.Options) (more : List Char), cur.groups = groups + off →
      Regex.readEscape cur o
          ((toString (groupNumber digits + off)).toList ++ (moved off ts ++ ')' :: more)) =
        .ok (.node (.backref [groupNumber digits + off] o.anyCase),
          { cur with rest := moved off ts ++ ')' :: more })) := by
  simp only [refersAlike, Bool.and_eq_true, Bool.or_eq_true, decide_eq_true_eq, bne_iff_ne,
    List.all_eq_true, Bool.not_eq_true'] at h
  obtain ⟨⟨⟨⟨⟨hdigits, hzero⟩, hend⟩, hpos⟩, hmost⟩, hgroups⟩ := h
  have hne : digits ≠ [] := by
    rintro rfl
    cases hpos
  have hnumber : groupNumber digits = decimal digits := by
    unfold groupNumber at hpos ⊢
    simp only at hpos ⊢
    split at hpos
    · rename_i hfits
      rw [if_pos hfits]
      rfl
    · cases hpos
  have hrest : ∀ c, (rawAll ts).head? = some c → c.isDigit = false := by
    intro c hc
    rw [hc] at hend
    exact hend
  rw [hnumber] at hpos hmost hgroups ⊢
  refine ⟨hpos, ?_, ?_⟩
  · intro cur o hcur
    exact readEscape_reference hne hdigits hzero hrest hpos (by omega) (by omega)
  · intro cur o more hcur
    have htext : (toString (decimal digits + off)).toList = Nat.toDigits 10 (decimal digits + off) := by
      rw [Nat.toString_eq_repr, Nat.toList_repr]
    have hvalue := decimal_toDigits (decimal digits + off)
    have hrest' : ∀ c, (moved off ts ++ ')' :: more).head? = some c → c.isDigit = false := by
      intro c hc
      rcases (beside_moved off ts more).headAlike with he | ⟨_, he | ⟨_, he⟩ | ⟨_, he⟩⟩
      · exact hrest c (he.trans hc)
      · rw [he] at hc
        cases hc
      · rw [he] at hc
        cases hc
        rfl
      · rw [he] at hc
        cases hc
        rfl
    rw [htext, readEscape_reference Nat.toDigits_ne_nil
      (fun c hc => Nat.isDigit_of_mem_toDigits (by omega) (by omega) hc)
      (head?_toDigits (show 0 < decimal digits + off by omega)) hrest' (by omega) (by omega) (by omega),
      hvalue]

/-- A thing that the reader takes as a whole is a row of whole parts. -/
theorem continues_item {off groups : Nat} {ts : List Token} {text rest : List Char}
    (h : inStep off 0 groups ts = true) (hitem : afterItem? (rawAll ts) = some rest)
    (hraw : rawAll ts = text ++ rest) : ∃ ts', rest = rawAll ts' ∧ Continues off groups ts text ts' := by
  rcases inStep_cases h with rfl | ⟨ts', rfl, hnext, _⟩ | ⟨digits, ts', rfl, hrefers, _⟩ |
    ⟨rest', hitem', hnext⟩
  · cases hitem
  · exfalso
    rw [rawAll_cons, Token.raw, List.singleton_append, afterItem?] at hitem
    · cases hitem
    · intro cs he
      exact hnext (by rw [he]; rfl)
    · intro cs he
      exact hnext (by rw [he]; rfl)
  · exfalso
    simp only [refersAlike, Bool.and_eq_true, decide_eq_true_eq, bne_iff_ne, List.all_eq_true] at hrefers
    obtain ⟨⟨⟨⟨⟨hdigits, hzero⟩, _⟩, hpos⟩, _⟩, _⟩ := hrefers
    rcases digits with _ | ⟨d, digits⟩
    · cases hpos
    have hd := isDigit_cases (hdigits d List.mem_cons_self)
    have hquiet : ∀ cs, Regex.isQuiet (d :: cs) = false := by
      intro cs
      simp only [List.mem_cons, List.not_mem_nil, or_false] at hd
      rcases hd with rfl | rfl | rfl | rfl | rfl | rfl | rfl | rfl | rfl | rfl
      · exact absurd rfl hzero
      all_goals rfl
    rw [rawAll_cons, Token.raw, List.cons_append, afterItem?, List.cons_append, hquiet] at hitem
    cases hitem
  · rw [hitem'] at hitem
    cases hitem
    exact hnext text hraw

end Highlighting.Alternation
