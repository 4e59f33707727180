-- Reading the pieces of a pattern that is part of a longer text. Behind it the text goes
-- on where a pattern may end, and in front of it other groups may have been met. A
-- piece that refers to a group is read alike if there are none of those.
import Highlighting.Proofs.MovedExpressions
import Highlighting.Proofs.PatternTokens

namespace Highlighting.Regex

open Alternation (movePart movePart_free shift_apply isDigit_cases readDigits_run decimal)

/-! ## A longer text -/

/-- The cursor in a longer text: `stop` stands behind its own, and `off` groups, some
of them with names, come before it. -/
def Cursor.widen (off : Nat) (names : List (String × Nat)) (stop : List Char) (cur : Cursor) : Cursor :=
  ⟨cur.rest ++ stop, cur.groups + off, names ++ cur.names.map fun (s, n) => (s, n + off)⟩

variable {off : Nat} {names : List (String × Nat)} {stop : List Char}

/-- What does not end a pattern stands before its end. -/
theorem EndsPattern.split (hstop : EndsPattern stop) {t cs r : List Char}
    (ht : ∀ c ∈ t, c ≠ '|' ∧ c ≠ ')') (h : cs ++ stop = t ++ r) :
    ∃ r', cs = t ++ r' ∧ r = r' ++ stop := by
  induction t generalizing cs with
  | nil => exact ⟨cs, rfl, h.symm⟩
  | cons c t ih =>
    rcases cs with _ | ⟨c', cs⟩
    · exact absurd h (hstop.ne (ht c List.mem_cons_self))
    · obtain ⟨rfl, htail⟩ := List.cons.inj h
      obtain ⟨r', rfl, hr⟩ := ih (fun d hd => ht d (List.mem_cons_of_mem _ hd)) htail
      exact ⟨r', rfl, hr⟩

theorem beside_append (hstop : EndsPattern stop) (cs : List Char) : Beside cs (cs ++ stop) := by
  have h := (Beside.ended hstop).append cs
  rwa [List.append_nil] at h

/-! ## What is ignored -/

/-- Blanks that the extended option ignores. -/
def isBlank (c : Char) : Bool := c = ' ' || c = '\t' || c = '\n' || c = '\r' || c = '\x0c'

/-- One comment or blank is ignored, and the rest of the text follows. -/
inductive Ignores : Bool → List Char → List Char → Prop where
  | comment {x : Bool} {cs rest : List Char} (h : afterComment cs = some rest) :
    Ignores x ('(' :: '?' :: '#' :: cs) rest
  | line (cs : List Char) : Ignores true ('#' :: cs) ((cs.dropWhile (· != '\n')).drop 1)
  | blank {c : Char} {cs : List Char} (h : isBlank c = true) : Ignores true (c :: cs) cs

/-- Neither a comment nor a blank that is ignored comes first. -/
structure Heeded (x : Bool) (cs : List Char) : Prop where
  comment : ∀ r, cs ≠ '(' :: '?' :: '#' :: r
  line : x = true → ∀ r, cs ≠ '#' :: r
  blank : x = true → ∀ c r, cs = c :: r → isBlank c = false

theorem skipIgnored_heeded {x : Bool} {cs : List Char} (h : Heeded x cs) (n : Nat) :
    skipIgnored x n cs = .ok cs := by
  rcases n with _ | n
  · rfl
  · unfold skipIgnored
    split
    · exact absurd rfl (h.comment _)
    · split
      · rename_i hx
        exact absurd rfl (h.line hx _)
      · rfl
    · rename_i c r _ _
      split
      · rename_i hblank
        simp only [Bool.and_eq_true] at hblank
        have := h.blank hblank.1 c r rfl
        rw [isBlank, hblank.2] at this
        cases this
      · rfl
    · rfl

theorem skipIgnored_ignores {x : Bool} {cs rest : List Char} (h : Ignores x cs rest) (n : Nat) :
    skipIgnored x (n + 1) cs = skipIgnored x n rest := by
  cases h with
  | comment h => rw [skipIgnored, h]
  | line cs => rfl
  | @blank c cs h =>
    have hc : c = ' ' ∨ c = '\t' ∨ c = '\n' ∨ c = '\r' ∨ c = '\x0c' := by
      simpa [isBlank, or_assoc] using h
    rcases hc with rfl | rfl | rfl | rfl | rfl
    all_goals rfl

/-- What the reader skips at one place. -/
theorem skipIgnored_cases {x : Bool} {n : Nat} {cs rest : List Char}
    (h : skipIgnored x (n + 1) cs = .ok rest) :
    Heeded x cs ∧ rest = cs ∨ ∃ cs', Ignores x cs cs' ∧ skipIgnored x n cs' = .ok rest := by
  by_cases hignores : ∃ cs', Ignores x cs cs'
  · obtain ⟨cs', hcs'⟩ := hignores
    rw [skipIgnored_ignores hcs'] at h
    exact .inr ⟨cs', hcs', h⟩
  by_cases hcomment : ∃ r, cs = '(' :: '?' :: '#' :: r
  · obtain ⟨r, rfl⟩ := hcomment
    rw [skipIgnored] at h
    split at h
    · rename_i hafter
      exact absurd ⟨_, .comment hafter⟩ hignores
    · cases h
  have hheeded : Heeded x cs := by
    refine ⟨fun r hr => hcomment ⟨r, hr⟩, ?_, ?_⟩
    · rintro rfl r rfl
      exact hignores ⟨_, .line r⟩
    · rintro rfl c r rfl
      exact Bool.eq_false_iff.mpr fun hc => hignores ⟨_, .blank hc⟩
  rw [skipIgnored_heeded hheeded] at h
  cases h
  exact .inl ⟨hheeded, rfl⟩

theorem Ignores.length_lt {x : Bool} {cs rest : List Char} (h : Ignores x cs rest) :
    rest.length < cs.length := by
  cases h with
  | comment h =>
    obtain ⟨t, rfl, _⟩ := afterComment_local h
    simp only [List.length_cons, List.length_append]
    omega
  | line cs =>
    have := (List.dropWhile_suffix (l := cs) (· != '\n')).length_le
    simp only [List.length_cons, List.length_drop]
    omega
  | blank h => exact Nat.lt_succ_self _

theorem Ignores.suffix {x : Bool} {cs rest : List Char} (h : Ignores x cs rest) : rest <:+ cs := by
  cases h with
  | comment h =>
    obtain ⟨t, rfl, _⟩ := afterComment_local h
    exact ⟨'(' :: '?' :: '#' :: t, rfl⟩
  | line cs =>
    exact ((List.drop_suffix _ _).trans (List.dropWhile_suffix _)).trans (List.suffix_cons _ _)
  | blank h => exact List.suffix_cons _ _

/-- A comment or a blank is ignored in a longer text too. A comment up to the end of its
line needs that end. -/
theorem Ignores.widen {x : Bool} {cs rest : List Char} (h : Ignores x cs rest)
    (hend : stop = [] ∨ x = false ∨ rest ≠ []) : Ignores x (cs ++ stop) (rest ++ stop) := by
  rcases hend with rfl | hend
  · rwa [List.append_nil, List.append_nil]
  cases h with
  | comment h =>
    obtain ⟨t, rfl, hagain⟩ := afterComment_local h
    refine .comment ?_
    show afterComment (t ++ _ ++ stop) = _
    rw [List.append_assoc]
    exact hagain _
  | line cs =>
    have hrest := hend.resolve_left (by simp)
    have hdrop : (cs.dropWhile (· != '\n')) ≠ [] := by
      intro hnil
      rw [hnil] at hrest
      exact hrest rfl
    have happend : ((cs ++ stop).dropWhile (· != '\n')).drop 1 =
        (cs.dropWhile (· != '\n')).drop 1 ++ stop := by
      rw [List.dropWhile_append]
      split
      · rename_i hempty
        exact absurd (List.isEmpty_iff.mp hempty) hdrop
      · exact List.drop_append_of_le_length (List.length_pos_iff.mpr hdrop)
    rw [← happend]
    exact .line (cs ++ stop)
  | blank h => exact .blank h

theorem Heeded.widen (hstop : EndsPattern stop) {x : Bool} {cs : List Char} (h : Heeded x cs)
    (hend : stop = [] ∨ x = false ∨ cs ≠ []) : Heeded x (cs ++ stop) := by
  rcases hend with rfl | hend
  · rwa [List.append_nil]
  refine ⟨?_, ?_, ?_⟩
  · intro r hr
    obtain ⟨r', rfl, _⟩ := hstop.split (t := ['(', '?', '#']) (by simp) hr
    exact h.comment r' rfl
  · intro hx r hr
    obtain ⟨r', rfl, _⟩ := hstop.split (t := ['#']) (by simp) hr
    exact h.line hx r' rfl
  · rintro rfl c r hr
    rcases cs with _ | ⟨c', cs⟩
    · exact absurd rfl (hend.resolve_left (by simp))
    · cases hr
      exact h.blank rfl c cs rfl

theorem skipIgnored_suffix {x : Bool} {n : Nat} {cs rest : List Char}
    (h : skipIgnored x n cs = .ok rest) : rest <:+ cs := by
  induction n generalizing cs with
  | zero =>
    cases h
    exact List.suffix_rfl
  | succ n ih =>
    rcases skipIgnored_cases h with ⟨_, rfl⟩ | ⟨cs', hignores, h⟩
    · exact List.suffix_rfl
    · exact (ih h).trans hignores.suffix

theorem skipIgnored_widen (hstop : EndsPattern stop) {x : Bool} {n : Nat} {cs rest : List Char}
    (hn : cs.length ≤ n) (h : skipIgnored x n cs = .ok rest)
    (hend : stop = [] ∨ x = false ∨ rest ≠ []) {m : Nat} (hm : n ≤ m) : skipIgnored x m (cs ++ stop) = .ok (rest ++ stop) := by
  induction n generalizing cs m with
  | zero =>
    obtain rfl := List.length_eq_zero_iff.mp (Nat.le_zero.mp hn)
    cases h
    refine skipIgnored_heeded (Heeded.widen hstop ⟨by simp, by simp, by simp⟩ hend) m
  | succ n ih =>
    obtain ⟨m, rfl⟩ := Nat.exists_eq_succ_of_ne_zero (show m ≠ 0 by omega)
    rcases skipIgnored_cases h with ⟨hheeded, rfl⟩ | ⟨cs', hignores, h⟩
    · exact skipIgnored_heeded (hheeded.widen hstop hend) _
    · have hlength := hignores.length_lt
      have hsuffix := skipIgnored_suffix h
      have hend' : stop = [] ∨ x = false ∨ cs' ≠ [] := by
        refine hend.imp_right fun h => h.imp_right fun hne hnil => hne ?_
        rw [hnil] at hsuffix
        exact List.suffix_nil.mp hsuffix
      rw [Nat.succ_eq_add_one, skipIgnored_ignores (hignores.widen hend')]
      exact ih (by omega) h (by omega)


/-! ## Repetitions -/

theorem advance_suffix {o : Options} {cur cur₁ : Cursor} (h : cur.advance o = .ok cur₁) :
    ∃ rest, rest <:+ cur.rest ∧ cur₁ = { cur with rest := rest } := by
  obtain ⟨rest, hrest, hresult⟩ := bind_eq_ok.mp h
  cases hresult
  exact ⟨rest, skipIgnored_suffix hrest, rfl⟩

theorem advance_widen (hstop : EndsPattern stop) {o : Options} {cur cur₁ : Cursor}
    (h : cur.advance o = .ok cur₁) (hend : stop = [] ∨ o.extended = false ∨ cur₁.rest ≠ []) :
    (cur.widen off names stop).advance o = .ok (cur₁.widen off names stop) := by
  obtain ⟨rest, hrest, hresult⟩ := bind_eq_ok.mp h
  cases hresult
  have hwiden := skipIgnored_widen hstop (Nat.le_refl _) hrest hend
    (m := (cur.rest ++ stop).length) (by simp)
  unfold Cursor.advance
  simp only [Cursor.widen, hwiden, ok_bind_eq]
  rfl

theorem readQuantifier_suffix {cs rest : List Char} {q : Quantifier}
    (h : readQuantifier cs = .ok (some (q, rest))) : ∃ t, t ≠ [] ∧ cs = t ++ rest := by
  obtain ⟨t, _, hne, hcs, _⟩ := readQuantifier_beside (beside_append (.inl rfl) cs) h
  exact ⟨t, hne, hcs⟩

theorem readQuantifier_widen (hstop : EndsPattern stop) {cs : List Char}
    {x : Option (Quantifier × List Char)} (h : readQuantifier cs = .ok x) :
    readQuantifier (cs ++ stop) = .ok (x.map fun (q, rest) => (q, rest ++ stop)) := by
  have halike := readQuantifier_beside (beside_append hstop cs) h
  rcases x with _ | ⟨q, rest⟩
  · exact halike
  · obtain ⟨t, rest', _, rfl, hrest, _, _, hread⟩ := halike
    rw [List.append_assoc] at hrest
    rw [hread, ← List.append_cancel_left hrest]
    rfl

/-- Nothing in the expression refers to a group. -/
def isPlain : Regex → Bool
  | backref .. | matched _ | call _ => false
  | seq a b | alt a b => a.isPlain && b.isPlain
  | group _ a | loop a .. | atomic a | ahead _ a | behind _ _ a | absent a => a.isPlain
  | ifElse a b c => a.isPlain && b.isPlain && c.isPlain
  | _ => true

theorem isPlain_apply (q : Quantifier) (r : Regex) : (q.apply r).isPlain = r.isPlain := by
  unfold Quantifier.apply
  split
  · rfl
  · split
    · rfl
    · rfl
    · rfl

theorem readQuantifiers_suffix {o : Options} {n : Nat} {r r₁ : Regex} {cur cur₁ : Cursor}
    (h : readQuantifiers o n r cur = .ok (r₁, cur₁)) :
    (∃ rest, rest <:+ cur.rest ∧ cur₁ = { cur with rest := rest }) ∧ r₁.isPlain = r.isPlain := by
  induction n generalizing r cur with
  | zero =>
    cases h
    exact ⟨⟨cur₁.rest, List.suffix_rfl, rfl⟩, rfl⟩
  | succ n ih =>
    rw [readQuantifiers] at h
    obtain ⟨cur₂, hadvance, h₂⟩ := bind_eq_ok.mp h
    obtain ⟨x, hx, h₃⟩ := bind_eq_ok.mp h₂
    obtain ⟨rest, hrest, rfl⟩ := advance_suffix hadvance
    rcases x with _ | ⟨q, rest'⟩
    · cases h₃
      exact ⟨⟨rest, hrest, rfl⟩, rfl⟩
    · obtain ⟨t, _, hcs⟩ := readQuantifier_suffix hx
      obtain ⟨⟨rest₁, hrest₁, rfl⟩, hplain⟩ := ih h₃
      refine ⟨⟨rest₁, hrest₁.trans (List.IsSuffix.trans ⟨t, hcs.symm⟩ hrest), rfl⟩, ?_⟩
      exact hplain.trans (isPlain_apply q r)

theorem readQuantifiers_widen (off : Nat) (names : List (String × Nat)) (hstop : EndsPattern stop) {o : Options} {n : Nat} {r r₁ : Regex}
    {cur cur₁ : Cursor} (hn : cur.rest.length ≤ n)
    (h : readQuantifiers o n r cur = .ok (r₁, cur₁))
    (hend : stop = [] ∨ o.extended = false ∨ cur₁.rest ≠ []) {m : Nat} (hm : n ≤ m) :
    readQuantifiers o m (r.shift off) (cur.widen off names stop) =
      .ok (r₁.shift off, cur₁.widen off names stop) := by
  -- Where there is no repetition, the reader stops at once.
  have hnone : ∀ {r : Regex} {cur cur₂ : Cursor} {m : Nat},
      (cur.widen off names stop).advance o = .ok (cur₂.widen off names stop) →
      readQuantifier cur₂.rest = .ok none → 0 < m →
      readQuantifiers o m (r.shift off) (cur.widen off names stop) =
        .ok (r.shift off, cur₂.widen off names stop) := by
    intro r cur cur₂ m hadvance hread hm
    obtain ⟨m, rfl⟩ := Nat.exists_eq_succ_of_ne_zero (Nat.ne_of_gt hm)
    have hread' : readQuantifier (cur₂.widen off names stop).rest = .ok none :=
      readQuantifier_widen hstop hread
    rw [Nat.succ_eq_add_one, readQuantifiers, hadvance]
    simp only [ok_bind_eq, hread']
    rfl
  induction n generalizing r cur m with
  | zero =>
    cases h
    rcases Nat.eq_zero_or_pos m with rfl | hpos
    · rfl
    obtain ⟨rest, groups₁, names₁⟩ := cur₁
    obtain rfl : rest = [] := List.length_eq_zero_iff.mp (Nat.le_zero.mp hn)
    exact hnone (advance_widen hstop rfl hend) rfl hpos
  | succ n ih =>
    rw [readQuantifiers] at h
    obtain ⟨cur₂, hadvance, h₂⟩ := bind_eq_ok.mp h
    obtain ⟨x, hx, h₃⟩ := bind_eq_ok.mp h₂
    rcases x with _ | ⟨q, rest⟩
    · cases h₃
      exact hnone (advance_widen hstop hadvance hend) hx (by omega)
    · obtain ⟨m, rfl⟩ := Nat.exists_eq_succ_of_ne_zero (show m ≠ 0 by omega)
      obtain ⟨t, hne, ht⟩ := readQuantifier_suffix hx
      obtain ⟨rest₂, hrest₂, rfl⟩ := advance_suffix hadvance
      replace ht : rest₂ = t ++ rest := ht
      have hlength : rest.length ≤ n := by
        have hle := hrest₂.length_le
        have hpos := List.length_pos_iff.mpr hne
        rw [ht, List.length_append] at hle
        omega
      have hend₂ : stop = [] ∨ o.extended = false ∨ rest₂ ≠ [] := by
        refine .inr (.inr ?_)
        simp [ht, hne]
      have hx' : readQuantifier (rest₂ ++ stop) = .ok (some (q, rest ++ stop)) :=
        readQuantifier_widen hstop hx
      have hmore := ih hlength h₃ (m := m) (by omega)
      rw [shift_apply] at hmore
      rw [Nat.succ_eq_add_one, readQuantifiers, advance_widen hstop hadvance hend₂]
      simp only [ok_bind_eq, Cursor.widen, hx']
      exact hmore

/-! ## Names -/

/-- Whether a name may go on with the character, if `close` ends it. -/
def inName (close : Char) (c : Char) : Bool := c != close && c != ')'

/-- A reader that takes a name up to its closing sign, and makes `of` of the whole name. -/
def ReadsName {α : Type} (close : Char) (of : Char → List Char → Option α)
    (read : List Char → Except ReadError (α × List Char)) : Prop :=
  (∀ x, read [] ≠ .ok x) ∧ ∀ c more a rest, read (c :: more) = .ok (a, rest) ↔
    c ≠ close ∧ more.drop (more.takeWhile (inName close)).length = close :: rest ∧
      of c (more.takeWhile (inName close)) = some a

/-- It takes the name in front of any text. -/
theorem ReadsName.local {α : Type} {close : Char} {of : Char → List Char → Option α}
    {read : List Char → Except ReadError (α × List Char)} (hreads : ReadsName close of read)
    {cs rest : List Char} {a : α} (h : read cs = .ok (a, rest)) :
    ∃ t, t ≠ [] ∧ cs = t ++ rest ∧ ∀ e, read (t ++ e) = .ok (a, e) := by
  rcases cs with _ | ⟨c, more⟩
  · exact absurd h (hreads.1 _)
  obtain ⟨hclose, hdrop, hname⟩ := (hreads.2 ..).mp h
  have hmore : more = more.takeWhile (inName close) ++ close :: rest := by
    rw [drop_takeWhile] at hdrop
    rw [← hdrop, List.takeWhile_append_dropWhile]
  have hagain : ∀ e, (more.takeWhile (inName close) ++ close :: e).takeWhile (inName close) =
      more.takeWhile (inName close) :=
    takeWhile_stop _ (by simp [inName]) (List.all_eq_true.mp List.all_takeWhile)
  generalize more.takeWhile (inName close) = text at *
  refine ⟨c :: (text ++ [close]), by simp, by simp [hmore], fun e => ?_⟩
  rw [List.cons_append, List.append_assoc, List.singleton_append]
  refine (hreads.2 ..).mpr ⟨hclose, ?_, ?_⟩
  · rw [hagain, List.drop_left]
  · rw [hagain, hname]

/-- The name of a new group. -/
def groupName? (c : Char) (name : List Char) : Option String :=
  if c.isDigit || c = '-' || c = '+' || !(c :: name).all Unicode.isWordPart then none
  else some (String.ofList (c :: name))

theorem readsName_readGroupName (close : Char) :
    ReadsName close groupName? (readGroupName close) := by
  refine ⟨fun x hx => (by cases hx), fun c more a rest => ?_⟩
  have hname : (more.takeWhile fun c => c != close && c != ')') = more.takeWhile (inName close) := rfl
  simp only [readGroupName, groupName?, hname, List.length_cons, List.drop_succ_cons]
  generalize more.takeWhile (inName close) = name
  rcases more.drop name.length with _ | ⟨d, rest'⟩
  · grind
  · by_cases hd : d = close
    · grind
    · grind

/-- The reference that a whole name stands for. -/
def nameRef? (c : Char) (name : List Char) : Option NameRef :=
  let signed := c = '-' || c = '+'
  let digits := if signed then name else c :: name
  if signed || c.isDigit then
    let n := numberOf digits
    if digits.isEmpty || !digits.all Char.isDigit || signed && n = 0 || 0x7fffffff < n then none
    else some (if c = '-' then .backward n else if c = '+' then .forward n else .absolute n)
  else if (c :: name).all Unicode.isWordPart then some (.name (String.ofList (c :: name)))
  else none

theorem readsName_readNameRef (close : Char) : ReadsName close nameRef? (readNameRef close) := by
  refine ⟨fun x hx => (by cases hx), fun c more a rest => ?_⟩
  have hname : (more.takeWhile fun c => c != close && c != ')') = more.takeWhile (inName close) := rfl
  simp only [readNameRef, nameRef?, hname, List.length_cons, List.drop_succ_cons, List.tail_cons]
  generalize more.takeWhile (inName close) = name
  by_cases hclose : c = close
  · simp [hclose]
  generalize (decide (c = '-') || decide (c = '+')) = signed
  generalize (if signed = true then name else c :: name) = digits
  generalize (if c = '-' then NameRef.backward (numberOf digits)
    else if c = '+' then .forward (numberOf digits) else .absolute (numberOf digits)) = ref
  rcases more.drop name.length with _ | ⟨d, rest'⟩
  · grind
  · by_cases hd : d = close
    · grind
    · grind

/-! ## References -/

/-- Whether the text and every later part of it is as `p` says. -/
def everywhere (p : List Char → Bool) : List Char → Bool
  | [] => p []
  | c :: cs => p (c :: cs) && everywhere p cs

theorem everywhere_suffix {p : List Char → Bool} {cs rest : List Char} (h : rest <:+ cs)
    (hall : everywhere p cs = true) : everywhere p rest = true := by
  induction cs with
  | nil =>
    rw [List.suffix_nil.mp h]
    exact hall
  | cons c cs ih =>
    rcases List.suffix_cons_iff.mp h with rfl | h
    · exact hall
    · rw [everywhere, Bool.and_eq_true] at hall
      exact ih h hall.2

theorem everywhere_here {p : List Char → Bool} {cs : List Char} (h : everywhere p cs = true) :
    p cs = true := by
  cases cs with
  | nil => exact h
  | cons c cs =>
    rw [everywhere, Bool.and_eq_true] at h
    exact h.1

/-- No backslash stands before a number of several digits. Among enough groups such a
number refers to one of them, and else it is the code of a character. -/
def shortNumbers (cs : List Char) : Bool :=
  everywhere (fun
    | '\\' :: c :: d :: _ => !(c.isDigit && c != '0' && d.isDigit)
    | _ => true) cs

/-- What comes before the text does not change what it means: no groups come before it,
or it refers to none. -/
def Unaffected (off : Nat) (names : List (String × Nat)) (plain : Bool) (cs : List Char) : Prop :=
  off = 0 ∧ names = [] ∨ plain = true ∧ shortNumbers cs = true

theorem Unaffected.of_suffix {plain plain' : Bool} {cs rest : List Char}
    (h : Unaffected off names plain cs) (hplain : plain = true → plain' = true)
    (hrest : rest <:+ cs) : Unaffected off names plain' rest :=
  h.imp_right fun h => ⟨hplain h.1, everywhere_suffix hrest h.2⟩

/-- Nothing in the part refers to a group. -/
def Part.isPlain : Part → Bool
  | char _ => true
  | node r => r.isPlain

theorem shift_zero (r : Regex) : r.shift 0 = r := by
  induction r with
  | seq a b iha ihb | alt a b iha ihb => rw [shift, iha, ihb]
  | ifElse a b c iha ihb ihc => rw [shift, iha, ihb, ihc]
  | group n a ih => rw [shift, ih, Nat.add_zero]
  | loop a _ _ _ ih | atomic a ih | ahead _ a ih | behind _ _ a ih | absent a ih => rw [shift, ih]
  | backref ns _ | matched ns => simp [shift]
  | _ => rfl

theorem movePart_zero (part : Part) : movePart 0 part = part := by
  cases part with
  | char c => rfl
  | node r => rw [movePart, shift_zero]

theorem widen_zero (stop : List Char) (cur : Cursor) :
    cur.widen 0 [] stop = { cur with rest := cur.rest ++ stop } := by
  simp [Cursor.widen]

theorem isDigit_of_one_le {c : Char} (h : ('1' ≤ c && c ≤ '9') = true) :
    c.isDigit = true ∧ c ≠ '0' := by
  simp only [Bool.and_eq_true, decide_eq_true_eq, Char.le_def, UInt32.le_iff_toNat_le] at h
  have h1 : 49 ≤ c.toNat := h.1
  have h2 : c.toNat ≤ 57 := h.2
  constructor
  · simp only [Char.isDigit, Bool.and_eq_true, decide_eq_true_eq, UInt32.le_iff_toNat_le]
    exact ⟨Nat.le_trans (by decide) h1, h2⟩
  · rintro rfl
    exact absurd h1 (by decide)

/-- A backslash before a digit that is no zero starts a number. -/
theorem readEscape_digit {c : Char} (hc : ('1' ≤ c && c ≤ '9') = true) (cur : Cursor) (o : Options)
    (cs : List Char) : readEscape cur o (c :: cs) = readNumberEscape cur o (c :: cs) := by
  have hdigit := isDigit_cases (isDigit_of_one_le hc).1
  simp only [List.mem_cons, List.not_mem_nil, or_false] at hdigit
  rcases hdigit with rfl | rfl | rfl | rfl | rfl | rfl | rfl | rfl | rfl | rfl
  all_goals rfl

/-- A number is read alike in a longer text. -/
theorem readNumberEscape_append (hstop : EndsPattern stop) {cur next : Cursor} {o : Options} {c : Char}
    {cs : List Char} {part : Part} (h : readNumberEscape cur o (c :: cs) = .ok (part, next)) :
    ∃ rest, rest <:+ c :: cs ∧ next = { cur with rest := rest } ∧
      ∀ text, readNumberEscape { cur with rest := text } o (c :: cs ++ stop) =
        .ok (part, { cur with rest := rest ++ stop }) := by
  rcases hd : readDigits 10 (c :: cs).length (c :: cs) 0 0 with ⟨k, n, rest⟩
  obtain ⟨t, rest', hcs, hcs', _, _, hd'⟩ := readDigits_beside (beside_append hstop (c :: cs)) hd
  obtain rfl : rest' = rest ++ stop := by
    rw [hcs, List.append_assoc] at hcs'
    exact (List.append_cancel_left hcs').symm
  have hsame : (c :: cs ++ stop).head? = (c :: cs).head? := rfl
  simp only [readNumberEscape.eq_def, hd, hd', hsame] at h ⊢
  split at h
  · rename_i hcond
    cases h
    exact ⟨rest, ⟨t, hcs.symm⟩, rfl, fun text => by simp only [hcond, if_true]; rfl⟩
  · rename_i hcond
    simp only [hcond, if_false, Bool.false_eq_true]
    split at h
    · rename_i he
      cases he
      cases h
      exact ⟨cs, List.suffix_cons _ _, rfl, fun text => rfl⟩
    · rename_i he
      cases he
      cases h
      exact ⟨cs, List.suffix_cons _ _, rfl, fun text => rfl⟩
    · rename_i height hnine
      rcases ho : readDigits 8 3 (c :: cs) 0 0 with ⟨k', value, rest₁⟩
      simp only [ho] at h
      obtain ⟨t₁, ht₁, _, _, hagain⟩ := readDigits_local ho
      split at h
      · cases h
      · rename_i hvalue
        obtain ⟨⟨d, rest₂⟩, hbyte, hresult⟩ := bind_eq_ok.mp h
        cases hresult
        obtain ⟨t₂, rfl, _, hbyte'⟩ := readByte_local hbyte
        refine ⟨rest₂, ⟨t₁ ++ t₂, by simp [ht₁]⟩, rfl, fun text => ?_⟩
        have ho' : readDigits 8 3 (c :: cs ++ stop) 0 0 = (k', value, t₂ ++ (rest₂ ++ stop)) := by
          rw [ht₁, List.append_assoc, List.append_assoc]
          refine hagain _ 3 (.inr ⟨?_, .inl rfl⟩)
          rw [← List.append_assoc]
          exact (beside_append hstop _).headAlike
        split
        · rename_i he
          exact absurd (List.cons.inj he).1 (fun hc => height cs (by rw [hc]))
        · rename_i he
          exact absurd (List.cons.inj he).1 (fun hc => hnine cs (by rw [hc]))
        · simp only [ho', hvalue, if_false, hbyte']
          rfl

/-- A short number that starts with no zero refers to a group. -/
theorem readNumberEscape_short {cur next : Cursor} {o : Options} {c : Char} {cs : List Char}
    {part : Part} (hc : ('1' ≤ c && c ≤ '9') = true) (hshort : shortNumbers ('\\' :: c :: cs) = true)
    (h : readNumberEscape cur o (c :: cs) = .ok (part, next)) : part.isPlain = false := by
  obtain ⟨hdigit, hzero⟩ := isDigit_of_one_le hc
  have hrest : ∀ d, cs.head? = some d → d.isDigit = false := by
    intro d hd
    obtain ⟨cs', rfl⟩ := List.head?_eq_some_iff.mp hd
    have hhere := everywhere_here hshort
    simpa [hdigit, hzero] using hhere
  have hread : readDigits 10 (c :: cs).length ([c] ++ cs) 0 0 = _ :=
    readDigits_run (by simpa using hdigit) hrest (by simp)
  simp only [List.singleton_append] at hread
  have hn : 0 < decimal [c] ∧ decimal [c] ≤ 9 := by
    have hcases := isDigit_cases hdigit
    simp only [List.mem_cons, List.not_mem_nil, or_false] at hcases
    rcases hcases with rfl | rfl | rfl | rfl | rfl | rfl | rfl | rfl | rfl | rfl
    · exact absurd rfl hzero
    all_goals decide
  have hcond : (decide (0 < decimal [c]) && ((c :: cs).head? != some '0') &&
      decide (decimal [c] ≤ 1000) && (decide (decimal [c] ≤ cur.groups) || decide (decimal [c] ≤ 9))) =
        true := by
    simp only [Bool.and_eq_true, Bool.or_eq_true, decide_eq_true_eq, bne_iff_ne, List.head?_cons, ne_eq,
      Option.some.injEq]
    exact ⟨⟨⟨hn.1, hzero⟩, by omega⟩, .inr hn.2⟩
  rw [readNumberEscape.eq_def] at h
  have hvalue : [c].foldl (fun n c => n * 10 + (c.toNat - '0'.toNat)) 0 = decimal [c] := rfl
  simp only [hread, hvalue, hcond, if_true] at h
  cases h
  rfl

/-- Without groups before it, a reference finds the same groups in a longer text. -/
theorem resolveRef_widen (stop : List Char) (cur : Cursor) (r : NameRef) :
    resolveRef (cur.widen 0 [] stop) r = resolveRef cur r := by
  rw [widen_zero]
  rfl

/-- The escape is read alike in a longer text, behind groups that do not affect it. -/
def EscapeWidens (off : Nat) (names : List (String × Nat)) (stop : List Char) (cur : Cursor)
    (o : Options) (cs : List Char) (part : Part) (next : Cursor) : Prop :=
  (∃ rest, rest <:+ cs ∧ next = { cur with rest := rest }) ∧
    (Unaffected off names part.isPlain ('\\' :: cs) →
      readEscape (cur.widen off names stop) o (cs ++ stop) =
        .ok (movePart off part, next.widen off names stop))

/-- A reference that writes a name or a number between signs. -/
theorem escapeWidens_name {α : Type} {cur next : Cursor} {o : Options} {c sign : Char}
    {inner : List Char} {part : Part} (close : Char) (f : Cursor → NameRef → Except ReadError α)
    (g : α → Regex)
    (hread : ∀ cur inner, readEscape cur o (c :: sign :: inner) = do
      let (r, rest) ← readNameRef close inner
      return (.node (g (← f cur r)), { cur with rest := rest }))
    (hplain : ∀ a, (g a).isPlain = false)
    (hwiden : ∀ r, f (cur.widen 0 [] stop) r = f cur r)
    (h : readEscape cur o (c :: sign :: inner) = .ok (part, next)) :
    EscapeWidens off names stop cur o (c :: sign :: inner) part next := by
  rw [hread] at h
  obtain ⟨⟨r, rest⟩, hname, h₂⟩ := bind_eq_ok.mp h
  obtain ⟨x, hx, h₃⟩ := bind_eq_ok.mp h₂
  cases h₃
  obtain ⟨t, _, rfl, hagain⟩ := (readsName_readNameRef close).local hname
  refine ⟨⟨rest, ⟨c :: sign :: t, rfl⟩, rfl⟩, ?_⟩
  rintro (⟨rfl, rfl⟩ | ⟨hx', _⟩)
  · rw [List.cons_append, List.cons_append, List.append_assoc, hread, hagain, ok_bind_eq]
    simp only [hwiden, hx, ok_bind_eq]
    rw [movePart_zero, widen_zero, widen_zero]
    rfl
  · rw [Part.isPlain, hplain] at hx'
    cases hx'

/-- The group that a call names. -/
def callTarget (cur : Cursor) : NameRef → Except ReadError GroupRef
  | .name s => .ok (.name s)
  | .absolute n => .ok (.number n)
  | .forward n => .ok (.number (cur.groups + n))
  | .backward n => if cur.groups < n then .error .invalidBackref else .ok (.number (cur.groups + 1 - n))

theorem readEscape_widen (off : Nat) (names : List (String × Nat)) (hstop : EndsPattern stop)
    {cur next : Cursor} {o : Options} {cs : List Char} {part : Part} (h : readEscape cur o cs = .ok (part, next)) :
    EscapeWidens off names stop cur o cs part next := by
  rcases hquiet : isQuiet cs with _ | _
  · rcases cs with _ | ⟨c, cs⟩
    · cases hquiet
    by_cases hkeep : c = 'K'
    · subst hkeep
      cases h
      exact ⟨⟨cs, List.suffix_cons _ _, rfl⟩, fun _ => rfl⟩
    by_cases hnumber : ('1' ≤ c && c ≤ '9') = true
    · rw [readEscape_digit hnumber] at h
      obtain ⟨rest, hrest, rfl, hagain⟩ := readNumberEscape_append hstop h
      refine ⟨⟨rest, hrest, rfl⟩, ?_⟩
      rintro (⟨rfl, rfl⟩ | ⟨hplain, hshort⟩)
      · rw [List.cons_append, readEscape_digit hnumber, movePart_zero, widen_zero, widen_zero]
        exact hagain _
      · rw [readNumberEscape_short hnumber hshort h] at hplain
        cases hplain
    · -- What is left are the letters of references, with a name behind them.
      have hname : (c = 'k' ∨ c = 'g') ∧ (cs.head? = some '<' ∨ cs.head? = some '\'') := by
        simpa [isQuiet, hkeep, hnumber, Decidable.imp_iff_not_or] using hquiet
      obtain ⟨rfl | rfl, hsign | hsign⟩ := hname
      all_goals obtain ⟨inner, rfl⟩ := List.head?_eq_some_iff.mp hsign
      · exact escapeWidens_name '>' resolveRef (.backref · o.anyCase)
          (fun _ _ => rfl) (fun _ => rfl) (resolveRef_widen stop cur) h
      · exact escapeWidens_name '\'' resolveRef (.backref · o.anyCase)
          (fun _ _ => rfl) (fun _ => rfl) (resolveRef_widen stop cur) h
      · exact escapeWidens_name '>' callTarget .call
          (fun _ _ => rfl) (fun _ => rfl) (fun r => by rw [widen_zero]; rfl) h
      · exact escapeWidens_name '\'' callTarget .call
          (fun _ _ => rfl) (fun _ => rfl) (fun r => by rw [widen_zero]; rfl) h
  · obtain ⟨t, _, rfl, hfree, hagain⟩ := readEscape_local hquiet h
    have hnext : next = { cur with rest := next.rest } := by
      obtain ⟨part', _, hread⟩ := hagain cur o
      have hsame := hread next.rest (Alike.refl _)
      rw [h, Except.ok.injEq, Prod.mk.injEq] at hsame
      exact hsame.2
    refine ⟨⟨next.rest, ⟨t, rfl⟩, hnext⟩, fun _ => ?_⟩
    obtain ⟨part', hpart, hread⟩ := hagain (cur.widen off names stop) o
    rw [List.append_assoc, hread _ (beside_append hstop _).alike, hpart rfl, movePart_free hfree, hnext]
    rfl

end Highlighting.Regex
