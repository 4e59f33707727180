-- Where a text first occurs in another one. Whatever the text, there is a pattern that
-- stands for it: no character of the text means anything else to the pattern. The
-- pattern matches exactly where the text stands, and a search with it finds the first
-- occurrence. Places are counted in bytes, as callers count them.
import Highlighting.Proofs.LiteralMatches

namespace Highlighting

open Regex (literalEnd?)

/-! ## Occurrences -/

/-- In `text` the text `s` stands behind `x`. -/
def StandsBehind (s text x : String) : Prop := ∃ y, text = x ++ s ++ y

/-- It stands there for the first time. -/
structure FirstBehind (s text x : String) : Prop where
  stands : StandsBehind s text x
  first : ∀ x', StandsBehind s text x' → x.length ≤ x'.length

/-- A text stands behind so many characters if what follows them starts with it. -/
theorem exists_standsBehind_iff {s text : String} {n : Nat} :
    (∃ x, x.length = n ∧ StandsBehind s text x) ↔
      n ≤ text.length ∧ s.toList <+: text.toList.drop n := by
  constructor
  · rintro ⟨x, rfl, y, rfl⟩
    refine ⟨by simp only [String.length_append]; omega, ?_⟩
    rw [String.append_assoc, String.toList_append, ← String.length_toList, List.drop_left,
      String.toList_append]
    exact List.prefix_append _ _
  · rintro ⟨hn, rest, hrest⟩
    have hlength : (String.ofList (text.toList.take n)).length = n := by
      rw [← String.length_toList, String.toList_ofList, List.length_take, String.length_toList]
      omega
    refine ⟨String.ofList (text.toList.take n), hlength, String.ofList rest, ?_⟩
    apply String.toList_injective
    simp [hrest]

theorem exists_standsBehind_iff_infix {s text : String} :
    (∃ x, StandsBehind s text x) ↔ s.toList <:+: text.toList := by
  constructor
  · rintro ⟨x, y, rfl⟩
    exact ⟨x.toList, y.toList, by simp⟩
  · rintro ⟨x, y, hxy⟩
    refine ⟨String.ofList x, String.ofList y, String.toList_injective ?_⟩
    simp [← hxy]

/-! ## Matching -/

/-- A row of characters is found where it stands. -/
theorem literalEnd?_toArray (cs text : List Char) (pos : Nat) :
    literalEnd? text.toArray cs pos =
      if cs <+: text.drop pos then some (pos + cs.length) else none := by
  induction cs generalizing pos with
  | nil => simp [literalEnd?]
  | cons c cs ih =>
    rw [literalEnd?, ih, List.getElem?_toArray]
    rcases Nat.lt_or_ge pos text.length with hlt | hge
    · simp only [List.drop_eq_getElem_cons hlt, List.getElem?_eq_getElem hlt, List.cons_prefix_cons,
        Option.some.injEq, List.length_cons, Nat.add_comm cs.length 1, Nat.add_assoc]
      by_cases hc : text[pos] = c
      · simp [hc]
      · simp [hc, Ne.symm hc]
    · simp [List.drop_eq_nil_of_le hge, List.getElem?_eq_none hge]

/-- A search behind `before` tries every place of what follows, its end included. -/
theorem Pattern.search_append (p : Pattern) (before after : String) :
    p.search (before ++ after).toList.toArray before.length =
      (p.scan ⟨(before ++ after).toList.toArray, before.length⟩ (after.length + 1)
        before.length).map p.found := by
  have hsize : (before ++ after).toList.toArray.size = before.length + after.length := by
    simp [String.length_toList]
  rw [Pattern.search, if_neg (by omega), hsize,
    show before.length + after.length + 1 - before.length = after.length + 1 by omega]

section

variable {s : String} {p : Pattern} (hp : Pattern.literal s false = .ok p) (before after : String)

include hp

/-- The pattern of a text takes just that, wherever it stands. -/
theorem matchFrom_literal (origin n : Nat) :
    p.matchFrom ⟨(before ++ after).toList.toArray, origin⟩ (before.length + n) =
      if s.toList <+: after.toList.drop n then
        some ⟨before.length + n + s.length, before.length + n, []⟩ else none := by
  have hdrop : (before ++ after).toList.drop (before.length + n) = after.toList.drop n := by
    rw [String.toList_append, ← String.length_toList, List.drop_append]
    simp
  rw [literal_eq_ok] at hp
  cases hp
  simp only [Pattern.matchFrom, matcher_literal, textEnd?, Bool.false_eq_true, if_false,
    literalEnd?_toArray, hdrop, String.length_toList]
  split
  · rfl
  · rfl

theorem matchesAt_literal_iff :
    p.matchesAt (before ++ after).toList.toArray before.length = true ↔
      s.toList <+: after.toList := by
  have hmatch := matchFrom_literal hp before after before.length 0
  rw [Nat.add_zero, List.drop_zero] at hmatch
  have hinside : before.length ≤ (before ++ after).toList.toArray.size := by
    simp [String.length_toList]
  rw [Pattern.matchesAt, hmatch, Bool.and_eq_true, decide_eq_true_eq]
  split
  · rename_i h
    exact iff_of_true ⟨hinside, rfl⟩ h
  · rename_i h
    exact iff_of_false (fun hsome => Bool.false_ne_true hsome.2) h

/-! ## Searching -/

theorem search_literal_eq_none_iff :
    p.search (before ++ after).toList.toArray before.length = none ↔
      ¬ s.toList <:+: after.toList := by
  rw [Pattern.search_append, Option.map_eq_none_iff, Pattern.scan_eq_none,
    ← exists_standsBehind_iff_infix, not_exists]
  constructor
  · intro h x hx
    obtain ⟨hle, hstands⟩ := exists_standsBehind_iff.mp ⟨x, rfl, hx⟩
    have hnone := h (before.length + x.length) (by omega) (by omega)
    rw [matchFrom_literal hp, if_pos hstands] at hnone
    cases hnone
  · intro h i hi hlt
    obtain ⟨n, rfl⟩ : ∃ n, i = before.length + n := ⟨i - before.length, by omega⟩
    rw [matchFrom_literal hp, if_neg]
    intro hstands
    obtain ⟨x, _, hx⟩ := exists_standsBehind_iff.mpr ⟨by omega, hstands⟩
    exact h x hx

theorem search_literal_eq_some_iff {found : Pattern.Found} :
    p.search (before ++ after).toList.toArray before.length = some found ↔
      ∃ x, FirstBehind s after x ∧
        found = ⟨before.length + x.length, before.length + x.length + s.length, []⟩ := by
  have hfound : ∀ start stop : Nat, p.found ⟨stop, start, []⟩ = ⟨start, stop, []⟩ := by
    intro start stop
    rw [literal_eq_ok] at hp
    cases hp
    rfl
  rw [Pattern.search_append, Option.map_eq_some_iff]
  constructor
  · rintro ⟨q, hq, rfl⟩
    obtain ⟨i, hi, hlt, hmatch, hbefore⟩ := p.scan_some _ _ _ q hq
    obtain ⟨n, rfl⟩ : ∃ n, i = before.length + n := ⟨i - before.length, by omega⟩
    rw [matchFrom_literal hp] at hmatch
    split at hmatch
    · rename_i hstands
      cases hmatch
      obtain ⟨x, rfl, hx⟩ := exists_standsBehind_iff.mpr ⟨by omega, hstands⟩
      refine ⟨x, ⟨hx, fun x' hx' => ?_⟩, hfound _ _⟩
      rcases Nat.lt_or_ge x'.length x.length with hshort | hle
      · obtain ⟨_, hstands'⟩ := exists_standsBehind_iff.mp ⟨x', rfl, hx'⟩
        have hnone := hbefore (before.length + x'.length) (by omega) (by omega)
        rw [matchFrom_literal hp, if_pos hstands'] at hnone
        cases hnone
      · exact hle
    · cases hmatch
  · rintro ⟨x, hx, rfl⟩
    obtain ⟨hle, hstands⟩ := exists_standsBehind_iff.mp ⟨x, rfl, hx.stands⟩
    refine ⟨_, p.scan_eq_some _ (i := before.length + x.length) (by omega) (by omega)
      (by rw [matchFrom_literal hp, if_pos hstands]) ?_, hfound _ _⟩
    intro j hj hlt
    obtain ⟨n, rfl⟩ : ∃ n, j = before.length + n := ⟨j - before.length, by omega⟩
    rw [matchFrom_literal hp, if_neg]
    intro hearlier
    obtain ⟨x', rfl, hx'⟩ := exists_standsBehind_iff.mpr ⟨by omega, hearlier⟩
    have hfirst := hx.first x' hx'
    omega

end

/-! ## Bytes -/

theorem byteLength_toList (s : String) : byteLength s.toList = s.utf8ByteSize := by
  have hlist : ∀ cs : List Char, byteLength cs = (String.ofList cs).utf8ByteSize := by
    intro cs
    induction cs with
    | nil => rfl
    | cons c cs ih =>
      have hcons : String.ofList (c :: cs) = String.singleton c ++ String.ofList cs := by
        rw [String.singleton_eq_ofList, ← String.ofList_append]
        rfl
      rw [hcons, String.utf8ByteSize_append, String.utf8ByteSize_singleton, ← ih]
      rfl
  rw [hlist, String.ofList_toList]

/-- The place behind the front of a text is the size of the front. -/
theorem byteOffset_append (front rest : String) :
    byteOffset (front ++ rest).toList.toArray front.length = front.utf8ByteSize := by
  rw [byteOffset, String.toList_append, ← String.length_toList, List.take_left, byteLength_toList]

theorem charOffset_append (front rest : String) :
    charOffset (front ++ rest).toList front.utf8ByteSize = some (front.length, true) := by
  have hle : front.length ≤ (front ++ rest).toList.length := by simp [String.length_toList]
  have hoffset := charOffset_byteLength hle
  rwa [String.toList_append, ← String.length_toList, List.take_left, byteLength_toList,
    ← String.toList_append, String.length_toList] at hoffset

theorem Pattern.matchesAtByte_append (p : Pattern) (before after : String) :
    p.matchesAtByte (before ++ after).toList.toArray before.utf8ByteSize =
      p.matchesAt (before ++ after).toList.toArray before.length := by
  rw [Pattern.matchesAtByte, charOffset_append]

theorem Pattern.findBytes_append (p : Pattern) (before after : String) :
    p.findBytes (before ++ after).toList.toArray before.utf8ByteSize =
      (p.search (before ++ after).toList.toArray before.length).map fun found =>
        (byteOffset (before ++ after).toList.toArray found.start,
          byteOffset (before ++ after).toList.toArray found.stop) := by
  simp only [Pattern.findBytes, Pattern.searchBytes, charOffset_append, Option.bind_eq_bind,
    Option.bind_some]
  rcases p.search (before ++ after).toList.toArray before.length with _ | found
  · rfl
  · rfl

/-- Whatever the text, there is a pattern that stands for it. From every place of every
text, given as what stands before it and behind it, the pattern matches if and only if
the text stands there, and the search finds the first occurrence, if there is one. -/
theorem escaped_text_is_found_where_it_stands (s : String) :
    ∃ p, Pattern.literal s false = .ok p ∧ ∀ before after : String,
      (p.matchesAtByte (before ++ after).toList.toArray before.utf8ByteSize = true ↔
        s.toList <+: after.toList) ∧
      (∀ start stop, p.findBytes (before ++ after).toList.toArray before.utf8ByteSize =
          some (start, stop) ↔ ∃ x, FirstBehind s after x ∧
            start = before.utf8ByteSize + x.utf8ByteSize ∧ stop = start + s.utf8ByteSize) ∧
      (p.findBytes (before ++ after).toList.toArray before.utf8ByteSize = none ↔
        ¬ s.toList <:+: after.toList) := by
  refine ⟨_, literal_eq_ok s false, fun before after => ?_⟩
  have hp := literal_eq_ok s false
  -- What stands behind `x` is found at the bytes that come before it.
  have hoffsets : ∀ x, StandsBehind s after x →
      byteOffset (before ++ after).toList.toArray (before.length + x.length) =
        before.utf8ByteSize + x.utf8ByteSize ∧
      byteOffset (before ++ after).toList.toArray (before.length + x.length + s.length) =
        before.utf8ByteSize + x.utf8ByteSize + s.utf8ByteSize := by
    rintro x ⟨y, rfl⟩
    have hstart := byteOffset_append (before ++ x) (s ++ y)
    have hstop := byteOffset_append (before ++ x ++ s) y
    simp only [String.append_assoc, String.length_append, String.utf8ByteSize_append] at hstart hstop ⊢
    simp only [Nat.add_assoc] at hstart hstop ⊢
    exact ⟨hstart, hstop⟩
  refine ⟨?_, fun start stop => ?_, ?_⟩
  · rw [Pattern.matchesAtByte_append, matchesAt_literal_iff hp]
  · rw [Pattern.findBytes_append, Option.map_eq_some_iff]
    constructor
    · rintro ⟨found, hfound, hplaces⟩
      obtain ⟨x, hx, rfl⟩ := (search_literal_eq_some_iff hp before after).mp hfound
      obtain ⟨hstart, hstop⟩ := hoffsets x hx.stands
      rw [hstart, hstop] at hplaces
      cases hplaces
      exact ⟨x, hx, rfl, rfl⟩
    · rintro ⟨x, hx, rfl, rfl⟩
      obtain ⟨hstart, hstop⟩ := hoffsets x hx.stands
      exact ⟨_, (search_literal_eq_some_iff hp before after).mpr ⟨x, hx, rfl⟩,
        Prod.ext hstart hstop⟩
  · rw [Pattern.findBytes_append, Option.map_eq_none_iff, search_literal_eq_none_iff hp]

end Highlighting
