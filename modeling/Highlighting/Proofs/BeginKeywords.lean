-- Modes that begin at keywords. One text gives both the pattern at which such a mode
-- begins, its words joined by bars, and the table in which its lexemes are looked up.
-- The pattern reads the words as patterns; the table takes off what stands behind a
-- bar, and compares by lower case where the pattern compares by folding.
--
-- Words of characters that stand for themselves are the same words to both, and the
-- table agrees with the pattern as far as folding and lower case do.
import Highlighting.Proofs.CompiledIds
import Highlighting.Proofs.KeywordLookup
import Highlighting.Proofs.WordPatterns

namespace Highlighting

open Regex (slice)

/-! ## The table -/

namespace KeywordTable

theorem isSome_get?_iff (t : KeywordTable) (lexeme : String) :
    (t.get? lexeme).isSome = true ↔ form t.caseInsensitive lexeme ∈ t.keys :=
  (mem_keys_iff_isSome_lookup t _).symm

/-- An entry without a bar is a word. -/
theorem word_of_no_bar {entry : String} (h : ∀ c ∈ entry.toList, (c == '|') = false)
    (className : String) : (DeclaredWord.ofEntry className entry).word = entry := by
  have hwhole := Text.splitOnce_of_none h
  rw [String.ofList_toList] at hwhole
  unfold DeclaredWord.ofEntry
  rw [hwhole]

/-- The words of a table that is read off a text are those of the text, if they have
no bars. -/
theorem mem_keys_iff {anyCase : Bool} {words : String}
    (hbar : ∀ w ∈ Text.words words, ∀ c ∈ w.toList, (c == '|') = false) (x : String) :
    x ∈ (ofKeywords (.words words) anyCase).keys ↔ ∃ w ∈ Text.words words, x = form anyCase w := by
  rw [(holds_ofKeywords (.words words) anyCase).mem_keys_iff, Keywords.declared]
  constructor
  · rintro ⟨d, hd, rfl⟩
    obtain ⟨w, hw, rfl⟩ := List.mem_map.mp hd
    exact ⟨w, hw, by rw [word_of_no_bar (hbar w hw)]⟩
  · rintro ⟨w, hw, rfl⟩
    exact ⟨_, List.mem_map_of_mem hw, by rw [word_of_no_bar (hbar w hw)]⟩

theorem caseInsensitive_ofKeywords (words : String) (anyCase : Bool) :
    (ofKeywords (.words words) anyCase).caseInsensitive = anyCase :=
  (holds_ofKeywords (.words words) anyCase).caseInsensitive

end KeywordTable

/-! ## The pattern and the table -/

/-- Folding a text comes to the same as its lower case. -/
def FoldsToLower (text : String) : Prop :=
  Unicode.foldAll text.toList = (Unicode.lower text).toList

/-- Texts of ASCII do. -/
theorem foldsToLower_of_ascii {text : String} (h : ∀ c ∈ text.toList, c.toNat < 0x80) :
    FoldsToLower text := by
  have hfrom : ∀ (cs before : List Char), (∀ c ∈ cs, c.toNat < 0x80) →
      Unicode.foldAll cs = Unicode.lowerFrom before cs := by
    intro cs
    induction cs with
    | nil => intro before _; rfl
    | cons c cs ih =>
      intro before hcs
      have hc := hcs c List.mem_cons_self
      have hsigma : c ≠ Char.ofNat 0x3a3 := by
        rintro rfl
        exact absurd hc (by decide)
      rw [foldAll_cons, Unicode.lowerFrom, if_neg hsigma,
        ih (c :: before) fun c' hc' => hcs c' (List.mem_cons_of_mem c hc')]
      unfold Unicode.fold Unicode.lowerChar
      rw [if_pos hc, if_pos hc]
  rw [FoldsToLower, Unicode.lower, String.toList_ofList]
  exact hfrom _ [] h

/-- Texts that agree up to folding agree in lower case, if that is their folding. -/
theorem form_eq_of_sameText {anyCase : Bool} {x y : String} (h : SameText anyCase x y)
    (hfolds : anyCase = true → FoldsToLower x ∧ FoldsToLower y) :
    KeywordTable.form anyCase x = KeywordTable.form anyCase y := by
  rcases anyCase with _ | _
  · exact sameText_false.mp h
  · obtain ⟨hx, hy⟩ := hfolds rfl
    exact String.toList_injective (hx.symm.trans ((sameText_true.mp h).trans hy))

/-- The form of a word in a table is the same text as the word. -/
theorem sameText_form (anyCase : Bool) (word : String) :
    SameText anyCase (KeywordTable.form anyCase word) word := by
  rcases anyCase with _ | _
  · rfl
  · rw [KeywordTable.form, if_pos rfl, sameText_true, Unicode.foldAll_lower]

/-- The characters from one place to another are those of a word, and the word goes
on at neither side. -/
structure StandsAlone (text : Array Char) (first last : Nat) : Prop where
  le : first ≤ last
  inText : last ≤ text.size
  word : ∀ c ∈ slice text first last, Unicode.isWordPart c = true
  edges : wordEdge text first = true ∧ wordEdge text last = true

instance (text : Array Char) (first last : Nat) : Decidable (StandsAlone text first last) :=
  decidable_of_iff (first ≤ last ∧ last ≤ text.size ∧
      (slice text first last).all Unicode.isWordPart = true ∧
      wordEdge text first = true ∧ wordEdge text last = true)
    ⟨fun ⟨hle, htext, hword, hedges⟩ => ⟨hle, htext, List.all_eq_true.mp hword, hedges⟩,
      fun h => ⟨h.le, h.inText, List.all_eq_true.mpr h.word, h.edges⟩⟩

theorem getElem?_of_slice {text : Array Char} {first last i : Nat} (hfirst : first ≤ i)
    (hlast : i < last) (htext : last ≤ text.size) :
    ∃ c ∈ slice text first last, text[i]? = some c := by
  have hc : text[i]? = some text[i] := Array.getElem?_eq_getElem (by omega)
  refine ⟨text[i], ?_, hc⟩
  rw [← Scan.slice_append text hfirst (Nat.le_of_lt hlast), slice_cons hc hlast]
  simp

/-- Within a row of word characters there is no word edge. -/
theorem wordEdge_within {text : Array Char} {first last i : Nat}
    (hword : ∀ c ∈ slice text first last, Unicode.isWordPart c = true) (htext : last ≤ text.size)
    (hfirst : first < i) (hlast : i < last) : wordEdge text i = false := by
  obtain ⟨c, hc, hget⟩ := getElem?_of_slice (Nat.le_of_lt hfirst) hlast htext
  obtain ⟨d, hd, hget'⟩ : ∃ d ∈ slice text first last, text[i - 1]? = some d :=
    getElem?_of_slice (by omega) (by omega) htext
  have hhere : Regex.wordAt ⟨text, 0⟩ (.property .wordPart) i = true := by
    rw [Regex.wordAt, hget]
    exact hword c hc
  have hbefore : Regex.wordAt ⟨text, 0⟩ (.property .wordPart) (i - 1) = true := by
    rw [Regex.wordAt, hget']
    exact hword d hd
  have hpos : (i != 0) = true := by simp; omega
  rw [wordEdge, Regex.atWordEdge, hhere, hbefore, hpos]
  rfl

/-- Words to begin at agree with a table of keywords. -/
structure AgreesWith (anyCase : Bool) (words : List String) (p : Pattern) (table : KeywordTable) :
    Prop where
  /-- What the group of the pattern takes is one of the words, and it is in the table as
  far as folding and lower case agree. -/
  found : ∀ (text : Array Char) (start : Nat) (found : Pattern.Found),
    p.search text start = some found → ∃ first last w, found = ⟨first, last, [some (first, last)]⟩ ∧
      w ∈ words ∧ SameText anyCase (String.ofList (slice text first last)) w ∧
      ((anyCase = true → FoldsToLower (String.ofList (slice text first last)) ∧ FoldsToLower w) →
        (table.get? (String.ofList (slice text first last))).isSome = true)
  /-- Where a word of the table stands alone, the pattern matches, and its group takes the
  word, or more only if some of the words hold other characters. -/
  matched : ∀ (word : String) (k : Keyword), (word, k) ∈ table.entries →
    ∀ (text : Array Char) (first last : Nat), StandsAlone text first last →
      SameText anyCase (String.ofList (slice text first last)) word → ∀ origin, ∃ q stop,
        p.matchFrom ⟨text, origin⟩ first = some q ∧
        p.found q = ⟨first, stop, [some (first, stop)]⟩ ∧ last ≤ stop ∧
        (anyCase = false → (∀ w ∈ words, ∀ c ∈ w.toList, Unicode.isWordPart c = true) → stop = last)

/-- What the pattern takes at a place is one of the words. -/
theorem word_of_firstWordEnd {anyCase : Bool} {words : List String} {text : Array Char}
    {pos stop : Nat} (hpos : pos ≤ text.size)
    (h : firstWordEnd? anyCase text pos (words.map String.toList) = some stop) :
    ∃ w ∈ words, pos ≤ stop ∧ stop ≤ text.size ∧ wordEdge text stop = true ∧
      SameText anyCase (String.ofList (slice text pos stop)) w := by
  obtain ⟨cs, hcs, hend⟩ := List.exists_of_findSome?_eq_some h
  obtain ⟨w, hw, rfl⟩ := List.mem_map.mp hcs
  obtain ⟨hend, hedge⟩ := Option.filter_eq_some_iff.mp hend
  obtain ⟨hle, hstop, hsame⟩ := (textEnd?_eq_some_iff hpos).mp hend
  exact ⟨w, hw, hle, hstop, hedge, by rwa [SameText, String.toList_ofList]⟩

/-- A word takes some of the text. -/
theorem lt_of_sameText {anyCase : Bool} {text : Array Char} {first last : Nat} {w : String}
    (hle : first ≤ last) (hw : w.toList ≠ [])
    (h : SameText anyCase (String.ofList (slice text first last)) w) : first < last := by
  rcases Nat.lt_or_ge first last with hlt | hge
  · exact hlt
  · obtain rfl : first = last := by omega
    rw [SameText, String.toList_ofList, slice_self] at h
    have hnil : seenText anyCase w.toList = [] := by
      rw [← h]
      unfold seenText
      split <;> rfl
    exact absurd (seenText_eq_nil hnil) hw

/-- No word that starts where one stands alone ends inside it. -/
theorem StandsAlone.le_of_edge {text : Array Char} {first last stop : Nat}
    (h : StandsAlone text first last) (hstop : first < stop) (hedge : wordEdge text stop = true) :
    last ≤ stop := by
  by_contra hlt
  have hinside := wordEdge_within h.word h.inText hstop (by omega)
  exact absurd (hinside.symm.trans hedge) (by decide)

/-- Two words that start at the same place between word edges end at the same. -/
theorem StandsAlone.unique {text : Array Char} {first last stop : Nat}
    (h : StandsAlone text first last) (h' : StandsAlone text first stop) (hlast : first < last)
    (hstop : first < stop) : stop = last :=
  Nat.le_antisymm (h'.le_of_edge hlast h.edges.2) (h.le_of_edge hstop h'.edges.2)

section

variable {anyCase : Bool} {words : String} {p : Pattern}
  (hprogram : p.program = ⟨Regex.ofWords anyCase ((Text.words words).map String.toList), 1, []⟩)
  (hne : Text.words words ≠ [])
  (hwords : ∀ w ∈ Text.words words, w.toList ≠ [] ∧ ∀ c ∈ w.toList, Regex.isBare c = true)

include hprogram hne hwords

omit hne hwords in
/-- The group takes all that the pattern takes. -/
theorem found_ofWords (pos stop : Nat) :
    p.found ⟨stop, pos, [.closed 1 pos stop, .opened 1 pos]⟩ = ⟨pos, stop, [some (pos, stop)]⟩ := by
  rw [Pattern.found, hprogram]
  rfl

omit hprogram hne in
theorem mem_keys_ofWords (x : String) : x ∈ (KeywordTable.ofKeywords (.words words) anyCase).keys ↔
    ∃ w ∈ Text.words words, x = KeywordTable.form anyCase w :=
  KeywordTable.mem_keys_iff (fun w hw c hc =>
    beq_eq_false_iff_ne.mpr (Regex.ne_of_isBare ((hwords w hw).2 c hc) '|' (by decide))) x

/-- What is found is one of the words, and it is in the table. -/
theorem word_of_search {text : Array Char} {start : Nat} {found : Pattern.Found}
    (hsearch : p.search text start = some found) :
    ∃ first last w, found = ⟨first, last, [some (first, last)]⟩ ∧ w ∈ Text.words words ∧
      SameText anyCase (String.ofList (slice text first last)) w ∧
      ((anyCase = true → FoldsToLower (String.ofList (slice text first last)) ∧ FoldsToLower w) →
        ((KeywordTable.ofKeywords (.words words) anyCase).get?
          (String.ofList (slice text first last))).isSome = true) := by
  have hmatch := matchFrom_words (p := p) (by rw [hprogram]) (by simpa using hne)
  unfold Pattern.search at hsearch
  split at hsearch
  · cases hsearch
  · obtain ⟨q, hq, rfl⟩ := Option.map_eq_some_iff.mp hsearch
    obtain ⟨pos, hpos, hlt, hq, _⟩ := Pattern.scan_some p _ _ _ q hq
    rw [hmatch] at hq
    split at hq
    · obtain ⟨stop, hstop, rfl⟩ := Option.map_eq_some_iff.mp hq
      obtain ⟨w, hw, _, _, _, hsame⟩ := word_of_firstWordEnd (show pos ≤ text.size by omega) hstop
      refine ⟨pos, stop, w, found_ofWords hprogram pos stop, hw, hsame, fun hfolds => ?_⟩
      rw [KeywordTable.isSome_get?_iff, KeywordTable.caseInsensitive_ofKeywords,
        mem_keys_ofWords hwords]
      exact ⟨w, hw, form_eq_of_sameText hsame hfolds⟩
    · cases hq

/-- Where a word of the table stands alone, the pattern takes it, or more. -/
theorem match_of_mem_entries {word : String} {k : Keyword}
    (hentry : (word, k) ∈ (KeywordTable.ofKeywords (.words words) anyCase).entries)
    {text : Array Char} {first last : Nat} (halone : StandsAlone text first last)
    (hsame : SameText anyCase (String.ofList (slice text first last)) word) (origin : Nat) :
    ∃ q stop, p.matchFrom ⟨text, origin⟩ first = some q ∧
      p.found q = ⟨first, stop, [some (first, stop)]⟩ ∧ last ≤ stop ∧
      (anyCase = false → (∀ w ∈ Text.words words, ∀ c ∈ w.toList, Unicode.isWordPart c = true) →
        stop = last) := by
  have hmatch := matchFrom_words (p := p) (by rw [hprogram]) (by simpa using hne)
  obtain ⟨w, hw, rfl⟩ := (mem_keys_ofWords hwords word).mp (List.mem_map_of_mem hentry)
  have hpos : first ≤ text.size := Nat.le_trans halone.le halone.inText
  have hlisted : SameText anyCase (String.ofList (slice text first last)) w :=
    hsame.trans (sameText_form anyCase w)
  have hend : textEnd? anyCase text w.toList first = some last :=
    (textEnd?_eq_some_iff hpos).mpr ⟨halone.le, halone.inText,
      by rwa [SameText, String.toList_ofList] at hlisted⟩
  -- Some word stands there with an edge behind it, be it another one.
  obtain ⟨stop, hstop⟩ : ∃ stop,
      firstWordEnd? anyCase text first ((Text.words words).map String.toList) = some stop := by
    refine Option.isSome_iff_exists.mp (List.findSome?_isSome_iff.mpr ?_)
    exact ⟨w.toList, List.mem_map_of_mem hw, by simp [hend, Option.filter, halone.edges.2]⟩
  obtain ⟨w', hw', hle, hstopText, hstopEdge, hsame'⟩ := word_of_firstWordEnd hpos hstop
  have hlast : first < last := lt_of_sameText halone.le (hwords w hw).1 hlisted
  have hfirst : first < stop := lt_of_sameText hle (hwords w' hw').1 hsame'
  refine ⟨⟨stop, first, [.closed 1 first stop, .opened 1 first]⟩, stop, ?_,
    found_ofWords hprogram first stop, halone.le_of_edge hfirst hstopEdge, ?_⟩
  · rw [hmatch, if_pos halone.edges.1, hstop]
    rfl
  · rintro rfl hall
    have hparts : ∀ c ∈ slice text first stop, Unicode.isWordPart c = true := by
      intro c hc
      refine hall w' hw' c ?_
      rw [← sameText_false.mp hsame', String.toList_ofList]
      exact hc
    exact halone.unique ⟨hle, hstopText, hparts, halone.edges.1, hstopEdge⟩ hlast hfirst

theorem agreesWith_ofWords : AgreesWith anyCase (Text.words words) p (.ofKeywords (.words words) anyCase) where
  found _ _ _ hsearch := word_of_search hprogram hne hwords hsearch
  matched _ _ hentry _ _ _ halone hsame origin :=
    match_of_mem_entries hprogram hne hwords hentry halone hsame origin

end

theorem words_nonempty {text w : String} (h : w ∈ Text.words text) : w.toList ≠ [] := by
  obtain ⟨cs, hcs, rfl⟩ := List.mem_map.mp h
  rw [String.toList_ofList]
  have hnone : ∀ c ∈ ([] : List Char), Unicode.isSpace c = false := by simp
  exact (Text.of_mem_splitRuns hnone hcs).1

/-- The words at which a mode begins agree with the table in which its lexemes are looked
up, if there is one at least and they consist of characters that stand for themselves:
then the one text is read alike as a pattern and as a declaration of keywords. -/
theorem begin_keywords_agree_with_their_table (m : Mode) (words : String)
    (hwords : m.beginKeywords = some words) (hkeywords : m.keywords = none)
    (hsub : m.subLanguage = none) (anyCase : Bool) (parentEnd : String) (c : CompiledMode)
    (hprepare : m.prepare anyCase (some parentEnd) = .ok c) (hne : Text.words words ≠ [])
    (hbare : ∀ w ∈ Text.words words, ∀ ch ∈ w.toList, Regex.isBare ch = true) :
    ∃ table lexemes p, c.dispatch = .keywords table lexemes ∧ c.begins = some p.source ∧
      Pattern.ofSource p.source anyCase = .ok p ∧ AgreesWith anyCase (Text.words words) p table := by
  have hall : ∀ w ∈ Text.words words, w.toList ≠ [] ∧ ∀ ch ∈ w.toList, Regex.isBare ch = true :=
    fun w hw => ⟨words_nonempty hw, hbare w hw⟩
  have hbegins : c.begins = some m.beginSource := (prepare_prepared hprepare).begins
  have hdispatch : ∃ lexemes, c.dispatch = .keywords (.ofKeywords (.words words) anyCase) lexemes := by
    unfold Mode.prepare at hprepare
    obtain ⟨d, hd, hrest⟩ := bind_eq_ok.mp hprepare
    have hsame : c.dispatch = d := by
      obtain ⟨_, _, hrest⟩ := bind_eq_ok.mp hrest
      obtain ⟨_, _, hrest⟩ := bind_eq_ok.mp hrest
      cases hrest
      rfl
    rw [Mode.dispatch, hsub, Mode.allKeywords, hkeywords, hwords] at hd
    obtain ⟨lexemes, _, hd⟩ := bind_eq_ok.mp hd
    cases hd
    exact ⟨lexemes, hsame⟩
  obtain ⟨lexemes, hdispatch⟩ := hdispatch
  have hsource : m.beginSource.toList = '\\' :: 'b' :: '(' ::
      (['|'].intercalate ((Text.words words).map String.toList) ++ ')' :: ['\\', 'b']) := by
    have hopen : (r"\b(" : String).toList = ['\\', 'b', '('] := rfl
    have hclose : (r")\b" : String).toList = [')', '\\', 'b'] := rfl
    have hbar : ("|" : String).toList = ['|'] := rfl
    rw [Mode.beginSource, hwords]
    simp only [String.toList_append, String.toList_intercalate, hopen, hclose, hbar]
    simp
  have hread : Regex.read m.beginSource anyCase =
      .ok ⟨Regex.ofWords anyCase ((Text.words words).map String.toList), 1, []⟩ := by
    refine Regex.read_words (by simpa using hne) (fun cs hcs => ?_) hsource
    obtain ⟨w, hw, rfl⟩ := List.mem_map.mp hcs
    exact hall w hw
  refine ⟨_, lexemes,
    ⟨m.beginSource, Regex.ofWords anyCase ((Text.words words).map String.toList), 1, []⟩,
    hdispatch, hbegins, ?_, agreesWith_ofWords rfl hne hall⟩
  rw [Pattern.ofSource, hread]

/-- A mode that begins at keywords. -/
def keywordMode (words : String) : Mode := { beginKeywords := some words }

/-- Two plain words agree with their table in a grammar for which case does not matter. -/
theorem class_and_interface_agree : ∃ c table lexemes p,
    (keywordMode "class interface").prepare true (some "") = .ok c ∧
    c.dispatch = .keywords table lexemes ∧ c.begins = some p.source ∧
    Pattern.ofSource p.source true = .ok p ∧ AgreesWith true ["class", "interface"] p table := by
  have hwords : Text.words "class interface" = ["class", "interface"] := by decide +kernel
  have hbare : ((Text.words "class interface").all fun w => w.toList.all Regex.isBare) = true := by
    decide +kernel
  simp only [List.all_eq_true] at hbare
  have hok : ((keywordMode "class interface").prepare true (some "")).toOption.isSome = true := by
    decide +kernel
  rcases hprepare : (keywordMode "class interface").prepare true (some "") with e | c
  · rw [hprepare] at hok
    cases hok
  · obtain ⟨table, lexemes, p, hdispatch, hbegins, hread, hagrees⟩ :=
      begin_keywords_agree_with_their_table (keywordMode "class interface") "class interface" rfl rfl
        rfl true "" c hprepare (by decide +kernel) hbare
    exact ⟨c, table, lexemes, p, rfl, hdispatch, hbegins, hread, hwords ▸ hagrees⟩

/-! ## Words that are not read as they are -/

/-- A mode that begins at the words has a pattern and a table. -/
def KeywordsOf (words : String) (anyCase : Bool) (p : Pattern) (table : KeywordTable) : Prop :=
  ∃ c lexemes, (keywordMode words).prepare anyCase (some "") = .ok c ∧
    c.dispatch = .keywords table lexemes ∧ c.begins = some p.source ∧
    Pattern.ofSource p.source anyCase = .ok p

/-- The pattern and the table of the words. -/
def keywordsOf? (words : String) (anyCase : Bool) : Option (Pattern × KeywordTable) := do
  let c ← ((keywordMode words).prepare anyCase (some "")).toOption
  let source ← c.begins
  let p ← (Pattern.ofSource source anyCase).toOption
  match c.dispatch with
  | .keywords table _ => some (p, table)
  | _ => none

theorem ok_of_toOption {ε α : Type} {x : Except ε α} {a : α} (h : x.toOption = some a) :
    x = .ok a := by
  rcases x with e | b
  · cases h
  · cases h
    rfl

theorem keywordsOf_of_eq_some {words : String} {anyCase : Bool} {p : Pattern} {table : KeywordTable}
    (h : keywordsOf? words anyCase = some (p, table)) : KeywordsOf words anyCase p table := by
  obtain ⟨c, hc, h⟩ := Option.bind_eq_some_iff.mp h
  obtain ⟨source, hsource, h⟩ := Option.bind_eq_some_iff.mp h
  obtain ⟨p', hp, h⟩ := Option.bind_eq_some_iff.mp h
  split at h
  · rename_i table' lexemes hdispatch
    cases h
    have hread := ok_of_toOption hp
    have hsame : p.source = source := by
      unfold Pattern.ofSource at hread
      split at hread
      · cases hread
        rfl
      · cases hread
    exact ⟨c, lexemes, ok_of_toOption hc, hdispatch, hsame.symm ▸ hsource, hsame.symm ▸ hread⟩
  · cases h

/-- In the text the group of the pattern takes what is not in the table. -/
def BeginsOutsideTable (words : String) (anyCase : Bool) (text : String) : Prop :=
  ∃ p table found first last, KeywordsOf words anyCase p table ∧
    p.search text.toList.toArray 0 = some found ∧ found.groups = [some (first, last)] ∧
    table.get? (String.ofList (slice text.toList.toArray first last)) = none

def beginsOutsideTable (words : String) (anyCase : Bool) (text : String) : Bool :=
  (keywordsOf? words anyCase).any fun (p, table) =>
    (p.search text.toList.toArray 0).any fun found => match found.groups with
      | [some (first, last)] =>
        (table.get? (String.ofList (slice text.toList.toArray first last))).isNone
      | _ => false

theorem beginsOutsideTable_of_eq_true {words : String} {anyCase : Bool} {text : String}
    (h : beginsOutsideTable words anyCase text = true) : BeginsOutsideTable words anyCase text := by
  obtain ⟨⟨p, table⟩, hkeywords, h⟩ := (Option.any_eq_true _ _).mp h
  obtain ⟨found, hfound, h⟩ := (Option.any_eq_true _ _).mp h
  split at h
  · rename_i first last hgroups
    exact ⟨p, table, found, first, last, keywordsOf_of_eq_some hkeywords, hfound, hgroups,
      Option.isNone_iff_eq_none.mp h⟩
  · cases h

/-- A word of the table is the whole text, and the pattern does not take it. -/
def MissesWord (words : String) (anyCase : Bool) (word : String) : Prop :=
  ∃ p table k, KeywordsOf words anyCase p table ∧ (word, k) ∈ table.entries ∧
    StandsAlone word.toList.toArray 0 word.length ∧
    ∀ found, p.search word.toList.toArray 0 = some found → found.groups ≠ [some (0, word.length)]

def missesWord (words : String) (anyCase : Bool) (word : String) : Bool :=
  (keywordsOf? words anyCase).any fun (p, table) => table.entries.any (·.1 == word) &&
    decide (StandsAlone word.toList.toArray 0 word.length) &&
    (p.search word.toList.toArray 0).all fun found => found.groups != [some (0, word.length)]

theorem missesWord_of_eq_true {words : String} {anyCase : Bool} {word : String}
    (h : missesWord words anyCase word = true) : MissesWord words anyCase word := by
  obtain ⟨⟨p, table⟩, hkeywords, h⟩ := (Option.any_eq_true _ _).mp h
  simp only [Bool.and_eq_true] at h
  obtain ⟨⟨hentries, halone⟩, hmisses⟩ := h
  obtain ⟨⟨word', k⟩, hentry, hsame⟩ := List.any_eq_true.mp hentries
  obtain rfl : word' = word := beq_iff_eq.mp hsame
  refine ⟨p, table, k, keywordsOf_of_eq_some hkeywords, hentry, of_decide_eq_true halone, ?_⟩
  intro found hfound
  rw [hfound] at hmisses
  simpa using hmisses

/-- A score, a dot and an empty list begin a mode at what is not in the table, and so
does the long form of a letter where case does not matter. An optional word hides the
one behind it. -/
theorem begin_keywords_that_disagree :
    BeginsOutsideTable "class|3" false "3" ∧ BeginsOutsideTable "a.c" false "abc" ∧
    BeginsOutsideTable "" false "x" ∧ BeginsOutsideTable "class" true "claſs" ∧
    MissesWord "a? b" false "b" := by
  refine ⟨beginsOutsideTable_of_eq_true ?_, beginsOutsideTable_of_eq_true ?_,
    beginsOutsideTable_of_eq_true ?_, beginsOutsideTable_of_eq_true ?_, missesWord_of_eq_true ?_⟩
  all_goals decide +kernel

end Highlighting
