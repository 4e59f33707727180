-- What a table of keywords says of a lexeme. A declaration is a row of entries, class by
-- class and word by word, and the table answers as that row does when it is read from its
-- end: the last entry with the word decides. A table up to case is read off a text in
-- lower case, but the words, their scores and what is looked up are those of the entries
-- as declared, each on its own: lower case is taken word by word, keeps the digits of a
-- score, and taking it twice changes nothing.
import Highlighting.Proofs.CaseFolding
import Highlighting.Proofs.Fallible
import Mathlib.Data.List.Dedup
import Mathlib.Data.List.TakeWhile

namespace Highlighting

/-! ## Lower case, again -/

namespace Unicode

/-- The code points that the table of lower case changes. -/
def lowerPoints : List Nat := lowerRuns.flatMap Run.points

def lowerBits : Nat := bitmap lowerPoints

theorem lowerChar_of_not_mem {c : Char} (h : c.toNat ∉ lowerPoints) (hdotted : c.toNat ≠ 0x130) :
    lowerChar c = [c] := by
  by_cases hascii : c.toNat < 0x80
  · have hcapital : ¬ (65 ≤ c.toNat ∧ c.toNat ≤ 90) := by
      rintro ⟨hfirst, hlast⟩
      have hrun : Run.holds (0x41, 0x5a, 1, 0x61) c.toNat = true :=
        holds_iff.mpr ⟨hfirst, hlast, Nat.mod_one _⟩
      exact h (List.mem_flatMap.mpr ⟨_, List.mem_cons_self, mem_points hrun⟩)
    rw [lowerChar, if_pos hascii, toLower_of_not_capital hcapital]
  · rw [lowerChar, if_neg hascii, if_neg hdotted, mapRuns_of_not_mem h]
    rfl

/-- Lower case leaves alone what it leads to. -/
theorem lowerChar_stays (c : Char) : ∀ d ∈ lowerChar c, lowerChar d = [d] := by
  have hascii : ((List.range 0x80).all fun n =>
      (lowerChar (Char.ofNat n)).all fun d => lowerChar d == [d]) = true := by decide +kernel
  have himages : (lowerRuns.all fun r : Run => r.points.all fun n =>
      !lowerBits.testBit (r.image n) && r.image n != 0x130) = true := by decide +kernel
  intro d hd
  by_cases hc : c.toNat < 0x80
  · have hpoint := List.all_eq_true.mp hascii c.toNat (List.mem_range.mpr hc)
    rw [Char.ofNat_toNat] at hpoint
    exact beq_iff_eq.mp (List.all_eq_true.mp hpoint d hd)
  · unfold lowerChar at hd
    rw [if_neg hc] at hd
    split at hd
    · rcases List.mem_cons.mp hd with rfl | hd
      · decide
      · rw [List.mem_singleton.mp hd]
        decide
    · rename_i hdotted
      rcases hmap : mapRuns lowerRuns c.toNat with _ | n
      · rw [hmap] at hd
        obtain rfl : d = c := List.mem_singleton.mp hd
        unfold lowerChar
        rw [if_neg hc, if_neg hdotted, hmap]
        rfl
      · rw [hmap] at hd
        obtain rfl := List.mem_singleton.mp hd
        obtain ⟨r, hr, hholds, rfl⟩ := exists_run_of_mapRuns hmap
        have hpoint := List.all_eq_true.mp (List.all_eq_true.mp himages r hr) c.toNat
          (mem_points hholds)
        rw [lowerBits, testBit_bitmap] at hpoint
        simp only [Bool.and_eq_true, Bool.not_eq_true', decide_eq_false_iff_not, bne_iff_ne] at hpoint
        rw [Option.map_some, Option.getD_some]
        by_cases hvalid : (r.image c.toNat).isValidChar
        · rw [← toNat_ofNat hvalid] at hpoint
          exact lowerChar_of_not_mem hpoint.1 hpoint.2
        · unfold Char.ofNat
          rw [dif_neg hvalid]
          decide

/-- What lower case leaves alone is no capital sigma. -/
theorem ne_sigma_of_stays {c : Char} (h : lowerChar c = [c]) : c ≠ Char.ofNat 0x3a3 := by
  rintro rfl
  exact absurd h (by decide)

theorem lowerFrom_of_stays {cs : List Char} (h : ∀ c ∈ cs, lowerChar c = [c]) (before : List Char) :
    lowerFrom before cs = cs := by
  induction cs generalizing before with
  | nil => rfl
  | cons c cs ih =>
    have hc := h c List.mem_cons_self
    rw [lowerFrom, if_neg (ne_sigma_of_stays hc), hc,
      ih fun c' hc' => h c' (List.mem_cons_of_mem c hc')]
    rfl

theorem lowerFrom_stays (before cs : List Char) : ∀ d ∈ lowerFrom before cs, lowerChar d = [d] := by
  have hsigma : lowerChar (Char.ofNat 0x3c2) = [Char.ofNat 0x3c2] ∧
      lowerChar (Char.ofNat 0x3c3) = [Char.ofNat 0x3c3] := by decide
  induction cs generalizing before with
  | nil =>
    intro d hd
    cases hd
  | cons c cs ih =>
    intro d hd
    rw [lowerFrom] at hd
    rcases List.mem_append.mp hd with hd | hd
    · split at hd
      · split at hd
        · rw [List.mem_singleton.mp hd]
          exact hsigma.1
        · rw [List.mem_singleton.mp hd]
          exact hsigma.2
      · exact lowerChar_stays c d hd
    · exact ih (c :: before) d hd

/-- Lower case taken twice is lower case. -/
theorem lower_lower (s : String) : lower (lower s) = lower s := by
  rw [lower, lowerFrom_of_stays, String.ofList_toList]
  rw [lower, String.toList_ofList]
  exact lowerFrom_stays [] s.toList

/-! ### Numbers -/

/-- A character with the property is left alone, and none is brought in. -/
structure Kept (p : Char → Bool) : Prop extends NotBroughtIn p where
  stays : ∀ c, p c = true → lowerChar c = [c]

/-- Lower case of a text has the property throughout if and only if the text has. -/
theorem Kept.all_lowerFrom {p : Char → Bool} (hp : Kept p) (before cs : List Char) :
    (lowerFrom before cs).all p = cs.all p := by
  have hsigma : p (Char.ofNat 0x3a3) = false := by
    rw [Bool.eq_false_iff]
    intro h
    exact ne_sigma_of_stays (hp.stays _ h) rfl
  induction cs generalizing before with
  | nil => rfl
  | cons c cs ih =>
    rw [lowerFrom, List.all_append, List.all_cons, ih]
    congr 1
    split
    · rename_i hc
      rw [hc, hsigma]
      split
      · simpa using hp.of_apart (n := 0x3c2) (by decide)
      · simpa using hp.of_apart (n := 0x3c3) (by decide)
    · rcases hc : p c with _ | _
      · obtain ⟨d, ds, hds⟩ := List.exists_cons_of_ne_nil (lowerChar_ne_nil c)
        have hd := hp.lowerChar hc d (by rw [hds]; exact List.mem_cons_self)
        rw [hds, List.all_cons, hd, Bool.false_and]
      · rw [hp.stays c hc, List.all_cons, hc]
        rfl

/-- A text without the property in front has none in front of its lower case. -/
theorem NotBroughtIn.head {p : Char → Bool} (hp : NotBroughtIn p) {c : Char} (h : p c = false)
    (before cs : List Char) : ∃ d ds, Unicode.lowerFrom before (c :: cs) = d :: ds ∧ p d = false := by
  rw [Unicode.lowerFrom]
  split
  · split
    · exact ⟨_, _, rfl, hp.of_apart (by decide)⟩
    · exact ⟨_, _, rfl, hp.of_apart (by decide)⟩
  · obtain ⟨d, ds, hds⟩ := List.exists_cons_of_ne_nil (lowerChar_ne_nil c)
    rw [hds]
    exact ⟨d, _, rfl, hp.lowerChar h d (by rw [hds]; exact List.mem_cons_self)⟩

theorem digit_bounds {c : Char} (h : c.isDigit = true) : 0x30 ≤ c.toNat ∧ c.toNat ≤ 0x39 := by
  simpa [Char.isDigit, UInt32.le_iff_toNat_le] using h

theorem digit_kept : Kept Char.isDigit where
  toNotBroughtIn := .of_bounds _ _ (fun _ => digit_bounds) (.inl (by decide)) (by decide)
  stays := by
    intro c hc
    obtain ⟨hfirst, hlast⟩ := digit_bounds hc
    rw [lowerChar, if_pos (by omega), toLower_of_not_capital (by omega)]

theorem plus_kept : Kept (· == '+') where
  toNotBroughtIn := .of_bounds 0x2b 0x2b
    (fun c hc => by rw [beq_iff_eq.mp hc]; exact ⟨Nat.le_refl _, Nat.le_refl _⟩)
    (.inl (by decide)) (by decide)
  stays := by
    intro c hc
    rw [beq_iff_eq.mp hc]
    rfl

end Unicode

namespace Text

open Unicode

/-- A row of digits is the same number in lower case, and nothing else becomes one. -/
theorem digits?_lowerFrom (before cs : List Char) : digits? (lowerFrom before cs) = digits? cs := by
  have hall := digit_kept.all_lowerFrom before cs
  rcases hdigits : cs.all Char.isDigit with _ | _
  · rw [hdigits] at hall
    simp [digits?, hall, hdigits]
  · rw [lowerFrom_of_stays fun c hc => digit_kept.stays c (List.all_eq_true.mp hdigits c hc)]

theorem natBelow?_plus (limit : Nat) (cs : List Char) :
    natBelow? limit (String.ofList ('+' :: cs)) = (digits? cs).filter (· < limit) := by
  simp only [natBelow?, String.toList_ofList]

theorem natBelow?_of_ne (limit : Nat) {cs : List Char} (h : ∀ rest, cs ≠ '+' :: rest) :
    natBelow? limit (String.ofList cs) = (digits? cs).filter (· < limit) := by
  simp only [natBelow?, String.toList_ofList]

/-- Lower case does not change the number that a text stands for. -/
theorem natBelow?_lower (limit : Nat) (s : String) :
    natBelow? limit (lower s) = natBelow? limit s := by
  obtain ⟨cs, rfl⟩ : ∃ cs, s = String.ofList cs := ⟨s.toList, String.ofList_toList.symm⟩
  rw [lower, String.toList_ofList]
  rcases cs with _ | ⟨c, cs⟩
  · rfl
  · by_cases hplus : c = '+'
    · subst hplus
      have hlower : lowerFrom [] ('+' :: cs) = '+' :: lowerFrom ['+'] cs := rfl
      rw [hlower, natBelow?_plus, natBelow?_plus, digits?_lowerFrom]
    · -- No other character has a plus in front of its lower case.
      have hfirst : ∀ rest, lowerFrom [] (c :: cs) ≠ '+' :: rest := by
        intro rest hrest
        obtain ⟨d, ds, hlower, hd⟩ := plus_kept.head (beq_false_of_ne hplus) [] cs
        rw [hlower] at hrest
        rw [(List.cons.inj hrest).1] at hd
        exact absurd hd (by decide)
      rw [natBelow?_of_ne limit hfirst, digits?_lowerFrom, natBelow?_of_ne limit]
      rintro rest ⟨⟩
      exact hplus rfl

/-! ## Entries -/

theorem splitOnce_of_none {sep : Char} {cs : List Char} (h : ∀ c ∈ cs, (c == sep) = false) :
    splitOnce sep (String.ofList cs) = none := by
  have hall : cs.takeWhile (· != sep) = cs :=
    List.takeWhile_eq_self_iff.mpr fun c hc => by rw [bne, h c hc]; rfl
  simp only [splitOnce, String.toList_ofList, hall, List.drop_length]

theorem splitOnce_at {sep : Char} {cs : List Char} (h : ∀ c ∈ cs, (c == sep) = false)
    (rest : List Char) : splitOnce sep (String.ofList (cs ++ sep :: rest)) =
      some (String.ofList cs, String.ofList rest) := by
  have hfront : (cs ++ sep :: rest).takeWhile (· != sep) = cs := by
    rw [List.takeWhile_append_of_pos fun c hc => by rw [bne, h c hc]; rfl]
    simp
  simp only [splitOnce, String.toList_ofList, hfront, List.drop_left]

/-- The parts of a text before and after the first bar are taken to lower case apart. -/
theorem splitOnce_lower (s : String) : splitOnce '|' (lower s) =
    (splitOnce '|' s).map fun (front, rest) => (lower front, lower rest) := by
  have hbar : Caseless '|' := ⟨by decide, by decide, rfl⟩
  obtain ⟨cs, rfl⟩ : ∃ cs, s = String.ofList cs := ⟨s.toList, String.ofList_toList.symm⟩
  rw [lower, String.toList_ofList]
  rcases eq_or_split (· == '|') cs with hnone | ⟨front, d, rest, rfl, hd, hfront⟩
  · rw [splitOnce_of_none hnone, splitOnce_of_none (bar_not_broughtIn.lowerFrom hnone [])]
    rfl
  · obtain rfl : d = '|' := beq_iff_eq.mp hd
    rw [lowerFrom_append hbar, splitOnce_at hfront,
      splitOnce_at (bar_not_broughtIn.lowerFrom hfront [])]
    simp [lower]

end Text

/-- An entry of a declaration of keywords: the class in which it stands, its word, and
what stands behind the first bar, if there is one. -/
structure DeclaredWord where
  className : String
  word : String
  score : Option String

namespace DeclaredWord

/-- An entry of a class. -/
def ofEntry (className entry : String) : DeclaredWord :=
  match Text.splitOnce '|' entry with
  | some (word, score) => { className, word, score := some score }
  | none => { className, word := entry, score := none }

/-- The score of a word: the number behind the bar if that is one and fits, else 0 if the
word is a common one and 1 if not. -/
def relevance (d : DeclaredWord) : Nat :=
  (d.score.bind (Text.natBelow? 0x100000000)).getD
    (if Unicode.lower d.word ∈ KeywordTable.commonWords then 0 else 1)

theorem className_ofEntry (className entry : String) :
    (ofEntry className entry).className = className := by
  unfold ofEntry
  split <;> rfl

/-- What is said of the word. -/
def keyword (d : DeclaredWord) : Keyword := { className := d.className, relevance := d.relevance }

end DeclaredWord

/-- The entries of a declaration, class by class and word by word. -/
def Keywords.declared : Keywords → List DeclaredWord
  | .words ws => (Text.words ws).map (DeclaredWord.ofEntry KeywordTable.defaultClass)
  | .classes cs => cs.flatMap fun (className, ws) => (Text.words ws).map (DeclaredWord.ofEntry className)

namespace KeywordTable

/-- The form in which a table keeps a word. -/
def form (anyCase : Bool) (word : String) : String :=
  if anyCase then Unicode.lower word else word

theorem words_form (anyCase : Bool) (ws : String) :
    Text.words (form anyCase ws) = (Text.words ws).map (form anyCase) := by
  unfold form
  rcases anyCase with _ | _
  · simp
  · exact Text.words_lower ws

theorem defaultRelevance_form (anyCase : Bool) (word : String) :
    defaultRelevance (form anyCase word) =
      if Unicode.lower word ∈ commonWords then 0 else 1 := by
  unfold defaultRelevance form
  rcases anyCase with _ | _
  · simp
  · simp [Unicode.lower_lower]

/-- An entry in the form of the table gives the word in that form, and its score. -/
theorem readEntry_form (anyCase : Bool) (className entry : String) :
    readEntry (form anyCase entry) = (form anyCase (DeclaredWord.ofEntry className entry).word,
      (DeclaredWord.ofEntry className entry).relevance) := by
  have hsplit : Text.splitOnce '|' (form anyCase entry) =
      (Text.splitOnce '|' entry).map fun (word, score) => (form anyCase word, form anyCase score) := by
    unfold form
    rcases anyCase with _ | _
    · simp
    · exact Text.splitOnce_lower entry
  have hscore : ∀ score, Text.natBelow? 0x100000000 (form anyCase score) =
      Text.natBelow? 0x100000000 score := by
    intro score
    unfold form
    rcases anyCase with _ | _
    · rfl
    · exact Text.natBelow?_lower _ score
  unfold readEntry DeclaredWord.ofEntry
  rw [hsplit]
  rcases Text.splitOnce '|' entry with _ | ⟨word, score⟩
  · simp [DeclaredWord.relevance, defaultRelevance_form]
  · simp [DeclaredWord.relevance, defaultRelevance_form, hscore]

/-! ## Looking up -/

/-- The words of a table. -/
def keys (t : KeywordTable) : List String := t.entries.map (·.1)

theorem keys_insert (t : KeywordTable) (word : String) (k : Keyword) :
    (t.insert word k).keys = word :: t.keys.filter (· != word) := by
  simp [keys, KeywordTable.insert, List.filter_map, Function.comp_def]

theorem mem_keys_iff_isSome_lookup (t : KeywordTable) (x : String) :
    x ∈ t.keys ↔ (t.entries.lookup x).isSome = true := by
  rw [keys, List.mem_map, List.lookup_isSome_iff]
  refine exists_congr fun entry => and_congr_right fun _ => ?_
  rw [beq_iff_eq, eq_comm]

/-- The last of the entries whose word has a form. -/
def last? (anyCase : Bool) (ds : List DeclaredWord) (x : String) : Option DeclaredWord :=
  ds.reverse.find? fun d => form anyCase d.word == x

theorem last?_eq_none_iff {anyCase : Bool} {ds : List DeclaredWord} {x : String} :
    last? anyCase ds x = none ↔ ∀ d ∈ ds, form anyCase d.word ≠ x := by
  simp [last?]

theorem last?_concat (anyCase : Bool) (ds : List DeclaredWord) (d : DeclaredWord) (x : String) :
    last? anyCase (ds ++ [d]) x = if form anyCase d.word = x then some d else last? anyCase ds x := by
  rw [last?, List.reverse_append, List.reverse_singleton, List.singleton_append, List.find?_cons]
  by_cases hx : form anyCase d.word = x
  · simp [hx]
  · simp [hx, last?, beq_false_of_ne hx]

/-- The table has each word once and says of it what the last entry says. -/
structure Holds (t : KeywordTable) (anyCase : Bool) (ds : List DeclaredWord) : Prop where
  caseInsensitive : t.caseInsensitive = anyCase
  nodup : t.keys.Nodup
  lookup : ∀ x, t.entries.lookup x = (last? anyCase ds x).map DeclaredWord.keyword

namespace Holds

variable {t : KeywordTable} {anyCase : Bool} {ds : List DeclaredWord}

/-- The words of the table are those of the entries. -/
theorem mem_keys_iff (h : t.Holds anyCase ds) (x : String) :
    x ∈ t.keys ↔ ∃ d ∈ ds, form anyCase d.word = x := by
  rw [mem_keys_iff_isSome_lookup, h.lookup, Option.isSome_map, Option.isSome_iff_ne_none, Ne,
    last?_eq_none_iff]
  simp

/-- There are as many words as the entries have different ones. -/
theorem size_eq (h : t.Holds anyCase ds) :
    t.size = (ds.map fun d => form anyCase d.word).dedup.length := by
  have hperm : t.keys.Perm (ds.map fun d => form anyCase d.word).dedup := by
    rw [List.perm_ext_iff_of_nodup h.nodup (List.nodup_dedup _)]
    intro x
    rw [h.mem_keys_iff, List.mem_dedup, List.mem_map]
  rw [← hperm.length_eq, keys, List.length_map]
  rfl

/-- One more entry takes the place of earlier ones with its word. -/
theorem insert (h : t.Holds anyCase ds) (d : DeclaredWord) :
    (t.insert (form anyCase d.word) d.keyword).Holds anyCase (ds ++ [d]) where
  caseInsensitive := h.caseInsensitive
  nodup := by
    rw [keys_insert, List.nodup_cons]
    exact ⟨by simp, h.nodup.sublist List.filter_sublist⟩
  lookup x := by
    simp only [KeywordTable.insert, List.lookup_cons, lookup_without, last?_concat, h.lookup]
    by_cases hx : x = form anyCase d.word
    · simp [hx]
    · simp [hx, beq_false_of_ne hx, Ne.symm hx]

/-- The entries of a class are put in one after another. -/
theorem addClass (h : t.Holds anyCase ds) (className words : String) :
    (t.addClass className words).Holds anyCase
      (ds ++ (Text.words words).map (DeclaredWord.ofEntry className)) := by
  have hwords : Text.words (if t.caseInsensitive = true then Unicode.lower words else words) =
      (Text.words words).map (form anyCase) := by
    rw [h.caseInsensitive]
    exact words_form anyCase words
  unfold KeywordTable.addClass
  simp only [hwords, List.foldl_map, readEntry_form anyCase className]
  clear hwords
  induction Text.words words generalizing t ds with
  | nil => simpa using h
  | cons entry entries ih =>
    rw [List.map_cons, List.foldl_cons, List.append_cons]
    have hone := h.insert (DeclaredWord.ofEntry className entry)
    rw [DeclaredWord.keyword, DeclaredWord.className_ofEntry] at hone
    exact ih hone

end Holds

theorem holds_empty (anyCase : Bool) : (⟨[], anyCase⟩ : KeywordTable).Holds anyCase [] :=
  ⟨rfl, List.nodup_nil, fun _ => rfl⟩

theorem holds_ofKeywords (ks : Keywords) (anyCase : Bool) :
    (ofKeywords ks anyCase).Holds anyCase ks.declared := by
  have hclasses : ∀ (cs : List (String × String)) (t : KeywordTable) (ds : List DeclaredWord),
      t.Holds anyCase ds → (cs.foldl (fun t (className, ws) => t.addClass className ws) t).Holds
        anyCase (ds ++ (Keywords.classes cs).declared) := by
    intro cs
    induction cs with
    | nil =>
      intro t ds h
      simpa [Keywords.declared] using h
    | cons c cs ih =>
      intro t ds h
      have hrest := ih _ _ (h.addClass c.1 c.2)
      rwa [List.append_assoc] at hrest
  cases ks with
  | words ws => exact (holds_empty anyCase).addClass defaultClass ws
  | classes cs => exact hclasses cs _ [] (holds_empty anyCase)

/-- A lexeme is looked up as the declaration reads from its end. The table says nothing if
no entry has the word, and else what the last entry with the word says: its class, and its
score or what the word counts without one. Up to case, a word and a lexeme are the same if
they have the same lower case, each on its own. The size is the number of different words. -/
theorem keywords_are_looked_up_as_declared (ks : Keywords) (anyCase : Bool) :
    (∀ lexeme, (ofKeywords ks anyCase).get? lexeme =
      (last? anyCase ks.declared (form anyCase lexeme)).map DeclaredWord.keyword) ∧
    (∀ lexeme, (ofKeywords ks anyCase).get? lexeme = none ↔
      ∀ d ∈ ks.declared, form anyCase d.word ≠ form anyCase lexeme) ∧
    (ofKeywords ks anyCase).size = (ks.declared.map fun d => form anyCase d.word).dedup.length := by
  have h := holds_ofKeywords ks anyCase
  have hget : ∀ lexeme, (ofKeywords ks anyCase).get? lexeme =
      (last? anyCase ks.declared (form anyCase lexeme)).map DeclaredWord.keyword := by
    intro lexeme
    rw [get?, h.caseInsensitive]
    exact h.lookup _
  refine ⟨hget, fun lexeme => ?_, h.size_eq⟩
  rw [hget, Option.map_eq_none_iff, last?_eq_none_iff]

/-- A final sigma is final in front of a bar as well, so that these are one word. The score
of the second entry does not fit. -/
example : (ofKeywords (.classes [("a", "ΟΔΟΣ|7"), ("b", "οδος|4294967296 Of")]) true).entries =
    [("of", ⟨"b", 0⟩), ("οδος", ⟨"b", 1⟩)] := by decide +kernel

end KeywordTable

end Highlighting
