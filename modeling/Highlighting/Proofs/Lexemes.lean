-- How the text of a mode with keywords is parted. The lexemes are found one
-- after another, each search from where the lexeme before it stopped. What
-- stands between them is put out as text, and a lexeme as a keyword if the
-- table lists it. Nothing is skipped and nothing doubled, also where lexemes
-- are empty.
import Highlighting.Proofs.EndChains
import Highlighting.Proofs.Flushes

namespace Highlighting

/-! ## The lexemes of a text -/

/-- The lexemes that are found from `next` on. The search goes on where a lexeme
stopped, and one character later if the lexeme was empty. -/
inductive Lexemes (p : Pattern) (text : Array Char) : Nat → List Pattern.Found → Prop where
  | none {next : Nat} (h : p.search text next = none) : Lexemes p text next []
  | found {next : Nat} {f : Pattern.Found} {rest : List Pattern.Found}
      (h : p.search text next = some f)
      (hrest : Lexemes p text (if f.start < f.stop then f.stop else f.stop + 1) rest) :
      Lexemes p text next (f :: rest)

/-- The text that was matched. -/
def Pattern.Found.lexeme (f : Pattern.Found) (text : Array Char) : String :=
  String.ofList (Regex.slice text f.start f.stop)

/-- A lexeme that a table lists: where it stands, and what the table says of it. -/
structure Hit where
  start : Nat
  lexeme : String
  keyword : Keyword
  deriving DecidableEq, Repr

/-- The lexemes that the table lists. -/
def KeywordTable.hits (table : KeywordTable) (text : Array Char) (found : List Pattern.Found) :
    List Hit :=
  found.filterMap fun f => (table.get? (f.lexeme text)).map (⟨f.start, f.lexeme text, ·⟩)

namespace Lexemes

variable {p : Pattern} {text : Array Char}

theorem unique {next : Nat} {found other : List Pattern.Found} (h : Lexemes p text next found)
    (h' : Lexemes p text next other) : other = found := by
  induction h generalizing other with
  | none hnone =>
    cases h' with
    | none _ => rfl
    | found hsome _ => rw [hnone] at hsome; cases hsome
  | found hsome _ ih =>
    cases h' with
    | none hnone => rw [hnone] at hsome; cases hsome
    | found hsome' hrest' =>
      rw [hsome] at hsome'
      cases hsome'
      rw [ih hrest']

/-- There are finitely many: every search goes on behind the one before it. -/
theorem exists_from (hp : p.StaysInText) (text : Array Char) (next : Nat) : ∃ found, Lexemes p text next found := by
  rcases hs : p.search text next with _ | f
  · exact ⟨[], .none hs⟩
  · obtain ⟨hstart, hstop, hsize⟩ := hp text next f hs
    obtain ⟨rest, hrest⟩ := exists_from hp text (if f.start < f.stop then f.stop else f.stop + 1)
    exact ⟨f :: rest, .found hs hrest⟩
termination_by text.size + 1 - next
decreasing_by split <;> omega

end Lexemes

namespace Scan

/-! ## The pieces of a text -/

/-- How a lexeme is put out. -/
def lexemePiece (table : KeywordTable) (word : String) : Piece :=
  match table.get? word with
  | some k => .keyword k word
  | none => .text word

/-- The pieces of a text from `done` on, if these lexemes stand in it. -/
def parts (table : KeywordTable) (text : Array Char) : Nat → List Pattern.Found → List Piece
  | done, [] => [.text (String.ofList (Regex.slice text done text.size))]
  | done, f :: found =>
    .text (String.ofList (Regex.slice text done f.start)) :: lexemePiece table (f.lexeme text) ::
      parts table text f.stop found

/-- The fuel never runs out before the lexemes do. -/
theorem piecesFrom_eq_parts (table : KeywordTable) {p : Pattern} (hp : p.StaysInText)
    {text : Array Char} {next : Nat} {found : List Pattern.Found} (h : Lexemes p text next found)
    {fuel : Nat} (hfuel : text.size < next + fuel) (done : Nat) :
    piecesFrom table p text fuel done next = parts table text done found := by
  induction h generalizing fuel done with
  | none hnone =>
    cases fuel with
    | zero => rfl
    | succ fuel => rw [piecesFrom, hnone, parts]
  | @found next f rest hsome _ ih =>
    obtain ⟨hstart, hstop, hsize⟩ := hp text next f hsome
    cases fuel with
    | zero => omega
    | succ fuel =>
      have hmore := @ih fuel (by split <;> omega) f.stop
      rw [piecesFrom, hsome, parts, ← hmore]
      rfl

theorem pieces_eq_parts (table : KeywordTable) {p : Pattern} (hp : p.StaysInText) {text : String}
    {found : List Pattern.Found} (h : Lexemes p text.toList.toArray 0 found) :
    pieces table p text = parts table text.toList.toArray 0 found :=
  piecesFrom_eq_parts table hp h (by omega) 0

/-- The keyword that a piece is, with its lexeme. -/
def Piece.keyword? : Piece → Option (Keyword × String)
  | text _ => none
  | keyword k lexeme => some (k, lexeme)

@[simp] theorem keyword?_text (value : String) : (Piece.text value).keyword? = none := rfl

@[simp] theorem keyword?_keyword (k : Keyword) (lexeme : String) :
    (Piece.keyword k lexeme).keyword? = some (k, lexeme) := rfl

@[simp] theorem keyword?_lexemePiece (table : KeywordTable) (word : String) :
    (lexemePiece table word).keyword? = (table.get? word).map (·, word) := by
  unfold lexemePiece
  split <;> simp [*]

theorem keywords_parts (table : KeywordTable) (text : Array Char) (done : Nat)
    (found : List Pattern.Found) :
    (parts table text done found).filterMap Piece.keyword? =
      (table.hits text found).map fun h => (h.keyword, h.lexeme) := by
  induction found generalizing done with
  | nil => rfl
  | cons f found ih =>
    have hrest := ih f.stop
    rcases hk : table.get? (f.lexeme text) with _ | k
    · simpa [parts, KeywordTable.hits, List.filterMap_cons, hk] using hrest
    · simpa [parts, KeywordTable.hits, List.filterMap_cons, hk] using hrest

/-! ## Where the keywords stand -/

/-- The elements of pieces that are put out from `pos` on. -/
def keywordElements (lead : String) : Nat → List Piece → List Element
  | _, [] => []
  | pos, .text value :: ps => keywordElements lead (pos + value.length) ps
  | pos, .keyword k lexeme :: ps =>
    ⟨classNames lead k.className, pos, lexeme⟩ :: keywordElements lead (pos + lexeme.length) ps

/-- A lexeme that is listed stands in the tree where it was found. -/
theorem keywordElements_parts (lead : String) (table : KeywordTable) {p : Pattern}
    (hp : p.StaysInText) {text : Array Char} {next : Nat} {found : List Pattern.Found}
    (h : Lexemes p text next found) (before : Nat) {done : Nat} (hdone : done ≤ next) :
    keywordElements lead (before + done) (parts table text done found) =
      (table.hits text found).map fun h =>
        ⟨classNames lead h.keyword.className, before + h.start, h.lexeme⟩ := by
  induction h generalizing done with
  | none _ => rfl
  | @found next f rest hsome _ ih =>
    obtain ⟨hstart, hstop, hsize⟩ := hp text next f hsome
    have hrest := @ih f.stop (by split <;> omega)
    have hbetween : before + done + (f.start - done) = before + f.start := by omega
    have hbehind : before + f.start + (f.lexeme text).length = before + f.stop := by
      rw [Pattern.Found.lexeme, length_slice hsize]
      omega
    rw [parts, keywordElements, length_slice (by omega), hbetween, lexemePiece]
    rcases hk : table.get? (f.lexeme text) with _ | k
    · simp [keywordElements, hbehind, hrest, KeywordTable.hits, hk]
    · simp [keywordElements, hbehind, hrest, KeywordTable.hits, hk]

/-! ## Putting out pieces -/

/-- What putting out pieces does to a state: the keywords become elements, in their order,
and each adds its score. -/
structure Puts (s : State) (ps : List Piece) (s' : State) : Prop where
  closed : s'.tree.closed = s.tree.closed ++ keywordElements s.tree.lead s.tree.text.length ps
  finished : s'.tree.finished = s.tree.finished ++ (ps.filterMap Piece.keyword?).map fun k =>
    .element (classNames s.tree.lead k.1.className) (Node.plain k.2)
  relevance : s'.relevance =
    (ps.filterMap Piece.keyword?).foldl (fun n k => addRelevance n k.1.relevance) s.relevance
  others : s' = { s with tree := s'.tree, relevance := s'.relevance }

namespace Puts

variable {s s' : State} {ps : List Piece}

theorem nil (s : State) : Puts s [] s where
  closed := (List.append_nil _).symm
  finished := (List.append_nil _).symm
  relevance := rfl
  others := rfl

theorem text {value : String} (h : Puts (s.emit (.text value)) ps s') :
    Puts s (.text value :: ps) s' := by
  have hlead : (s.emit (.text value)).tree.lead = s.tree.lead := (emitAll_grows [.text value] s).lead
  have hclosed : (s.emit (.text value)).tree.closed = s.tree.closed := s.tree.closed_addText value
  have hfinished : (s.emit (.text value)).tree.finished = s.tree.finished :=
    s.tree.finished_addText value
  have htext := (emit_text s (.text value)).1
  refine ⟨?_, ?_, h.relevance, h.others⟩
  · rw [h.closed, hclosed, hlead, htext, String.length_append]
    rfl
  · rw [h.finished, hfinished, hlead]
    rfl

theorem keyword {k : Keyword} {lexeme : String} (h : Puts (s.emit (.keyword k lexeme)) ps s') :
    Puts s (.keyword k lexeme :: ps) s' := by
  let n := Node.element (classNames s.tree.lead k.className) (Node.plain lexeme)
  have htree : (s.emit (.keyword k lexeme)).tree = s.tree.modify (n :: ·) := rfl
  have hlead : (s.emit (.keyword k lexeme)).tree.lead = s.tree.lead :=
    (emitAll_grows [.keyword k lexeme] s).lead
  have htext := (emit_text s (.keyword k lexeme)).1
  refine ⟨?_, ?_, h.relevance, h.others⟩
  · rw [h.closed, hlead, htext, String.length_append, htree, s.tree.closed_addNode]
    simp [n, keywordElements, Piece.written]
  · rw [h.finished, hlead, htree, s.tree.finished_addNode]
    simp [n]

end Puts

theorem emitAll_puts (ps : List Piece) (s : State) : Puts s ps (ps.foldl State.emit s) := by
  induction ps generalizing s with
  | nil => exact .nil s
  | cons p ps ih =>
    cases p with
    | text value => exact .text (ih _)
    | keyword k lexeme => exact .keyword (ih _)

/-! ## Flushing in a mode with keywords -/

/-- In a mode with keywords the buffer is parted at its lexemes, of which there are
finitely many. Its text is put out as it stands. The lexemes that the table
lists become elements, in their order and inside what is open, and each adds
its score. -/
theorem keywords_are_put_out_where_they_stand {s : State} {c : Context} {m : CompiledMode}
    {table : KeywordTable} {p : Pattern} (hm : s.top? c = some m)
    (hd : m.dispatch = .keywords table p) (hp : p.StaysInText) :
    ∃ found hits s', (∀ other, Lexemes p s.buffer.toList.toArray 0 other ↔ other = found) ∧
      hits = table.hits s.buffer.toList.toArray found ∧
      s.flush c = .ok s' ∧
      s'.tree.text = s.tree.text ++ s.buffer ∧
      s'.tree.places = s.tree.places ∧
      s'.tree.finished = s.tree.finished ++ hits.map (fun h =>
        .element (classNames s.tree.lead h.keyword.className) (Node.plain h.lexeme)) ∧
      s'.tree.closed = s.tree.closed ++ hits.map (fun h =>
        ⟨classNames s.tree.lead h.keyword.className, s.tree.text.length + h.start, h.lexeme⟩) ∧
      s'.relevance = hits.foldl (fun n h => addRelevance n h.keyword.relevance) s.relevance ∧
      s' = { s with buffer := "", tree := s'.tree, relevance := s'.relevance } := by
  obtain ⟨found, hfound⟩ := Lexemes.exists_from hp s.buffer.toList.toArray 0
  let ps := pieces table p s.buffer
  let cleared : State := { s with buffer := "" }
  have hflush : s.flush c = .ok (ps.foldl State.emit cleared) := by
    have hm' : cleared.top? c = some m := hm
    simp only [State.flush, hm', hd, cleared, ps]
  have htext : (ps.foldl State.emit cleared).tree.text = s.tree.text ++ s.buffer := by
    rw [(emitAll_text ps cleared).1, writtenAll_pieces table p hp]
  have hparts : ps = parts table s.buffer.toList.toArray 0 found := pieces_eq_parts table hp hfound
  have hkeywords := keywords_parts table s.buffer.toList.toArray 0 found
  have helements := keywordElements_parts s.tree.lead table hp hfound s.tree.text.length
    (Nat.le_refl 0)
  rw [← hparts] at hkeywords helements
  have hputs := emitAll_puts ps cleared
  -- Putting out pieces opens and closes nothing.
  have hplaces := (emitAll_grows ps cleared).places
  refine ⟨found, _, _, ?_, rfl, hflush, htext, hplaces, ?_, ?_, ?_, hputs.others⟩
  · intro other
    exact ⟨hfound.unique, fun h => h ▸ hfound⟩
  · rw [hputs.finished, hkeywords, List.map_map]
    rfl
  · rw [hputs.closed]
    exact congrArg (s.tree.closed ++ ·) helements
  · rw [hputs.relevance, hkeywords, List.foldl_map]

/-- Any number of small letters, and so also none. -/
def smallLetters : Pattern where
  source := "[a-z]*"
  program := ⟨.loop (.set (.union .none (.range 'a' 'z'))) 0 none true, 0, []⟩

/-- A language with one keyword and lexemes that may be empty. -/
def conditions : Grammar where
  root := { keywords := some (.words "if|2"), lexemes := some smallLetters.source }

theorem keyword_among_empty_lexemes :
    ∃ l m table found s', compile conditions = .ok l ∧ l.mode? 0 = some m ∧
      m.dispatch = .keywords table smallLetters ∧ smallLetters.StaysInText ∧
      Lexemes smallLetters "é if".toList.toArray 0 found ∧
      found.map (fun f => (f.start, f.stop)) = [(0, 0), (1, 1), (2, 4), (4, 4)] ∧
      State.flush { frames := [rootFrame], buffer := "é if", tree := .start "" } (scanOf l "") =
        .ok s' ∧
      s'.tree.text = "é if" ∧ s'.tree.closed = [⟨classNames "" "keyword", 2, "if"⟩] ∧ s'.relevance = 2 := by
  have hall : (compileWithin conditions 9).toOption.any (fun l => (l.mode? 0).any fun m =>
      m.dispatch == .keywords (.ofKeywords (.words "if|2") false) smallLetters) = true := by
    decide +kernel
  have hp : smallLetters.StaysInText := smallLetters.staysInText_of_not_keeps rfl
  have hfound : Lexemes smallLetters "é if".toList.toArray 0
      [⟨0, 0, []⟩, ⟨1, 1, []⟩, ⟨2, 4, []⟩, ⟨4, 4, []⟩] := by
    refine .found (by decide +kernel) (.found (by decide +kernel) (.found (by decide +kernel)
      (.found (by decide +kernel) (.none (by decide +kernel)))))
  obtain ⟨l, hl, hall⟩ := compile_of_any hall
  obtain ⟨m, hm, hd⟩ := (Option.any_eq_true _ _).mp hall
  have hd := eq_of_beq hd
  obtain ⟨found, hits, s', hiff, hhits, hflush, htext, _, _, hclosed, hrelevance, _⟩ :=
    keywords_are_put_out_where_they_stand
      (s := { frames := [rootFrame], buffer := "é if", tree := .start "" }) (c := scanOf l "")
      (m := m) hm hd hp
  rw [← (hiff _).mp hfound] at hhits
  have hone : hits = [⟨2, "if", ⟨"keyword", 2⟩⟩] := by
    rw [hhits]
    decide +kernel
  rw [hone] at hclosed hrelevance
  exact ⟨l, m, _, _, s', hl, hm, hd, hp, hfound, rfl, hflush, htext, hclosed, hrelevance⟩

end Scan

end Highlighting
