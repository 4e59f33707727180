-- Where the text of a scan goes. A step moves text from behind the cursor to the
-- buffer and from there to the tree, and it drops nothing. It doubles a lexeme
-- where a mode both returns it and takes it. Where no mode does, what was put
-- out, followed by the buffer, is at every step the text before the cursor.
import Highlighting.Proofs.MatchBounds
import Highlighting.Proofs.StepCounts
import Highlighting.Proofs.TreeText

namespace Highlighting

/-! ## What is asked of the modes -/

namespace CompiledMode

/-- No lexeme of the mode goes to two places: one that is returned is neither
skipped over nor excluded. -/
structure TakesOnce (m : CompiledMode) : Prop where
  begins : m.returnBegin = true → m.skip = false ∧ m.excludeBegin = false
  ends : m.returnEnd = true → m.skip = false ∧ m.excludeEnd = false

instance (m : CompiledMode) : Decidable m.TakesOnce :=
  decidable_of_iff ((m.returnBegin = true → m.skip = false ∧ m.excludeBegin = false) ∧
    (m.returnEnd = true → m.skip = false ∧ m.excludeEnd = false))
    ⟨fun h => ⟨h.1, h.2⟩, fun h => ⟨h.begins, h.ends⟩⟩

/-- The lexeme at which the mode begins is returned, and taken all the same. -/
def beginsTwice (m : CompiledMode) : Bool := m.returnBegin && (m.skip || m.excludeBegin)

/-- The lexeme at which an end found in the mode stands is returned, and taken all
the same. -/
def endsTwice (m : CompiledMode) : Bool := m.returnEnd && (m.skip || m.excludeEnd)

theorem TakesOnce.beginsTwice {m : CompiledMode} (h : m.TakesOnce) : m.beginsTwice = false := by
  unfold CompiledMode.beginsTwice
  rcases hr : m.returnBegin with _ | _
  · rfl
  · simp [h.begins hr]

theorem TakesOnce.endsTwice {m : CompiledMode} (h : m.TakesOnce) : m.endsTwice = false := by
  unfold CompiledMode.endsTwice
  rcases hr : m.returnEnd with _ | _
  · rfl
  · simp [h.ends hr]

/-- The patterns with which the mode searches a text stay in the text. -/
structure StaysInText (m : CompiledMode) : Prop where
  terminators : ∀ p, m.terminators.pattern = some p → p.StaysInText
  lexemes : ∀ table p, m.dispatch = .keywords table p → p.StaysInText

/-- Whether a pattern with which the mode searches moves the start of its match. -/
def keeps (m : CompiledMode) : Bool :=
  m.terminators.pattern.any (·.program.root.keeps) ||
    match m.dispatch with
    | .keywords _ lexemes => lexemes.program.root.keeps
    | _ => false

theorem staysInText_of_not_keeps {m : CompiledMode} (h : m.keeps = false) :
    m.StaysInText := by
  unfold keeps at h
  obtain ⟨hterminators, hlexemes⟩ := Bool.or_eq_false_iff.mp h
  refine ⟨?_, ?_⟩
  · intro p hp
    rw [hp] at hterminators
    exact p.staysInText_of_not_keeps hterminators
  · intro table p hp
    rw [hp] at hlexemes
    exact p.staysInText_of_not_keeps hlexemes

theorem staysInText_of_all {modes : Array CompiledMode}
    (h : modes.all (fun m => !m.keeps) = true) : ∀ m ∈ modes, m.StaysInText := by
  intro m hm
  have hm' := Array.all_eq_true_iff_forall_mem.mp h m hm
  exact staysInText_of_not_keeps (by simpa using hm')

/-- The children at which the mode looks are modes of the language. -/
def RefersTo (m : CompiledMode) (l : CompiledLanguage) : Prop :=
  ∀ group id, (group, Rule.begins id) ∈ m.terminators.rules → id < l.modes.size

end CompiledMode

namespace Scan

/-- What is embedded gives its text back. -/
structure Host.KeepsText (h : Host) : Prop where
  embed : ∀ name text resume e, h.embed name text resume = .ok e → Node.textOfAll e.nodes = text
  detect : ∀ names text name e, h.detect names text = .ok (some (name, e)) →
    Node.textOfAll e.nodes = text

/-- What is embedded as one language gives its text back. -/
def Host.KeepsTextAs (h : Host) : SubLanguage → Prop
  | .name name => ∀ text resume e, h.embed name text resume = .ok e → Node.textOfAll e.nodes = text
  | .candidates names => ∀ text name e, h.detect names text = .ok (some (name, e)) →
    Node.textOfAll e.nodes = text

theorem Host.KeepsText.as {h : Host} (hh : h.KeepsText) (language : SubLanguage) :
    h.KeepsTextAs language := by
  cases language with
  | name name => exact hh.embed name
  | candidates names => exact hh.detect names

/-- What a scan needs so as to find its way. -/
structure Context.Sound (c : Context) : Prop where
  staysInText : ∀ m ∈ c.language.modes, m.StaysInText
  refersTo : ∀ m ∈ c.language.modes, m.RefersTo c.language

/-- What a scan needs so as to put out what it collected. Of the host it needs only
what its own modes embed. -/
structure Context.PutsOut (c : Context) : Prop extends c.Sound where
  host : ∀ h, c.host = some h → ∀ m ∈ c.language.modes, ∀ language,
    m.dispatch = .embedded language → h.KeepsTextAs language

/-- What a scan needs so as to keep its text. Of the host it needs only what
its own modes embed. -/
structure Context.KeepsText (c : Context) : Prop extends c.Sound where
  host : ∀ h, c.host = some h → ∀ m ∈ c.language.modes, ∀ language,
    m.dispatch = .embedded language → h.KeepsTextAs language
  takesOnce : ∀ m ∈ c.language.modes, m.TakesOnce

theorem Context.KeepsText.putsOut {c : Context} (hc : c.KeepsText) : c.PutsOut :=
  { hc.toSound with host := hc.host }

/-! ## Slices -/

theorem slice_append (text : Array Char) {i j k : Nat} (hij : i ≤ j) (hjk : j ≤ k) :
    Regex.slice text i j ++ Regex.slice text j k = Regex.slice text i k := by
  unfold Regex.slice
  rw [← Array.toList_append, Array.extract_append_extract, Nat.min_eq_left hij,
    Nat.max_eq_right hjk]

theorem length_slice {text : Array Char} {i j : Nat} (hj : j ≤ text.size) :
    (String.ofList (Regex.slice text i j)).length = j - i := by
  rw [String.length_ofList, Regex.slice, Array.length_toList, Array.size_extract, Nat.min_eq_left hj]

theorem Context.slice_append (c : Context) {i j k : Nat} (hij : i ≤ j) (hjk : j ≤ k) :
    c.slice i j ++ c.slice j k = c.slice i k := by
  unfold Context.slice
  rw [← String.ofList_append, Scan.slice_append c.text hij hjk]

theorem Context.slice_succ (c : Context) {i : Nat} {ch : Char} (h : c.text[i]? = some ch) :
    c.slice i (i + 1) = String.singleton ch := by
  obtain ⟨hi, hget⟩ := Array.getElem?_eq_some_iff.mp h
  unfold Context.slice Regex.slice
  rw [String.singleton_eq_ofList]
  congr 1
  rw [Array.toList_extract, List.extract_eq_take_drop]
  have hdrop : c.text.toList.drop i = ch :: c.text.toList.drop (i + 1) := by
    rw [List.drop_eq_getElem_cons (by simpa using hi)]
    simp [hget]
  simp [hdrop]

/-! ## Pieces -/

/-- The text of a piece. -/
def Piece.written : Piece → String
  | text value => value
  | keyword _ lexeme => lexeme

/-- The texts of pieces, in order. -/
def writtenAll : List Piece → String
  | [] => ""
  | p :: ps => p.written ++ writtenAll ps

/-- The pieces of a text from `done` on put together are the text from `done` on. -/
theorem writtenAll_piecesFrom (table : KeywordTable) (lexemes : Pattern)
    (hlex : lexemes.StaysInText) (text : Array Char) (fuel done next : Nat) (hnext : done ≤ next)
    (hdone : done ≤ text.size) :
    writtenAll (piecesFrom table lexemes text fuel done next) =
      String.ofList (Regex.slice text done text.size) := by
  induction fuel generalizing done next with
  | zero => simp [piecesFrom, writtenAll, Piece.written]
  | succ fuel ih =>
    rw [piecesFrom]
    rcases hs : lexemes.search text next with _ | found
    · simp [writtenAll, Piece.written]
    · obtain ⟨h1, h2, h3⟩ := hlex text next found hs
      have hrest := ih found.stop (if found.start < found.stop then found.stop else found.stop + 1)
        (by split <;> omega) h3
      rcases hk : table.get? (String.ofList (Regex.slice text found.start found.stop)) with _ | k <;>
        simp only [hk, writtenAll, Piece.written, hrest, ← String.ofList_append,
          slice_append text h2 h3, slice_append text (Nat.le_trans hnext h1) (Nat.le_trans h2 h3)]

theorem writtenAll_pieces (table : KeywordTable) (lexemes : Pattern)
    (hlex : lexemes.StaysInText) (text : String) :
    writtenAll (pieces table lexemes text) = text := by
  unfold pieces
  rw [writtenAll_piecesFrom table lexemes hlex _ _ 0 0 (Nat.le_refl _) (Nat.zero_le _)]
  simp [Regex.slice]

/-! ## Putting out the buffer -/

/-- The text that was put out, and then the buffer. -/
def State.written (s : State) : String := s.tree.text ++ s.buffer

@[simp] theorem written_push (s : State) (text : String) :
    (s.push text).written = s.written ++ text := by
  simp [State.written, State.push, String.append_assoc]

theorem emit_text (s : State) (p : Piece) :
    (s.emit p).tree.text = s.tree.text ++ p.written ∧ (s.emit p).buffer = s.buffer := by
  cases p <;> simp [State.emit, Piece.written, State.score]

theorem emitAll_text (ps : List Piece) (s : State) :
    (ps.foldl State.emit s).tree.text = s.tree.text ++ writtenAll ps ∧
      (ps.foldl State.emit s).buffer = s.buffer := by
  induction ps generalizing s with
  | nil => simp [writtenAll]
  | cons p ps ih =>
    obtain ⟨ht, hb⟩ := emit_text s p
    obtain ⟨ht', hb'⟩ := ih (s.emit p)
    rw [List.foldl_cons, ht', hb', ht, hb]
    exact ⟨by rw [writtenAll, String.append_assoc], rfl⟩

theorem embed_text (s : State) (language : String) (weight : Nat) (e : Embedded) :
    (s.embed language weight e).tree.text = s.tree.text ++ Node.textOfAll e.nodes ∧
      (s.embed language weight e).buffer = s.buffer := by
  unfold State.embed
  split <;> simp [State.score]

theorem flushEmbedded_text {s s' : State} {c : Context} {language : SubLanguage} {weight : Nat}
    {text : String} (hhost : ∀ h, c.host = some h → h.KeepsTextAs language)
    (h : s.flushEmbedded c language weight text = .ok s') :
    s'.tree.text = s.tree.text ++ text ∧ s'.buffer = s.buffer := by
  unfold State.flushEmbedded at h
  simp only at h
  split at h
  · cases h; exact ⟨by simp, rfl⟩
  · rename_i host hc
    have hk := hhost host hc
    split at h
    · rename_i name
      split at h
      · obtain ⟨e, he, h⟩ := bind_eq_ok.mp h
        rw [pure_eq_ok] at h
        rw [← h, ← hk _ _ _ he]
        exact embed_text _ name weight e
      · cases h; exact ⟨by simp, rfl⟩
    · obtain ⟨o, ho, h⟩ := bind_eq_ok.mp h
      rcases o with _ | ⟨name, e⟩
      · cases h; exact ⟨by simp, rfl⟩
      · cases h
        rw [← hk _ _ _ ho]
        exact embed_text s name weight e

theorem top?_mem {s : State} {c : Context} {m : CompiledMode} (h : s.top? c = some m) :
    m ∈ c.language.modes := by
  unfold State.top? at h
  obtain ⟨f, _, hf⟩ := Option.bind_eq_some_iff.mp h
  exact Array.mem_of_getElem? hf

/-- A flush moves the buffer to the end of the tree. -/
theorem flush_text {s s' : State} {c : Context} (hc : c.PutsOut) (h : s.flush c = .ok s') :
    s'.tree.text = s.written ∧ s'.buffer = "" := by
  unfold State.flush at h
  simp only at h
  split at h
  · cases h; exact ⟨by simp [State.written], rfl⟩
  · rename_i m hm
    have hmem : m ∈ c.language.modes := top?_mem hm
    split at h
    · cases h; exact ⟨by simp [State.written], rfl⟩
    · rename_i table lexemes hd
      cases h
      obtain ⟨ht, hb⟩ := emitAll_text (pieces table lexemes s.buffer) { s with buffer := "" }
      rw [writtenAll_pieces table lexemes ((hc.staysInText m hmem).lexemes table lexemes hd)] at ht
      exact ⟨ht, hb⟩
    · rename_i language hd
      split at h
      · rename_i hempty
        cases h
        refine ⟨?_, rfl⟩
        rw [State.written, String.isEmpty_iff.mp hempty, String.append_empty]
      · exact flushEmbedded_text (fun h hh => hc.host h hh m hmem language hd) h

theorem flush_written {s s' : State} {c : Context} (hc : c.PutsOut) (h : s.flush c = .ok s') :
    s'.written = s.written := by
  obtain ⟨ht, hb⟩ := flush_text hc h
  rw [State.written, ht, hb, String.append_empty]

/-! ## Opening and closing -/

theorem enter_written (s : State) (c : Context) (id : Nat) (bound : Option Pattern) :
    (s.enter c id bound).written = s.written := by
  unfold State.enter
  split <;> simp [State.written]

theorem leave_written (s : State) (c : Context) : (s.leave c).written = s.written := by
  unfold State.leave
  split
  · rfl
  · rename_i f fs _
    have htree : (if f.opened then s.tree.close else s.tree).text = s.tree.text := by
      split <;> simp
    simp only
    split
    · simp [State.written, htree]
    · split <;> simp [State.written, State.score, htree]

theorem leave_buffer (s : State) (c : Context) : (s.leave c).buffer = s.buffer := by
  unfold State.leave
  split
  · rfl
  · simp only
    split
    · rfl
    · split <;> rfl

theorem leaveAll_buffer (s : State) (c : Context) (n : Nat) :
    (s.leaveAll c n).buffer = s.buffer := by
  induction n generalizing s with
  | zero => rfl
  | succ n ih => rw [State.leaveAll, ih, leave_buffer]

theorem leaveAll_written (s : State) (c : Context) (n : Nat) :
    (s.leaveAll c n).written = s.written := by
  induction n generalizing s with
  | zero => rfl
  | succ n ih => rw [State.leaveAll, ih, leave_written]

theorem follow_written (s : State) (c : Context) (closed : Option Frame) :
    (s.follow c closed).written = s.written := by
  unfold State.follow
  split
  · exact enter_written _ _ _ _
  · rfl

/-- The lexeme at which a mode begins is taken, or left for the mode if that
returns it. -/
theorem takeBegin_written {s s' : State} {c : Context} {m : CompiledMode} {lexeme : String}
    (hc : c.PutsOut) (h : s.takeBegin c m lexeme = .ok s') :
    s'.written = s.written ++
      (if m.returnBegin && !m.beginsTwice then "" else lexeme) := by
  unfold State.takeBegin at h
  unfold CompiledMode.beginsTwice
  split at h
  · rename_i hskip
    cases h
    simp [hskip]
  · rename_i hskip
    obtain ⟨s₁, hf, h⟩ := bind_eq_ok.mp h
    have hw := flush_written hc hf
    rw [pure_eq_ok] at h
    subst h
    rcases hr : m.returnBegin with _ | _ <;> rcases he : m.excludeBegin with _ | _ <;>
      simp [he, hskip] at hw ⊢ <;> simp [hw]

theorem takeEnd_written {s s' : State} {c : Context} {m : CompiledMode} {lexeme : String}
    (hc : c.PutsOut) (h : s.takeEnd c m lexeme = .ok s') :
    s'.written = s.written ++ (if m.returnEnd && !m.endsTwice then "" else lexeme) := by
  unfold State.takeEnd at h
  unfold CompiledMode.endsTwice
  split at h
  · rename_i hskip
    cases h
    simp [hskip]
  · rename_i hskip
    obtain ⟨s₁, hf, h⟩ := bind_eq_ok.mp h
    have hw := flush_written hc hf
    rw [pure_eq_ok] at h
    subst h
    rcases hr : m.returnEnd with _ | _ <;> rcases he : m.excludeEnd with _ | _ <;>
      simp [he, hr, hskip] at hw ⊢ <;> simp [hw]

/-! ## One step -/

/-- The state that an outcome holds. -/
def Outcome.state : Outcome → State
  | next s => s
  | done s => s

theorem find_bounds {ts : Terminators} {text : Array Char} {start : Nat} {t : Terminator}
    (hp : ∀ p, ts.pattern = some p → p.StaysInText) (h : ts.find text start = some t) :
    start ≤ t.start ∧ t.start ≤ t.stop ∧ t.stop ≤ text.size := by
  unfold Terminators.find at h
  obtain ⟨p, hpat, h⟩ := Option.bind_eq_some_iff.mp h
  obtain ⟨found, hs, h⟩ := Option.bind_eq_some_iff.mp h
  obtain ⟨r, _, h⟩ := Option.bind_eq_some_iff.mp h
  cases h
  exact hp p hpat text start found hs

theorem find_rule {ts : Terminators} {text : Array Char} {start : Nat} {t : Terminator}
    (h : ts.find text start = some t) : ∃ group, (group, t.rule) ∈ ts.rules := by
  unfold Terminators.find at h
  obtain ⟨p, _, h⟩ := Option.bind_eq_some_iff.mp h
  obtain ⟨found, _, h⟩ := Option.bind_eq_some_iff.mp h
  obtain ⟨⟨group, rule⟩, hr, h⟩ := Option.bind_eq_some_iff.mp h
  cases h
  exact ⟨group, List.mem_of_find?_eq_some hr⟩

theorem nextTerminator?_some {s : State} {c : Context} {t : Terminator}
    (h : s.nextTerminator? c = some t) :
    ∃ m, s.top? c = some m ∧ m.terminators.find c.text s.cursor = some t :=
  Option.bind_eq_some_iff.mp h

theorem nextTerminator?_bounds {s : State} {c : Context} {t : Terminator} (hc : c.Sound)
    (h : s.nextTerminator? c = some t) :
    s.cursor ≤ t.start ∧ t.start ≤ t.stop ∧ t.stop ≤ c.text.size := by
  obtain ⟨m, hm, hf⟩ := nextTerminator?_some h
  exact find_bounds (hc.staysInText m (top?_mem hm)).terminators hf

/-- A child that begins is a mode of the language. -/
theorem nextTerminator?_begins {s : State} {c : Context} {t : Terminator} {id : Nat}
    (hc : c.Sound) (h : s.nextTerminator? c = some t) (hrule : t.rule = .begins id) :
    ∃ m, c.language.mode? id = some m := by
  obtain ⟨m, hm, hf⟩ := nextTerminator?_some h
  obtain ⟨group, hg⟩ := find_rule hf
  rw [hrule] at hg
  have hlt := hc.refersTo m (top?_mem hm) group id hg
  exact ⟨_, Array.getElem?_eq_getElem hlt⟩

/-- All the text of a scan: what was put out, the buffer, and the text from the
cursor on. -/
def State.account (s : State) (c : Context) : String := s.written ++ c.slice s.cursor c.text.size

/-- Where the next terminator starts, or the cursor if there is none. -/
def State.ahead (s : State) (c : Context) : Nat :=
  ((s.nextTerminator? c).map Terminator.start).getD s.cursor

/-- The lexeme that the next step takes and returns all the same. -/
def State.takenTwice (s : State) (c : Context) : String :=
  match s.nextTerminator? c with
  | none => ""
  | some t =>
    if (s.reach c t).isDegenerate t then ""
    else match t.rule with
      | .begins id =>
        if (c.language.mode? id).any CompiledMode.beginsTwice then c.slice t.start t.stop else ""
      | .ends =>
        if (closedBy? c t.start s.frames).isSome && (s.top? c).any CompiledMode.endsTwice then
          c.slice t.start t.stop
        else ""
      | .illegal => ""

theorem ahead_of_next {s : State} {c : Context} {t : Terminator}
    (h : s.nextTerminator? c = some t) : s.ahead c = t.start := by
  rw [State.ahead, h]
  rfl

@[simp] theorem Context.slice_self (c : Context) (i : Nat) : c.slice i i = "" := by
  simp [Context.slice, Regex.slice]

theorem account_ahead {s : State} {c : Context} (hc : c.Sound) :
    s.written ++ c.slice s.cursor (s.ahead c) ++ c.slice (s.ahead c) c.text.size = s.account c := by
  rcases hnext : s.nextTerminator? c with _ | t
  · simp [State.ahead, hnext, State.account]
  · have hb := nextTerminator?_bounds hc hnext
    rw [ahead_of_next hnext, String.append_assoc, c.slice_append hb.1 (by omega)]
    rfl

theorem forceChar_account (s : State) (c : Context) (pos : Nat) :
    (s.forceChar c pos).state.account c = s.written ++ c.slice pos c.text.size := by
  unfold State.forceChar State.account
  rcases hch : c.text[pos]? with _ | ch
  · have hsize : c.text.size ≤ pos := Array.getElem?_eq_none_iff.mp hch
    have hrest : c.slice pos c.text.size = c.slice c.text.size c.text.size := by
      simp [Context.slice, Regex.slice, Array.extract_empty_of_stop_le_start hsize]
    rw [hrest]
    rfl
  · obtain ⟨hlt, _⟩ := Array.getElem?_eq_some_iff.mp hch
    rw [← c.slice_append (Nat.le_succ pos) hlt, c.slice_succ hch, ← String.append_assoc,
      ← written_push s]
    rfl

/-- A lexeme that is taken, or returned, or both. -/
theorem account_taken {s : State} {c : Context} {t : Terminator} {before : String}
    (returned twice : Bool) (hb : t.start ≤ t.stop ∧ t.stop ≤ c.text.size)
    (htwice : twice = true → returned = true)
    (hwritten : s.written =
      before ++ (if returned && !twice then "" else c.slice t.start t.stop))
    (hcursor : s.cursor = if returned then t.start else t.stop) :
    s.account c = before ++ (if twice then c.slice t.start t.stop else "") ++
      c.slice t.start c.text.size := by
  rw [State.account, hwritten, hcursor]
  cases returned with
  | false =>
    have hnot : twice = false := by simpa using htwice
    have hrest := c.slice_append hb.1 hb.2
    simp [hnot, String.append_assoc, hrest]
  | true => cases twice <;> simp

/-- A step drops nothing, and doubles only the lexeme that it takes twice. -/
theorem account_step {c : Context} (hc : c.PutsOut) {s : State} {o : Outcome}
    (h : s.step c = .ok o) :
    o.state.account c = s.written ++ c.slice s.cursor (s.ahead c) ++ s.takenTwice c ++
      c.slice (s.ahead c) c.text.size := by
  -- What a step takes starts where the terminator does.
  have hstop : ∀ t, s.nextTerminator? c = some t →
      c.slice t.start t.stop ++ c.slice t.stop c.text.size = c.slice t.start c.text.size := by
    intro t hnext
    have hb := nextTerminator?_bounds hc.toSound hnext
    exact c.slice_append hb.2.1 hb.2.2
  cases takes_of_step h with
  | done hnext =>
    simp [State.ahead, State.takenTwice, hnext, State.account, Outcome.state]
  | forced t hnext hdegenerate =>
    have htwice : s.takenTwice c = "" := by simp [State.takenTwice, hnext, hdegenerate]
    rw [forceChar_account, htwice, ahead_of_next hnext, String.append_empty]
    rw [State.reach, written_push]
  | text t hnext hdegenerate hrule =>
    have htwice : s.takenTwice c = "" := by
      rcases hrule with ⟨hrule, hclosed⟩ | hrule
      · simp [State.takenTwice, hnext, hdegenerate, hrule, hclosed]
      · simp [State.takenTwice, hnext, hdegenerate, hrule]
    rw [htwice, ahead_of_next hnext, String.append_empty, ← written_push]
    unfold State.asText
    split
    · rw [← hstop t hnext, ← String.append_assoc, ← written_push]
      rfl
    · exact forceChar_account _ _ _
  | begins t id s' hnext hdegenerate hrule hbegin =>
    obtain ⟨m, hm⟩ := nextTerminator?_begins hc.toSound hnext hrule
    obtain ⟨bound, s₁, _, htake, rfl⟩ := (beginMode_eq_ok hm).mp hbegin
    have htwice : s.takenTwice c = if m.beginsTwice then c.slice t.start t.stop else "" := by
      simp [State.takenTwice, hnext, hdegenerate, hrule, hm]
    have hwritten := takeBegin_written hc htake
    rw [htwice, ahead_of_next hnext, ← written_push]
    refine account_taken m.returnBegin m.beginsTwice (nextTerminator?_bounds hc.toSound hnext).2 ?_
      ((enter_written s₁ c id bound).trans hwritten) rfl
    intro h
    simp only [CompiledMode.beginsTwice, Bool.and_eq_true] at h
    exact h.1
  | ends t n s' hnext hdegenerate hrule hclosed hend =>
    obtain ⟨m, hm, _⟩ := nextTerminator?_some hnext
    have hm' : ((s.reach c t).note t).top? c = some m := hm
    obtain ⟨s₁, htake, rfl⟩ := (endModes_eq_ok hm').mp hend
    have htwice : s.takenTwice c = if m.endsTwice then c.slice t.start t.stop else "" := by
      simp [State.takenTwice, hnext, hdegenerate, hrule, hclosed, hm]
    have hwritten := takeEnd_written hc htake
    have hsame : ((s₁.leaveAll c n).follow c
        (((s.reach c t).note t).lastClosed? n)).written = s₁.written := by
      rw [follow_written, leaveAll_written]
    rw [htwice, ahead_of_next hnext, ← written_push]
    refine account_taken m.returnEnd m.endsTwice (nextTerminator?_bounds hc.toSound hnext).2 ?_
      (hsame.trans hwritten) rfl
    intro h
    simp only [CompiledMode.endsTwice, Bool.and_eq_true] at h
    exact h.1

/-- What was put out, and then the buffer, is the text before the cursor. -/
structure Aligned (c : Context) (s : State) : Prop where
  inText : s.cursor ≤ c.text.size
  written : s.written = c.slice 0 s.cursor

theorem forceChar_inText (s : State) (c : Context) (pos : Nat) :
    (s.forceChar c pos).state.cursor ≤ c.text.size := by
  unfold State.forceChar
  rcases hch : c.text[pos]? with _ | ch
  · exact Nat.le_refl _
  · exact (Array.getElem?_eq_some_iff.mp hch).1

theorem step_inText {c : Context} (hc : c.Sound) {s : State} {o : Outcome}
    (hs : s.cursor ≤ c.text.size) (h : s.step c = .ok o) : o.state.cursor ≤ c.text.size := by
  cases takes_of_step h with
  | done hnext => exact hs
  | forced t hnext _ => exact forceChar_inText _ _ _
  | text t hnext _ _ =>
    unfold State.asText
    split
    · exact (nextTerminator?_bounds hc hnext).2.2
    · exact forceChar_inText _ _ _
  | begins t id s' hnext _ hrule hbegin =>
    have hb := nextTerminator?_bounds hc hnext
    obtain ⟨m, hm⟩ := nextTerminator?_begins hc hnext hrule
    obtain ⟨bound, s₁, _, _, rfl⟩ := (beginMode_eq_ok hm).mp hbegin
    simp only [Outcome.state]
    split <;> omega
  | ends t n s' hnext _ hrule hclosed hend =>
    have hb := nextTerminator?_bounds hc hnext
    obtain ⟨m, hm, _⟩ := nextTerminator?_some hnext
    have hm' : ((s.reach c t).note t).top? c = some m := hm
    obtain ⟨s₁, _, rfl⟩ := (endModes_eq_ok hm').mp hend
    simp only [Outcome.state]
    split <;> omega

/-- Where no mode takes a lexeme that it returns, no step does. -/
theorem takenTwice_of_takesOnce {c : Context} (hc : ∀ m ∈ c.language.modes, m.TakesOnce)
    (s : State) : s.takenTwice c = "" := by
  have hbegins : ∀ id, (c.language.mode? id).any CompiledMode.beginsTwice = false := by
    intro id
    rcases hm : c.language.mode? id with _ | m
    · rfl
    · exact (hc m (Array.mem_of_getElem? hm)).beginsTwice
  have hends : (s.top? c).any CompiledMode.endsTwice = false := by
    rcases hm : s.top? c with _ | m
    · rfl
    · exact (hc m (top?_mem hm)).endsTwice
  unfold State.takenTwice
  split
  · rfl
  · split
    · rfl
    · split <;> simp [hbegins, hends]

theorem account_of_aligned {c : Context} {s : State} (hs : Aligned c s) :
    s.account c = c.slice 0 c.text.size := by
  rw [State.account, hs.written, c.slice_append (Nat.zero_le _) hs.inText]

/-- Every step keeps what was written and the cursor together. -/
theorem aligned_step {c : Context} (hc : c.KeepsText) {s : State} {o : Outcome}
    (hs : Aligned c s) (h : s.step c = .ok o) : Aligned c o.state := by
  have hin := step_inText hc.toSound hs.inText h
  refine ⟨hin, ?_⟩
  have haccount : o.state.account c = s.account c := by
    rw [account_step hc.putsOut h, takenTwice_of_takesOnce hc.takesOnce, String.append_empty]
    exact account_ahead hc.toSound
  rw [account_of_aligned hs, ← c.slice_append (Nat.zero_le _) hin] at haccount
  exact String.append_left_inj _ |>.mp haccount

/-! ## A whole scan -/

theorem aligned_run {c : Context} (hc : c.KeepsText) (n : Nat) {s s' : State}
    (hs : Aligned c s) (h : State.run c n s = .ok s') : Aligned c s' := by
  induction n generalizing s with
  | zero => cases h
  | succ n ih =>
    rw [State.run] at h
    obtain ⟨o, ho, h⟩ := bind_eq_ok.mp h
    have hstep := aligned_step hc hs ho
    rcases o with s₁ | s₁
    · exact ih hstep h
    · cases h
      exact hstep

/-- The end of the text puts out all that there is. -/
theorem finish_account {c : Context} (hc : c.PutsOut) {s : State} {r : Scanned}
    (h : s.finish c = .ok r) : Node.textOfAll r.nodes = s.account c := by
  unfold State.finish at h
  obtain ⟨s₁, hf, h⟩ := bind_eq_ok.mp h
  cases h
  obtain ⟨ht, hb⟩ := flush_text hc hf
  have hclosed := leaveAll_written s₁ c (s₁.frames.length - 1)
  rw [State.written, State.written, leaveAll_buffer, hb, String.append_empty,
    String.append_empty] at hclosed
  calc Node.textOfAll (s₁.leaveAll c (s₁.frames.length - 1)).tree.finish
      = s₁.tree.text := by rw [Tree.Builder.textOfAll_finish, hclosed]
    _ = s.account c := by
      rw [ht, written_push]
      rfl

theorem finish_text {c : Context} (hc : c.KeepsText) {s : State} {r : Scanned}
    (hs : Aligned c s) (h : s.finish c = .ok r) :
    Node.textOfAll r.nodes = c.slice 0 c.text.size := by
  rw [finish_account hc.putsOut h, account_of_aligned hs]

/-- The nodes of a scan give back the text that was scanned. -/
theorem scanWithin_text {c : Context} (hc : c.KeepsText) {steps : Nat} {lead : String}
    {resume : Option Continuation} {r : Scanned} (h : scanWithin steps c lead resume = .ok r) :
    Node.textOfAll r.nodes = c.slice 0 c.text.size := by
  rcases scanWithin_eq_ok.mp h with ⟨hempty, rfl⟩ | ⟨_, s, hrun, hfinish⟩
  · have hsize : c.text.size = 0 := by simpa using hempty
    simp [Context.slice, Regex.slice, hsize]
  · have hstart : Aligned c (startState lead resume) := by
      refine ⟨Nat.zero_le _, ?_⟩
      simp [startState, State.written, Context.slice, Regex.slice]
    exact finish_text hc (aligned_run hc steps hstart hrun) hfinish

end Scan

end Highlighting
