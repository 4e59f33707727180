-- What the relevance of a scan counts. The weight of a mode is added when the mode
-- is left, at an end or when the text runs out, and sums stop at a limit on the way.
-- All the same the relevance is one capped sum over the log of the scan: every
-- keyword, every mode that was entered and every embedded result counts once, and a
-- mode that an earlier part entered does not count again.
import Highlighting.Proofs.EndChains
import Highlighting.Proofs.ScanLog
import Mathlib.Algebra.GroupWithZero.Nat

namespace Highlighting.Scan

/-! ## What counts -/

/-- The score of a keyword that was put out. -/
def Act.keywordScore : Act → Nat
  | .put (.keyword k _) => k.relevance
  | _ => 0

/-- The weight of a mode. A skipped mode and one that holds another language have none. -/
def weightOf (c : Context) (id : Nat) : Nat :=
  match c.language.mode? id with
  | some m => if m.skip || m.isEmbedded then 0 else m.relevance
  | none => 0

/-- The weight of a mode that was entered. -/
def Act.modeScore (c : Context) : Act → Nat
  | .enter id _ => weightOf c id
  | _ => 0

/-- The relevance of an embedded result, if its mode weighs anything. -/
def Act.embeddedScore : Act → Nat
  | .embedded _ weight e => if 0 < weight then e.relevance else 0
  | _ => 0

/-- The sum of a score over a log. -/
def total (score : Act → Nat) (acts : List Act) : Nat := (acts.map score).sum

/-- All that counts in a log: keywords, modes and embedded results. -/
def scoreOf (c : Context) (acts : List Act) : Nat :=
  total Act.keywordScore acts + total (Act.modeScore c) acts + total Act.embeddedScore acts

theorem total_append (score : Act → Nat) (acts more : List Act) :
    total score (acts ++ more) = total score acts + total score more := by
  simp [total]

theorem scoreOf_append (c : Context) (acts more : List Act) :
    scoreOf c (acts ++ more) = scoreOf c acts + scoreOf c more := by
  simp only [scoreOf, total_append]
  omega

/-! ## What is owed

The weights of the open modes are not counted yet. The outermost mode is never left,
and those of an earlier part were counted there. -/

/-- The weight that a frame adds when it is left. -/
def Frame.due (c : Context) (f : Frame) : Nat := if f.resumed then 0 else weightOf c f.mode

/-- What the open modes will add when all but the outermost are left. -/
def owed (c : Context) (frames : List Frame) : Nat := (frames.dropLast.map (Frame.due c)).sum

/-- The score that a state comes to if nothing more happens, without the limit. -/
def State.balance (s : State) (c : Context) : Nat := s.relevance + owed c s.frames

/-- The two numbers are the same once they are capped. -/
def SameScore (m n : Nat) : Prop := min m relevanceLimit = min n relevanceLimit

theorem owed_cons (c : Context) (f : Frame) {frames : List Frame} (h : frames ≠ []) :
    owed c (f :: frames) = f.due c + owed c frames := by
  simp [owed, List.dropLast_cons_of_ne_nil h]

theorem score_relevance (s : State) (n : Nat) :
    SameScore (s.score n).relevance (s.relevance + n) := by
  unfold SameScore State.score addRelevance
  simp only
  omega

theorem embed_relevance (s : State) (language : String) (weight : Nat) (e : Embedded) :
    SameScore (s.embed language weight e).relevance
      (s.relevance + (Act.embedded language weight e).embeddedScore) := by
  unfold State.embed Act.embeddedScore
  by_cases hweight : weight = 0
  · simp [hweight, SameScore]
  · simp only [hweight, if_false, Nat.pos_of_ne_zero hweight, if_true]
    exact score_relevance s e.relevance

theorem enter_relevance (s : State) (c : Context) (id : Nat) (bound : Option Pattern) :
    (s.enter c id bound).relevance = s.relevance := by
  unfold State.enter
  split <;> rfl

/-- Leaving a mode counts what it owes. -/
theorem leave_relevance {s : State} {c : Context} {f : Frame} {frames : List Frame}
    (h : s.frames = f :: frames) :
    SameScore (s.leave c).relevance (s.relevance + f.due c) := by
  have hmode : c.modeOf? f = c.language.mode? f.mode := rfl
  unfold State.leave Frame.due weightOf
  simp only [h, hmode]
  rcases c.language.mode? f.mode with _ | m
  · simp [SameScore]
  · rcases f.resumed with _ | _
    · simp only [Bool.false_or, Bool.false_eq_true, if_false]
      split
      · exact rfl
      · exact score_relevance _ m.relevance
    · simp [SameScore]

/-! ## One capped sum -/

/-- An act adds its score to the balance. The weight of a mode comes in when the mode is
entered, and leaving the mode only moves it. -/
theorem play_balance {s : State} {c : Context} (hs : s.frames ≠ []) {a : Act}
    (ha : a = .leave → 2 ≤ s.frames.length) :
    SameScore ((s.play c a).balance c) (s.balance c + scoreOf c [a]) := by
  cases a with
  | put p =>
    have hframes : (s.emit p).frames = s.frames := (emit_sameControl s p).frames
    simp only [State.play, State.balance, hframes]
    cases p with
    | text value => exact rfl
    | keyword k lexeme =>
      have hscore := score_relevance s k.relevance
      have hact : scoreOf c [.put (.keyword k lexeme)] = k.relevance := by
        simp [scoreOf, total, Act.keywordScore, Act.modeScore, Act.embeddedScore]
      rw [hact]
      unfold SameScore at hscore ⊢
      simp only [State.emit]
      omega
  | embedded language weight e =>
    have hframes : (s.embed language weight e).frames = s.frames :=
      (embed_sameControl s language weight e).frames
    have hscore := embed_relevance s language weight e
    have hact : scoreOf c [.embedded language weight e] =
        (Act.embedded language weight e).embeddedScore := by
      simp [scoreOf, total, Act.keywordScore, Act.modeScore]
    rw [hact]
    unfold SameScore at hscore ⊢
    simp only [State.play, State.balance, hframes]
    omega
  | enter id bound =>
    obtain ⟨opened, hframes⟩ := enter_frames s c id bound
    have hact : scoreOf c [.enter id bound] = weightOf c id := by
      simp [scoreOf, total, Act.keywordScore, Act.modeScore, Act.embeddedScore]
    have hdue : Frame.due c ⟨id, bound, opened, false⟩ = weightOf c id := rfl
    simp only [State.play, State.balance, hframes, enter_relevance, hact, owed_cons c _ hs, hdue]
    unfold SameScore
    omega
  | leave =>
    have hlength := ha rfl
    rcases hframes : s.frames with _ | ⟨f, frames⟩
    · exact absurd hframes hs
    · have hrest : frames ≠ [] := by
        rintro rfl
        simp [hframes] at hlength
      have hscore := leave_relevance (c := c) hframes
      have hleft : (s.leave c).frames = frames := by rw [leave_frames, hframes, List.tail_cons]
      have hact : scoreOf c [.leave] = 0 := rfl
      simp only [State.play, State.balance, hleft, hframes, owed_cons c f hrest, hact]
      unfold SameScore at hscore ⊢
      omega

/-- A log adds its score, as long as the outermost mode stays. -/
theorem playAll_balance {s : State} {c : Context} {acts : List Act} {n : Nat} (hs : s.frames ≠ [])
    (h : heightAfter s.frames.length acts = some n) :
    SameScore ((s.playAll c acts).balance c) (s.balance c + scoreOf c acts) := by
  induction acts generalizing s with
  | nil => exact rfl
  | cons a acts ih =>
    obtain ⟨hleave, hne, hheight⟩ := play_height (c := c) hs h
    have hfirst := play_balance (c := c) hs hleave
    have hrest := ih hne hheight
    have hscore := scoreOf_append c [a] acts
    have hplay : s.playAll c (a :: acts) = (s.play c a).playAll c acts := rfl
    rw [hplay, ← List.singleton_append, hscore]
    unfold SameScore at hfirst hrest ⊢
    omega

/-- The score never passes the limit. -/
theorem playAll_le {s : State} (c : Context) (acts : List Act) (h : s.relevance ≤ relevanceLimit) :
    (s.playAll c acts).relevance ≤ relevanceLimit := by
  have hscore : ∀ (s : State) n, (s.score n).relevance ≤ relevanceLimit :=
    fun s n => Nat.min_le_right _ _
  induction acts generalizing s with
  | nil => exact h
  | cons a acts ih =>
    refine ih ?_
    cases a with
    | put p =>
      cases p with
      | text value => exact h
      | keyword k lexeme => exact hscore s k.relevance
    | embedded language weight e =>
      simp only [State.play, State.embed]
      split
      · exact h
      · exact hscore s e.relevance
    | enter id bound => exact (enter_relevance s c id bound).trans_le h
    | leave =>
      simp only [State.play, State.leave]
      split
      · exact h
      · split
        · exact h
        · split
          · exact h
          · exact hscore _ _

/-- At the start nothing is owed: the outermost mode is never left, and the modes of an
earlier part are not counted again. -/
theorem owed_startFrames (c : Context) (resume : Option Continuation) :
    owed c (startFrames resume) = 0 := by
  unfold startFrames
  split
  · rename_i f fs
    refine List.sum_eq_zero fun n hn => ?_
    obtain ⟨g, hg, rfl⟩ := List.mem_map.mp hn
    obtain ⟨g', _, rfl⟩ := List.mem_map.mp (List.mem_of_mem_dropLast hg)
    exact rfl
  · exact rfl

/-- Once all modes but the outermost are left, nothing is owed. -/
theorem owed_leaveAll (s : State) (c : Context) :
    owed c (s.leaveAll c (s.frames.length - 1)).frames = 0 := by
  have hlast : (s.frames.drop (s.frames.length - 1)).dropLast = [] := by
    apply List.eq_nil_of_length_eq_zero
    rw [List.length_dropLast, List.length_drop]
    omega
  rw [leaveAll_frames, owed, hlast]
  rfl

/-- The relevance of a scan is the capped score of its log. -/
theorem scanWithin_relevance {steps : Nat} {c : Context} {lead : String}
    {resume : Option Continuation} {r : Scanned} (h : scanWithin steps c lead resume = .ok r) :
    r.relevance = min relevanceLimit (scoreOf c (scanActs steps c lead resume)) := by
  obtain ⟨s, hplays, _, _, ⟨hacts, hzero⟩ | hrelevance⟩ := scanWithin_plays h
  · rw [hacts, hzero]
    rfl
  · have hstart : (startState lead resume).frames ≠ [] := (startFrames_opened resume).1
    have hlength := List.length_pos_of_ne_nil (hplays.frames_ne_nil hstart)
    -- the modes that are still open are left one after another
    obtain ⟨hyield, hheight⟩ := hplays.trans (plays_leaveAll (Nat.sub_one_lt_of_lt hlength))
    have hbalance := playAll_balance (c := c) hstart hheight
    have hle : (s.leaveAll c (s.frames.length - 1)).relevance ≤ relevanceLimit := by
      rw [hyield.relevance]
      exact playAll_le c _ (Nat.zero_le relevanceLimit)
    have hleaves : scoreOf c (List.replicate (s.frames.length - 1) .leave) = 0 := by
      simp [scoreOf, total, Act.keywordScore, Act.modeScore, Act.embeddedScore]
    have hfinal : SameScore (s.leaveAll c (s.frames.length - 1)).relevance
        (scoreOf c (scanActs steps c lead resume)) := by
      unfold State.balance at hbalance
      rw [← hyield.relevance, ← hyield.frames, owed_leaveAll, scoreOf_append, hleaves] at hbalance
      have howed : owed c (startState lead resume).frames = 0 := owed_startFrames c resume
      have hzero : (startState lead resume).relevance = 0 := rfl
      rwa [howed, hzero, Nat.add_zero, Nat.add_zero, Nat.add_zero, Nat.zero_add] at hbalance
    rw [hrelevance]
    unfold SameScore at hfinal
    omega

/-! ## Parts of a text -/

/-- Scans parts one after another, each from where the one before stopped. The steps may be
limited for a part of so many characters. -/
def scanParts (steps : Option (Nat → Nat)) (lead : String) :
    List Context → Option Continuation → Except HighlightError (List Scanned)
  | [], _ => .ok []
  | c :: cs, resume => do
    let r ← scanUnder (steps.map (· c.text.size)) c lead resume
    let rs ← scanParts steps lead cs (some r.continuation)
    return r :: rs

/-- The logs of the parts. -/
def partActs (steps : Nat → Nat) (lead : String) :
    List Context → Option Continuation → List (List Act)
  | [], _ => []
  | c :: cs, resume =>
    scanActs (steps c.text.size) c lead resume ::
      match scanWithin (steps c.text.size) c lead resume with
      | .ok r => partActs steps lead cs (some r.continuation)
      | .error _ => []

/-- A mode that is open, with the end that was bound for it. -/
abbrev OpenMode := Nat × Option Pattern

/-- The open modes, the innermost first. -/
def openModes (frames : List Frame) : List OpenMode := frames.map fun f => (f.mode, f.bound)

/-- Which modes are open after an act. -/
def Act.move (modes : List OpenMode) : Act → List OpenMode
  | .enter id bound => (id, bound) :: modes
  | .leave => modes.tail
  | .put _ | .embedded .. => modes

/-- Where the last part stopped, or where the first one starts if there is none. -/
def stoppedAt (resume : Option Continuation) (rs : List Scanned) : List OpenMode :=
  openModes ((rs.getLast?.map (·.continuation.frames)).getD (startFrames resume))

theorem openModes_play (c : Context) (s : State) (a : Act) :
    openModes (s.play c a).frames = a.move (openModes s.frames) := by
  cases a with
  | put p =>
    have hframes : (s.play c (.put p)).frames = s.frames := (emit_sameControl s p).frames
    rw [hframes]
    rfl
  | embedded language weight e =>
    have hframes : (s.play c (.embedded language weight e)).frames = s.frames :=
      (embed_sameControl s language weight e).frames
    rw [hframes]
    rfl
  | enter id bound =>
    obtain ⟨opened, hframes⟩ := enter_frames s c id bound
    have hplay : (s.play c (.enter id bound)).frames = ⟨id, bound, opened, false⟩ :: s.frames :=
      hframes
    rw [hplay]
    rfl
  | leave =>
    have hplay : (s.play c .leave).frames = s.frames.tail := leave_frames s c
    rw [hplay]
    exact List.map_tail

theorem openModes_playAll (c : Context) (s : State) (acts : List Act) :
    openModes (s.playAll c acts).frames = acts.foldl Act.move (openModes s.frames) := by
  induction acts generalizing s with
  | nil => rfl
  | cons a acts ih =>
    have hplay : s.playAll c (a :: acts) = (s.play c a).playAll c acts := rfl
    rw [hplay, ih, openModes_play]
    rfl

/-- Going on from a continuation, the same modes are open. -/
theorem openModes_startFrames {frames : List Frame} (h : frames ≠ []) :
    openModes (startFrames (some ⟨frames⟩)) = openModes frames := by
  rcases frames with _ | ⟨f, fs⟩
  · exact absurd rfl h
  · simp [startFrames, openModes]

theorem stoppedAt_cons (resume : Option Continuation) {r : Scanned} (rs : List Scanned)
    (h : r.continuation.frames ≠ []) :
    stoppedAt resume (r :: rs) = stoppedAt (some r.continuation) rs := by
  unfold stoppedAt
  rcases hlast : rs.getLast? with _ | last
  · have hrs : rs = [] := List.getLast?_eq_none_iff.mp hlast
    subst hrs
    exact (openModes_startFrames h).symm
  · rw [List.getLast?_cons, hlast]
    rfl

/-- The log of a scan leads to the nodes and the open modes that the scan gives. -/
theorem scanWithin_replays {steps : Nat} {c : Context} {lead : String}
    {resume : Option Continuation} {r : Scanned} (h : scanWithin steps c lead resume = .ok r) :
    let s := (startState lead resume).playAll c (scanActs steps c lead resume)
    r.nodes = s.tree.finish ∧ r.continuation.frames = s.frames ∧ s.frames ≠ [] := by
  obtain ⟨s, hplays, hnodes, hcontinuation, _⟩ := scanWithin_plays h
  have hne := hplays.frames_ne_nil (startFrames_opened resume).1
  rw [hnodes, hcontinuation]
  rw [hplays.yield.frames] at hne
  exact ⟨congrArg _ hplays.yield.tree, hplays.yield.frames, hne⟩

theorem scanParts_cons_eq_ok {steps : Nat → Nat} {lead : String} {c : Context} {cs : List Context}
    {resume : Option Continuation} {rs : List Scanned}
    (h : scanParts (some steps) lead (c :: cs) resume = .ok rs) :
    ∃ r rest, scanWithin (steps c.text.size) c lead resume = .ok r ∧
      scanParts (some steps) lead cs (some r.continuation) = .ok rest ∧ rs = r :: rest ∧
      partActs steps lead (c :: cs) resume = scanActs (steps c.text.size) c lead resume ::
        partActs steps lead cs (some r.continuation) := by
  rw [scanParts] at h
  obtain ⟨r, hr, h⟩ := bind_eq_ok.mp h
  obtain ⟨rest, hrest, h⟩ := bind_eq_ok.mp h
  cases h
  have hr' : scanWithin (steps c.text.size) c lead resume = .ok r := hr
  refine ⟨r, rest, hr', hrest, rfl, ?_⟩
  rw [partActs, hr']

/-- Parts are scanned without limits as they are with all limits that are large enough. -/
theorem exists_scanParts_eq (lead : String) (parts : List Context) (resume : Option Continuation) :
    ∃ enough, ∀ steps : Nat → Nat, (∀ size, enough ≤ steps size) →
      scanParts (some steps) lead parts resume = scanParts none lead parts resume := by
  induction parts generalizing resume with
  | nil => exact ⟨0, fun _ _ => rfl⟩
  | cons c cs ih =>
    obtain ⟨first, hfirst⟩ := exists_scanWithin_eq_scan c lead resume
    have hscan : ∀ steps : Nat → Nat, (∀ size, first ≤ steps size) →
        scanUnder (some (steps c.text.size)) c lead resume = scan c lead resume :=
      fun steps hsteps => hfirst _ (hsteps _)
    rcases hr : scan c lead resume with e | r
    · refine ⟨first, fun steps hsteps => ?_⟩
      simp only [scanParts, Option.map_some, Option.map_none, hscan steps hsteps]
      rw [show scanUnder none c lead resume = .error e from hr, hr]
      rfl
    · obtain ⟨rest, hrest⟩ := ih (some r.continuation)
      refine ⟨max first rest, fun steps hsteps => ?_⟩
      have hfirst' := hscan steps fun size => (Nat.le_max_left _ _).trans (hsteps size)
      have hrest' := hrest steps fun size => (Nat.le_max_right _ _).trans (hsteps size)
      simp only [scanParts, Option.map_some, Option.map_none, hfirst']
      rw [show scanUnder none c lead resume = .ok r from hr, hr]
      simp only [ok_bind_eq, hrest']

/-- Each part counts its own log. -/
theorem scanParts_relevance {steps : Nat → Nat} {lead : String} {parts : List Context}
    {resume : Option Continuation} {rs : List Scanned}
    (h : scanParts (some steps) lead parts resume = .ok rs) :
    List.Forall₂ (fun part r => r.relevance = min relevanceLimit (scoreOf part.1 part.2))
      (parts.zip (partActs steps lead parts resume)) rs := by
  induction parts generalizing resume rs with
  | nil =>
    cases h
    exact .nil
  | cons c cs ih =>
    obtain ⟨r, rest, hr, hrest, rfl, hacts⟩ := scanParts_cons_eq_ok h
    rw [hacts]
    exact .cons (scanWithin_relevance hr) (ih hrest)

/-- One log after another leads from the modes that are open at the start to those that
are open at the end. -/
theorem scanParts_stoppedAt {steps : Nat → Nat} {lead : String} {parts : List Context}
    {resume : Option Continuation} {rs : List Scanned}
    (h : scanParts (some steps) lead parts resume = .ok rs) :
    (partActs steps lead parts resume).flatten.foldl Act.move (openModes (startFrames resume)) =
      stoppedAt resume rs := by
  induction parts generalizing resume rs with
  | nil =>
    cases h
    rfl
  | cons c cs ih =>
    obtain ⟨r, rest, hr, hrest, rfl, hacts⟩ := scanParts_cons_eq_ok h
    obtain ⟨_, hframes, hne⟩ := scanWithin_replays hr
    rw [← hframes] at hne
    have hopen : openModes (startFrames (some r.continuation)) =
        (scanActs (steps c.text.size) c lead resume).foldl Act.move
          (openModes (startFrames resume)) := by
      rw [openModes_startFrames hne, hframes, openModes_playAll]
      rfl
    rw [hacts, List.flatten_cons, List.foldl_append, ← hopen, ih hrest, stoppedAt_cons resume rest hne]

/-- The relevance of a scan, fresh or resumed, is the sum of what its log counts, up to
the limit: the scores of the keywords, the weights of the modes that were entered, and
the relevance of the embedded results. The log is all that was done: it leads to the
nodes and to the open modes. When parts are scanned one after another, each counts its
own log, and the logs in a row tell how all modes were entered and left. Scans without a limit
on their steps are among these: all limits that are large enough agree with them. -/
theorem relevance_counts_everything_once (steps : Nat → Nat) (lead : String) :
    (∀ n c resume r, scanWithin n c lead resume = .ok r →
      let acts := scanActs n c lead resume
      let s := (startState lead resume).playAll c acts
      r.relevance = min relevanceLimit (total Act.keywordScore acts +
        total (Act.modeScore c) acts + total Act.embeddedScore acts) ∧
      r.nodes = s.tree.finish ∧ r.continuation.frames = s.frames) ∧
    (∀ parts resume rs, scanParts (some steps) lead parts resume = .ok rs →
      let logs := partActs steps lead parts resume
      List.Forall₂ (fun part r => r.relevance = min relevanceLimit (scoreOf part.1 part.2))
        (parts.zip logs) rs ∧
      logs.flatten.foldl Act.move (openModes (startFrames resume)) = stoppedAt resume rs) ∧
    (∀ c resume, ∃ enough, ∀ n, enough ≤ n → scanWithin n c lead resume = scan c lead resume) ∧
    (∀ parts resume, ∃ enough, ∀ steps : Nat → Nat, (∀ size, enough ≤ steps size) →
      scanParts (some steps) lead parts resume = scanParts none lead parts resume) := by
  refine ⟨?_, ?_, fun c resume => exists_scanWithin_eq_scan c lead resume, exists_scanParts_eq lead⟩
  · intro n c resume r h
    obtain ⟨hnodes, hframes, _⟩ := scanWithin_replays h
    exact ⟨scanWithin_relevance h, hnodes, hframes⟩
  · intro parts resume rs h
    exact ⟨scanParts_relevance h, scanParts_stoppedAt h⟩

theorem quotation_over_two_parts_counts_once :
    ∃ l rs, compile quoting = .ok l ∧
      scanParts (some fun _ => 99) "" [scanOf l "a<b", scanOf l "c>d<e>"] none = .ok rs ∧
      rs.map (·.relevance) = [1, 1] ∧
      List.Forall₂ (fun part r => r.relevance = min relevanceLimit (scoreOf part.1 part.2))
        ([scanOf l "a<b", scanOf l "c>d<e>"].zip
          (partActs (fun _ => 99) "" [scanOf l "a<b", scanOf l "c>d<e>"] none)) rs := by
  have hall : ((compileWithin quoting 9).toOption.any fun l =>
      (scanParts (some fun _ => 99) "" [scanOf l "a<b", scanOf l "c>d<e>"] none).toOption.any
        fun rs => rs.map (·.relevance) == [1, 1]) = true := by decide +kernel
  obtain ⟨l, hl, hall⟩ := compile_of_any hall
  obtain ⟨rs, hrs, hrelevance⟩ := toOption_any_eq_true.mp hall
  obtain ⟨_, hparts, _⟩ := relevance_counts_everything_once (fun _ => 99) ""
  exact ⟨l, rs, hl, hrs, eq_of_beq hrelevance, (hparts _ none rs hrs).1⟩

end Highlighting.Scan
