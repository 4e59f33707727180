-- The chunks of an embedded language. A scan hands text to other languages whenever
-- it flushes its buffer, in whatever order the modes come. The chunks for one name
-- are scanned as one sequence all the same: the first afresh and each later one from
-- where the one before stopped.
import Highlighting.Proofs.Failures
import Highlighting.Proofs.Flushes
import Highlighting.Proofs.Relevance

namespace Highlighting

namespace Scan

/-! ## One language in many chunks -/

/-- The text that a flush of the state gives to the language of this name. -/
def State.chunk? (s : State) (c : Context) (name : String) : Option String :=
  match (s.top? c).map CompiledMode.dispatch with
  | some (.embedded (.name asked)) =>
    if asked = name ∧ s.buffer.isEmpty = false then some s.buffer else none
  | _ => none

/-- Highlights chunks as a language one after another, each from where the one before
stopped. -/
def Host.embedInTurn (host : Host) (name : String) :
    List String → Option Continuation → Except HighlightError (List Embedded)
  | [], _ => .ok []
  | text :: texts, resume => do
    let e ← host.embed name text resume
    let es ← host.embedInTurn name texts e.continuation
    return e :: es

/-- What some flushes do for the language of a name: from one continuation to the next
they highlight its chunks, each of them puts out the result, and the other flushes
leave the continuation as it is. -/
inductive Embeds (c : Context) (host : Host) (name : String) :
    List State → Option Continuation → List Embedded → Option Continuation → Prop
  | nil (k : Option Continuation) : Embeds c host name [] k [] k
  | other {s : State} {ss : List State} {k k' : Option Continuation} {es : List Embedded}
      (hs : s.chunk? c name = none) (h : Embeds c host name ss k es k') :
      Embeds c host name (s :: ss) k es k'
  | chunk {s : State} {ss : List State} {k k' : Option Continuation} {text : String} {weight : Nat}
      {e : Embedded} {es : List Embedded} (hs : s.chunk? c name = some text)
      (he : host.embed name text k = .ok e) (hacts : s.flushActs c = [.embedded name weight e])
      (h : Embeds c host name ss e.continuation es k') :
      Embeds c host name (s :: ss) k (e :: es) k'

section

variable {c : Context} {host : Host} {name : String}

theorem Embeds.append {ss ss' : List State} {k₀ k₁ k₂ : Option Continuation}
    {es es' : List Embedded} (h : Embeds c host name ss k₀ es k₁)
    (h' : Embeds c host name ss' k₁ es' k₂) : Embeds c host name (ss ++ ss') k₀ (es ++ es') k₂ := by
  induction h with
  | nil k => exact h'
  | other hs _ ih => exact .other hs (ih h')
  | chunk hs he hacts _ ih => exact .chunk hs he hacts (ih h')

theorem Embeds.nothing {k k' : Option Continuation} (h : k' = k) :
    Embeds c host name [] k [] k' := by
  subst h
  exact .nil _

/-- The chunks are highlighted in turn. -/
theorem Embeds.inTurn {ss : List State} {k k' : Option Continuation} {es : List Embedded}
    (h : Embeds c host name ss k es k') :
    host.embedInTurn name (ss.filterMap fun s => s.chunk? c name) k = .ok es := by
  induction h with
  | nil k => rfl
  | other hs _ ih =>
    rw [List.filterMap_cons, hs]
    exact ih
  | chunk hs he _ _ ih =>
    rw [List.filterMap_cons, hs]
    simp only
    rw [Host.embedInTurn, he, ok_bind_eq, ih]
    rfl

/-- Each flush of a chunk puts out its result. -/
theorem Embeds.acts {ss : List State} {k k' : Option Continuation} {es : List Embedded}
    (h : Embeds c host name ss k es k') :
    List.Forall₂ (fun s e => ∃ weight, s.flushActs c = [.embedded name weight e])
      (ss.filter fun s => (s.chunk? c name).isSome) es := by
  induction h with
  | nil k => exact .nil
  | other hs _ ih => rwa [List.filter_cons_of_neg (by simp [hs])]
  | chunk hs _ hacts _ ih =>
    rw [List.filter_cons_of_pos (by simp [hs])]
    exact .cons ⟨_, hacts⟩ ih

/-! ### What a flush does to the continuations -/

/-- The continuation of a language that is put back is found again, and those of the
others are untouched. -/
theorem lookup_putBack (asked name : String) (k : Option Continuation)
    (ks : List (String × Continuation)) :
    (match k with
      | some k => (asked, k) :: eraseContinuation asked ks
      | none => eraseContinuation asked ks).lookup name =
        if asked = name then k else ks.lookup name := by
  rcases k with _ | k
  · simp only [eraseContinuation, lookup_without, eq_comm]
  · simp only [List.lookup_cons, eraseContinuation, lookup_without]
    by_cases hname : asked = name
    · simp [hname]
    · have hne : (name == asked) = false := by simpa using Ne.symm hname
      simp [hname, Ne.symm hname, hne]

theorem embed_continuations (s : State) (language : String) (weight : Nat) (e : Embedded) :
    (s.embed language weight e).continuations = s.continuations := by
  unfold State.embed
  split <;> rfl

theorem emitAll_continuations (ps : List Piece) (s : State) :
    (ps.foldl State.emit s).continuations = s.continuations := by
  induction ps generalizing s with
  | nil => rfl
  | cons p ps ih =>
    rw [List.foldl_cons, ih]
    cases p <;> rfl

theorem isEmpty_eq_false {text : String} (h : ¬ text.isEmpty = true) : text.isEmpty = false :=
  Bool.not_eq_true _ ▸ h

/-- A buffer that is flushed as another language: it is a chunk if that is the language. -/
theorem flushEmbedded_embeds {s s' : State} {m : CompiledMode} {language : SubLanguage}
    (hhost : c.host = some host) (hname : host.isRegistered name = true) (hm : s.top? c = some m)
    (hd : m.dispatch = .embedded language) (hfull : s.buffer.isEmpty = false)
    (h : State.flushEmbedded { s with buffer := "" } c language m.relevance s.buffer = .ok s') :
    ∃ es, Embeds c host name [s] (s.continuations.lookup name) es (s'.continuations.lookup name) := by
  unfold State.flushEmbedded at h
  simp only [hhost] at h
  cases language with
  | name asked =>
    simp only at h
    split at h
    · rename_i hasked
      obtain ⟨e, he, h⟩ := bind_eq_ok.mp h
      cases h
      rw [embed_continuations]
      have hback := lookup_putBack asked name e.continuation s.continuations
      by_cases hsame : asked = name
      · subst hsame
        have hacts : s.flushActs c = [.embedded asked m.relevance e] := by
          simp [State.flushActs, hm, hd, hfull, State.embedActs, hhost, hasked, he]
        refine ⟨[e], .chunk (by simp [State.chunk?, hm, hd, hfull]) he hacts ?_⟩
        exact .nothing (hback.trans (if_pos rfl))
      · refine ⟨[], .other (by simp [State.chunk?, hm, hd, hsame]) ?_⟩
        exact .nothing (hback.trans (if_neg hsame))
    · rename_i hasked
      cases h
      have hne : asked ≠ name := by
        rintro rfl
        exact hasked hname
      exact ⟨[], .other (by simp [State.chunk?, hm, hd, hne]) (.nil _)⟩
  | candidates names =>
    obtain ⟨found, _, h⟩ := bind_eq_ok.mp h
    refine ⟨[], .other (by simp [State.chunk?, hm, hd]) ?_⟩
    rcases found with _ | ⟨asked, e⟩
    · cases h
      exact .nil _
    · cases h
      rw [embed_continuations]
      exact .nil _

/-- One flush: a chunk of the language is highlighted from its continuation and leaves
the next one, and any other flush leaves the continuation as it is. -/
theorem flush_embeds {s s' : State} (hhost : c.host = some host)
    (hname : host.isRegistered name = true) (h : s.flush c = .ok s') :
    ∃ es, Embeds c host name [s] (s.continuations.lookup name) es (s'.continuations.lookup name) := by
  have htop : ({ s with buffer := "" } : State).top? c = s.top? c := rfl
  unfold State.flush at h
  simp only [htop] at h
  rcases hm : s.top? c with _ | m
  · rw [hm] at h
    cases h
    exact ⟨[], .other (by simp [State.chunk?, hm]) (.nil _)⟩
  · rw [hm] at h
    simp only at h
    rcases hd : m.dispatch with _ | ⟨table, lexemes⟩ | language
    · rw [hd] at h
      cases h
      exact ⟨[], .other (by simp [State.chunk?, hm, hd]) (.nil _)⟩
    · rw [hd] at h
      cases h
      refine ⟨[], .other (by simp [State.chunk?, hm, hd]) ?_⟩
      rw [emitAll_continuations]
      exact .nil _
    · rw [hd] at h
      simp only at h
      split at h
      · rename_i hempty
        cases h
        refine ⟨[], .other ?_ (.nil _)⟩
        cases language with
        | name asked => simp [State.chunk?, hm, hd, hempty]
        | candidates names => simp [State.chunk?, hm, hd]
      · rename_i hempty
        exact flushEmbedded_embeds hhost hname hm hd (isEmpty_eq_false hempty) h

/-! ### What a scan does to them -/

theorem enter_continuations (s : State) (c : Context) (id : Nat) (bound : Option Pattern) :
    (s.enter c id bound).continuations = s.continuations := by
  unfold State.enter
  split <;> rfl

theorem leave_continuations (s : State) (c : Context) :
    (s.leave c).continuations = s.continuations := by
  unfold State.leave
  split
  · rfl
  · simp only
    split
    · rfl
    · split <;> rfl

theorem leaveAll_continuations (s : State) (c : Context) (n : Nat) :
    (s.leaveAll c n).continuations = s.continuations := by
  induction n generalizing s with
  | zero => rfl
  | succ n ih => rw [State.leaveAll, ih, leave_continuations]

theorem follow_continuations (s : State) (c : Context) (closed : Option Frame) :
    (s.follow c closed).continuations = s.continuations := by
  unfold State.follow
  split
  · exact enter_continuations _ _ _ _
  · rfl

theorem forceChar_continuations (s : State) (c : Context) (pos : Nat) :
    (s.forceChar c pos).state.continuations = s.continuations := by
  unfold State.forceChar
  split <;> rfl

theorem asText_continuations (s : State) (c : Context) (t : Terminator) :
    (s.asText c t).state.continuations = s.continuations := by
  unfold State.asText
  split
  · rfl
  · exact forceChar_continuations s c t.start

section

variable {s s' : State} (hhost : c.host = some host) (hname : host.isRegistered name = true)

include hhost hname

theorem takeBegin_embeds {m : CompiledMode} {lexeme : String}
    (h : s.takeBegin c m lexeme = .ok s') :
    ∃ es, Embeds c host name (s.flushedAtBegin m lexeme) (s.continuations.lookup name) es
      (s'.continuations.lookup name) := by
  unfold State.takeBegin at h
  unfold State.flushedAtBegin
  split at h
  · rename_i hskip
    cases h
    rw [if_pos hskip]
    exact ⟨[], .nil _⟩
  · rename_i hskip
    rw [if_neg hskip]
    obtain ⟨s₁, hflush, h⟩ := bind_eq_ok.mp h
    rw [pure_eq_ok] at h
    subst h
    obtain ⟨es, hes⟩ := flush_embeds hhost hname hflush
    refine ⟨es, ?_⟩
    have hbefore : (if m.excludeBegin then s.push lexeme else s).continuations = s.continuations := by
      split <;> rfl
    have hafter : (if m.returnBegin || m.excludeBegin then s₁ else s₁.push lexeme).continuations =
        s₁.continuations := by
      split <;> rfl
    rwa [hafter, ← hbefore]

theorem takeEnd_embeds {m : CompiledMode} {lexeme : String}
    (h : s.takeEnd c m lexeme = .ok s') :
    ∃ es, Embeds c host name (s.flushedAtEnd m lexeme) (s.continuations.lookup name) es
      (s'.continuations.lookup name) := by
  unfold State.takeEnd at h
  unfold State.flushedAtEnd
  split at h
  · rename_i hskip
    cases h
    rw [if_pos hskip]
    exact ⟨[], .nil _⟩
  · rename_i hskip
    rw [if_neg hskip]
    obtain ⟨s₁, hflush, h⟩ := bind_eq_ok.mp h
    rw [pure_eq_ok] at h
    subst h
    obtain ⟨es, hes⟩ := flush_embeds hhost hname hflush
    refine ⟨es, ?_⟩
    have hbefore : (if m.returnEnd || m.excludeEnd then s else s.push lexeme).continuations =
        s.continuations := by
      split <;> rfl
    have hafter : (if m.excludeEnd then s₁.push lexeme else s₁).continuations =
        s₁.continuations := by
      split <;> rfl
    rwa [hafter, ← hbefore]

/-- One step of the scan, by the flush in it. -/
theorem step_embeds {o : Outcome} (h : s.step c = .ok o) :
    ∃ es, Embeds c host name (s.stepFlushes c) (s.continuations.lookup name) es
      (o.state.continuations.lookup name) := by
  unfold State.stepFlushes
  cases takes_of_step h with
  | done hnext =>
    rw [hnext]
    exact ⟨[], .nil _⟩
  | forced t hnext hdegenerate =>
    simp only [hnext, State.flushedAt, hdegenerate, if_true]
    rw [forceChar_continuations]
    exact ⟨[], .nil _⟩
  | text t hnext hdegenerate hrule =>
    have hnone : s.flushedAt c t = [] := by
      unfold State.flushedAt
      rcases hrule with ⟨hends, hclosed⟩ | hillegal
      · simp [hends, hclosed]
      · simp [hillegal]
    simp only [hnext, hnone]
    rw [asText_continuations]
    exact ⟨[], .nil _⟩
  | begins t id s' hnext hdegenerate hrule hbegin =>
    simp only [hnext, State.flushedAt, hdegenerate, hrule]
    rcases hm : c.language.mode? id with _ | m
    · unfold State.beginMode at hbegin
      rw [hm] at hbegin
      cases hbegin
      exact ⟨[], .nil _⟩
    · obtain ⟨bound, s₁, _, htake, rfl⟩ := (beginMode_eq_ok hm).mp hbegin
      obtain ⟨es, hes⟩ := takeBegin_embeds hhost hname htake
      refine ⟨es, ?_⟩
      have hafter : (Outcome.next { s₁.enter c id bound with
          cursor := if m.returnBegin then t.start else t.stop }).state.continuations =
            s₁.continuations := enter_continuations s₁ c id bound
      rw [hafter]
      exact hes
  | ends t n s' hnext hdegenerate hrule hclosed hend =>
    have htop : ((s.reach c t).note t).top? c = s.top? c := rfl
    simp only [hnext, State.flushedAt, hdegenerate, hrule, hclosed]
    rcases hm : s.top? c with _ | m
    · unfold State.endModes at hend
      rw [htop, hm] at hend
      cases hend
      exact ⟨[], .nil _⟩
    · obtain ⟨s₁, htake, rfl⟩ := (endModes_eq_ok (htop.trans hm)).mp hend
      obtain ⟨es, hes⟩ := takeEnd_embeds hhost hname htake
      refine ⟨es, ?_⟩
      have hafter : ∀ cursor closed, (Outcome.next { (s₁.leaveAll c n).follow c closed with
          cursor := cursor }).state.continuations = s₁.continuations := fun cursor closed =>
        (follow_continuations _ c closed).trans (leaveAll_continuations s₁ c n)
      rw [hafter]
      exact hes

/-- A run of steps, by the flushes in it. -/
theorem run_embeds {n : Nat} (h : State.run c n s = .ok s') :
    ∃ es, Embeds c host name (s.runFlushes c n) (s.continuations.lookup name) es
      (s'.continuations.lookup name) := by
  induction n generalizing s with
  | zero => cases h
  | succ n ih =>
    rw [State.run] at h
    obtain ⟨o, hstep, h⟩ := bind_eq_ok.mp h
    obtain ⟨es, hes⟩ := step_embeds hhost hname hstep
    rw [State.runFlushes, hstep]
    rcases o with s₁ | s₁
    · obtain ⟨es', hes'⟩ := ih h
      exact ⟨es ++ es', hes.append hes'⟩
    · cases h
      exact ⟨es, hes⟩

end

/-- A scan embeds the chunks of a language in turn, the first of them afresh. -/
theorem scanWithin_embeds {steps : Nat} {lead : String} {resume : Option Continuation}
    {r : Scanned} (hhost : c.host = some host) (hname : host.isRegistered name = true)
    (h : scanWithin steps c lead resume = .ok r) :
    ∃ es k, Embeds c host name (scanFlushes steps c lead resume) none es k := by
  unfold scanFlushes
  rcases scanWithin_eq_ok.mp h with ⟨hempty, _⟩ | ⟨hempty, s, hrun, hfinish⟩
  · simp only [hempty, if_true]
    exact ⟨[], none, .nil none⟩
  · unfold State.finish at hfinish
    obtain ⟨s₁, hflush, _⟩ := bind_eq_ok.mp hfinish
    obtain ⟨es, hes⟩ := run_embeds hhost hname hrun
    obtain ⟨es', hes'⟩ := flush_embeds hhost hname hflush
    simp only [hempty, hrun, Bool.false_eq_true, if_false]
    exact ⟨es ++ es', _, hes.append hes'⟩

end

end Scan

/-! ## Embedded scans -/

/-- A chunk that is scanned as an embedded language. -/
def chunkScan (host : Option Scan.Host) (l : CompiledLanguage) (text : String) : Scan.Context where
  host
  language := l
  text := text.toList.toArray
  illegals := .ignore

/-- What the scan of a chunk gives to the scan around it. -/
def Scan.Scanned.embedded (r : Scan.Scanned) : Scan.Embedded where
  relevance := r.relevance
  nodes := r.nodes
  continuation := some r.continuation

variable {limits : Option Limits} {r : Registry} {lead name : String} {host : Scan.Host}
  {language : Language}

/-- A host highlights a chunk of a registered language by a scan of it, one level deeper. -/
theorem embed_eq_ok {n : Nat} {text : String} {resume : Option Scan.Continuation}
    {e : Scan.Embedded} (hhost : hostWithin limits r lead (n + 1) = some host)
    (hname : r.resolve? name = some language) (h : host.embed name text resume = .ok e) :
    ∃ l out, compileUnder limits language.grammar = .ok l ∧
      Scan.scanUnder (limits.map (·.steps (chunkScan (hostWithin limits r lead n) l text).text.size))
        (chunkScan (hostWithin limits r lead n) l text) lead resume = .ok out ∧
      e = out.embedded := by
  rw [hostWithin, Option.some.injEq] at hhost
  subst hhost
  obtain ⟨⟨result, continuation⟩, hresult, h⟩ := bind_eq_ok.mp h
  rcases hl : compileUnder limits language.grammar with cause | l
  · unfold highlightWithin at hresult
    simp only [hname, hl] at hresult
    cases hresult
  · rw [highlightWithin_eq hname hl] at hresult
    refine ⟨l, ?_⟩
    unfold chunkScan
    generalize Scan.scanUnder _ _ lead resume = scanned at hresult ⊢
    rcases scanned with error | out
    · rcases error with _ | _ | _ | _ <;> simp [resultOf] at hresult
    · cases hresult
      cases h
      exact ⟨out, rfl, rfl, rfl⟩

/-- Chunks that a host highlights in turn are scanned one after another. -/
theorem embedInTurn_eq_ok {n : Nat} {texts : List String} {resume : Option Scan.Continuation}
    {es : List Scan.Embedded} (hhost : hostWithin limits r lead (n + 1) = some host)
    (hname : r.resolve? name = some language) {l : CompiledLanguage}
    (hl : compileUnder limits language.grammar = .ok l)
    (h : host.embedInTurn name texts resume = .ok es) :
    ∃ outs, Scan.scanParts (limits.map (·.steps)) lead
        (texts.map (chunkScan (hostWithin limits r lead n) l)) resume = .ok outs ∧ es = outs.map Scan.Scanned.embedded := by
  induction texts generalizing resume es with
  | nil =>
    cases h
    exact ⟨[], rfl, rfl⟩
  | cons text texts ih =>
    obtain ⟨e, he, h⟩ := bind_eq_ok.mp h
    obtain ⟨rest, hrest, h⟩ := bind_eq_ok.mp h
    cases h
    obtain ⟨l', out, hl', hscan, rfl⟩ := embed_eq_ok hhost hname he
    obtain rfl : l = l' := by
      rw [hl] at hl'
      exact Except.ok.inj hl'
    obtain ⟨outs, houts, rfl⟩ := ih hrest
    refine ⟨out :: outs, ?_, rfl⟩
    have hfirst : Scan.scanUnder
        ((limits.map (·.steps)).map (· (chunkScan (hostWithin limits r lead n) l text).text.size))
        (chunkScan (hostWithin limits r lead n) l text) lead resume = .ok out := by
      rw [Option.map_map]
      exact hscan
    rw [List.map_cons, Scan.scanParts, hfirst, ok_bind_eq]
    have hparts : Scan.scanParts (limits.map (·.steps)) lead
        (texts.map (chunkScan (hostWithin limits r lead n) l)) (some out.continuation) = .ok outs :=
      houts
    rw [hparts]
    rfl

/-- Of each flush in its turn, the chunk for a language. -/
def Scan.chunks (c : Scan.Context) (name : String) (flushes : List Scan.State) : List String :=
  flushes.filterMap fun s => s.chunk? c name

theorem Scan.Embeds.embeddedNodes {c : Scan.Context} {ss : List Scan.State}
    {k k' : Option Scan.Continuation} {outs : List Scan.Scanned}
    (h : Scan.Embeds c host name ss k (outs.map Scan.Scanned.embedded) k') :
    (outs.map fun out => Node.element [name] out.nodes).Sublist
      ((ss.flatMap (·.flushActs c)).filterMap Scan.Act.embeddedNode?) := by
  generalize hes : outs.map Scan.Scanned.embedded = es at h
  induction h generalizing outs with
  | nil k =>
    rw [List.map_eq_nil_iff] at hes
    subst hes
    exact .refl _
  | other hs _ ih =>
    rw [List.flatMap_cons, List.filterMap_append]
    exact (ih hes).trans (List.sublist_append_right _ _)
  | chunk hs he hacts _ ih =>
    obtain ⟨out, outs, rfl, rfl, htail⟩ := List.map_eq_cons_iff.mp hes
    rw [List.flatMap_cons, List.filterMap_append, hacts]
    exact .append (.refl [Node.element [name] out.nodes]) (ih htail)

/-- The chunks of text that a scan below the limit of embedding gives to a registered
language are scanned as one sequence. All that the scan puts out comes from its
flushes, in their order. The flushes of chunks for the language put out the results of
scanning these chunks with the compiled language one level deeper, the first afresh
and each later one from where the one before stopped, whatever the flushes in between
do; and the elements of these results stand in the tree in that order. Without limits the
hosts are those of the registry, and the scan is one with a number of steps that is large
enough. -/
theorem chunks_are_scanned_as_one_sequence {depth steps : Nat} (hdepth : depth < embeddingLimit)
    {c : Scan.Context} (hhost : c.host = hostWithin limits r lead (embeddingLimit - depth))
    {resume : Option Scan.Continuation} {out : Scan.Scanned}
    (hscan : Scan.scanWithin steps c lead resume = .ok out)
    (hname : r.resolve? name = some language) :
    let flushes := Scan.scanFlushes steps c lead resume
    let inner := hostWithin limits r lead (embeddingLimit - (depth + 1))
    (Scan.scanActs steps c lead resume).filter Scan.Act.putsOut =
      flushes.flatMap (·.flushActs c) ∧
    ∃ outs : List Scan.Scanned,
      (Scan.chunks c name flushes ≠ [] → ∃ l, compileUnder limits language.grammar = .ok l ∧
        Scan.scanParts (limits.map (·.steps)) lead
          ((Scan.chunks c name flushes).map (chunkScan inner l)) none = .ok outs) ∧
      List.Forall₂ (fun s out => ∃ weight,
          s.flushActs c = [.embedded name weight (Scan.Scanned.embedded out)])
        (flushes.filter fun s => (s.chunk? c name).isSome) outs ∧
      (outs.map fun out => Node.element [name] out.nodes).Sublist (Node.withinAll out.nodes) ∧
      (∀ depth, hostWithin none r lead (embeddingLimit - depth) = hostAt r lead depth) ∧
      ∃ enough, ∀ n, enough ≤ n → Scan.scanWithin n c lead resume = Scan.scan c lead resume := by
  intro flushes inner
  refine ⟨Scan.filter_scanActs steps c lead resume, ?_⟩
  have hlevel : embeddingLimit - depth = embeddingLimit - (depth + 1) + 1 := by omega
  obtain ⟨host, hsome, hregistered⟩ : ∃ host, hostWithin limits r lead (embeddingLimit - depth) =
      some host ∧ host.isRegistered name = true := by
    rw [hlevel]
    exact ⟨_, rfl, by simp [Registry.isRegistered, hname]⟩
  obtain ⟨es, last, hembeds⟩ := Scan.scanWithin_embeds (hhost.trans hsome) hregistered hscan
  have hturn : host.embedInTurn name (Scan.chunks c name flushes) none = .ok es := hembeds.inTurn
  rw [hlevel] at hsome
  obtain ⟨outs, hparts, hes⟩ : ∃ outs : List Scan.Scanned,
      (Scan.chunks c name flushes ≠ [] → ∃ l, compileUnder limits language.grammar = .ok l ∧
        Scan.scanParts (limits.map (·.steps)) lead
          ((Scan.chunks c name flushes).map (chunkScan inner l)) none = .ok outs) ∧ es = outs.map Scan.Scanned.embedded := by
    rcases hchunks : Scan.chunks c name flushes with _ | ⟨text, texts⟩
    · rw [hchunks] at hturn
      cases hturn
      exact ⟨[], fun hne => absurd rfl hne, rfl⟩
    · rw [hchunks] at hturn
      -- the first chunk shows that the language compiles
      obtain ⟨e, he, _⟩ := bind_eq_ok.mp hturn
      obtain ⟨l, _, hl, _⟩ := embed_eq_ok hsome hname he
      obtain ⟨outs, houts, hes⟩ := embedInTurn_eq_ok hsome hname hl hturn
      exact ⟨outs, fun _ => ⟨l, hl, houts⟩, hes⟩
  subst hes
  refine ⟨outs, hparts, ?_, ?_, fun depth => hostWithin_none r lead (embeddingLimit - depth),
    Scan.exists_scanWithin_eq_scan c lead resume⟩
  · exact List.forall₂_map_right_iff.mp hembeds.acts
  · obtain ⟨hnodes, _⟩ := Scan.scanWithin_replays hscan
    have hfinished := Scan.playAll_finished (c := c) (Scan.startState lead resume)
      (Scan.scanActs steps c lead resume)
    refine hembeds.embeddedNodes.trans ?_
    rw [← Scan.filter_scanActs]
    refine ((List.filter_sublist).filterMap _).trans ?_
    refine (List.sublist_append_right _ _).trans (hfinished.trans ?_)
    rw [hnodes]
    exact (Tree.Builder.finished_finish _).sublist

/-- Text with templates in angle brackets. -/
def templated : Grammar where
  root := { contains := [.inline {
    begins := some "<", ends := some ">", excludeBegin := true, excludeEnd := true,
    subLanguage := some (.name "quoted") }] }

/-- Strings in single quotes. -/
def quotedGrammar : Grammar where
  root := { contains := [.inline {
    className := some "s", begins := some "'", ends := some "'" }] }

/-- Templates with strings in them. -/
def templates : Registry :=
  (({} : Registry).register "templated" templated).register "quoted" quotedGrammar

/-- A text that is scanned with the templates at hand. -/
def templateScan (l : CompiledLanguage) (text : String) : Scan.Context :=
  chunkScan (hostWithin (some .few) templates "" embeddingLimit) l text

theorem string_goes_on_in_the_next_chunk :
    ∃ l language out outs, compile templated = .ok l ∧
      templates.resolve? "quoted" = some language ∧
      Scan.scanWithin 20 (templateScan l "<a'b><c'd>") "" none = .ok out ∧
      let flushes := Scan.scanFlushes 20 (templateScan l "<a'b><c'd>") "" none
      Scan.chunks (templateScan l "<a'b><c'd>") "quoted" flushes = ["a'b", "c'd"] ∧
      List.Forall₂ (fun s out => ∃ weight, s.flushActs (templateScan l "<a'b><c'd>") =
          [.embedded "quoted" weight (Scan.Scanned.embedded out)])
        (flushes.filter fun s => (s.chunk? (templateScan l "<a'b><c'd>") "quoted").isSome) outs ∧
      (outs.map fun out => Node.element ["quoted"] out.nodes).Sublist
        (Node.withinAll out.nodes) := by
  have hall : ((compileWithin templated 9).toOption.any fun l =>
      (Scan.scanWithin 20 (templateScan l "<a'b><c'd>") "" none).isOk &&
        Scan.chunks (templateScan l "<a'b><c'd>") "quoted"
          (Scan.scanFlushes 20 (templateScan l "<a'b><c'd>") "" none) == ["a'b", "c'd"]) = true := by
    decide +kernel
  obtain ⟨l, hl, hall⟩ := compile_of_any hall
  simp only [Bool.and_eq_true, beq_iff_eq] at hall
  obtain ⟨out, hout⟩ := exists_of_isOk hall.1
  obtain ⟨language, hlanguage⟩ : ∃ language, templates.resolve? "quoted" = some language :=
    Option.isSome_iff_exists.mp (by decide +kernel)
  obtain ⟨_, outs, _, hacts, hnodes, _⟩ :=
    chunks_are_scanned_as_one_sequence (show 0 < embeddingLimit by decide) rfl hout hlanguage
  exact ⟨l, language, out, outs, hl, hlanguage, hout, hall.2, hacts, hnodes⟩

end Highlighting
