-- The open modes and the open elements. Whatever a scan has been through, its
-- outermost mode is the root and stays open, every mode inside it is one that
-- begins, and the elements that are open are those of the modes that opened one.
--
-- That the modes begin is a matter of the order in which a grammar is compiled.
-- What the root contains is complete before anything that follows the root is
-- looked at, and what is compiled inside another mode begins.
import Highlighting.Proofs.EndChains
import Highlighting.Proofs.ScanLog

namespace Highlighting

/-! ## Modes that begin -/

/-- A mode that is compiled inside another one begins. -/
def Lasting.begins : Lasting where
  under parentEnd := parentEnd.isSome = true
  holds c := c.begins.isSome = true
  inside _ := rfl
  prepared h hunder := by
    rw [(prepare_prepared h).begins, Option.isSome_map]
    exact hunder
  relinked _ _ _ h := h

/-- Between the root and `stop` stand modes that begin. They refer to each other only,
and no other modes begin in the root. -/
structure CompiledLanguage.BeginsUpTo (l : CompiledLanguage) (stop : Nat) : Prop where
  size : stop ≤ l.modes.size
  root : ∀ m group id, l.mode? 0 = some m → (group, Rule.begins id) ∈ m.terminators.rules →
    0 < id ∧ id < stop
  modes : ∀ i m, 0 < i → i < stop → l.mode? i = some m →
    m.begins.isSome = true ∧ m.IdsIn fun id => 0 < id ∧ id < stop

theorem valid_single (k : Lasting) (m : CompiledMode) : Arena.Valid k 1 { modes := #[m] } := by
  refine ⟨Nat.le_refl _, ?_, fun p hp => absurd hp (by simp), fun o ho => absurd ho (by simp)⟩
  intro i m hi hm
  obtain ⟨hlt, _⟩ := Array.getElem?_eq_some_iff.mp hm
  exact absurd hlt (Nat.not_lt.mpr hi)

/-- Linking the root, what it contains comes first. Those modes are complete then, and
nothing changes them any more. -/
theorem link_root_beginsUpTo {g : Grammar} {depth : Nat} {m : Mode} {root : CompiledMode}
    {r : Unit × Arena} (hroot : root.begins = none)
    (hvalid : Arena.Valid .any 0 { modes := #[root] })
    (h : link g (resolve g depth) 0 m none { modes := #[root] } = .ok r) (anyCase : Bool) :
    ∃ stop, CompiledLanguage.BeginsUpTo ⟨anyCase, r.2.modes⟩ stop := by
  rw [link_eq] at h
  obtain ⟨lists, a₁, hchildren, h⟩ := build_bind_eq_ok.mp h
  obtain ⟨starts, a₂, hstarts, h⟩ := build_bind_eq_ok.mp h
  obtain ⟨terminators, hterminators, hr⟩ := setLinks_ok h
  have hzero : 0 < ({ modes := #[root] } : Arena).modes.size := Nat.one_pos
  obtain ⟨hinside, hlists⟩ := linkChildren_later (resolve_valid .begins 1 g depth)
    (valid_single .begins root) hzero hchildren
  obtain ⟨hbefore, _⟩ := linkChildren_later (resolve_valid .any 0 g depth) hvalid hzero hchildren
  obtain ⟨hafter, _⟩ := linkStarts_later (resolve_valid .any 0 g depth) trivial hbefore.valid
    (Nat.lt_of_lt_of_le hzero hbefore.size) hstarts
  have hmodes : ∀ i : Nat, r.2.modes[i]? = if 0 = i then (a₂.modes[i]?).map
      (fun c => { c with contains := lists.flatten, starts, terminators }) else a₂.modes[i]? := by
    intro i
    rw [hr]
    exact Array.getElem?_modify
  have hsize : r.2.modes.size = a₂.modes.size := by
    rw [hr]
    exact Array.size_modify
  have hroot₂ : a₂.modes[0]? = some root := by
    rw [hafter.kept 0 (Nat.lt_of_lt_of_le hzero hbefore.size) (by simp),
      hbefore.kept 0 hzero (by simp)]
    rfl
  refine ⟨a₁.modes.size, hsize ▸ hafter.size, ?_, ?_⟩
  · intro c group id hc hrule
    have hc' : r.2.modes[0]? = some c := hc
    rw [hmodes, if_pos rfl, hroot₂] at hc'
    cases hc'
    obtain ⟨source, hsource⟩ := ofRules_rules hterminators hrule
    obtain ⟨hmem, child, hchild, hbegins⟩ := rules_begins hsource
    rcases hlists id hmem with rfl | hid
    · -- the root itself does not begin
      rw [hroot₂] at hchild
      cases hchild
      rw [hroot] at hbegins
      cases hbegins
    · exact hid
  · intro i c hpos hlt hc
    have hc' : r.2.modes[i]? = some c := hc
    rw [hmodes, if_neg (Nat.ne_of_lt hpos), hafter.kept i hlt (by simp)] at hc'
    exact hinside.valid.modes i c hpos hc'

theorem compileWithin_beginsUpTo {g : Grammar} {depth : Nat} {l : CompiledLanguage}
    (h : compileWithin g depth = .ok l) : ∃ stop, l.BeginsUpTo stop := by
  unfold compileWithin at h
  obtain ⟨⟨_, a⟩, hbuild, h⟩ := bind_eq_ok.mp h
  cases h
  obtain ⟨ids, a₀, hprep, hlink⟩ := build_bind_eq_ok.mp hbuild
  obtain ⟨hlater, _⟩ := prepareAll_later trivial (valid_empty .any) hprep
  obtain ⟨ms, hms, rfl, rfl⟩ := prepareAll_ok hprep
  cases forall₂_of_mapM hms with
  | @cons _ root _ _ hroot hnone =>
    cases hnone
    obtain ⟨_, a₁, hlink, hrest⟩ := build_bind_eq_ok.mp hlink
    cases hrest
    have hbegins : root.begins = none := by
      simpa using (prepare_prepared hroot).begins
    exact link_root_beginsUpTo hbegins hlater.valid hlink g.caseInsensitive

/-- What can stand inside a mode that begins, or inside the root, begins. -/
theorem child_begins {l : CompiledLanguage} {stop : Nat} (h : l.BeginsUpTo stop) {u v : Nat}
    (hu : u = 0 ∨ u < stop) (hchild : Child l u v) : 0 < v ∧ v < stop := by
  induction hchild with
  | @begins v group c hc hrule =>
    rcases Nat.eq_zero_or_pos u with rfl | hpos
    · exact h.root c group v hc hrule
    · have hlt : u < stop := hu.resolve_left (Nat.ne_of_gt hpos)
      exact (h.modes u c hpos hlt hc).2.rules group v hrule
  | @follows w v c _ hc hstarts ih => exact (h.modes w c ih.1 ih.2 hc).2.starts v hstarts

namespace Scan

/-! ## The outermost mode -/

/-- Whatever is done, the outermost mode stays the same. -/
theorem play_getLast? {c : Context} {s : State} (hs : s.frames ≠ []) {a : Act}
    (ha : a = .leave → 2 ≤ s.frames.length) : (s.play c a).frames.getLast? = s.frames.getLast? := by
  cases a with
  | put p => exact congrArg List.getLast? (emit_sameControl s p).frames
  | embedded language weight e =>
    exact congrArg List.getLast? (embed_sameControl s language weight e).frames
  | enter id bound =>
    obtain ⟨opened, hframes⟩ := enter_frames s c id bound
    rw [State.play, hframes, List.getLast?_cons_of_ne_nil hs]
  | leave =>
    have hlength := ha rfl
    rw [State.play, leave_frames]
    rcases hframes : s.frames with _ | ⟨f, _ | ⟨g, frames⟩⟩
    · rfl
    · simp [hframes] at hlength
    · rw [List.tail_cons, List.getLast?_cons_cons]

/-! ## The open elements -/

/-- An open element is that of an open mode: it has the class names of the mode. -/
def ElementOf (l : CompiledLanguage) (lead : String) (e : Tree.OpenElement) (f : Frame) : Prop :=
  ∃ name, (l.mode? f.mode).bind CompiledMode.className = some name ∧
    e.classNames = classNames lead name

/-- The open elements are those of the modes that opened one, in the same order. -/
structure InStep (l : CompiledLanguage) (lead : String) (s : State) : Prop where
  sameLead : s.tree.lead = lead
  elements : List.Forall₂ (ElementOf l lead) s.tree.openElements (s.frames.filter (·.opened))

theorem InStep.congr {l : CompiledLanguage} {lead : String} {s s' : State}
    (hsame : SameYield s s') (h : InStep l lead s) : InStep l lead s' := by
  obtain ⟨hlead, helements⟩ := h
  rw [← hsame.tree] at hlead helements
  rw [← hsame.frames] at helements
  exact ⟨hlead, helements⟩

section

variable {c : Context} {lead : String}

/-- What goes into the innermost element does not change which elements are open. -/
theorem forall₂_modify {l : CompiledLanguage} {b : Tree.Builder} {frames : List Frame}
    (f : List Node → List Node) (h : List.Forall₂ (ElementOf l lead) b.openElements frames) :
    List.Forall₂ (ElementOf l lead) (b.modify f).openElements frames := by
  unfold Tree.Builder.modify
  rcases ho : b.openElements with _ | ⟨e, es⟩
  · rw [ho] at h
    exact h
  · rw [ho] at h
    cases h with
    | cons hfirst hrest => exact .cons hfirst hrest

theorem InStep.emit {l : CompiledLanguage} {s : State} (h : InStep l lead s) (p : Piece) :
    InStep l lead (s.emit p) := by
  cases p with
  | text value => exact ⟨(Tree.Builder.lead_modify _ _).trans h.sameLead, forall₂_modify _ h.elements⟩
  | keyword k lexeme =>
    exact ⟨(Tree.Builder.lead_modify _ _).trans h.sameLead, forall₂_modify _ h.elements⟩

theorem InStep.embed {l : CompiledLanguage} {s : State} (h : InStep l lead s) (language : String)
    (weight : Nat) (e : Embedded) : InStep l lead (s.embed language weight e) := by
  unfold State.embed
  split
  · exact ⟨(Tree.Builder.lead_modify _ _).trans h.sameLead, forall₂_modify _ h.elements⟩
  · exact ⟨(Tree.Builder.lead_modify _ _).trans h.sameLead, forall₂_modify _ h.elements⟩

theorem InStep.enter {s : State} (h : InStep c.language lead s) (id : Nat) (bound : Option Pattern) :
    InStep c.language lead (s.enter c id bound) := by
  unfold State.enter
  split
  · rename_i name hname
    refine ⟨h.sameLead, .cons ⟨name, hname, ?_⟩ h.elements⟩
    rw [h.sameLead]
  · exact ⟨h.sameLead, h.elements⟩

/-- Closing takes the innermost element away. -/
theorem forall₂_close {l : CompiledLanguage} {b : Tree.Builder} {f : Frame} {frames : List Frame}
    (h : List.Forall₂ (ElementOf l lead) b.openElements (f :: frames)) :
    List.Forall₂ (ElementOf l lead) b.close.openElements frames := by
  unfold Tree.Builder.close Tree.Builder.close?
  rcases ho : b.openElements with _ | ⟨e, es⟩
  · rw [ho] at h
    cases h
  · rw [ho] at h
    cases h with
    | cons _ hrest => exact forall₂_modify _ hrest

theorem InStep.leave {l : CompiledLanguage} {s : State} (h : InStep l lead s) :
    InStep l lead (s.leave c) := by
  rcases hframes : s.frames with _ | ⟨f, frames⟩
  · have hleave : s.leave c = s := by
      unfold State.leave
      rw [hframes]
    rw [hleave]
    exact h
  · have helements := h.elements
    rw [hframes] at helements
    rcases hopened : f.opened with _ | _
    · rw [List.filter_cons_of_neg (by simp [hopened])] at helements
      refine ⟨?_, ?_⟩
      · rw [leave_tree s c hframes, hopened]
        exact h.sameLead
      · rw [leave_tree s c hframes, hopened, leave_frames, hframes]
        exact helements
    · rw [List.filter_cons_of_pos hopened] at helements
      refine ⟨?_, ?_⟩
      · rw [leave_tree s c hframes, hopened]
        exact (Tree.Builder.lead_close _).trans h.sameLead
      · rw [leave_tree s c hframes, hopened, leave_frames, hframes]
        exact forall₂_close helements

theorem InStep.play {s : State} (h : InStep c.language lead s) (a : Act) :
    InStep c.language lead (s.play c a) := by
  cases a with
  | put p => exact h.emit p
  | embedded language weight e => exact h.embed language weight e
  | enter id bound => exact h.enter id bound
  | leave => exact h.leave

/-! ## The invariant of a scan -/

/-- The outermost mode is the root, for which no element is open, and the open elements
are in step with the open modes. -/
structure Ordered (l : CompiledLanguage) (lead : String) (s : State) : Prop where
  root : ∃ f, s.frames.getLast? = some f ∧ f.mode = 0 ∧ f.opened = false
  inStep : InStep l lead s

theorem Ordered.frames_ne_nil {l : CompiledLanguage} {s : State} (h : Ordered l lead s) :
    s.frames ≠ [] := by
  obtain ⟨f, hlast, _⟩ := h.root
  rintro hnil
  rw [hnil] at hlast
  cases hlast

theorem Ordered.plays {s s' : State} {acts : List Act} (h : Ordered c.language lead s)
    (hplays : Plays c s acts s') : Ordered c.language lead s' := by
  refine (hplays.keeps ?_ ?_ h.frames_ne_nil h).1
  · intro s s' hsame hs
    exact ⟨hsame.frames ▸ hs.root, hs.inStep.congr hsame⟩
  · intro s a hne ha hs
    refine ⟨?_, hs.inStep.play a⟩
    rw [play_getLast? hne ha]
    exact hs.root

end

/-! ## The states of a scan -/

/-- Where a scan with the language can go on: at the start, or where an earlier scan with
it stopped. -/
inductive Resumable (l : CompiledLanguage) : Option Continuation → Prop
  | fresh : Resumable l none
  | scanned {steps : Nat} {c : Context} {lead : String} {resume : Option Continuation}
      {r : Scanned} (hc : c.language = l) (h : Resumable l resume)
      (hscan : scanWithin steps c lead resume = .ok r) : Resumable l (some r.continuation)

/-- The states that a scan with the language goes through, fresh or resumed. -/
inductive Visits (l : CompiledLanguage) (lead : String) : State → Prop
  | start {resume : Option Continuation} (h : Resumable l resume) :
      Visits l lead (startState lead resume)
  | step {c : Context} {s : State} {o : Outcome} (hc : c.language = l) (h : Visits l lead s)
      (hstep : s.step c = .ok o) : Visits l lead o.state

theorem reaches_of_run {l : CompiledLanguage} {c : Context} (hc : c.language = l) {n : Nat}
    {s s' : State} (hs : Reaches l s) (h : State.run c n s = .ok s') : Reaches l s' := by
  induction n generalizing s with
  | zero => cases h
  | succ n ih =>
    rw [State.run] at h
    obtain ⟨o, hstep, h⟩ := bind_eq_ok.mp h
    have ho := hs.step hc hstep
    rcases o with s₁ | s₁
    · exact ih ho h
    · cases h
      exact ho

/-- A scan stops with the modes of a state that it reached. -/
theorem stops_at_reached {l : CompiledLanguage} {steps : Nat} {c : Context} {lead : String}
    {resume : Option Continuation} {r : Scanned} (hc : c.language = l)
    (hs : Reaches l (startState lead resume)) (h : scanWithin steps c lead resume = .ok r) :
    ∃ s, Reaches l s ∧ r.continuation = ⟨s.frames⟩ := by
  rcases scanWithin_eq_ok.mp h with ⟨_, rfl⟩ | ⟨_, s, hrun, hfinish⟩
  · exact ⟨_, hs, rfl⟩
  · unfold State.finish at hfinish
    obtain ⟨s₁, hflush, hfinish⟩ := bind_eq_ok.mp hfinish
    cases hfinish
    have hframes : s₁.frames = s.frames := (flush_sameControl _ _ _ hflush).frames
    exact ⟨s, reaches_of_run hc hs hrun, by rw [hframes]⟩

theorem reaches_of_resumable {l : CompiledLanguage} {resume : Option Continuation}
    (h : Resumable l resume) (lead : String) : Reaches l (startState lead resume) := by
  induction h generalizing lead with
  | fresh => exact .start lead
  | scanned hc _ hscan ih =>
    obtain ⟨s, hs, hcontinuation⟩ := stops_at_reached hc (ih _) hscan
    rw [hcontinuation]
    exact .resume lead hs

theorem reaches_of_visits {l : CompiledLanguage} {lead : String} {s : State}
    (h : Visits l lead s) : Reaches l s := by
  induction h with
  | start h => exact reaches_of_resumable h lead
  | step hc _ hstep ih => exact ih.step hc hstep

theorem startFrames_root {resume : Option Continuation}
    (h : ∀ k, resume = some k → ∃ f, k.frames.getLast? = some f ∧ f.mode = 0) :
    ∃ f, (startFrames resume).getLast? = some f ∧ f.mode = 0 ∧ f.opened = false := by
  unfold startFrames
  split
  · rename_i g gs
    obtain ⟨f, hlast, hmode⟩ := h _ rfl
    refine ⟨{ f with opened := false, resumed := true }, ?_, hmode, rfl⟩
    rw [List.getLast?_map, hlast]
    rfl
  · exact ⟨rootFrame, rfl, rfl, rfl⟩

/-- At the start no element is open, whichever modes are. -/
theorem inStep_start (l : CompiledLanguage) (lead : String) (resume : Option Continuation) :
    InStep l lead (startState lead resume) := by
  refine ⟨rfl, ?_⟩
  have hnone : (startFrames resume).filter (·.opened) = [] := by
    rw [List.filter_eq_nil_iff]
    intro f hf
    simp [(startFrames_opened resume).2 f hf]
  show List.Forall₂ _ [] ((startFrames resume).filter (·.opened))
  rw [hnone]
  exact .nil

theorem ordered_start {l : CompiledLanguage} {lead : String} {resume : Option Continuation}
    (hroot : ∃ f, (startFrames resume).getLast? = some f ∧ f.mode = 0 ∧ f.opened = false) :
    Ordered l lead (startState lead resume) :=
  ⟨hroot, inStep_start l lead resume⟩

theorem ordered_of_resumable {l : CompiledLanguage} {resume : Option Continuation}
    (h : Resumable l resume) (lead : String) : Ordered l lead (startState lead resume) := by
  induction h generalizing lead with
  | fresh => exact ordered_start ⟨rootFrame, rfl, rfl, rfl⟩
  | scanned hc _ hscan ih =>
    subst hc
    obtain ⟨s, hplays, _, hcontinuation, _⟩ := scanWithin_plays hscan
    obtain ⟨f, hlast, hmode, _⟩ := ((ih _).plays hplays).root
    refine ordered_start (startFrames_root ?_)
    rintro k hk
    cases hk
    exact ⟨f, by rw [hcontinuation]; exact hlast, hmode⟩

theorem ordered_of_visits {l : CompiledLanguage} {lead : String} {s : State}
    (h : Visits l lead s) : Ordered l lead s := by
  induction h with
  | start h => exact ordered_of_resumable h lead
  | step hc _ hstep ih =>
    subst hc
    exact ih.plays (step_plays hstep)

/-- Inside the root all open modes begin. -/
theorem frames_begin {l : CompiledLanguage} {stop : Nat} (h : l.BeginsUpTo stop) {root : Frame}
    (hroot : root.mode = 0) {inner : List Frame} (hnested : Nested l (inner ++ [root])) :
    ∀ f ∈ inner, 0 < f.mode ∧ f.mode < stop := by
  induction inner with
  | nil =>
    intro f hf
    cases hf
  | cons f inner ih =>
    have hinner := ih hnested.tail
    -- the mode stands inside the next one, which begins itself unless it is the root
    have hf : 0 < f.mode ∧ f.mode < stop := by
      rcases inner with _ | ⟨g, inner⟩
      · exact child_begins h (.inl hroot) hnested.rel
      · exact child_begins h (.inr (hinner g List.mem_cons_self).2) hnested.rel
    intro f' hf'
    rcases List.mem_cons.mp hf' with rfl | hf'
    · exact hf
    · exact hinner f' hf'

/-- When all modes but the root are left, no element is open. -/
theorem Ordered.closed {c : Context} {lead : String} {s : State} (h : Ordered c.language lead s) :
    (s.leaveAll c (s.frames.length - 1)).tree.openElements = [] := by
  have hpos := List.length_pos_of_ne_nil h.frames_ne_nil
  have hplays := plays_leaveAll (c := c) (Nat.sub_one_lt_of_lt hpos)
  obtain ⟨⟨root, hlast, _, hopened⟩, _, helements⟩ := h.plays hplays
  have hone : (s.leaveAll c (s.frames.length - 1)).frames.length = 1 := by
    rw [leaveAll_frames, List.length_drop]
    omega
  obtain ⟨f, hf⟩ := List.length_eq_one_iff.mp hone
  rw [hf] at hlast helements
  obtain rfl : f = root := Option.some.inj hlast
  rw [List.filter_cons_of_neg (by simp [hopened]), List.filter_nil,
    List.forall₂_nil_right_iff] at helements
  exact helements

/-- In every state of a scan with a compiled language, fresh or resumed, the outermost
mode is the root and the modes inside it are other modes of the language that begin. The
open elements are those of the modes that opened one, with the class names of their
modes. No end closes the root, no step changes the outermost mode, and at the end of the
text, once the modes are left, no element is open. -/
theorem open_elements_follow_open_modes {g : Grammar} {depth : Nat} {l : CompiledLanguage}
    (hl : compileWithin g depth = .ok l) {lead : String} {s : State} (hs : Visits l lead s) :
    (∃ inner root, s.frames = inner ++ [root] ∧ root.mode = 0 ∧
      ∀ f ∈ inner, f.mode ≠ 0 ∧ ∃ m, l.mode? f.mode = some m ∧ m.begins.isSome = true) ∧
    List.Forall₂ (ElementOf l lead) s.tree.openElements (s.frames.filter (·.opened)) ∧
    (∀ c pos n, closedBy? c pos s.frames = some n → n < s.frames.length) ∧
    (∀ c o, c.language = l → s.step c = .ok o →
      o.state.frames.getLast? = s.frames.getLast?) ∧
    (∀ c s', c.language = l → (s.push (c.slice s.cursor c.text.size)).flush c = .ok s' →
      (s'.leaveAll c (s'.frames.length - 1)).tree.openElements = []) := by
  have hordered := ordered_of_visits hs
  refine ⟨?_, hordered.inStep.elements, fun c pos n hn => (closedBy?_lt hn).2, ?_, ?_⟩
  · obtain ⟨stop, hbegins⟩ := compileWithin_beginsUpTo hl
    obtain ⟨root, hlast, hmode, _⟩ := hordered.root
    obtain ⟨inner, hframes⟩ := List.getLast?_eq_some_iff.mp hlast
    refine ⟨inner, root, hframes, hmode, ?_⟩
    have hnested := nested_of_reaches (reaches_of_visits hs)
    rw [hframes] at hnested
    intro f hf
    obtain ⟨hpos, hlt⟩ := frames_begin hbegins hmode hnested f hf
    have hm := Array.getElem?_eq_getElem (Nat.lt_of_lt_of_le hlt hbegins.size)
    exact ⟨Nat.ne_of_gt hpos, _, hm, (hbegins.modes f.mode _ hpos hlt hm).1⟩
  · rintro c o rfl hstep
    refine ((step_plays hstep).keeps (P := fun s₁ => s₁.frames.getLast? = s.frames.getLast?)
      ?_ ?_ hordered.frames_ne_nil rfl).1
    · intro s₁ s₂ hsame h
      rw [hsame.frames]
      exact h
    · intro s₁ a hne ha h
      rw [play_getLast? hne ha]
      exact h
  · rintro c s' rfl hflush
    exact (hordered.plays (.before (push_sameYield s _) (flush_plays hflush))).closed

theorem quotation_is_open_inside_the_root :
    ∃ l s, compile quoting = .ok l ∧ Visits l "" s ∧ s.frames.length = 2 ∧
      s.tree.openElements.length = 1 ∧
      (∃ inner root, s.frames = inner ++ [root] ∧ root.mode = 0 ∧
        ∀ f ∈ inner, f.mode ≠ 0 ∧ ∃ m, l.mode? f.mode = some m ∧ m.begins.isSome = true) ∧
      List.Forall₂ (ElementOf l "") s.tree.openElements (s.frames.filter (·.opened)) := by
  have hall : ((compileWithin quoting 9).toOption.any fun l =>
      ((startState "" none).next? (scanOf l "a<b>")).any fun s =>
        s.frames.length == 2 && s.tree.openElements.length == 1) = true := by decide +kernel
  obtain ⟨l, hl, hall⟩ := toOption_any_eq_true.mp hall
  simp only [Option.any_eq_true, Bool.and_eq_true, beq_iff_eq] at hall
  obtain ⟨s, hnext, hlength, hopen⟩ := hall
  have hvisits : Visits l "" s := .step rfl (.start .fresh) (next?_eq_some.mp hnext)
  obtain ⟨hframes, helements, _⟩ := open_elements_follow_open_modes hl hvisits
  exact ⟨l, s, compile_of_compileWithin hl, hvisits, hlength, hopen, hframes, helements⟩

end Scan

end Highlighting
