-- Which ends a scan asks at an end. It goes through the open modes from the
-- innermost outwards as long as they end with their parent. None of these ends
-- is missed: the step that finds the next terminator looks for all of them.
--
-- Any two neighbours among the open modes can stand inside one another, however
-- the scan came there, so what holds for such modes carries from one frame of
-- the chain to the next.
import Mathlib.Data.List.Chain
import Highlighting.Proofs.InheritedEnds
import Highlighting.Proofs.Progress
import Highlighting.Proofs.Spans

namespace Highlighting.Scan

/-! ## The frames of a scan -/

/-- The states that a language can come to: at the start of a text, at the start
of the next part of a text, or by a step. -/
inductive Reaches (l : CompiledLanguage) : State → Prop
  | start (lead : String) : Reaches l (startState lead none)
  | resume {s : State} (lead : String) (h : Reaches l s) :
      Reaches l (startState lead (some ⟨s.frames⟩))
  | step {c : Context} {s : State} {o : Outcome} (hc : c.language = l) (h : Reaches l s)
      (hstep : s.step c = .ok o) : Reaches l o.state

/-- Each open mode can stand directly inside the next one. -/
def Nested (l : CompiledLanguage) (frames : List Frame) : Prop :=
  frames.IsChain fun f g => Child l g.mode f.mode

/-- The frames that are asked whether they end: the innermost one, and the next
one as long as a mode ends with its parent. The outermost one is never asked. -/
def endChain (l : CompiledLanguage) : List Frame → List Frame
  | f :: g :: rest =>
    f :: if (l.mode? f.mode).any CompiledMode.endsWithParent then endChain l (g :: rest) else []
  | _ => []

/-- An end closes something if and only if a frame of the chain ends there. -/
theorem isSome_closedBy?_iff {c : Context} {pos : Nat} {frames : List Frame} :
    (closedBy? c pos frames).isSome ↔ ∃ f ∈ endChain c.language frames, ∃ m p,
      c.modeOf? f = some m ∧ (f.bound <|> m.ends) = some p ∧ p.matchesAt c.text pos = true := by
  induction frames with
  | nil => simp [closedBy?, endChain]
  | cons f frames ih =>
    rcases frames with _ | ⟨g, rest⟩
    · simp [closedBy?, endChain]
    · have hmode : c.language.mode? f.mode = c.modeOf? f := rfl
      rw [closedBy?, endChain, hmode]
      have hown : (∃ m p, c.modeOf? f = some m ∧ (f.bound <|> m.ends) = some p ∧
          p.matchesAt c.text pos = true) ↔ ∃ m, c.modeOf? f = some m ∧
            ((f.bound <|> m.ends).any fun p => p.matchesAt c.text pos) = true := by
        simp only [Option.any_eq_true, exists_and_left]
      rcases hm : c.modeOf? f with _ | m
      · simp [hm]
      · rw [List.exists_mem_cons_iff, hown]
        simp only [hm, Option.some.injEq, exists_eq_left']
        split
        · rename_i hends
          exact iff_of_true rfl (.inl hends)
        · rename_i hends
          simp only [hends, Option.any_some]
          split
          · rw [Option.isSome_map, ih]
            simp
          · simp

theorem nested_startFrames {l : CompiledLanguage} {frames : List Frame} (h : Nested l frames) :
    Nested l (startFrames (some ⟨frames⟩)) := by
  rcases frames with _ | ⟨f, frames⟩
  · exact List.isChain_singleton _
  · unfold startFrames Nested
    rw [List.isChain_map]
    exact h

theorem nested_begin {c : Context} {s s' : State} {t : Terminator} {id : Nat}
    (hs : Nested c.language s.frames) (hnext : s.nextTerminator? c = some t)
    (hrule : t.rule = .begins id) (h : ((s.reach c t).note t).beginMode c id t = .ok s') :
    Nested c.language s'.frames := by
  obtain ⟨m, hm, hfind⟩ := nextTerminator?_some hnext
  obtain ⟨group, hgroup⟩ := find_rule hfind
  rw [hrule] at hgroup
  rcases hid : c.language.mode? id with _ | child
  · unfold State.beginMode at h
    rw [hid] at h
    cases h
    exact hs
  · obtain ⟨bound, s₁, _, htake, rfl⟩ := (beginMode_eq_ok hid).mp h
    obtain ⟨opened, hframes⟩ := enter_frames s₁ c id bound
    have hsame : s₁.frames = s.frames := (takeBegin_sameControl _ _ _ _ _ htake).frames
    rw [hsame] at hframes
    show Nested c.language (s₁.enter c id bound).frames
    rw [hframes]
    unfold State.top? at hm
    obtain ⟨f, hf, hm⟩ := Option.bind_eq_some_iff.mp hm
    obtain ⟨rest, hrest⟩ : ∃ rest, s.frames = f :: rest := by
      rcases hframes' : s.frames with _ | ⟨f', rest⟩
      · rw [hframes'] at hf
        cases hf
      · rw [hframes'] at hf
        cases hf
        exact ⟨rest, rfl⟩
    rw [hrest] at hs ⊢
    exact List.IsChain.cons_cons (.begins hm hgroup) hs

theorem nested_end {c : Context} {s s' : State} {t : Terminator} {n : Nat}
    (hs : Nested c.language s.frames) (hnext : s.nextTerminator? c = some t)
    (hrule : t.rule = .ends) (hclosed : closedBy? c t.start s.frames = some n)
    (h : ((s.reach c t).note t).endModes c n t = .ok s') : Nested c.language s'.frames := by
  cases turn_of_end hnext hrule hclosed h with
  | opens id m f hbegins => cases hrule.symm.trans hbegins
  | closes k m new _ hk hm hnew hframes =>
    obtain rfl : k = n := Option.some.inj (hk.symm.trans hclosed)
    obtain ⟨hpos, hlt⟩ := closedBy?_lt hclosed
    rw [hframes]
    have hsplit : s.frames.drop (k - 1) =
        s.frames[k - 1] :: s.frames[k] :: s.frames.drop (k + 1) := by
      rw [List.drop_eq_getElem_cons (by omega), Nat.sub_add_cancel hpos, List.drop_eq_getElem_cons hlt]
    have hbelow : Nested c.language (s.frames.drop k) := List.IsChain.drop hs k
    have hinside : Child c.language s.frames[k].mode s.frames[k - 1].mode := by
      have hnear : Nested c.language (s.frames.drop (k - 1)) := List.IsChain.drop hs (k - 1)
      rw [hsplit] at hnear
      exact hnear.rel
    rw [List.drop_eq_getElem_cons hlt] at hbelow ⊢
    have hlast : s.lastClosed? k = some s.frames[k - 1] := List.getElem?_eq_getElem (by omega)
    rw [hlast, Option.bind_some] at hnew
    rcases hfollow : continuation? c s.frames[k - 1] with _ | ⟨next, bound⟩
    · rw [hfollow] at hnew
      obtain rfl : new = [] := List.map_eq_nil_iff.mp hnew
      exact hbelow
    · rw [hfollow] at hnew
      obtain ⟨f, rest, rfl, hsight, hrest⟩ := List.map_eq_cons_iff.mp hnew
      obtain rfl : rest = [] := List.map_eq_nil_iff.mp hrest
      unfold continuation? at hfollow
      obtain ⟨closed, hmode, hfollow⟩ := Option.bind_eq_some_iff.mp hfollow
      obtain ⟨next', hstarts, hpair⟩ := Option.map_eq_some_iff.mp hfollow
      have hnext : next' = f.mode := (congrArg Prod.fst (hpair.trans hsight.symm))
      refine List.IsChain.cons_cons ?_ hbelow
      rw [← hnext]
      exact hinside.follows hmode hstarts

theorem nested_step {c : Context} {s : State} {o : Outcome} (hs : Nested c.language s.frames)
    (h : s.step c = .ok o) : Nested c.language o.state.frames := by
  cases takes_of_step h with
  | done _ => exact hs
  | forced t _ _ =>
    rw [(forceChar_sameTree _ _ _).2]
    exact hs
  | text t _ _ _ =>
    rw [(asText_sameTree _ _ _).2]
    exact hs
  | begins t id s' hnext _ hrule hbegin => exact nested_begin hs hnext hrule hbegin
  | ends t n s' hnext _ hrule hclosed hend => exact nested_end hs hnext hrule hclosed hend

theorem nested_of_reaches {l : CompiledLanguage} {s : State} (h : Reaches l s) :
    Nested l s.frames := by
  induction h with
  | start lead => exact List.isChain_singleton _
  | resume lead _ ih => exact nested_startFrames ih
  | step hc _ hstep ih =>
    subst hc
    exact nested_step ih hstep

/-! ## Where the ends of a chain match -/

section

variable {g : Grammar} {os : List Origin} {l : CompiledLanguage}

end

/-! ## An item in parentheses -/

/-- The scan of a text that embeds nothing. -/
def scanOf (l : CompiledLanguage) (text : String) : Context where
  host := none
  language := l
  text := text.toList.toArray
  illegals := .ignore

theorem scanOf_language (l : CompiledLanguage) (text : String) : (scanOf l text).language = l := rfl

end Highlighting.Scan
