-- Ends that are bound to the text at which their mode began. Such an end is found
-- as any other: the pattern at which the mode begins looks for it, and only the
-- place where it starts is compared with the text of the beginning. So that text
-- stands where the mode ends, but what is taken there is what the pattern found,
-- which is the same text only if it is as long.
--
-- A frame keeps no record of the text at which it began. The states of a scan are
-- therefore followed with a list of these texts beside the open modes.
import Highlighting.Proofs.EndChains
import Highlighting.Proofs.LiteralMatches

namespace Highlighting

open Regex (slice)

namespace Scan

/-! ## The texts at which the open modes began -/

/-- After a step, the texts at which the open modes began, if `lexemes` are those
before it. A mode that follows another one began at no text. -/
def State.lexemesAfter (s : State) (c : Context) (lexemes : List (Option String)) :
    List (Option String) :=
  match s.nextTerminator? c with
  | none => lexemes
  | some t =>
    if s.isDegenerate t then lexemes
    else match t.rule with
      | .begins id =>
        if (c.language.mode? id).isSome then some (c.slice t.start t.stop) :: lexemes else lexemes
      | .ends =>
        match closedBy? c t.start s.frames with
        | some n =>
          ((s.lastClosed? n).bind (continuation? c)).toList.map (fun _ => none) ++ lexemes.drop n
        | none => lexemes
      | .illegal => lexemes

/-- The states that a language can come to, each with the texts at which its open
modes began, the innermost first. The root began at no text, and a mode that is
still open in the next part of a text began where it did. -/
inductive Began (l : CompiledLanguage) : State → List (Option String) → Prop
  | start (lead : String) : Began l (startState lead none) [none]
  | resume {s : State} {lexemes : List (Option String)} (lead : String) (h : Began l s lexemes) :
      Began l (startState lead (some ⟨s.frames⟩)) lexemes
  | step {c : Context} {s : State} {lexemes : List (Option String)} {o : Outcome}
      (hc : c.language = l) (h : Began l s lexemes) (hstep : s.step c = .ok o) :
      Began l o.state (s.lexemesAfter c lexemes)

/-- Every state that a language can come to has such an account. -/
theorem began_of_reaches {l : CompiledLanguage} {s : State} (h : Reaches l s) :
    ∃ lexemes, Began l s lexemes := by
  induction h with
  | start lead => exact ⟨_, .start lead⟩
  | resume lead _ ih =>
    obtain ⟨lexemes, ih⟩ := ih
    exact ⟨lexemes, ih.resume lead⟩
  | step hc _ hstep ih =>
    obtain ⟨lexemes, ih⟩ := ih
    exact ⟨_, ih.step hc hstep⟩

/-! ## Frames and the texts they are bound to -/

/-- If the mode of a frame ends as it began, and it began at a text, then the end
that is bound to the frame stands for this text. -/
def Binds (l : CompiledLanguage) (f : Frame) (began : Option String) : Prop :=
  ∀ m lexeme, l.mode? f.mode = some m → m.endSameAsBegin = true → began = some lexeme →
    ∃ p, Pattern.literal lexeme l.caseInsensitive = .ok p ∧ f.bound = some p

theorem binds_none (l : CompiledLanguage) (f : Frame) : Binds l f none := by
  intro m lexeme _ _ h
  cases h

/-- The text at which a mode begins is bound to its frame. -/
theorem binds_of_boundEnd {c : Context} {id : Nat} {m : CompiledMode}
    (hm : c.language.mode? id = some m) {lexeme : String} {bound : Option Pattern}
    (h : boundEnd c m lexeme = .ok bound) (opened resumed : Bool) :
    Binds c.language ⟨id, bound, opened, resumed⟩ (some lexeme) := by
  intro m' lexeme' hm' hsame hlexeme
  cases hm.symm.trans hm'
  cases hlexeme
  rw [boundEnd, if_pos hsame, literal_eq_ok] at h
  exact ⟨_, literal_eq_ok _ _, (Except.ok.inj h).symm⟩

/-- Every frame goes with a text, and there is one at least. -/
structure Bound (l : CompiledLanguage) (s : State) (lexemes : List (Option String)) : Prop where
  frames : List.Forall₂ (Binds l) s.frames lexemes
  nonempty : s.frames ≠ []

theorem bound_begin {c : Context} {s s' : State} {t : Terminator} {id : Nat}
    {lexemes : List (Option String)} (hs : Bound c.language s lexemes)
    (h : ((s.reach c t).note t).beginMode c id t = .ok s') :
    Bound c.language s' (if (c.language.mode? id).isSome then
      some (c.slice t.start t.stop) :: lexemes else lexemes) := by
  rcases hid : c.language.mode? id with _ | m
  · unfold State.beginMode at h
    rw [hid] at h
    cases h
    exact ⟨hs.frames, hs.nonempty⟩
  · obtain ⟨bound, s₁, hbound, htake, rfl⟩ := (beginMode_eq_ok hid).mp h
    obtain ⟨opened, hframes⟩ := enter_frames s₁ c id bound
    have hsame : s₁.frames = s.frames := (takeBegin_sameControl _ _ _ _ _ htake).frames
    rw [hsame] at hframes
    rw [Option.isSome_some, if_pos rfl]
    refine ⟨?_, ?_⟩
    · show List.Forall₂ _ (s₁.enter c id bound).frames _
      rw [hframes]
      exact .cons (binds_of_boundEnd hid hbound opened false) hs.frames
    · show (s₁.enter c id bound).frames ≠ []
      rw [hframes]
      exact List.cons_ne_nil _ _

theorem bound_end {c : Context} {s s' : State} {t : Terminator} {n : Nat}
    {lexemes : List (Option String)} (hs : Bound c.language s lexemes)
    (hnext : s.nextTerminator? c = some t) (hrule : t.rule = .ends)
    (hclosed : closedBy? c t.start s.frames = some n)
    (h : ((s.reach c t).note t).endModes c n t = .ok s') :
    Bound c.language s' (((s.lastClosed? n).bind (continuation? c)).toList.map (fun _ => none) ++
      lexemes.drop n) := by
  cases turn_of_end hnext hrule hclosed h with
  | opens id m f hbegins => cases hrule.symm.trans hbegins
  | closes k m new _ hk hm hnew hframes =>
    obtain rfl : k = n := Option.some.inj (hk.symm.trans hclosed)
    refine ⟨?_, ?_⟩
    · rw [hframes, ← hnew, List.map_map]
      refine List.rel_append ?_ (List.forall₂_drop k hs.frames)
      rw [List.forall₂_map_right_iff, List.forall₂_same]
      exact fun f _ => binds_none c.language f
    · rw [hframes]
      have hlt := (closedBy?_lt hclosed).2
      exact List.append_ne_nil_of_right_ne_nil _ (by simpa using hlt)

theorem bound_step {c : Context} {s : State} {lexemes : List (Option String)} {o : Outcome}
    (hs : Bound c.language s lexemes) (h : s.step c = .ok o) :
    Bound c.language o.state (s.lexemesAfter c lexemes) := by
  unfold State.lexemesAfter
  cases takes_of_step h with
  | done hnext =>
    rw [hnext]
    exact hs
  | forced t hnext hdegenerate =>
    have hdegenerate' : s.isDegenerate t = true := hdegenerate
    have hframes : ((s.reach c t).forceChar c t.start).state.frames = s.frames :=
      (forceChar_sameTree _ _ _).2
    simp only [hnext, hdegenerate', if_true]
    exact ⟨hframes ▸ hs.frames, hframes ▸ hs.nonempty⟩
  | text t hnext hdegenerate hrule =>
    have hdegenerate' : s.isDegenerate t = false := hdegenerate
    have hframes : (((s.reach c t).note t).asText c t).state.frames = s.frames :=
      (asText_sameTree _ _ _).2
    rcases hrule with ⟨hrule, hopen⟩ | hrule
    · simp only [hnext, hdegenerate', hrule, hopen, Bool.false_eq_true, if_false]
      exact ⟨hframes ▸ hs.frames, hframes ▸ hs.nonempty⟩
    · simp only [hnext, hdegenerate', hrule, Bool.false_eq_true, if_false]
      exact ⟨hframes ▸ hs.frames, hframes ▸ hs.nonempty⟩
  | begins t id s' hnext hdegenerate hrule hbegin =>
    have hdegenerate' : s.isDegenerate t = false := hdegenerate
    simp only [hnext, hdegenerate', hrule, Bool.false_eq_true, if_false]
    exact bound_begin hs hbegin
  | ends t n s' hnext hdegenerate hrule hclosed hend =>
    have hdegenerate' : s.isDegenerate t = false := hdegenerate
    simp only [hnext, hdegenerate', hrule, hclosed, Bool.false_eq_true, if_false]
    exact bound_end hs hnext hrule hclosed hend

theorem bound_of_began {l : CompiledLanguage} {s : State} {lexemes : List (Option String)}
    (h : Began l s lexemes) : Bound l s lexemes := by
  induction h with
  | start lead => exact ⟨.cons (binds_none l rootFrame) .nil, List.cons_ne_nil _ _⟩
  | @resume s lexemes lead _ ih =>
    obtain ⟨f, rest, hframes⟩ := List.exists_cons_of_ne_nil ih.nonempty
    have hstart : (startState lead (some ⟨s.frames⟩)).frames =
        s.frames.map fun f => { f with opened := false, resumed := true } := by
      rw [hframes]
      rfl
    refine ⟨?_, ?_⟩
    · rw [hstart, List.forall₂_map_left_iff]
      exact ih.frames
    · rw [hstart, hframes]
      exact List.cons_ne_nil _ _
  | step hc _ hstep ih =>
    subst hc
    exact bound_step ih hstep

/-! ## The mode that ends -/

/-- The open mode whose own end matches at `pos`, counted from the innermost one.
A mode that ends with its parent passes the question on. -/
def ending? (c : Context) (pos : Nat) : List Frame → Option Nat
  | f :: g :: rest =>
    match c.modeOf? f with
    | none => none
    | some m =>
      if ((f.bound <|> m.ends).any fun p => p.matchesAt c.text pos) then some 0
      else if m.endsWithParent then (ending? c pos (g :: rest)).map (· + 1)
      else none
  | _ => none

/-- An end closes the modes up to the one that ends, and after it those that it
ends with itself. -/
theorem closedBy?_eq (c : Context) (pos : Nat) (frames : List Frame) :
    closedBy? c pos frames =
      (ending? c pos frames).map fun i => i + (parentsEnded c (frames.drop i) + 1) := by
  induction frames with
  | nil => rfl
  | cons f frames ih =>
    rcases frames with _ | ⟨g, rest⟩
    · rfl
    · rw [closedBy?, ending?]
      rcases c.modeOf? f with _ | m
      · rfl
      · simp only
        split
        · simp
        · split
          · rw [ih, Option.map_map, Option.map_map]
            refine congrFun (congrArg Option.map (funext fun i => ?_)) _
            simp only [Function.comp_apply, List.drop_succ_cons]
            omega
          · rfl

/-- The end of the mode that ends matches. -/
theorem ending?_some {c : Context} {pos i : Nat} {frames : List Frame}
    (h : ending? c pos frames = some i) : ∃ f m p, frames[i]? = some f ∧ c.modeOf? f = some m ∧
      (f.bound <|> m.ends) = some p ∧ p.matchesAt c.text pos = true := by
  induction frames generalizing i with
  | nil => cases h
  | cons f frames ih =>
    rcases frames with _ | ⟨g, rest⟩
    · cases h
    · rw [ending?] at h
      rcases hm : c.modeOf? f with _ | m
      · simp [hm] at h
      · simp only [hm] at h
        split at h
        · rename_i hends
          cases h
          obtain ⟨p, hp, hmatch⟩ := (Option.any_eq_true _ _).mp hends
          exact ⟨f, m, p, rfl, hm, hp, hmatch⟩
        · split at h
          · obtain ⟨j, hj, rfl⟩ := Option.map_eq_some_iff.mp h
            obtain ⟨f', m', p, hf', hrest⟩ := ih hj
            exact ⟨f', m', p, by rwa [List.getElem?_cons_succ], hrest⟩
          · cases h

/-- The next terminator is an end, and the own end of the open mode `i`, counted
from the innermost one, is the first that matches there. -/
structure State.EndsAt (s : State) (c : Context) (t : Terminator) (i : Nat) : Prop where
  next : s.nextTerminator? c = some t
  rule : t.rule = .ends
  plain : s.isDegenerate t = false
  ending : ending? c t.start s.frames = some i

/-- The step then closes this mode, and goes on behind the terminator unless the
innermost mode returns it. -/
theorem State.EndsAt.closes {s : State} {c : Context} {t : Terminator} {i : Nat}
    (h : s.EndsAt c t i) {o : Outcome} (hstep : s.step c = .ok o) :
    ∃ s' new n innermost, o = .next s' ∧ i < n ∧ s'.frames = new ++ s.frames.drop n ∧
      s.top? c = some innermost ∧
      s'.cursor = if innermost.returnEnd then t.start else t.stop := by
  have hclosed : closedBy? c t.start s.frames =
      some (i + (parentsEnded c (s.frames.drop i) + 1)) := by
    rw [closedBy?_eq, h.ending]
    rfl
  cases takes_of_step hstep with
  | done hnext => cases hnext.symm.trans h.next
  | forced t' hnext hdegenerate =>
    cases hnext.symm.trans h.next
    exact absurd (hdegenerate.symm.trans h.plain) (by decide)
  | text t' hnext _ hrule =>
    cases hnext.symm.trans h.next
    rcases hrule with ⟨_, hopen⟩ | hrule
    · cases hopen.symm.trans hclosed
    · cases hrule.symm.trans h.rule
  | begins t' id s' hnext _ hrule =>
    cases hnext.symm.trans h.next
    cases hrule.symm.trans h.rule
  | ends t' n s' hnext _ hrule hn hend =>
    cases hnext.symm.trans h.next
    cases turn_of_end hnext hrule hn hend with
    | opens id m f hbegins => cases hrule.symm.trans hbegins
    | closes k m new _ hk hm _ hframes hcursor =>
      obtain rfl : k = n := Option.some.inj (hk.symm.trans hn)
      have hi : k = i + (parentsEnded c (s.frames.drop i) + 1) :=
        Option.some.inj (hn.symm.trans hclosed)
      exact ⟨s', new, k, m, rfl, by omega, hframes, hm, hcursor⟩

/-! ## Where a bound end is met -/

theorem slice_initial (c : Context) {start stop stop' : Nat} (hstart : start ≤ stop)
    (hstop : stop ≤ stop') : (c.slice start stop).toList <+: (c.slice start stop').toList := by
  rw [← c.slice_append hstart hstop, String.toList_append]
  exact List.prefix_append _ _

/-- Two texts from one place are the same if and only if they are equally long. -/
theorem sameText_slice (anyCase : Bool) (c : Context) (start stop stop' : Nat) :
    SameText anyCase (c.slice start stop) (c.slice start stop') ↔
      (c.slice start stop).length = (c.slice start stop').length := by
  have hempty : ∀ stop, stop ≤ start → c.slice start stop = c.slice start start := by
    intro stop hle
    simp [Context.slice, slice, Array.extract_empty_of_stop_le_start, hle]
  -- What stops before it starts is empty, so both can be taken to go forward.
  have hforward : ∀ stop, ∃ stop', start ≤ stop' ∧ c.slice start stop = c.slice start stop' := by
    intro stop
    rcases Nat.le_total start stop with hle | hle
    · exact ⟨stop, hle, rfl⟩
    · exact ⟨start, Nat.le_refl _, hempty stop hle⟩
  obtain ⟨a, ha, hx⟩ := hforward stop
  obtain ⟨b, hb, hy⟩ := hforward stop'
  rw [hx, hy]
  rcases Nat.le_total a b with hle | hle
  · exact sameText_of_initial (slice_initial c ha hle)
  · have hsame := @sameText_of_initial anyCase _ _ (slice_initial c hb hle)
    exact ⟨fun h => (hsame.mp h.symm).symm, fun h => (hsame.mpr h.symm).symm⟩

/-- Where a mode ends that ends as it began, the text at which it began stands again,
and what is taken there is the same text if and only if it is as long. This holds in
every state that a language can come to, whichever modes end inside it or with it. -/
theorem bound_end_is_met_where_its_text_stands (l : CompiledLanguage) (s : State)
    (lexemes : List (Option String)) (hs : Began l s lexemes) (c : Context) (hc : c.language = l)
    (t : Terminator) (i : Nat) (hends : s.EndsAt c t i) (f : Frame) (hf : s.frames[i]? = some f)
    (m : CompiledMode) (hm : l.mode? f.mode = some m) (hsame : m.endSameAsBegin = true)
    (lexeme : String) (hbegan : lexemes[i]? = some (some lexeme)) :
    ∃ stop, t.start ≤ stop ∧ stop ≤ c.text.size ∧
      SameText l.caseInsensitive (c.slice t.start stop) lexeme ∧
      (SameText l.caseInsensitive (c.slice t.start t.stop) lexeme ↔
        (c.slice t.start t.stop).length = (c.slice t.start stop).length) := by
  subst hc
  have hbinds : Binds c.language f (some lexeme) := by
    obtain ⟨hi, hfi⟩ := List.getElem?_eq_some_iff.mp hf
    obtain ⟨hi', hli⟩ := List.getElem?_eq_some_iff.mp hbegan
    have hget := (bound_of_began hs).frames.get hi hi'
    simpa [hfi, hli] using hget
  obtain ⟨p, hliteral, hbound⟩ := hbinds m lexeme hm hsame rfl
  obtain ⟨f', m', p', hf', _, hp', hmatch⟩ := ending?_some hends.ending
  cases hf.symm.trans hf'
  rw [hbound] at hp'
  cases hp'
  obtain ⟨stop, hle, hstop, hstands⟩ := (literal_matchesAt_iff hliteral).mp hmatch
  refine ⟨stop, hle, hstop, hstands, ?_⟩
  rw [← sameText_slice c.language.caseInsensitive c t.start t.stop stop]
  exact ⟨fun h => h.trans hstands.symm, fun h => h.trans hstands⟩

/-! ## Quotes in a row -/

/-- A text in quotes that ends as it began, at one quote or more of them. Outside of
it stands a letter. -/
def quoteRowGrammar : Grammar where
  root := { contains := [
    .inline { begins := some "'+", endSameAsBegin := true, relevance := some 0 },
    .inline { className := some "n", begins := some "c" }] }

def quoteRowLanguage : CompiledLanguage := (compileWithin quoteRowGrammar 9).toOption.getD ⟨false, #[]⟩

theorem compile_quoteRowGrammar : compile quoteRowGrammar = .ok quoteRowLanguage := by
  have hwithin : compileWithin quoteRowGrammar 9 = .ok quoteRowLanguage := by decide +kernel
  exact compile_of_compileWithin hwithin

/-- The text begins with one quote, and the quoted text ends at the terminator. -/
def endsQuoteAt (text : String) (t : Terminator) : Bool :=
  let c := scanOf quoteRowLanguage text
  (startState "" none).lexemesAfter c [none] == [some "'", none] &&
    ((startState "" none).after c 1).any fun s =>
      s.nextTerminator? c == some t && t.rule == .ends && !s.isDegenerate t &&
        ending? c t.start s.frames == some 0 &&
        (s.frames[0]?).any fun f => (quoteRowLanguage.mode? f.mode).any CompiledMode.endSameAsBegin

theorem quote_ends {text : String} {t : Terminator} (h : endsQuoteAt text t = true) :
    ∃ s f m, Began quoteRowLanguage s [some "'", none] ∧
      s.EndsAt (scanOf quoteRowLanguage text) t 0 ∧ s.frames[0]? = some f ∧
      quoteRowLanguage.mode? f.mode = some m ∧ m.endSameAsBegin = true := by
  rw [endsQuoteAt, Bool.and_eq_true, beq_iff_eq] at h
  obtain ⟨hlexemes, h⟩ := h
  obtain ⟨s, hs, h⟩ := (Option.any_eq_true _ _).mp h
  simp only [Bool.and_eq_true, beq_iff_eq, Bool.not_eq_true'] at h
  obtain ⟨⟨⟨⟨hnext, hrule⟩, hplain⟩, hending⟩, hframe⟩ := h
  obtain ⟨f, hf, hmode⟩ := (Option.any_eq_true _ _).mp hframe
  obtain ⟨m, hm, hsame⟩ := (Option.any_eq_true _ _).mp hmode
  obtain ⟨s₀, hs₀, hstep⟩ := after_succ_eq_some.mp hs
  cases hs₀
  have hbegan := (Began.start (l := quoteRowLanguage) "").step (scanOf_language _ text) hstep
  rw [hlexemes] at hbegan
  exact ⟨s, f, m, hbegan, ⟨hnext, hrule, hplain, hending⟩, hf, hm, hsame⟩

/-- Between single quotes, the quote that is taken is the quote at which the mode began. -/
theorem single_quote_is_met_again : ∃ stop, 2 ≤ stop ∧ stop ≤ 4 ∧
    SameText false ((scanOf quoteRowLanguage "'a'c").slice 2 stop) "'" ∧
    (SameText false ((scanOf quoteRowLanguage "'a'c").slice 2 3) "'" ↔
      ((scanOf quoteRowLanguage "'a'c").slice 2 3).length =
        ((scanOf quoteRowLanguage "'a'c").slice 2 stop).length) := by
  obtain ⟨s, f, m, hbegan, hends, hf, hm, hsame⟩ :=
    quote_ends (show endsQuoteAt "'a'c" ⟨2, 3, .ends⟩ = true by decide +kernel)
  have hcase : quoteRowLanguage.caseInsensitive = false := by decide +kernel
  have h := bound_end_is_met_where_its_text_stands quoteRowLanguage s _ hbegan _
    (scanOf_language _ _) _ 0 hends f hf m hm hsame "'" rfl
  rw [hcase] at h
  exact h

/-- A text that begins with one quote ends at two of them, and both are taken. -/
theorem two_quotes_end_a_single_quote : ∃ l s lexemes t f m lexeme,
    compile quoteRowGrammar = .ok l ∧ Began l s lexemes ∧ s.EndsAt (scanOf l "'a''b'c") t 0 ∧
    s.frames[0]? = some f ∧ l.mode? f.mode = some m ∧ m.endSameAsBegin = true ∧
    lexemes[0]? = some (some lexeme) ∧
    ¬ SameText l.caseInsensitive ((scanOf l "'a''b'c").slice t.start t.stop) lexeme := by
  obtain ⟨s, f, m, hbegan, hends, hf, hm, hsame⟩ :=
    quote_ends (show endsQuoteAt "'a''b'c" ⟨2, 4, .ends⟩ = true by decide +kernel)
  exact ⟨quoteRowLanguage, s, _, _, f, m, "'", compile_quoteRowGrammar, hbegan, hends, hf, hm,
    hsame, rfl, by decide +kernel⟩

end Scan

end Highlighting
