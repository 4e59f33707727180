-- When a scan comes to an end. Modes that return the lexemes at which they
-- begin and end can open and close at one place for ever. A scan that does not
-- fail runs on for ever exactly if, at one place, it comes back to what it saw
-- before: the same innermost mode with the same end bound to it, after the
-- same terminator, and with everything below it untouched in between.
import Mathlib.Data.Finite.Prod
import Mathlib.Data.Set.Finite.Lattice
import Mathlib.Order.Interval.Finset.Nat
import Highlighting.Proofs.CompileDepths
import Highlighting.Proofs.ScanControl
import Highlighting.Proofs.StepCounts

namespace Highlighting.Scan

/-! ## Scans that fail and scans that come back -/

/-- A step of the scan fails. -/
def Fails (c : Context) (s : State) : Prop :=
  ∃ n s' e, s.after c n = some s' ∧ s'.step c = .error e

/-- In `n` steps a scan comes back to what it sees in `s`. The cursor is where
it was, nothing below the innermost mode was closed meanwhile, and the innermost
mode, its end and the last terminator are what they were. More modes may be open
than before if the outermost one is out of sight. -/
structure ComesBack (c : Context) (s s' : State) (n : Nat) : Prop where
  pos : 0 < n
  reaches : s.after c n = some s'
  cursor : s'.cursor = s.cursor
  last : s'.last = s.last
  frames : ∃ f f' above rest, s.frames = f :: rest ∧ s'.frames = f' :: (above ++ rest) ∧
    f'.sight = f.sight ∧ (above = [] ∨ 2 ≤ rest.length)
  height : ∀ k sₖ, k ≤ n → s.after c k = some sₖ → s.frames.length ≤ sₖ.frames.length

/-- Somewhere in the scan it comes back to what it saw. -/
def Recurs (c : Context) (s : State) : Prop :=
  ∃ i sᵢ sⱼ n, s.after c i = some sᵢ ∧ ComesBack c sᵢ sⱼ n

theorem fails_of_after {c : Context} {s sᵢ : State} {i : Nat} (hsᵢ : s.after c i = some sᵢ)
    (h : Fails c sᵢ) : Fails c s := by
  obtain ⟨k, s₁, e, hs₁, hstep⟩ := h
  refine ⟨i + k, s₁, e, ?_, hstep⟩
  rw [after_add, hsᵢ]
  exact hs₁

theorem after_cursor {c : Context} (hc : c.Sound) {s s' : State} {n : Nat}
    (hs : s.cursor ≤ c.text.size) (h : s.after c n = some s') :
    s.cursor ≤ s'.cursor ∧ s'.cursor ≤ c.text.size := by
  induction n generalizing s' with
  | zero =>
    cases h
    exact ⟨Nat.le_refl _, hs⟩
  | succ n ih =>
    obtain ⟨s₁, h₁, hstep⟩ := after_succ_eq_some.mp h
    have h₁' := ih h₁
    have hstep' := step_cursor hc hstep
    omega

/-! ## A scan that comes back goes on -/

/-- Steps at one place and above one stack have their like above any stack that
lies alike. -/
theorem alike_after {c : Context} (hc : c.Sound) {rest rest' : List Frame}
    (hrest : AlikeBelow rest rest') {s s' : State} (h : Alike rest rest' s s')
    (hfails : ¬ Fails c s') {n : Nat}
    (hstall : ∀ k sₖ, k ≤ n → s.after c k = some sₖ →
      sₖ.cursor = s.cursor ∧ rest.length < sₖ.frames.length)
    {k : Nat} (hk : k ≤ n) {sₖ : State} (hsₖ : s.after c k = some sₖ) :
    ∃ sₖ', s'.after c k = some sₖ' ∧ Alike rest rest' sₖ sₖ' := by
  induction k generalizing sₖ with
  | zero =>
    cases hsₖ
    exact ⟨s', rfl, h⟩
  | succ k ih =>
    obtain ⟨s₁, hs₁, hstep⟩ := after_succ_eq_some.mp hsₖ
    obtain ⟨s₁', hs₁', halike⟩ := ih (by omega) hs₁
    have hcursor₁ := (hstall k s₁ (by omega) hs₁).1
    obtain ⟨hcursor, hheight⟩ := hstall (k + 1) sₖ hk hsₖ
    rcases hstep' : s₁'.step c with e | o
    · exact absurd ⟨k, s₁', e, hs₁', hstep'⟩ hfails
    · obtain ⟨sₖ', rfl, halike'⟩ :=
        alike_step hc hrest halike hstep (hcursor.trans hcursor₁.symm) hheight hstep'
      exact ⟨sₖ', after_succ_eq_some.mpr ⟨s₁', hs₁', hstep'⟩, halike'⟩

/-- Where a scan that does not fail comes back once it comes back again and
again: there is no last step. -/
theorem goes_on_of_comesBack {c : Context} (hc : c.Sound) {s s' : State} {n : Nat}
    (hs : s.cursor ≤ c.text.size) (h : ComesBack c s s' n) (hfails : ¬ Fails c s) (m : Nat) :
    ∃ sₘ, s.after c (n * m) = some sₘ := by
  obtain ⟨f, f', above, rest, hframes, hframes', hsight, hdeep⟩ := h.frames
  have hstall : ∀ k sₖ, k ≤ n → s.after c k = some sₖ →
      sₖ.cursor = s.cursor ∧ rest.length < sₖ.frames.length := by
    intro k sₖ hk hsₖ
    refine ⟨?_, ?_⟩
    · have hb := after_cursor hc hs hsₖ
      have hend : s.after c (k + (n - k)) = some s' := by
        rw [Nat.add_sub_cancel' hk]
        exact h.reaches
      rw [after_add, hsₖ] at hend
      have hb' := after_cursor hc hb.2 hend
      have := h.cursor
      omega
    · have hheight := h.height k sₖ hk hsₖ
      rw [hframes, List.length_cons] at hheight
      omega
  -- Each time round, the innermost mode is seen as in `s`, above a stack that lies alike.
  have hround : ∀ m, ∃ sₘ fₘ restₘ, s.after c (n * m) = some sₘ ∧ sₘ.frames = fₘ :: restₘ ∧
      fₘ.sight = f.sight ∧ AlikeBelow rest restₘ ∧ (above = [] → restₘ.length = rest.length) ∧
      sₘ.cursor = s.cursor ∧ sₘ.last = s.last := by
    intro m
    induction m with
    | zero => exact ⟨s, f, rest, rfl, hframes, rfl, .inl rfl, fun _ => rfl, rfl, rfl⟩
    | succ m ih =>
      obtain ⟨sₘ, fₘ, restₘ, hsₘ, hfₘ, hsightₘ, hbelow, hsame, hcursorₘ, hlastₘ⟩ := ih
      have halike : Alike rest restₘ s sₘ :=
        ⟨hcursorₘ, hlastₘ, [f], [fₘ], List.cons_ne_nil _ _, hframes, hfₘ, by simp [hsightₘ]⟩
      have hfailsₘ : ¬ Fails c sₘ := fun hf => hfails (fails_of_after hsₘ hf)
      obtain ⟨s₁, hs₁, halike₁⟩ :=
        alike_after hc hbelow halike hfailsₘ hstall (Nat.le_refl n) h.reaches
      obtain ⟨top, top', _, htop, htop', hsights⟩ := halike₁.frames
      have htop_eq : top = f' :: above := by
        rw [hframes', ← List.cons_append] at htop
        exact (List.append_cancel_right htop).symm
      rw [htop_eq] at hsights
      rcases top' with _ | ⟨f₁, above₁⟩
      · simp at hsights
      simp only [List.map_cons, List.cons.injEq] at hsights
      have hlen : above₁.length = above.length := by simpa using congrArg List.length hsights.2
      refine ⟨s₁, f₁, above₁ ++ restₘ, ?_, htop', ?_, ?_, ?_, ?_, ?_⟩
      · rw [Nat.mul_succ, after_add, hsₘ]
        exact hs₁
      · exact hsights.1.trans hsight
      · unfold AlikeBelow at hbelow ⊢
        rw [List.length_append, hlen]
        rcases hdeep with hnil | hdeep
        · have := hsame hnil
          rw [hnil, List.length_nil]
          omega
        · omega
      · intro hnil
        rw [List.length_append, hlen, hnil, hsame hnil, List.length_nil, Nat.zero_add]
      · exact halike₁.cursor.trans h.cursor
      · exact halike₁.last.trans h.last
  obtain ⟨sₘ, _, _, hsₘ, _⟩ := hround m
  exact ⟨sₘ, hsₘ⟩

theorem not_ends_of_recurs {c : Context} (hc : c.Sound) {s : State}
    (hs : s.cursor ≤ c.text.size) (hfails : ¬ Fails c s) (h : Recurs c s) : ¬ Ends c s := by
  obtain ⟨i, sᵢ, sⱼ, n, hsᵢ, hback⟩ := h
  have hfailsᵢ : ¬ Fails c sᵢ := fun hf => hfails (fails_of_after hsᵢ hf)
  rintro ⟨m, hm⟩
  obtain ⟨sₘ, hsₘ⟩ := goes_on_of_comesBack hc (after_cursor hc hs hsᵢ).2 hback hfailsᵢ m
  have hall : s.after c (i + n * m) = some sₘ := by
    rw [after_add, hsᵢ]
    exact hsₘ
  have hle : m ≤ i + n * m := Nat.le_add_left_of_le (Nat.le_mul_of_pos_left m hback.pos)
  obtain ⟨s₁, hs₁⟩ := after_of_le hle hall
  rw [hm] at hs₁
  cases hs₁

/-! ## A scan that goes on comes back -/

/-- The terminators that can be met at a place. -/
def terminatorsAt (c : Context) (pos : Nat) : List Terminator :=
  c.language.modes.toList.filterMap fun m => m.terminators.find c.text pos

/-- The ends that can be bound to a frame as long as a scan that has `frames`
open stays at a place. -/
def boundsAt (c : Context) (pos : Nat) (frames : List Frame) : List (Option Pattern) :=
  none :: frames.map Frame.bound ++ c.language.modes.toList.map CompiledMode.ends ++
    (terminatorsAt c pos).flatMap fun t =>
      c.language.modes.toList.filterMap fun m => (boundEnd c m (c.slice t.start t.stop)).toOption

theorem mem_terminatorsAt {c : Context} {s : State} {t : Terminator}
    (h : s.nextTerminator? c = some t) : t ∈ terminatorsAt c s.cursor := by
  obtain ⟨m, hm, hfind⟩ := nextTerminator?_some h
  exact List.mem_filterMap.mpr ⟨m, by simpa using top?_mem hm, hfind⟩

/-- A turn binds no end that cannot be bound there. -/
theorem bounds_turn {c : Context} {s s₁ : State} {t : Terminator} {frames : List Frame}
    (hnext : s.nextTerminator? c = some t) (hturn : Turn c s t s₁)
    (hs : ∀ f ∈ s.frames, f.bound ∈ boundsAt c s.cursor frames) :
    ∀ f ∈ s₁.frames, f.bound ∈ boundsAt c s.cursor frames := by
  cases hturn with
  | opens id m f hrule hm hmode hbound hframes hcursor hlast =>
    intro f' hf'
    rw [hframes] at hf'
    rcases List.mem_cons.mp hf' with rfl | hf'
    · refine List.mem_append_right _ (List.mem_flatMap.mpr ⟨t, mem_terminatorsAt hnext, ?_⟩)
      refine List.mem_filterMap.mpr ⟨m, by simpa using Array.mem_of_getElem? hm, ?_⟩
      rw [hbound]
      rfl
    · exact hs f' hf'
  | closes n m new hrule hclosed hm hnew hframes hcursor hlast =>
    intro f hf
    rw [hframes] at hf
    rcases List.mem_append.mp hf with hf | hf
    · have hsight : f.sight ∈ ((s.lastClosed? n).bind (continuation? c)).toList :=
        hnew ▸ List.mem_map_of_mem hf
      rw [Option.mem_toList] at hsight
      obtain ⟨f₀, hf₀, hcont⟩ := Option.bind_eq_some_iff.mp hsight
      obtain ⟨m₀, hm₀, hcont⟩ := Option.bind_eq_some_iff.mp hcont
      obtain ⟨next, _, hcont⟩ := Option.map_eq_some_iff.mp hcont
      have hbound : f.bound = if m₀.endSameAsBegin then f₀.bound <|> m₀.ends else none :=
        (congrArg Prod.snd hcont).symm
      rw [hbound]
      split
      · rcases hb : f₀.bound with _ | p
        · refine List.mem_append_left _ (List.mem_append_right _ ?_)
          exact List.mem_map.mpr ⟨m₀, by simpa using Array.mem_of_getElem? hm₀, rfl⟩
        · have hf₀' := hs f₀ (List.mem_of_getElem? hf₀)
          rw [hb] at hf₀'
          exact hf₀'
      · exact List.mem_append_left _ (List.mem_append_left _ List.mem_cons_self)
    · exact hs f (List.mem_of_mem_drop hf)

/-- What lies below the innermost mode stays there as long as nothing below it
is closed. -/
theorem below_after {c : Context} (hc : c.Sound) {s : State} {f : Frame} {rest : List Frame}
    (hs : s.frames = f :: rest) {n : Nat}
    (hstall : ∀ k sₖ, k ≤ n → s.after c k = some sₖ →
      sₖ.cursor = s.cursor ∧ rest.length < sₖ.frames.length)
    {k : Nat} (hk : k ≤ n) {sₖ : State} (hsₖ : s.after c k = some sₖ) :
    ∃ top, top ≠ [] ∧ sₖ.frames = top ++ rest := by
  induction k generalizing sₖ with
  | zero =>
    cases hsₖ
    exact ⟨[f], List.cons_ne_nil _ _, hs⟩
  | succ k ih =>
    obtain ⟨s₁, hs₁, hstep⟩ := after_succ_eq_some.mp hsₖ
    obtain ⟨top, _, htop⟩ := ih (by omega) hs₁
    have hcursor₁ := (hstall k s₁ (by omega) hs₁).1
    obtain ⟨hcursor, hheight⟩ := hstall (k + 1) sₖ hk hsₖ
    obtain ⟨t, _, _, _, hturn⟩ := turn_of_stall hc hstep (hcursor.trans hcursor₁.symm)
    obtain ⟨new, m, hframes, hnew, hm⟩ := hturn.frames
    obtain ⟨_, hkept, hne⟩ := kept_below hframes hnew hm htop hheight
    exact ⟨_, hne, hkept⟩

/-- From anywhere on, some value of a sequence is least among those that follow. -/
theorem exists_least_onward (h : Nat → Nat) (start : Nat) :
    ∃ k, start ≤ k ∧ ∀ j, k ≤ j → h k ≤ h j := by
  induction hv : h start using Nat.strongRecOn generalizing start with
  | ind v ih =>
    by_cases hleast : ∀ j, start ≤ j → h start ≤ h j
    · exact ⟨start, Nat.le_refl _, hleast⟩
    · push Not at hleast
      obtain ⟨j, hj, hlt⟩ := hleast
      obtain ⟨k, hk, hmin⟩ := ih (h j) (hv ▸ hlt) j rfl
      exact ⟨k, hj.trans hk, hmin⟩

/-- A scan that stays at one place. -/
structure StalledRun (c : Context) (pos : Nat) (run : Nat → State) : Prop where
  step : ∀ k, (run k).step c = .ok (.next (run (k + 1)))
  cursor : ∀ k, (run k).cursor = pos

namespace StalledRun

variable {c : Context} {pos : Nat} {run : Nat → State}

theorem turn (hc : c.Sound) (h : StalledRun c pos run) (k : Nat) :
    ∃ t, (run k).nextTerminator? c = some t ∧ Turn c (run k) t (run (k + 1)) := by
  have hcursor : (run (k + 1)).cursor = (run k).cursor := (h.cursor _).trans (h.cursor _).symm
  obtain ⟨t, hnext, _, _, hturn⟩ := turn_of_stall hc (h.step k) hcursor
  exact ⟨t, hnext, hturn⟩

theorem after (h : StalledRun c pos run) (i n : Nat) : (run i).after c n = some (run (i + n)) := by
  induction n with
  | zero => rfl
  | succ n ih => exact after_succ_eq_some.mpr ⟨_, ih, h.step _⟩

theorem bounds (hc : c.Sound) (h : StalledRun c pos run) (k : Nat) :
    ∀ f ∈ (run k).frames, f.bound ∈ boundsAt c pos (run 0).frames := by
  induction k with
  | zero =>
    intro f hf
    refine List.mem_append_left _ (List.mem_append_left _ (List.mem_cons_of_mem _ ?_))
    exact List.mem_map_of_mem hf
  | succ k ih =>
    obtain ⟨t, hnext, hturn⟩ := h.turn hc k
    rw [← h.cursor k] at ih ⊢
    exact bounds_turn hnext hturn ih

/-- The innermost frame, which is that of a mode. -/
theorem head (hc : c.Sound) (h : StalledRun c pos run) (k : Nat) :
    ∃ f rest, (run k).frames = f :: rest ∧ f.mode < c.language.modes.size := by
  obtain ⟨t, hnext, _⟩ := h.turn hc k
  obtain ⟨m, hm, _⟩ := nextTerminator?_some hnext
  obtain ⟨f, hf, hmode⟩ := Option.bind_eq_some_iff.mp hm
  obtain ⟨rest, hrest⟩ := List.head?_eq_some_iff.mp hf
  exact ⟨f, rest, hrest, (Array.getElem?_eq_some_iff.mp hmode).1⟩

/-- What a scan sees: the innermost mode with its end, and the last terminator. -/
def view (s : State) : Option (Nat × Option Pattern) × Option Terminator :=
  (s.frames.head?.map Frame.sight, s.last)

theorem finite_views (hc : c.Sound) (h : StalledRun c pos run) :
    {v | ∃ k, v = view (run (k + 1))}.Finite := by
  have hsights : {x | x ∈ ((List.range c.language.modes.size).flatMap fun id =>
      (boundsAt c pos (run 0).frames).map fun b => some (id, b))}.Finite := List.finite_toSet _
  have hlasts : {x | x ∈ (terminatorsAt c pos).map some}.Finite := List.finite_toSet _
  refine (hsights.prod hlasts).subset ?_
  rintro v ⟨k, rfl⟩
  obtain ⟨f, rest, hframes, hmode⟩ := h.head hc (k + 1)
  obtain ⟨t, hnext, hturn⟩ := h.turn hc k
  refine Set.mem_prod.mpr ⟨?_, ?_⟩
  · refine List.mem_flatMap.mpr ⟨f.mode, List.mem_range.mpr hmode, List.mem_map.mpr ⟨f.bound, ?_, ?_⟩⟩
    · exact h.bounds hc (k + 1) f (hframes ▸ List.mem_cons_self)
    · rw [view, hframes]
      rfl
  · refine List.mem_map.mpr ⟨t, ?_, hturn.last.symm⟩
    have hmem := mem_terminatorsAt hnext
    rwa [h.cursor k] at hmem

/-- Of two states that see the same, the later one comes back to the earlier
one if no fewer modes are open at any time from the earlier one on. -/
theorem comesBack (hc : c.Sound) (h : StalledRun c pos run) {i j : Nat} (hij : i < j)
    (hview : view (run j) = view (run i))
    (hmin : ∀ k, i ≤ k → (run i).frames.length ≤ (run k).frames.length)
    (hheight : (run j).frames.length = (run i).frames.length ∨ 3 ≤ (run i).frames.length) :
    ComesBack c (run i) (run j) (j - i) := by
  obtain ⟨f, rest, hframes, _⟩ := h.head hc i
  have hafter : (run i).after c (j - i) = some (run j) := by
    rw [h.after, Nat.add_sub_cancel' hij.le]
  have hhigher : ∀ k sₖ, k ≤ j - i → (run i).after c k = some sₖ →
      (run i).frames.length ≤ sₖ.frames.length := by
    intro k sₖ _ hsₖ
    rw [h.after] at hsₖ
    cases hsₖ
    exact hmin _ (Nat.le_add_right _ _)
  have hstall : ∀ k sₖ, k ≤ j - i → (run i).after c k = some sₖ →
      sₖ.cursor = (run i).cursor ∧ rest.length < sₖ.frames.length := by
    intro k sₖ hk hsₖ
    have hlen := hhigher k sₖ hk hsₖ
    rw [hframes, List.length_cons] at hlen
    rw [h.after] at hsₖ
    cases hsₖ
    exact ⟨(h.cursor _).trans (h.cursor _).symm, hlen⟩
  obtain ⟨top, hne, htop⟩ := below_after hc hframes hstall (Nat.le_refl _) hafter
  rcases top with _ | ⟨f', above⟩
  · exact absurd rfl hne
  have hsight : f'.sight = f.sight := by
    have hhead := congrArg Prod.fst hview
    simp only [view, hframes, htop, List.cons_append, List.head?_cons, Option.map_some,
      Option.some.injEq] at hhead
    exact hhead
  refine ⟨Nat.sub_pos_of_lt hij, hafter, (h.cursor _).trans (h.cursor _).symm,
    congrArg Prod.snd hview, ⟨f, f', above, rest, hframes, htop, hsight, ?_⟩, hhigher⟩
  rw [htop, hframes] at hheight
  simp only [List.cons_append, List.length_cons, List.length_append] at hheight
  rcases hheight with heq | hdeep
  · exact .inl (List.length_eq_zero_iff.mp (by omega))
  · exact .inr (by omega)

/-- A scan that stays at one place for ever comes back to what it saw. -/
theorem exists_comesBack (hc : c.Sound) (h : StalledRun c pos run) :
    ∃ i j, i < j ∧ ComesBack c (run i) (run j) (j - i) := by
  -- The steps from which on no fewer modes are open: there is no last one of them.
  let low : Set Nat :=
    {k | 0 < k ∧ ∀ j, k ≤ j → (run k).frames.length ≤ (run j).frames.length}
  have hlow : low.Infinite := by
    refine Set.infinite_of_forall_exists_gt ?_
    intro n
    obtain ⟨k, hk, hleast⟩ := exists_least_onward (fun k => (run k).frames.length) (n + 1)
    exact ⟨k, ⟨by omega, hleast⟩, by omega⟩
  -- Infinitely many of them see the same.
  obtain ⟨v, hv⟩ : ∃ v, {k | k ∈ low ∧ view (run k) = v}.Infinite := by
    by_contra hnone
    push Not at hnone
    refine hlow (Set.Finite.of_finite_fibers (fun k => view (run k)) ?_ ?_)
    · refine (h.finite_views hc).subset ?_
      rintro _ ⟨k, hk, rfl⟩
      exact ⟨k - 1, by rw [Nat.sub_add_cancel hk.1]⟩
    · intro v _
      exact (hnone v).subset fun k hk => hk
  obtain ⟨k₁, hk₁, -⟩ := hv.exists_gt 0
  obtain ⟨k₂, hk₂, h₁₂⟩ := hv.exists_gt k₁
  obtain ⟨k₃, hk₃, h₂₃⟩ := hv.exists_gt k₂
  obtain ⟨k₄, hk₄, h₃₄⟩ := hv.exists_gt k₃
  have hview : ∀ {i j}, i ∈ {k | k ∈ low ∧ view (run k) = v} →
      j ∈ {k | k ∈ low ∧ view (run k) = v} → view (run j) = view (run i) :=
    fun hi hj => hj.2.trans hi.2.symm
  -- Either two of them are equally high, or the third is high enough.
  have hle₁ := hk₁.1.2 k₂ h₁₂.le
  have hle₂ := hk₂.1.2 k₃ h₂₃.le
  have hpos : 0 < (run k₁).frames.length := by
    obtain ⟨f, rest, hframes, _⟩ := h.head hc k₁
    rw [hframes]
    exact Nat.succ_pos _
  by_cases heq₁ : (run k₂).frames.length = (run k₁).frames.length
  · exact ⟨k₁, k₂, h₁₂, h.comesBack hc h₁₂ (hview hk₁ hk₂) hk₁.1.2 (.inl heq₁)⟩
  · by_cases heq₂ : (run k₃).frames.length = (run k₂).frames.length
    · exact ⟨k₂, k₃, h₂₃, h.comesBack hc h₂₃ (hview hk₂ hk₃) hk₂.1.2 (.inl heq₂)⟩
    · exact ⟨k₃, k₄, h₃₄, h.comesBack hc h₃₄ (hview hk₃ hk₄) hk₃.1.2 (.inr (by omega))⟩

end StalledRun

/-- A scan that does not end stays at one place from some step on. -/
theorem exists_stalledRun {c : Context} (hc : c.Sound) {s : State} (hs : s.cursor ≤ c.text.size)
    (h : ¬ Ends c s) :
    ∃ pos run n, StalledRun c pos run ∧ ∀ k, s.after c (n + k) = some (run k) := by
  have hall : ∀ n, ∃ sₙ, s.after c n = some sₙ := by
    intro n
    rcases hn : s.after c n with _ | sₙ
    · exact absurd ⟨n, hn⟩ h
    · exact ⟨sₙ, rfl⟩
  choose run hrun using hall
  have hstep : ∀ k, (run k).step c = .ok (.next (run (k + 1))) := by
    intro k
    obtain ⟨s₁, hs₁, hstep⟩ := after_succ_eq_some.mp (hrun (k + 1))
    rw [hrun k] at hs₁
    cases hs₁
    exact hstep
  -- The cursor never goes back and stays in the text, so from some step on it stays where it is.
  obtain ⟨n, -, hleast⟩ := exists_least_onward (fun k => c.text.size - (run k).cursor) 0
  refine ⟨(run n).cursor, fun k => run (n + k), n, ⟨fun k => hstep (n + k), ?_⟩,
    fun k => hrun (n + k)⟩
  intro k
  have hin := (after_cursor hc hs (hrun n)).2
  have hafter := hrun (n + k)
  rw [after_add, hrun n] at hafter
  have hb := after_cursor hc hin hafter
  have := hleast (n + k) (Nat.le_add_right _ _)
  omega

theorem recurs_of_not_ends {c : Context} (hc : c.Sound) {s : State}
    (hs : s.cursor ≤ c.text.size) (h : ¬ Ends c s) : Recurs c s := by
  obtain ⟨pos, run, n, hstalled, hrun⟩ := exists_stalledRun hc hs h
  obtain ⟨i, j, _, hback⟩ := hstalled.exists_comesBack hc
  exact ⟨n + i, run i, run j, j - i, hrun i, hback⟩

/-! ## When a scan ends -/

/-- A scan takes finitely many steps if and only if a step fails or it never
comes back to what it saw. -/
theorem ends_iff {c : Context} (hc : c.Sound) {s : State} (hs : s.cursor ≤ c.text.size) :
    Ends c s ↔ Fails c s ∨ ¬ Recurs c s := by
  constructor
  · intro hends
    by_cases hfails : Fails c s
    · exact .inl hfails
    · exact .inr fun hrecurs => not_ends_of_recurs hc hs hfails hrecurs hends
  · rintro (⟨n, s', e, hs', hstep⟩ | hrecurs)
    · refine ⟨n + 1, ?_⟩
      rw [State.after, hs', Option.bind_some, State.next?, hstep]
    · by_contra hends
      exact hrecurs (recurs_of_not_ends hc hs hends)

/-- With a grammar that compiles at any depth, whatever its text, its host and the
part that went before, a scan takes finitely many steps if and only if a step fails
or the scan never comes back to what it saw. -/
theorem scan_ends_unless_it_comes_back (g : Grammar) (depth : Nat) (c : Context)
    (hg : compileWithin g depth = .ok c.language)
    (hstays : ∀ m ∈ c.language.modes, m.StaysInText) (lead : String)
    (resume : Option Continuation) :
    Ends c (startState lead resume) ↔
      Fails c (startState lead resume) ∨ ¬ Recurs c (startState lead resume) := by
  have hc : c.Sound :=
    ⟨hstays, compileWithin_refersTo hg⟩
  exact ends_iff hc (Nat.zero_le _)

/-! ## Scans that cannot fail -/

/-- A language in which no text is embedded or looked up and no end is bound. -/
def Context.Plain (c : Context) : Prop :=
  c.illegals = .ignore ∧
    ∀ m ∈ c.language.modes, m.dispatch = .plain ∧ m.endSameAsBegin = false

theorem flush_ok {c : Context} (hc : c.Plain) (s : State) : ∃ s', s.flush c = .ok s' := by
  unfold State.flush
  simp only
  split
  · exact ⟨_, rfl⟩
  · rename_i m hm
    rw [(hc.2 m (top?_mem hm)).1]
    exact ⟨_, rfl⟩

theorem takeBegin_ok {c : Context} (hc : c.Plain) (s : State) (m : CompiledMode)
    (lexeme : String) : ∃ s', s.takeBegin c m lexeme = .ok s' := by
  unfold State.takeBegin
  split
  · exact ⟨_, rfl⟩
  · obtain ⟨s', hs'⟩ := flush_ok hc (if m.excludeBegin then s.push lexeme else s)
    rw [hs']
    exact ⟨_, rfl⟩

theorem takeEnd_ok {c : Context} (hc : c.Plain) (s : State) (m : CompiledMode)
    (lexeme : String) : ∃ s', s.takeEnd c m lexeme = .ok s' := by
  unfold State.takeEnd
  split
  · exact ⟨_, rfl⟩
  · obtain ⟨s', hs'⟩ := flush_ok hc (if m.returnEnd || m.excludeEnd then s else s.push lexeme)
    rw [hs']
    exact ⟨_, rfl⟩

theorem beginMode_ok {c : Context} (hc : c.Plain) (s : State) (id : Nat) (t : Terminator) :
    ∃ s', s.beginMode c id t = .ok s' := by
  rcases hm : c.language.mode? id with _ | m
  · unfold State.beginMode
    rw [hm]
    exact ⟨_, rfl⟩
  · obtain ⟨s', hs'⟩ := takeBegin_ok hc s m (c.slice t.start t.stop)
    have hplain := hc.2 m (Array.mem_of_getElem? hm)
    rw [beginMode_eq s c id t m hm, hs', boundEnd, hplain.2]
    exact ⟨_, rfl⟩

theorem endModes_ok {c : Context} (hc : c.Plain) (s : State) (n : Nat) (t : Terminator) :
    ∃ s', s.endModes c n t = .ok s' := by
  rcases hm : s.top? c with _ | m
  · unfold State.endModes
    rw [hm]
    exact ⟨_, rfl⟩
  · obtain ⟨s', hs'⟩ := takeEnd_ok hc s m (c.slice t.start t.stop)
    rw [endModes_eq s c n t m hm, hs']
    exact ⟨_, rfl⟩

theorem step_ok {c : Context} (hc : c.Plain) (s : State) : ∃ o, s.step c = .ok o := by
  unfold State.step
  split
  · rename_i t _
    unfold State.handle
    simp only
    split
    · exact ⟨_, rfl⟩
    · split
      · rename_i id _
        obtain ⟨s', hs'⟩ :=
          beginMode_ok hc { s.push (c.slice s.cursor t.start) with last := some t } id t
        rw [hs']
        exact ⟨_, rfl⟩
      · split
        · rename_i n _
          obtain ⟨s', hs'⟩ :=
            endModes_ok hc { s.push (c.slice s.cursor t.start) with last := some t } n t
          rw [hs']
          exact ⟨_, rfl⟩
        · exact ⟨_, rfl⟩
      · rw [hc.1]
        exact ⟨_, rfl⟩
  · exact ⟨_, rfl⟩

theorem not_fails_of_plain {c : Context} (hc : c.Plain) (s : State) : ¬ Fails c s := by
  rintro ⟨n, s', e, _, hstep⟩
  obtain ⟨o, ho⟩ := step_ok hc s'
  rw [hstep] at ho
  cases ho

/-! ## Scans that come back -/

/-- What decides where a scan goes next. -/
def State.control (s : State) : Nat × List Frame × Option Terminator := (s.cursor, s.frames, s.last)

/-- A scan comes back where what decides is the same after some steps, and no open mode was
closed in between. -/
theorem recurs_of_control {c : Context} {s : State} (pos : Nat) (f : Frame) (rest : List Frame)
    (last : Option Terminator) (i : Nat) {n : Nat} (hn : 0 < n)
    (h : ∀ k, k ≤ n → ((s.after c (i + k)).any fun sₖ =>
      decide (rest.length < sₖ.frames.length) &&
        (decide (0 < k ∧ k < n) || sₖ.control == (pos, f :: rest, last))) = true) :
    Recurs c s := by
  have hstate : ∀ k, k ≤ n → ∃ sₖ, s.after c (i + k) = some sₖ ∧
      rest.length < sₖ.frames.length ∧ (¬ (0 < k ∧ k < n) → sₖ.control = (pos, f :: rest, last)) := by
    intro k hk
    obtain ⟨sₖ, hsₖ, hcheck⟩ := (Option.any_eq_true _ _).mp (h k hk)
    simp only [Bool.and_eq_true, Bool.or_eq_true, decide_eq_true_eq, beq_iff_eq] at hcheck
    exact ⟨sₖ, hsₖ, hcheck.1, hcheck.2.resolve_left⟩
  obtain ⟨sᵢ, hsᵢ, _, hcontrolᵢ⟩ := hstate 0 (Nat.zero_le n)
  obtain ⟨sⱼ, hsⱼ, _, hcontrolⱼ⟩ := hstate n (Nat.le_refl n)
  have hᵢ := hcontrolᵢ (fun hk => Nat.lt_irrefl 0 hk.1)
  have hⱼ := hcontrolⱼ (fun hk => Nat.lt_irrefl n hk.2)
  simp only [State.control, Prod.mk.injEq] at hᵢ hⱼ
  have hafter : ∀ k, sᵢ.after c k = s.after c (i + k) := by
    intro k
    rw [after_add, ← Nat.add_zero i, hsᵢ]
    rfl
  refine ⟨i, sᵢ, sⱼ, n, hsᵢ, hn, (hafter n).trans hsⱼ, hⱼ.1.trans hᵢ.1.symm,
    hⱼ.2.2.trans hᵢ.2.2.symm, ⟨f, f, [], rest, hᵢ.2.1, hⱼ.2.1, rfl, .inl rfl⟩, ?_⟩
  intro k sₖ hk hsₖ
  obtain ⟨sₖ', hsₖ', hheight, _⟩ := hstate k hk
  rw [hafter, hsₖ'] at hsₖ
  cases hsₖ
  rw [hᵢ.2.1]
  exact hheight

/-! ## A letter that begins and ends a mode -/

/-- A letter opens a mode and closes it again. If it is returned each time, it
is met again each time. -/
def letters (returned : Bool) : Grammar :=
  { root := { contains := [.inline {
      begins := some "a", ends := some "a", relevance := some 0
      returnBegin := returned, returnEnd := returned }] } }

/-- The scan of one letter. -/
def letterScan (returned : Bool) : Context where
  host := none
  language := (compileWithin (letters returned) 9).toOption.getD ⟨false, #[]⟩
  text := #['a']
  illegals := .ignore

theorem compileWithin_letters (returned : Bool) :
    compileWithin (letters returned) 9 = .ok (letterScan returned).language := by
  cases returned <;> decide +kernel

theorem letterScan_staysInText (returned : Bool) :
    ∀ m ∈ (letterScan returned).language.modes, m.StaysInText := by
  apply CompiledMode.staysInText_of_all
  cases returned <;> decide +kernel

theorem letterScan_plain (returned : Bool) : (letterScan returned).Plain := by
  have hall : (letterScan returned).language.modes.all
      (fun m => decide (m.dispatch = .plain ∧ m.endSameAsBegin = false)) = true := by
    cases returned <;> decide +kernel
  refine ⟨rfl, fun m hm => ?_⟩
  have hm' := Array.all_eq_true_iff_forall_mem.mp hall m hm
  exact of_decide_eq_true hm'

theorem letter_taken_ends : ¬ Recurs (letterScan false) (startState "" none) := by
  have hends : Ends (letterScan false) (startState "" none) := by
    have hnone : ((startState "" none).after (letterScan false) 2).isNone = true := by
      decide +kernel
    exact ⟨2, Option.isNone_iff_eq_none.mp hnone⟩
  have hiff := scan_ends_unless_it_comes_back (letters false) 9 (letterScan false)
    (compileWithin_letters false) (letterScan_staysInText false) "" none
  exact (hiff.mp hends).resolve_left (not_fails_of_plain (letterScan_plain false) _)

/-- After two steps nothing has changed but the terminator that was met last,
and after two more nothing has changed at all. -/
theorem returned_letter_recurs : Recurs (letterScan true) (startState "" none) :=
  recurs_of_control 0 rootFrame [] (some ⟨0, 1, .ends⟩) 2 (show 0 < 2 by decide) (by decide +kernel)

/-- A grammar that compiles, and a letter that its scan never leaves behind. -/
theorem returned_letter_never_ends :
    compile (letters true) = .ok (letterScan true).language ∧
      ¬ Ends (letterScan true) (startState "" none) := by
  have hc : (letterScan true).Sound :=
    ⟨letterScan_staysInText true, compileWithin_refersTo (compileWithin_letters true)⟩
  exact ⟨compile_of_compileWithin (compileWithin_letters true), not_ends_of_recurs hc (Nat.zero_le _)
    (not_fails_of_plain (letterScan_plain true) _) returned_letter_recurs⟩

end Highlighting.Scan
