-- Which rule was met. Rules are joined into one pattern, and the group that took
-- part in a match names the rule. Where joining counts the groups of each pattern
-- as the reader does, a search finds what the first rule to match leftmost would
-- find alone. A group that joining does not count hides the rules behind it.
import Highlighting.Proofs.JoinedMatch
import Highlighting.Proofs.MovedReading

namespace Highlighting

open Regex (Cursor Options ReadError)
open Alternation (Token moved inStep tokens captures rawAll readBody)

/-! ## A pattern on its own -/

/-- What a pattern that was read went through. -/
theorem read_eq_ok {source : String} {anyCase : Bool} {program : Regex.Program}
    (h : Regex.read source anyCase = .ok program) :
    ∃ branches cur, Regex.readBranches (4 * source.toList.length + 4) { anyCase := anyCase }
        { rest := source.toList } = .ok (branches, cur) ∧
      cur.rest = [] ∧ Regex.settle cur.groups (.ofBranches branches) = .ok program.root ∧
      program.groups = cur.groups ∧ program.names = cur.names := by
  unfold Regex.read at h
  obtain ⟨⟨branches, cur⟩, hread, h₂⟩ := bind_eq_ok.mp h
  simp only at h₂
  split at h₂
  · cases h₂
  · rename_i hempty
    obtain ⟨_, _, h₃⟩ := bind_eq_ok.mp h₂
    obtain ⟨root, hroot, h₄⟩ := bind_eq_ok.mp h₃
    cases h₄
    refine ⟨branches, cur, hread, ?_, hroot, rfl, rfl⟩
    simpa using hempty

theorem read_of_ok {source : String} {anyCase : Bool} {branches : List Regex} {cur : Cursor}
    {root : Regex}
    (hread : Regex.readBranches (4 * source.toList.length + 4) { anyCase := anyCase }
      { rest := source.toList } = .ok (branches, cur))
    (hrest : cur.rest = []) (hcalls : (Regex.ofBranches branches).calls = [])
    (hroot : Regex.settle cur.groups (.ofBranches branches) = .ok root) :
    Regex.read source anyCase = .ok ⟨root, cur.groups, cur.names⟩ := by
  unfold Regex.read
  simp only [hread, ok_bind_eq, hrest, List.isEmpty_nil, Bool.not_true, Bool.false_eq_true, if_false,
    hcalls, hroot]
  rfl

theorem ofSource_of_read {source : String} {anyCase : Bool} {program : Regex.Program}
    (h : Regex.read source anyCase = .ok program) :
    Pattern.ofSource source anyCase = .ok ⟨source, program⟩ := by
  rw [Pattern.ofSource, h]

/-- No pattern starts with a question mark. -/
theorem readBranches_question {fuel : Nat} {o : Options} (ho : o.extended = false) {cur : Cursor}
    {r : List Char} (hrest : cur.rest = '?' :: r) {x : List Regex × Cursor} :
    Regex.readBranches fuel o cur ≠ .ok x := by
  intro h
  have hadvance : cur.advance o = .ok cur := by
    unfold Cursor.advance
    rw [ho, Alternation.skipIgnored_of_not_comment (by simp [hrest])]
    rfl
  rcases fuel with _ | _ | fuel
  · rw [Regex.readBranches] at h
    cases h
  · rw [Regex.readBranches, Regex.readParts] at h
    cases h
  · rw [Regex.readBranches] at h
    obtain ⟨_, hparts, _⟩ := bind_eq_ok.mp h
    rw [Alternation.readParts_char hadvance hrest (by decide) (by decide)] at hparts
    cases hparts

/-- The groups of an expression may be moved without a new call. -/
theorem calls_shift (off : Nat) (r : Regex) : (r.shift off).calls = r.calls := by
  induction r with
  | seq a b iha ihb | alt a b iha ihb => simp only [Regex.shift, Regex.calls, iha, ihb]
  | ifElse a b c iha ihb ihc => simp only [Regex.shift, Regex.calls, iha, ihb, ihc]
  | group _ a ih | loop a _ _ _ ih | atomic a ih | ahead _ a ih | behind _ _ a ih | absent a ih =>
    exact ih
  | _ => rfl

/-- A pattern in step with the reader: joining has counted its groups, and moved by
`off` it is read as the moved expression. -/
structure Pattern.Moves (p : Pattern) (anyCase : Bool) (off : Nat) (ts : List Token) (raw : Regex) :
    Prop where
  tame : p.Tame
  counted : p.program.groups = captures ts
  begins : ∀ r, rawAll ts ≠ '?' :: r
  calls : raw.calls = []
  settle : ∀ total, p.program.groups + off ≤ total →
    Regex.settle total (raw.shift off) = .ok (p.program.root.shift off)
  read : ∀ more names m, 4 * (moved off ts).length + 4 ≤ m →
    readBody m { anyCase := anyCase } ⟨moved off ts ++ ')' :: more, off, names⟩ =
      .ok (raw.shift off, ⟨more, p.program.groups + off, names⟩)

theorem moves_of_inStep {source : String} {anyCase : Bool} {p : Pattern} {off : Nat}
    (h : Pattern.ofSource source anyCase = .ok p) (hstep : inStep off 0 0 (tokens source) = true) :
    ∃ raw, p.Moves anyCase off (tokens source) raw := by
  unfold Pattern.ofSource at h
  split at h
  · rename_i program hread
    cases h
    obtain ⟨branches, cur, hbranches, hrest, hroot, hgroups, _⟩ := read_eq_ok hread
    have htext := Alternation.rawAll_tokens source
    -- The same reader in the moved text, whatever comes behind it.
    have hmove : ∀ more names m, 4 * (moved off (tokens source)).length + 4 ≤ m →
        ∃ cur', Regex.readBranches m { anyCase := anyCase }
            ⟨moved off (tokens source) ++ ')' :: more, off, names⟩ =
              .ok (branches.map (Regex.shift off), cur') ∧
          cur'.rest = ')' :: more ∧ cur'.groups = cur.groups + off ∧ cur'.names = names ∧
          cur.groups = captures (tokens source) ∧ ∀ r ∈ branches, r.Tame 0 cur.groups := by
      intro more names m hm
      have habreast : Alternation.Abreast off more (tokens source) { rest := source.toList }
          ⟨moved off (tokens source) ++ ')' :: more, off, names⟩ :=
        ⟨htext.symm, rfl, (Nat.zero_add off).symm, hstep⟩
      obtain ⟨ts₁, cur', hread', hgo, htame⟩ :=
        (Alternation.branchesMove_and_partsMove off more _).1 rfl habreast hbranches hm
      have hend : ts₁ = [] :=
        Alternation.eq_nil_of_rawAll hgo.abreast.inStep (hgo.abreast.rest.symm.trans hrest)
      subst hend
      have hcounted := hgo.counted
      simp only [Alternation.captures, List.count_nil] at hcounted
      refine ⟨cur', hread', hgo.abreast.rest', hgo.abreast.groups, hgo.names', ?_, htame⟩
      simp only [Alternation.captures]
      omega
    obtain ⟨_, _, _, _, _, hcounted, htame⟩ := hmove [] [] _ (Nat.le_refl _)
    have hraw := (Alternation.hereditary_tame 0 _).ofBranches htame
    refine ⟨.ofBranches branches, ?_, hgroups.trans hcounted, ?_, hraw.calls, ?_, ?_⟩
    · show program.root.Tame 0 program.groups
      rw [hgroups]
      exact (Alternation.hereditary_tame 0 _).settle hraw hroot
    · intro r hr
      rw [htext] at hr
      exact readBranches_question rfl hr hbranches
    · intro total htotal
      simp only [hgroups] at htotal
      exact Alternation.settle_shift off htotal hroot
    · intro more names m hm
      obtain ⟨cur', hread', hrest', hgroups', hnames', _⟩ := hmove more names m hm
      unfold readBody
      rw [hread']
      simp only [ok_bind_eq, Regex.closeGroup, hrest', Alternation.shift_ofBranches, hgroups, hgroups',
        hnames']
      rfl
  · cases h

/-! ## The joined patterns -/

/-- The end of a branch. -/
def EndsBranch (cs : List Char) : Prop := cs = [] ∨ ∃ r, cs = '|' :: r

theorem EndsBranch.advance {o : Options} (ho : o.extended = false) {cur : Cursor}
    (h : EndsBranch cur.rest) : cur.advance o = .ok cur := by
  unfold Cursor.advance
  rw [ho, Alternation.skipIgnored_of_not_comment]
  · rfl
  · intro r hr
    rcases h with h | ⟨r', h⟩
    · rw [h] at hr
      cases hr
    · rw [h] at hr
      cases hr

theorem EndsBranch.readQuantifiers {o : Options} (ho : o.extended = false) {cur : Cursor}
    (h : EndsBranch cur.rest) (n : Nat) (r : Regex) :
    Regex.readQuantifiers o n r cur = .ok (r, cur) := by
  rcases n with _ | n
  · rfl
  · rw [Regex.readQuantifiers, h.advance ho]
    rcases h with h | ⟨r', h⟩
    · simp only [ok_bind_eq, h]
      rfl
    · simp only [ok_bind_eq, h]
      rfl

/-- A wrapped pattern is read as its group. -/
theorem readParts_wrapped {p : Pattern} {anyCase : Bool} {before : Nat} {ts : List Token} {raw : Regex}
    (hp : p.Moves anyCase (before + 1) ts raw) {more : List Char} (hmore : EndsBranch more)
    (names : List (String × Nat)) {m : Nat} (hm : 4 * (moved (before + 1) ts).length + 4 ≤ m) :
    Regex.readParts (m + 1) { anyCase := anyCase }
        ⟨'(' :: (moved (before + 1) ts ++ ')' :: more), before, names⟩ [] =
      .ok (.group (before + 1) (raw.shift (before + 1)),
        ⟨more, before + 1 + p.program.groups, names⟩) := by
  have hfirst : ∀ r, moved (before + 1) ts ++ ')' :: more ≠ '?' :: r := by
    rcases (Alternation.beside_moved (before + 1) ts more).first (c := '?') (by decide) (by decide) with
      ⟨s, _, hs, _⟩ | ⟨_, hno⟩
    · exact absurd hs (hp.begins s)
    · exact hno
  have hread := hp.read more names m hm
  rcases htext : moved (before + 1) ts ++ ')' :: more with _ | ⟨c, rest⟩
  · simp at htext
  have hc : c ≠ '?' := by
    rintro rfl
    exact hfirst rest htext
  rw [htext] at hread
  have hadvance : Cursor.advance ⟨'(' :: c :: rest, before, names⟩ { anyCase := anyCase } =
      .ok ⟨'(' :: c :: rest, before, names⟩ := by
    unfold Cursor.advance
    rw [Alternation.skipIgnored_of_not_comment]
    · rfl
    · intro r hr
      cases hr
      exact hc rfl
  rw [Alternation.readParts_capture hadvance rfl hc, hread]
  obtain ⟨m, rfl⟩ := Nat.exists_eq_succ_of_ne_zero (show m ≠ 0 by omega)
  have hend : EndsBranch (Cursor.mk more (p.program.groups + (before + 1)) names).rest := hmore
  have hstop : more = [] ∨ (∃ r, more = '|' :: r) ∨ ∃ r, more = ')' :: r := by
    rcases hmore with h | h
    · exact .inl h
    · exact .inr (.inl h)
  have hquantifiers := hend.readQuantifiers (o := { anyCase := anyCase }) rfl more.length
    (.group (before + 1) (raw.shift (before + 1)))
  have hadvanceEnd := hend.advance (o := { anyCase := anyCase }) rfl
  simp only [ok_bind_eq, Alternation.afterNode, hquantifiers]
  rw [Alternation.readParts_stop hadvanceEnd hstop, Nat.add_comm p.program.groups]
  rfl

/-- The patterns of the rules, each read on its own. -/
def readAlone (anyCase : Bool) (rules : List (Rule × String)) :
    Except InvalidPattern (List (Rule × Pattern)) :=
  rules.mapM fun (rule, source) => do return (rule, ← Pattern.ofSource source anyCase)

/-- Joining and the reader are in step in all patterns, when `before` groups come
before them. -/
def allInStep : Nat → List String → Bool
  | _, [] => true
  | before, source :: sources =>
    inStep (before + 1) 0 0 (tokens source) &&
      allInStep (before + 1 + captures (tokens source)) sources

/-- The text of joined patterns. -/
def joinedText (before : Nat) (sources : List String) : List Char :=
  ['|'].intercalate ((Alternation.wrapAll before sources).map fun part => part.1.toList)

theorem toList_join (sources : List String) :
    (Alternation.join sources).source.toList = joinedText 0 sources := by
  simp [Alternation.join, joinedText, String.toList_intercalate]
  rfl

theorem readAlone_cons {anyCase : Bool} {rule : Rule} {source : String} {rules : List (Rule × String)}
    {members : List (Rule × Pattern)} (h : readAlone anyCase ((rule, source) :: rules) = .ok members) :
    ∃ p members', Pattern.ofSource source anyCase = .ok p ∧ readAlone anyCase rules = .ok members' ∧
      members = (rule, p) :: members' := by
  unfold readAlone at h
  rw [List.mapM_cons] at h
  obtain ⟨member, hmember, h₂⟩ := bind_eq_ok.mp h
  obtain ⟨members', hmembers, h₃⟩ := bind_eq_ok.mp h₂
  obtain ⟨p, hp, hresult⟩ := bind_eq_ok.mp hmember
  cases hresult
  cases h₃
  exact ⟨p, members', hp, hmembers, rfl⟩

theorem joinedText_singleton (before : Nat) (source : String) :
    joinedText before [source] = '(' :: (moved (before + 1) (tokens source) ++ ')' :: []) := by
  simp [joinedText, Alternation.wrapAll, Alternation.toList_wrap]

theorem joinedText_cons (before : Nat) (source next : String) (sources : List String) :
    joinedText before (source :: next :: sources) =
      '(' :: (moved (before + 1) (tokens source) ++ ')' ::
        '|' :: joinedText (before + 1 + captures (tokens source)) (next :: sources)) := by
  simp [joinedText, Alternation.wrapAll, Alternation.toList_wrap, List.intercalate]

/-- The joined patterns are read as their groups, one branch for each. -/
theorem readBranches_joined {anyCase : Bool} {rules : List (Rule × String)}
    {members : List (Rule × Pattern)} (hread : readAlone anyCase rules = .ok members)
    (hne : rules ≠ []) {before : Nat} (hstep : allInStep before (rules.map (·.2)) = true)
    (names : List (String × Nat)) {m : Nat}
    (hm : 4 * (joinedText before (rules.map (·.2))).length + 4 ≤ m) :
    ∃ raws, raws ≠ [] ∧ Regex.readBranches m { anyCase := anyCase }
        ⟨joinedText before (rules.map (·.2)), before, names⟩ =
          .ok (raws, ⟨[], groupTotal before (members.map (·.2)), names⟩) ∧
      (Regex.ofBranches raws).calls = [] ∧
      ∀ total, groupTotal before (members.map (·.2)) ≤ total →
        Regex.settle total (.ofBranches raws) = .ok (.ofBranches (wrapped before (members.map (·.2)))) := by
  induction rules generalizing members before m with
  | nil => exact absurd rfl hne
  | cons entry rules ih =>
    obtain ⟨rule, source⟩ := entry
    obtain ⟨p, members', hp, hrest, rfl⟩ := readAlone_cons hread
    simp only [List.map_cons, allInStep, Bool.and_eq_true] at hstep
    obtain ⟨raw, hmoves⟩ := moves_of_inStep hp hstep.1
    have hsettle : ∀ total, before + 1 + p.program.groups ≤ total →
        Regex.settle total (.group (before + 1) (raw.shift (before + 1))) =
          .ok (.group (before + 1) (p.program.root.shift (before + 1))) := by
      intro total htotal
      rw [Regex.settle, hmoves.settle total (by omega)]
      rfl
    rcases rules with _ | ⟨⟨rule', source'⟩, rules⟩
    · -- The last pattern ends the text.
      cases hrest
      simp only [List.map_cons, List.map_nil, joinedText_singleton] at hm ⊢
      simp only [List.length_cons, List.length_append, List.length_nil] at hm
      obtain ⟨m, rfl⟩ := Nat.exists_eq_add_of_le (show 2 ≤ m by omega)
      refine ⟨[.group (before + 1) (raw.shift (before + 1))], by simp, ?_, ?_, ?_⟩
      · rw [Nat.add_comm 2, Regex.readBranches,
          readParts_wrapped hmoves (.inl rfl) names (show _ ≤ m by omega)]
        rfl
      · simp only [Regex.ofBranches, Regex.calls, calls_shift, hmoves.calls]
      · intro total htotal
        exact hsettle total htotal
    · simp only [List.map_cons, joinedText_cons] at hm ⊢
      simp only [List.length_cons, List.length_append] at hm
      obtain ⟨m, rfl⟩ := Nat.exists_eq_add_of_le (show 2 ≤ m by omega)
      have hcounted := hmoves.counted
      obtain ⟨raws, hraws, hreads, hcalls, hsettles⟩ := ih hrest (by simp) hstep.2 (m := m + 1)
        (by simp only [List.map_cons]; omega)
      simp only [List.map_cons, ← hcounted] at hreads hsettles
      obtain ⟨next, raws, rfl⟩ := List.exists_cons_of_ne_nil hraws
      refine ⟨.group (before + 1) (raw.shift (before + 1)) :: next :: raws, by simp, ?_, ?_, ?_⟩
      · rw [Nat.add_comm 2, Regex.readBranches,
          readParts_wrapped hmoves (.inr ⟨_, rfl⟩) names (show _ ≤ m by omega)]
        simp only [ok_bind_eq, ← hcounted, hreads]
        rfl
      · simp only [Regex.ofBranches, Regex.calls, calls_shift, hmoves.calls, List.nil_append]
        exact hcalls
      · intro total htotal
        have hle := le_groupTotal (before + 1 + p.program.groups) (members'.map (·.2))
        have hfirst := hsettle total (by simp only [groupTotal] at htotal; omega)
        obtain ⟨m', members', rfl⟩ : ∃ m' members'', members' = m' :: members'' := by
          obtain ⟨_, _, _, _, h⟩ := readAlone_cons hrest
          exact ⟨_, _, h⟩
        have hothers := hsettles total htotal
        rw [Regex.ofBranches, Regex.settle, hfirst, ok_bind_eq, hothers]
        · rfl
        · simp

/-! ## The rule that was met -/

theorem map_fst_readAlone {anyCase : Bool} {rules : List (Rule × String)}
    {members : List (Rule × Pattern)} (h : readAlone anyCase rules = .ok members) :
    members.map (·.1) = rules.map (·.1) := by
  induction rules generalizing members with
  | nil =>
    cases h
    rfl
  | cons entry rules ih =>
    obtain ⟨p, members', _, hrest, rfl⟩ := readAlone_cons h
    simp [ih hrest]

/-- Joining gives the numbers that the reader gives. -/
theorem wrapAll_groupNumbers {anyCase : Bool} {rules : List (Rule × String)}
    {members : List (Rule × Pattern)} (hread : readAlone anyCase rules = .ok members) {before : Nat}
    (hstep : allInStep before (rules.map (·.2)) = true) :
    (Alternation.wrapAll before (rules.map (·.2))).map (·.2) =
      groupNumbers before (members.map (·.2)) := by
  induction rules generalizing members before with
  | nil =>
    cases hread
    rfl
  | cons entry rules ih =>
    obtain ⟨p, members', hp, hrest, rfl⟩ := readAlone_cons hread
    simp only [List.map_cons, allInStep, Bool.and_eq_true] at hstep
    obtain ⟨raw, hmoves⟩ := moves_of_inStep hp hstep.1
    simp only [List.map_cons, Alternation.wrapAll, groupNumbers, ih hrest hstep.2, hmoves.counted]

theorem tame_readAlone {anyCase : Bool} {rules : List (Rule × String)}
    {members : List (Rule × Pattern)} (hread : readAlone anyCase rules = .ok members) {before : Nat}
    (hstep : allInStep before (rules.map (·.2)) = true) : ∀ m ∈ members, m.2.Tame := by
  induction rules generalizing members before with
  | nil =>
    cases hread
    simp
  | cons entry rules ih =>
    obtain ⟨p, members', hp, hrest, rfl⟩ := readAlone_cons hread
    simp only [List.map_cons, allInStep, Bool.and_eq_true] at hstep
    obtain ⟨raw, hmoves⟩ := moves_of_inStep hp hstep.1
    intro m hm
    rcases List.mem_cons.mp hm with rfl | hm
    · exact hmoves.tame
    · exact ih hrest hstep.2 m hm

/-- Patterns in step are joined to one that is accepted, and that tries them in order. -/
theorem ofSource_join {anyCase : Bool} {rules : List (Rule × String)} {members : List (Rule × Pattern)}
    (hread : readAlone anyCase rules = .ok members) (hne : rules ≠ [])
    (hstep : allInStep 0 (rules.map (·.2)) = true) :
    ∃ joined, Pattern.ofSource (Alternation.join (rules.map (·.2))).source anyCase = .ok joined ∧
      joined.program.root = .ofBranches (wrapped 0 (members.map (·.2))) ∧
      joined.program.groups = groupTotal 0 (members.map (·.2)) := by
  have htext := toList_join (rules.map (·.2))
  obtain ⟨raws, _, hbranches, hcalls, hsettle⟩ :=
    readBranches_joined hread hne hstep [] (Nat.le_refl _)
  rw [← htext] at hbranches
  have hprogram := read_of_ok hbranches rfl hcalls (hsettle _ (Nat.le_refl _))
  exact ⟨_, ofSource_of_read hprogram, rfl, rfl⟩

/-- Patterns in step are joined as they should be. -/
theorem ofRules_joins {anyCase : Bool} {rules : List (Rule × String)} {members : List (Rule × Pattern)}
    (hread : readAlone anyCase rules = .ok members) (hne : rules ≠ [])
    (hstep : allInStep 0 (rules.map (·.2)) = true) :
    ∃ t, Terminators.ofRules rules anyCase = .ok t ∧ t.Joins members := by
  obtain ⟨joined, hjoined, hroot, hgroups⟩ := ofSource_join hread hne hstep
  refine ⟨⟨some joined, (Alternation.join (rules.map (·.2))).groupStarts.zip (rules.map (·.1))⟩,
    ?_, ⟨joined, rfl, hroot, hgroups⟩, ?_⟩
  · unfold Terminators.ofRules
    rw [if_neg (by simpa using hne)]
    simp only [hjoined, ok_bind_eq]
    rfl
  · rw [map_fst_readAlone hread, ← wrapAll_groupNumbers hread hstep]
    rfl

/-- Patterns in step are joined to what finds the first rule to match. -/
theorem find_of_inStep {anyCase : Bool} {rules : List (Rule × String)}
    {members : List (Rule × Pattern)} (hread : readAlone anyCase rules = .ok members)
    (hstep : allInStep 0 (rules.map (·.2)) = true) :
    ∃ t, Terminators.ofRules rules anyCase = .ok t ∧
      ∀ text start, FirstToMatch members text start (t.find text start) := by
  rcases rules with _ | ⟨rule, rules⟩
  · cases hread
    refine ⟨Terminators.empty, rfl, fun text start m hm => ?_⟩
    cases hm
  · obtain ⟨t, ht, hjoins⟩ := ofRules_joins hread (by simp) hstep
    refine ⟨t, ht, fun text start => ?_⟩
    refine t.find_of_joins hjoins ?_ (tame_readAlone hread hstep) text start
    obtain ⟨_, _, _, _, rfl⟩ := readAlone_cons hread
    simp

/-- The offset of a place leads back to the place. -/
theorem charOffset_byteLength {cs : List Char} {n : Nat} (h : n ≤ cs.length) :
    charOffset cs (byteLength (cs.take n)) = some (n, true) := by
  induction cs generalizing n with
  | nil =>
    obtain rfl : n = 0 := by simpa using h
    rfl
  | cons c cs ih =>
    rcases n with _ | n
    · rfl
    · have hpos := c.utf8Size_pos
      have hlength : byteLength ((c :: cs).take (n + 1)) = c.utf8Size + byteLength (cs.take n) := rfl
      rw [charOffset, hlength, if_neg (by omega), if_neg (by omega), Nat.add_sub_cancel_left,
        ih (by simpa using h)]
      rfl

theorem Terminators.findBytes_byteOffset (t : Terminators) {text : Array Char} {start : Nat}
    (h : start ≤ text.size) :
    t.findBytes text (byteOffset text start) =
      (t.find text start).map fun m => (byteOffset text m.start, byteOffset text m.stop, m) := by
  unfold Terminators.findBytes byteOffset
  simp only [charOffset_byteLength (show start ≤ text.toList.length by simpa using h),
    Option.bind_eq_bind, Option.bind_some]
  rcases t.find text start with _ | m
  · rfl
  · rfl

/-- Which rule was met. When every pattern is accepted alone and joining counts
groups as the reader does, the joined terminators find what the first rule to match
leftmost would find alone, from every place and from its offset in bytes. -/
theorem joined_terminators_find_the_first_rule (rules : List (Rule × String)) (anyCase : Bool)
    (members : List (Rule × Pattern)) (hread : readAlone anyCase rules = .ok members)
    (hstep : allInStep 0 (rules.map (·.2)) = true) :
    ∃ t, Terminators.ofRules rules anyCase = .ok t ∧
      ∀ text start, FirstToMatch members text start (t.find text start) ∧
        (start ≤ text.size → t.findBytes text (byteOffset text start) =
          (t.find text start).map fun m => (byteOffset text m.start, byteOffset text m.stop, m)) := by
  obtain ⟨t, ht, hfinds⟩ := find_of_inStep hread hstep
  exact ⟨t, ht, fun text start => ⟨hfinds text start, t.findBytes_byteOffset⟩⟩

/-- Terminators with groups, a reference, a nested class and a comment. -/
def quotations : List (Rule × String) :=
  [(.begins 1, "(x)y"), (.begins 2, "(['\"])(?:\\\\.|[^\\\\])*?\\1"), (.ends, "[^a[()]](?=;)"),
    (.illegal, "(?#a blank\\)) $")]

theorem quotations_find_the_first_rule :
    ∃ members t, readAlone false quotations = .ok members ∧
      Terminators.ofRules quotations false = .ok t ∧
      ∀ text start, FirstToMatch members text start (t.find text start) := by
  have haccepted : (readAlone false quotations).toOption.isSome = true := by decide +kernel
  rcases hread : readAlone false quotations with cause | members
  · rw [hread] at haccepted
    cases haccepted
  · obtain ⟨t, ht, hfinds⟩ :=
      joined_terminators_find_the_first_rule quotations false members hread (by decide +kernel)
    exact ⟨members, t, rfl, ht, fun text start => (hfinds text start).1⟩

/-- The patterns of the rules are accepted, alone and joined, and the joined
terminators do not find the first rule to match in the text. -/
def LosesRule (rules : List (Rule × String)) (text : Array Char) : Prop :=
  ∃ members t, readAlone false rules = .ok members ∧ Terminators.ofRules rules false = .ok t ∧
    ¬ FirstToMatch members text 0 (t.find text 0)

/-- A rule matches alone, and the joined terminators find nothing. -/
def hidesRule (rules : List (Rule × String)) (text : Array Char) : Bool :=
  match readAlone false rules, Terminators.ofRules rules false with
  | .ok members, .ok t => (t.find text 0).isNone && members.any fun m => (m.2.search text 0).isSome
  | _, _ => false

theorem losesRule_of_hidesRule {rules : List (Rule × String)} {text : Array Char}
    (h : hidesRule rules text = true) : LosesRule rules text := by
  unfold hidesRule at h
  split at h
  · rename_i members t hread ht
    simp only [Bool.and_eq_true, Option.isNone_iff_eq_none, List.any_eq_true] at h
    obtain ⟨hnone, m, hm, hsome⟩ := h
    refine ⟨members, t, hread, ht, ?_⟩
    rw [hnone]
    intro hall
    rw [hall m hm] at hsome
    cases hsome
  · cases h

/-- Out of step, a rule is lost: behind a named group, behind a parenthesis in a
nested class, in a comment or after a control escape, behind a condition, and when it
names its own group by a number that joining does not move. -/
theorem patterns_out_of_step_lose_a_rule :
    LosesRule [(.begins 1, "(?<n>x)|y"), (.begins 2, "z")] #['z'] ∧
    LosesRule [(.begins 1, "[[a](]|y"), (.begins 2, "z")] #['z'] ∧
    LosesRule [(.begins 1, "(?#()y"), (.begins 2, "z")] #['z'] ∧
    LosesRule [(.begins 1, "\\c(|y"), (.begins 2, "z")] #['z'] ∧
    LosesRule [(.begins 1, "(?x)y#(\n"), (.begins 2, "z")] #['z'] ∧
    LosesRule [(.begins 1, "(x)?(?(1)y|w)"), (.begins 2, "z")] #['z'] ∧
    LosesRule [(.begins 1, "z"), (.begins 2, "(x)\\k<1>")] #['x', 'x'] ∧
    LosesRule [(.begins 1, "z"), (.begins 2, "(x)\\g<1>")] #['x', 'x'] := by
  refine ⟨?_, ?_, ?_, ?_, ?_, ?_, ?_, ?_⟩
  all_goals
    apply losesRule_of_hidesRule
    decide +kernel

end Highlighting
