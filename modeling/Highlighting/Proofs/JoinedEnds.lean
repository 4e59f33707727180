-- Ends that are joined. A mode that ends with its parent ends at its own pattern, a
-- bar and the pattern of the end around it, as one text. The joined pattern matches
-- where one of the two does, if neither means something else in the longer text: the
-- first leaves no option on at its end, no group is called, and the second refers to no
-- group when groups come before it.
import Highlighting.Proofs.InheritedEnds
import Highlighting.Proofs.WhichRule
import Highlighting.Proofs.WiderReading

namespace Highlighting.Regex

open Alternation (Hereditary readBranches_bar readBranches_last settle_shift)

/-! ## Expressions and the groups they call -/

/-- How a group matches when it is called matters only for the groups that are. -/
theorem matcher_congr (s : Subject) {call call' : GroupRef → Matcher} {r : Regex}
    (h : ∀ target ∈ r.calls, call target = call' target) : matcher s call r = matcher s call' r := by
  induction r with
  | call target =>
    funext p k
    simp only [matcher, h target (List.mem_singleton_self target)]
  | seq a b iha ihb | alt a b iha ihb =>
    have ha := iha fun target ht => h target (List.mem_append_left _ ht)
    have hb := ihb fun target ht => h target (List.mem_append_right _ ht)
    funext p k
    simp only [matcher, ha, hb]
  | ifElse a b c iha ihb ihc =>
    have ha := iha fun target ht => h target (List.mem_append_left _ (List.mem_append_left _ ht))
    have hb := ihb fun target ht => h target (List.mem_append_left _ (List.mem_append_right _ ht))
    have hc := ihc fun target ht => h target (List.mem_append_right _ ht)
    funext p k
    simp only [matcher, ha, hb, hc]
  | group _ a ih | atomic a ih | ahead _ a ih | behind _ _ a ih | absent a ih =>
    funext p k
    simp only [matcher, ih h]
  | loop a min max greedy ih =>
    funext p k
    by_cases hset : ∃ cs, a = .set cs
    · obtain ⟨cs, rfl⟩ := hset
      rw [matcher, matcher]
    · have hne : ∀ cs, a ≠ .set cs := fun cs he => hset ⟨cs, he⟩
      rw [matcher_loop s call a min max greedy p k hne, matcher_loop s call' a min max greedy p k hne,
        ih h]
  | _ =>
    funext p k
    simp only [matcher]

/-- How called groups match does not matter where none is called. -/
theorem matcher_of_calls_nil (s : Subject) (call call' : GroupRef → Matcher) {r : Regex}
    (h : r.calls = []) : matcher s call r = matcher s call' r :=
  matcher_congr s fun target ht => by simp [h] at ht

/-- What is true of all groups that an expression calls. -/
theorem hereditary_calls (P : GroupRef → Prop) : Hereditary fun r => ∀ target ∈ r.calls, P target where
  empty := by simp [calls]
  fail := by simp [calls]
  set _ := by simp [calls]
  seq _ _ := List.forall_mem_append
  alt _ _ := List.forall_mem_append
  loop _ _ _ _ := Iff.rfl
  group _ _ h := ⟨h, fun _ hb => hb⟩
  atomic _ := Iff.rfl
  ahead _ _ := Iff.rfl
  behind _ _ _ := Iff.rfl
  ifElse _ _ _ := by
    simp only [calls, List.forall_mem_append, and_assoc]
  absent _ := Iff.rfl

theorem calls_ofBranches (rs : List Regex) : (ofBranches rs).calls = rs.flatMap calls := by
  induction rs with
  | nil => rfl
  | cons r rs ih =>
    rcases rs with _ | ⟨r', rs⟩
    · simp [ofBranches]
    · rw [List.flatMap_cons, ← ih]
      rfl

/-! ## Expressions that refer to no group -/

theorem hereditary_isPlain : Hereditary fun r => r.isPlain = true where
  empty := rfl
  fail := rfl
  set _ := rfl
  seq _ _ := Bool.and_eq_true_iff
  alt _ _ := Bool.and_eq_true_iff
  loop _ _ _ _ := Iff.rfl
  group _ _ h := ⟨h, fun _ hb => hb⟩
  atomic _ := Iff.rfl
  ahead _ _ := Iff.rfl
  behind _ _ _ := Iff.rfl
  ifElse _ _ _ := by
    simp only [isPlain, Bool.and_eq_true, and_assoc]
  absent _ := Iff.rfl

theorem movable_of_isPlain {r : Regex} (h : r.isPlain = true) : r.Movable := by
  induction r with
  | seq a b iha ihb | alt a b iha ihb =>
    obtain ⟨ha, hb⟩ := Bool.and_eq_true_iff.mp h
    exact ⟨iha ha, ihb hb⟩
  | ifElse a b c iha ihb ihc =>
    obtain ⟨hab, hc⟩ := Bool.and_eq_true_iff.mp h
    obtain ⟨ha, hb⟩ := Bool.and_eq_true_iff.mp hab
    exact ⟨iha ha, ihb hb, ihc hc⟩
  | group _ a ih | loop a _ _ _ ih | atomic a ih | ahead _ a ih | behind _ _ a ih | absent a ih =>
    exact ih h
  | backref ns _ | matched ns | call _ => cases h
  | empty | fail | set _ | folded _ | anchor _ | keep => trivial

/-! ## Reading joined texts -/

theorem ne_nil_of_readBranches {fuel : Nat} {o : Options} {cur cur₁ : Cursor} {rs : List Regex}
    (h : readBranches fuel o cur = .ok (rs, cur₁)) : rs ≠ [] := by
  cases fuel with
  | zero =>
    rw [readBranches] at h
    cases h
  | succ fuel =>
    rw [readBranches] at h
    obtain ⟨⟨r, cur₂⟩, _, h₂⟩ := bind_eq_ok.mp h
    simp only at h₂
    split at h₂
    · obtain ⟨_, _, h₃⟩ := bind_eq_ok.mp h₂
      cases h₃
      simp
    · cases h₂
      simp

/-- The branches of a text are read again in front of a bar, and then those behind it. -/
theorem readBranches_append {fuel : Nat} {o : Options} (ho : o.extended = false) {cur cur₁ : Cursor}
    {rs : List Regex} (h : readBranches fuel o cur = .ok (rs, cur₁)) (hrest : cur₁.rest = [])
    (hkeeps : keepsOptions cur.rest = true) (more : List Char) {m : Nat} (hm : fuel ≤ m) :
    ∃ m', m ≤ m' + cur.rest.length + 1 ∧
      readBranches m o { cur with rest := cur.rest ++ '|' :: more } = (do
        let (rs', cur₂) ← readBranches m' o { cur₁ with rest := more }
        return (rs ++ rs', cur₂)) := by
  induction fuel generalizing cur rs m with
  | zero =>
    rw [readBranches] at h
    cases h
  | succ fuel ih =>
    obtain ⟨m, rfl⟩ := Nat.exists_eq_succ_of_ne_zero (show m ≠ 0 by omega)
    have hm := Nat.le_of_succ_le_succ hm
    have hfirst : ∃ r cur₂, readParts fuel o cur [] = .ok (r, cur₂) := by
      rw [readBranches] at h
      obtain ⟨⟨r, cur₂⟩, hread, _⟩ := bind_eq_ok.mp h
      exact ⟨r, cur₂, hread⟩
    obtain ⟨r, cur₂, hread⟩ := hfirst
    have hbar : EndsPattern ('|' :: more) := .inr (.inl ⟨more, rfl⟩)
    have hwiden := (reader_widens 0 [] hbar fuel).2.1 hread
    have hread' : readParts m o { cur with rest := cur.rest ++ '|' :: more } [] =
        .ok (r, { cur₂ with rest := cur₂.rest ++ '|' :: more }) := by
      have hagain := hwiden.again (.inr (.inr ⟨ho, hkeeps⟩)) (.inl ⟨rfl, rfl⟩) hm
      simpa only [widen_zero, shift_zero, List.map_nil] using hagain
    by_cases hmore : ∃ rest, cur₂.rest = '|' :: rest
    · obtain ⟨rest, hrest₂⟩ := hmore
      rw [readBranches_bar hread hrest₂] at h
      obtain ⟨⟨rs₂, cur₃⟩, hlater, hresult⟩ := bind_eq_ok.mp h
      cases hresult
      have hsuffix : '|' :: rest <:+ cur.rest := hrest₂ ▸ hwiden.onward.rest
      have hlength := hsuffix.length_le
      obtain ⟨m', hm', hlater'⟩ := ih hlater
        (everywhere_suffix ((List.suffix_cons _ _).trans hsuffix) hkeeps) hm
      simp only [List.length_cons] at hlength hm'
      refine ⟨m', by omega, ?_⟩
      rw [Nat.succ_eq_add_one, readBranches_bar hread'
        (show _ = '|' :: (rest ++ '|' :: more) by simp [hrest₂])]
      simp only [hlater', bind_assoc, pure_bind, List.cons_append]
    · rw [readBranches_last hread fun rest hr => hmore ⟨rest, hr⟩] at h
      cases h
      refine ⟨m, by omega, ?_⟩
      rw [Nat.succ_eq_add_one, readBranches_bar hread' (show _ = '|' :: more by simp [hrest])]
      rfl

/-- The reader with more fuel comes to the same. -/
theorem readBranches_of_le {fuel : Nat} {o : Options} {cur cur₁ : Cursor} {rs : List Regex}
    (h : readBranches fuel o cur = .ok (rs, cur₁)) {m : Nat} (hm : fuel ≤ m) :
    readBranches m o cur = .ok (rs, cur₁) := by
  have hagain := ((reader_widens 0 [] (.inl rfl) fuel).1 h).2 (.inl rfl) (.inl ⟨rfl, rfl⟩) hm
  have hsame : rs.map (shift 0) = rs := (List.map_congr_left fun r _ => shift_zero r).trans (List.map_id' rs)
  rw [hsame, widen_zero, widen_zero, List.append_nil, List.append_nil] at hagain
  exact hagain

/-- No more names than groups are met. -/
theorem length_names_le {fuel : Nat} {o : Options} {cs : List Char} {cur : Cursor} {rs : List Regex}
    (h : readBranches fuel o { rest := cs } = .ok (rs, cur)) : cur.names.length ≤ cur.groups := by
  have honward := (((reader_widens 0 [] (.inl rfl) fuel).1 h).1).names
  simpa using honward

/-! ## Branches in a row -/

theorem ne_nil_of_settled {total : Nat} {rs as : List Regex} (h : rs.mapM (settle total) = .ok as)
    (hne : rs ≠ []) : as ≠ [] := by
  rintro rfl
  exact hne (List.eq_nil_of_length_eq_zero (forall₂_of_mapM h).length_eq)

/-- The checks go through branches one by one. -/
theorem settle_branches (total : Nat) (rs : List Regex) :
    settle total (ofBranches rs) = (rs.mapM (settle total)).map ofBranches := by
  induction rs with
  | nil => rfl
  | cons r rs ih =>
    rcases rs with _ | ⟨r', rs⟩
    · rw [List.mapM_cons, List.mapM_nil, ofBranches]
      rcases settle total r with _ | a
      · rfl
      · rfl
    · have hcons : (r :: r' :: rs).mapM (settle total) = _ := List.mapM_cons
      show settle total (.alt r (ofBranches (r' :: rs))) = _
      rw [settle, ih, hcons]
      rcases settle total r with _ | a
      · rfl
      · rcases has : (r' :: rs).mapM (settle total) with _ | as
        · rfl
        · obtain ⟨a', as, rfl⟩ :=
            List.exists_cons_of_ne_nil (ne_nil_of_settled has (List.cons_ne_nil r' rs))
          rfl

theorem settle_append_eq_ok {total : Nat} {rs rs' : List Regex} {r : Regex} :
    settle total (ofBranches (rs ++ rs')) = .ok r ↔
      ∃ as bs, rs.mapM (settle total) = .ok as ∧ rs'.mapM (settle total) = .ok bs ∧
        ofBranches (as ++ bs) = r := by
  rw [settle_branches, map_eq_ok, List.mapM_append]
  constructor
  · rintro ⟨cs, h, rfl⟩
    obtain ⟨as, has, h⟩ := bind_eq_ok.mp h
    obtain ⟨bs, hbs, h⟩ := bind_eq_ok.mp h
    cases h
    exact ⟨as, bs, has, hbs, rfl⟩
  · rintro ⟨as, bs, has, hbs, rfl⟩
    exact ⟨as ++ bs, bind_eq_ok.mpr ⟨as, has, bind_eq_ok.mpr ⟨bs, hbs, rfl⟩⟩, rfl⟩

theorem exists_of_settle_branches {total : Nat} {rs : List Regex} {r : Regex}
    (h : settle total (ofBranches rs) = .ok r) :
    ∃ as, rs.mapM (settle total) = .ok as ∧ ofBranches as = r := by
  rwa [settle_branches, map_eq_ok] at h

/-- Branches match as the first of them that does. -/
theorem matcher_choice (s : Subject) (call : GroupRef → Matcher) {rs : List Regex} (hne : rs ≠ [])
    (p : Place) (k : Rest) :
    matcher s call (.ofBranches rs) p k = rs.findSome? fun r => matcher s call r p k := by
  induction rs with
  | nil => exact absurd rfl hne
  | cons r rs ih =>
    rw [List.findSome?_cons]
    rcases rs with _ | ⟨r', rs⟩
    · rw [ofBranches]
      rcases matcher s call r p k with _ | q
      · rfl
      · rfl
    · rw [← ih (List.cons_ne_nil _ _), ofBranches, matcher]
      · rcases matcher s call r p k with _ | q
        · rfl
        · rfl
      · exact List.cons_ne_nil _ _

theorem matcher_append {as bs : List Regex} (has : as ≠ []) (hbs : bs ≠ []) (s : Subject)
    (call : GroupRef → Matcher) (p : Place) (k : Rest) :
    matcher s call (ofBranches (as ++ bs)) p k =
      matcher s call (.alt (ofBranches as) (ofBranches bs)) p k := by
  rw [matcher_choice s call (List.append_ne_nil_of_left_ne_nil has bs), List.findSome?_append, matcher,
    matcher_choice s call has, matcher_choice s call hbs]
  rcases as.findSome? fun r => matcher s call r p k with _ | q
  · rfl
  · rfl

end Highlighting.Regex

namespace Highlighting

open Regex (Subject shift_zero readBranches_append readBranches_of_le length_names_le settle_append_eq_ok
  exists_of_settle_branches matcher_append ne_nil_of_settled calls_ofBranches hereditary_calls
  hereditary_isPlain movable_of_isPlain matcher_of_calls_nil ne_nil_of_readBranches isPlain_ofBranches)

/-! ## Where a pattern means the same -/

/-- What the reader makes of the text of a pattern, before its checks. -/
def readOnly (source : String) (anyCase : Bool) : Option (List Regex) :=
  (Regex.readBranches (4 * source.toList.length + 4) { anyCase := anyCase }
    { rest := source.toList }).toOption.map (·.1)

/-- The pattern calls no group. -/
def callsNoGroup (source : String) (anyCase : Bool) : Bool :=
  (readOnly source anyCase).any fun branches => branches.all fun r => r.calls.isEmpty

/-- The pattern refers to no group, and has no number that could refer to one. -/
def refersToNoGroup (source : String) (anyCase : Bool) : Bool :=
  (readOnly source anyCase).any (·.all Regex.isPlain) && Regex.shortNumbers source.toList

theorem readOnly_of_ok {source : String} {anyCase : Bool} {branches : List Regex} {cur : Regex.Cursor}
    (h : Regex.readBranches (4 * source.toList.length + 4) { anyCase := anyCase }
      { rest := source.toList } = .ok (branches, cur)) : readOnly source anyCase = some branches := by
  rw [readOnly, h]
  rfl

theorem callsNoGroup_iff {source : String} {anyCase : Bool} {branches : List Regex}
    (h : readOnly source anyCase = some branches) :
    callsNoGroup source anyCase = true ↔ (Regex.ofBranches branches).calls = [] := by
  rw [callsNoGroup, h, calls_ofBranches]
  simp [List.flatMap_eq_nil_iff]

theorem calls_map_shift (off : Nat) (branches : List Regex) :
    (branches.map (Regex.shift off)).flatMap Regex.calls = branches.flatMap Regex.calls := by
  rw [List.flatMap_map]
  simp only [calls_shift]

/-- Where a pattern that calls no group matches does not depend on the pattern that it
is a part of. -/
theorem isSome_matcher_root {p : Pattern} (hcalls : p.program.root.calls = []) (s : Subject)
    (call : Regex.GroupRef → Regex.Matcher) (pos : Nat) :
    (Regex.matcher s call p.program.root ⟨pos, pos, []⟩ some).isSome = (p.matchFrom s pos).isSome := by
  rw [matcher_of_calls_nil s call (Pattern.called s p.program
    ((s.text.size + 1) * (p.program.groups + 1) + 1)) hcalls]
  rfl

/-- What the reader makes of a pattern, from the text on. -/
structure ReadsAs (source : String) (anyCase : Bool) (p : Pattern) (branches : List Regex)
    (cur : Regex.Cursor) : Prop where
  read : Regex.readBranches (4 * source.toList.length + 4) { anyCase := anyCase }
    { rest := source.toList } = .ok (branches, cur)
  rest : cur.rest = []
  root : Regex.settle cur.groups (.ofBranches branches) = .ok p.program.root
  groups : p.program.groups = cur.groups
  names : p.program.names = cur.names

theorem readsAs_of_ofSource {source : String} {anyCase : Bool} {p : Pattern}
    (h : Pattern.ofSource source anyCase = .ok p) :
    ∃ branches cur, ReadsAs source anyCase p branches cur := by
  unfold Pattern.ofSource at h
  split at h
  · rename_i program hread
    cases h
    obtain ⟨branches, cur, hbranches, hrest, hroot, hgroups, hnames⟩ := read_eq_ok hread
    exact ⟨branches, cur, hbranches, hrest, hroot, hgroups, hnames⟩
  · cases h

theorem ReadsAs.calls {source : String} {anyCase : Bool} {p : Pattern} {branches : List Regex}
    {cur : Regex.Cursor} (h : ReadsAs source anyCase p branches cur)
    (hcalls : callsNoGroup source anyCase = true) :
    branches.flatMap Regex.calls = [] ∧ p.program.root.calls = [] := by
  have hnil := (callsNoGroup_iff (readOnly_of_ok h.read)).mp hcalls
  refine ⟨calls_ofBranches branches ▸ hnil, List.eq_nil_iff_forall_not_mem.mpr ?_⟩
  exact (hereditary_calls fun _ => False).settle (List.eq_nil_iff_forall_not_mem.mp hnil) h.root

/-- Behind other groups the pattern is read as before, with its groups moved, if it
refers to none or there are none. -/
theorem ReadsAs.behind {source : String} {anyCase : Bool} {p : Pattern} {branches : List Regex}
    {cur : Regex.Cursor} (h : ReadsAs source anyCase p branches cur) {groups : Nat}
    {names : List (String × Nat)} (hnames : names.length ≤ groups)
    (hrefers : groups = 0 ∨ refersToNoGroup source anyCase = true) :
    ∃ names', Regex.readBranches (4 * source.toList.length + 4) { anyCase := anyCase }
      ⟨source.toList, groups, names⟩ =
        .ok (branches.map (Regex.shift groups), ⟨[], cur.groups + groups, names'⟩) := by
  have hplain : Regex.Unaffected groups names (branches.all Regex.isPlain) source.toList := by
    rcases hrefers with rfl | hrefers
    · exact .inl ⟨rfl, List.eq_nil_of_length_eq_zero (Nat.le_zero.mp hnames)⟩
    · rw [refersToNoGroup, readOnly_of_ok h.read, Bool.and_eq_true] at hrefers
      exact .inr hrefers
  have hwiden := (Regex.reader_widens groups names (.inl rfl) _).1 h.read
  have hagain := hwiden.2 (.inl rfl) hplain (Nat.le_refl _)
  simp only [Regex.Cursor.widen, List.append_nil, List.map_nil, Nat.zero_add, h.rest] at hagain
  exact ⟨_, hagain⟩

/-- Moved behind other groups, the pattern matches as before. -/
theorem ReadsAs.matches_behind {source : String} {anyCase : Bool} {p : Pattern} {branches : List Regex}
    {cur : Regex.Cursor} (h : ReadsAs source anyCase p branches cur)
    (hcalls : callsNoGroup source anyCase = true) {groups : Nat}
    (hrefers : groups = 0 ∨ refersToNoGroup source anyCase = true) (s : Subject)
    (call : Regex.GroupRef → Regex.Matcher) (pos : Nat) :
    (Regex.matcher s call (p.program.root.shift groups) ⟨pos, pos, []⟩ some).isSome =
      (p.matchFrom s pos).isSome := by
  rcases hrefers with rfl | hrefers
  · rw [shift_zero]
    exact isSome_matcher_root (h.calls hcalls).2 s call pos
  · rw [refersToNoGroup, readOnly_of_ok h.read, Bool.and_eq_true] at hrefers
    have hplain : (Regex.ofBranches branches).isPlain = true := by
      rw [isPlain_ofBranches]
      exact hrefers.1
    exact isSome_matcher_shift (movable_of_isPlain (hereditary_isPlain.settle hplain h.root)) _ s call pos

/-! ## The joined pattern -/

theorem toList_bar (own inherited : String) :
    (own ++ "|" ++ inherited).toList = own.toList ++ '|' :: inherited.toList := by
  simp [String.toList_append]

/-- In front of a bar a text is read as by itself, and the text behind the bar as it is
behind its groups. -/
theorem readBranches_joins {own inherited : String} {anyCase : Bool} {branches branches' : List Regex}
    {cur cur' : Regex.Cursor}
    (hown : Regex.readBranches (4 * own.toList.length + 4) { anyCase := anyCase }
      { rest := own.toList } = .ok (branches, cur)) (hrest : cur.rest = [])
    (hkeeps : Regex.keepsOptions own.toList = true)
    (hinherited : Regex.readBranches (4 * inherited.toList.length + 4) { anyCase := anyCase }
      ⟨inherited.toList, cur.groups, cur.names⟩ = .ok (branches', cur')) :
    Regex.readBranches (4 * (own ++ "|" ++ inherited).toList.length + 4) { anyCase := anyCase }
      { rest := (own ++ "|" ++ inherited).toList } = .ok (branches ++ branches', cur') := by
  obtain ⟨m, hm, hread⟩ := readBranches_append rfl hown hrest hkeeps inherited.toList
    (m := 4 * (own ++ "|" ++ inherited).toList.length + 4) (by
      simp only [toList_bar, List.length_append]
      omega)
  have hbehind := readBranches_of_le hinherited (m := m) (by
    rw [toList_bar] at hm
    simp only [List.length_append, List.length_cons] at hm
    omega)
  rw [hbehind] at hread
  simp only [ok_bind_eq, ← toList_bar] at hread
  exact hread

/-- Two patterns that mean the same in front of a bar and behind it are read as the one
or the other. -/
theorem joined_reads_both {own inherited : String} {anyCase : Bool} {p q : Pattern}
    (hp : Pattern.ofSource own anyCase = .ok p) (hq : Pattern.ofSource inherited anyCase = .ok q)
    (hkeeps : Regex.keepsOptions own.toList = true) (hcalls : callsNoGroup own anyCase = true)
    (hcalls' : callsNoGroup inherited anyCase = true)
    (hrefers : p.program.groups = 0 ∨ refersToNoGroup inherited anyCase = true) :
    ∃ joined, Pattern.ofSource (own ++ "|" ++ inherited) anyCase = .ok joined ∧
      ∀ s call place k, Regex.matcher s call joined.program.root place k =
        Regex.matcher s call (.alt p.program.root (q.program.root.shift p.program.groups)) place k := by
  obtain ⟨branches, cur, hown⟩ := readsAs_of_ofSource hp
  obtain ⟨branches', cur', hinherited⟩ := readsAs_of_ofSource hq
  rw [hown.groups] at hrefers ⊢
  -- Both halves are read again, the second one behind the groups of the first.
  obtain ⟨names', hbehind⟩ := hinherited.behind (length_names_le hown.read) hrefers
  have hread := readBranches_joins hown.read hown.rest hkeeps hbehind
  -- Both halves pass the checks.
  have hsettle : Regex.settle (cur'.groups + cur.groups) (.ofBranches branches) = .ok p.program.root := by
    have hshift := Alternation.settle_shift 0 (Nat.le_add_left cur.groups cur'.groups) hown.root
    rwa [shift_zero, shift_zero] at hshift
  have hsettle' := Alternation.settle_shift cur.groups (Nat.le_refl (cur'.groups + cur.groups))
    hinherited.root
  rw [Alternation.shift_ofBranches] at hsettle'
  obtain ⟨as, has, hfront⟩ := exists_of_settle_branches hsettle
  obtain ⟨bs, hbs, hback⟩ := exists_of_settle_branches hsettle'
  have hroot := settle_append_eq_ok.mpr ⟨as, bs, has, hbs, rfl⟩
  have hnone : (Regex.ofBranches (branches ++ branches'.map (Regex.shift cur.groups))).calls = [] := by
    rw [calls_ofBranches, List.flatMap_append, calls_map_shift, (hown.calls hcalls).1,
      (hinherited.calls hcalls').1]
    rfl
  refine ⟨⟨own ++ "|" ++ inherited, .ofBranches (as ++ bs), cur'.groups + cur.groups, names'⟩, ?_, ?_⟩
  · unfold Pattern.ofSource
    rw [read_of_ok hread rfl hnone hroot]
  · intro s call place k
    rw [matcher_append (ne_nil_of_settled has (ne_nil_of_readBranches hown.read))
      (ne_nil_of_settled hbs (by simpa using ne_nil_of_readBranches hinherited.read)), hfront, hback]

/-- Such patterns are joined to one that matches where one of them does. -/
theorem joined_matches_either {own inherited : String} {anyCase : Bool} {p q : Pattern}
    (hp : Pattern.ofSource own anyCase = .ok p) (hq : Pattern.ofSource inherited anyCase = .ok q)
    (hkeeps : Regex.keepsOptions own.toList = true) (hcalls : callsNoGroup own anyCase = true)
    (hcalls' : callsNoGroup inherited anyCase = true)
    (hrefers : p.program.groups = 0 ∨ refersToNoGroup inherited anyCase = true) :
    ∃ joined, Pattern.ofSource (own ++ "|" ++ inherited) anyCase = .ok joined ∧
      ∀ text pos, joined.matchesAt text pos = true ↔
        p.matchesAt text pos = true ∨ q.matchesAt text pos = true := by
  obtain ⟨_, _, hown⟩ := readsAs_of_ofSource hp
  obtain ⟨_, _, hinherited⟩ := readsAs_of_ofSource hq
  obtain ⟨joined, hjoined, hmatches⟩ := joined_reads_both hp hq hkeeps hcalls hcalls' hrefers
  refine ⟨joined, hjoined, fun text pos => ?_⟩
  simp only [Pattern.matchesAt, Bool.and_eq_true, decide_eq_true_eq, ← and_or_left]
  refine and_congr_right fun _ => ?_
  rw [Pattern.matchFrom, hmatches, isSome_matcher_alt, isSome_matcher_root (hown.calls hcalls).2,
    hinherited.matches_behind hcalls' hrefers, Bool.or_eq_true]

/-! ## Modes that end with their parent -/

/-- Joining ends preserves their meaning. The end of a mode that ends with its parent
matches where its own pattern or the end around it does, if these mean the same in the
joined text. -/
theorem end_matches_where_own_or_inherited_does {m : Mode} {anyCase : Bool} {own inherited : String}
    {c : CompiledMode} {p q : Pattern} (hends : m.endsWithParent = true) (hown : m.endSource = some own)
    (hne : inherited ≠ "") (hp : Pattern.ofSource own anyCase = .ok p)
    (hq : Pattern.ofSource inherited anyCase = .ok q)
    (hc : m.prepare anyCase (some inherited) = .ok c) (hkeeps : Regex.keepsOptions own.toList = true)
    (hcalls : callsNoGroup own anyCase = true) (hcalls' : callsNoGroup inherited anyCase = true)
    (hrefers : p.program.groups = 0 ∨ refersToNoGroup inherited anyCase = true) :
    ∃ joined, Pattern.ofSource c.terminatorEnd anyCase = .ok joined ∧
      ∀ text pos, joined.matchesAt text pos = true ↔
        p.matchesAt text pos = true ∨ q.matchesAt text pos = true := by
  have hend : c.terminatorEnd = own ++ "|" ++ inherited := by
    rw [(prepare_prepared hc).terminatorEnd]
    simp [Mode.terminatorEnd, hends, hown, hne]
  rw [hend]
  exact joined_matches_either hp hq hkeeps hcalls hcalls' hrefers

/-- What stands in quotes: the second quote is the same as the first. -/
def quoted : String := "(['\"])(?:\\\\.|[^\\\\])*?\\1"

/-- The end of a list, with a group of its own. -/
def listEnd : String := "(?<close>\\])|(?i:end)"

/-- An item of the list, which ends with what is quoted or with the list. -/
def quotedItem : Mode where
  begins := some "="
  ends := some quoted
  endsWithParent := true

theorem quotedItem_ends_at_either :
    ∃ p q c joined, Pattern.ofSource quoted false = .ok p ∧ Pattern.ofSource listEnd false = .ok q ∧
      quotedItem.prepare false (some listEnd) = .ok c ∧
      Pattern.ofSource c.terminatorEnd false = .ok joined ∧
      ∀ text pos, joined.matchesAt text pos = true ↔
        p.matchesAt text pos = true ∨ q.matchesAt text pos = true := by
  obtain ⟨p, hp⟩ := exists_of_isOk (show (Pattern.ofSource quoted false).isOk = true by decide +kernel)
  obtain ⟨q, hq⟩ := exists_of_isOk (show (Pattern.ofSource listEnd false).isOk = true by decide +kernel)
  obtain ⟨c, hc⟩ := exists_of_isOk
    (show (quotedItem.prepare false (some listEnd)).isOk = true by decide +kernel)
  obtain ⟨joined, hjoined, hmatches⟩ := end_matches_where_own_or_inherited_does (m := quotedItem) rfl rfl
    (by decide) hp hq hc (by decide +kernel) (by decide +kernel) (by decide +kernel)
    (.inr (by decide +kernel))
  exact ⟨p, q, c, joined, hp, hq, hc, hjoined, hmatches⟩

/-- The mode ends with its parent, and at the place in the text its end matches where
neither its own pattern nor the end around it does, or the other way around. -/
def ChangesEnd (m : Mode) (inherited : String) (text : Array Char) (pos : Nat) : Prop :=
  m.endsWithParent = true ∧ inherited ≠ "" ∧
    ∃ own p q c joined, m.endSource = some own ∧ Pattern.ofSource own false = .ok p ∧
      Pattern.ofSource inherited false = .ok q ∧ m.prepare false (some inherited) = .ok c ∧
      Pattern.ofSource c.terminatorEnd false = .ok joined ∧
      ¬ (joined.matchesAt text pos = true ↔
        p.matchesAt text pos = true ∨ q.matchesAt text pos = true)

def changesEnd (m : Mode) (inherited : String) (text : Array Char) (pos : Nat) : Bool :=
  m.endsWithParent && !inherited.isEmpty &&
    match m.endSource, m.prepare false (some inherited), Pattern.ofSource inherited false with
    | some own, .ok c, .ok q =>
      match Pattern.ofSource own false, Pattern.ofSource c.terminatorEnd false with
      | .ok p, .ok joined =>
        joined.matchesAt text pos != (p.matchesAt text pos || q.matchesAt text pos)
      | _, _ => false
    | _, _, _ => false

theorem changesEnd_sound {m : Mode} {inherited : String} {text : Array Char} {pos : Nat}
    (h : changesEnd m inherited text pos = true) : ChangesEnd m inherited text pos := by
  unfold changesEnd at h
  obtain ⟨hmode, h⟩ := Bool.and_eq_true_iff.mp h
  obtain ⟨hends, hne⟩ := Bool.and_eq_true_iff.mp hmode
  refine ⟨hends, by simpa using hne, ?_⟩
  split at h
  · rename_i own c q hown hc hq
    split at h
    · rename_i p joined hp hjoined
      refine ⟨own, p, q, c, joined, hown, hp, hq, hc, hjoined, fun heither => ?_⟩
      rw [bne_iff_ne] at h
      exact h (Bool.eq_iff_iff.mpr (by rw [heither, Bool.or_eq_true]))
    · cases h
  · cases h

/-- Where they mean something else, the end of the mode is another one: the end around it
refers to a group and the mode has groups, an option is left on at the bar, the mode calls
its whole pattern, the end around it calls a group, and the code of a character is the
number of a group. -/
theorem joining_changes_ends :
    ChangesEnd { ends := some "(a)", endsWithParent := true } "(b)\\1" #['b', 'b'] 0 ∧
    ChangesEnd { ends := some "(?i)a", endsWithParent := true } "b" #['B'] 0 ∧
    ChangesEnd { ends := some "a\\g<0>?b", endsWithParent := true } "x" #['a', 'x', 'b'] 0 ∧
    ChangesEnd { ends := some "(a)", endsWithParent := true } "(b)\\g<1>" #['b', 'b'] 0 ∧
    ChangesEnd { ends := some "()()()()()()()()()(a)", endsWithParent := true } "\\10" #['\x08'] 0 := by
  refine ⟨?_, ?_, ?_, ?_, ?_⟩
  all_goals
    apply changesEnd_sound
    decide +kernel

end Highlighting
