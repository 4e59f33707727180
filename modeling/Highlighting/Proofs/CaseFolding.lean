-- Lower case and folding. Keyword tables compare texts by their lower case and
-- patterns by their folding, and the two are not the same: more texts agree up to
-- folding. But lower case never changes the folding, so what agrees in lower case
-- agrees up to folding as well. And lower case leaves white space where it is, so the
-- words of a text stay its words.
--
-- Both are given by tables of runs. Most runs of the one table stand in the other.
import Mathlib.Data.List.Pairwise
import Highlighting.Keyword
import Highlighting.Unicode.Folding

namespace Highlighting.Unicode

/-! ## Runs -/

/-- A run of characters that map to a run at the same distances: first, last, step,
and the image of the first. -/
abbrev Run := Nat × Nat × Nat × Nat

namespace Run

/-- The code point lies in the run. -/
def holds (r : Run) (n : Nat) : Bool :=
  r.1 ≤ n && n ≤ r.2.1 && (n - r.1) % r.2.2.1 == 0

/-- The image of a code point of the run. -/
def image (r : Run) (n : Nat) : Nat := r.2.2.2 + (n - r.1)

/-- The code points of the run. -/
def points (r : Run) : List Nat :=
  ((List.range (r.2.1 - r.1 + 1)).filter (· % r.2.2.1 == 0)).map (r.1 + ·)

/-- The run that maps the images back. -/
def inverse (r : Run) : Run := (r.2.2.2, r.2.2.2 + (r.2.1 - r.1), r.2.2.1, r.1)

end Run

section

variable {r : Run} {runs : List Run} {n m : Nat}

theorem holds_iff : r.holds n = true ↔ r.1 ≤ n ∧ n ≤ r.2.1 ∧ (n - r.1) % r.2.2.1 = 0 := by
  simp [Run.holds, and_assoc]

theorem mem_points (h : r.holds n = true) : n ∈ r.points := by
  obtain ⟨hfirst, hlast, hstep⟩ := holds_iff.mp h
  refine List.mem_map.mpr ⟨n - r.1, List.mem_filter.mpr ⟨List.mem_range.mpr ?_, ?_⟩, ?_⟩
  · omega
  · simpa using hstep
  · omega

theorem holds_inverse (h : r.holds n = true) : r.inverse.holds (r.image n) = true := by
  obtain ⟨hfirst, hlast, hstep⟩ := holds_iff.mp h
  refine holds_iff.mpr ⟨?_, ?_, ?_⟩
  · simp only [Run.inverse, Run.image]
    omega
  · simp only [Run.inverse, Run.image]
    omega
  · simpa [Run.inverse, Run.image] using hstep

theorem image_inverse (h : r.holds n = true) : r.inverse.image (r.image n) = n := by
  obtain ⟨hfirst, _⟩ := holds_iff.mp h
  simp only [Run.inverse, Run.image]
  omega

theorem mapRuns_eq (runs : List Run) (n : Nat) :
    mapRuns runs n = (runs.find? fun r => r.holds n).map fun r => r.image n := rfl

/-- What maps lies in a run of the table. -/
theorem exists_run_of_mapRuns (h : mapRuns runs n = some m) :
    ∃ r ∈ runs, r.holds n = true ∧ m = r.image n := by
  rw [mapRuns_eq] at h
  obtain ⟨r, hr, rfl⟩ := Option.map_eq_some_iff.mp h
  have hholds := List.find?_some hr
  exact ⟨r, List.mem_of_find?_eq_some hr, hholds, rfl⟩

/-- What lies in no run is left alone. -/
theorem mapRuns_of_not_mem (h : n ∉ runs.flatMap Run.points) : mapRuns runs n = none := by
  rw [mapRuns_eq, Option.map_eq_none_iff, List.find?_eq_none]
  intro r hr hholds
  exact h (List.mem_flatMap.mpr ⟨r, hr, mem_points hholds⟩)

/-- The runs of a table stand one behind the other. -/
def InOrder (runs : List Run) : Prop := runs.Pairwise fun r r' => r.2.1 < r'.1

/-- In such a table a run decides what becomes of its code points. -/
theorem mapRuns_of_mem (horder : InOrder runs) (hr : r ∈ runs) (h : r.holds n = true) :
    mapRuns runs n = some (r.image n) := by
  rw [mapRuns_eq]
  induction runs with
  | nil => cases hr
  | cons r' runs ih =>
    obtain ⟨hbehind, hrest⟩ := List.pairwise_cons.mp horder
    rw [List.find?_cons]
    rcases List.mem_cons.mp hr with rfl | hmem
    · rw [h]
      rfl
    · have hnot : r'.holds n = false := by
        rw [Bool.eq_false_iff]
        intro h'
        have hlt := hbehind r hmem
        obtain ⟨hfirst, _⟩ := holds_iff.mp h
        obtain ⟨_, hlast, _⟩ := holds_iff.mp h'
        omega
      rw [hnot]
      exact ih hrest hmem

end

/-! ## Characters that fold to themselves -/

/-- A set of numbers as the bits of one. -/
def bitmap (ns : List Nat) : Nat := ns.foldr (fun n m => 1 <<< n ||| m) 0

theorem testBit_bitmap (ns : List Nat) (n : Nat) : (bitmap ns).testBit n = decide (n ∈ ns) := by
  induction ns with
  | nil => simp [bitmap]
  | cons n' ns ih =>
    have hbitmap : bitmap (n' :: ns) = 1 <<< n' ||| bitmap ns := rfl
    rw [hbitmap, Nat.testBit_or, ih, Nat.one_shiftLeft, Nat.testBit_two_pow]
    simp [eq_comm]

/-- The code points that fold to more than one, and all that folding changes. -/
def sequencePoints : List Nat := foldSequences.map (·.1)

def foldedPoints : List Nat := sequencePoints ++ foldRuns.flatMap Run.points

def sequenceBits : Nat := bitmap sequencePoints

def foldedBits : Nat := bitmap foldedPoints

namespace Run

/-- No code point of the run folds to more than one. -/
def foldsSingly (r : Run) : Bool := r.points.all fun n => !sequenceBits.testBit n

/-- Folding leaves every code point of the run alone. -/
def stays (r : Run) : Bool := r.points.all fun n => !foldedBits.testBit n

end Run

theorem not_mem_of_foldsSingly {r : Run} (h : r.foldsSingly = true) {n : Nat}
    (hn : r.holds n = true) : n ∉ sequencePoints := by
  have hbit := List.all_eq_true.mp h n (mem_points hn)
  rw [sequenceBits, testBit_bitmap] at hbit
  simpa using hbit

theorem not_mem_of_stays {r : Run} (h : r.stays = true) {n : Nat} (hn : r.holds n = true) :
    n ∉ foldedPoints := by
  have hbit := List.all_eq_true.mp h n (mem_points hn)
  rw [foldedBits, testBit_bitmap] at hbit
  simpa using hbit

/-- A character beyond ASCII that folds to one folds by the table of runs. -/
theorem fold_of_not_sequence {c : Char} (hascii : ¬ c.toNat < 0x80) (h : c.toNat ∉ sequencePoints) :
    fold c = [((mapRuns foldRuns c.toNat).map Char.ofNat).getD c] := by
  have hnone : foldSequences.find? (fun s => s.1 == c.toNat) = none := by
    rw [List.find?_eq_none]
    intro s hs hsame
    exact h (beq_iff_eq.mp hsame ▸ List.mem_map_of_mem hs)
  unfold fold
  rw [if_neg hascii, hnone]

theorem toLower_of_not_capital {c : Char} (h : ¬ (65 ≤ c.toNat ∧ c.toNat ≤ 90)) :
    c.toLower = c := by
  unfold Char.toLower
  rw [dif_neg]
  rintro ⟨hfirst, hlast⟩
  exact h ⟨UInt32.le_iff_toNat_le.mp hfirst, UInt32.le_iff_toNat_le.mp hlast⟩

theorem fold_of_not_folded {c : Char} (h : c.toNat ∉ foldedPoints) : fold c = [c] := by
  rw [foldedPoints, List.mem_append, not_or] at h
  by_cases hascii : c.toNat < 0x80
  · have hsmall : ¬ (65 ≤ c.toNat ∧ c.toNat ≤ 90) := by
      rintro ⟨hfirst, hlast⟩
      have hcapital : Run.holds (0x41, 0x5a, 1, 0x61) c.toNat = true :=
        holds_iff.mpr ⟨hfirst, hlast, Nat.mod_one _⟩
      exact h.2 (List.mem_flatMap.mpr ⟨_, List.mem_cons_self, mem_points hcapital⟩)
    unfold fold
    rw [if_pos hascii, toLower_of_not_capital hsmall]
  · rw [fold_of_not_sequence hascii h.1, mapRuns_of_not_mem h.2]
    rfl

theorem toNat_ofNat {n : Nat} (h : n.isValidChar) : (Char.ofNat n).toNat = n := by
  unfold Char.ofNat
  rw [dif_pos h]
  rfl

/-- What a code point stands for folds to itself if folding leaves the point alone. -/
theorem fold_ofNat_of_not_folded {n : Nat} (h : n ∉ foldedPoints) :
    fold (Char.ofNat n) = [Char.ofNat n] := by
  by_cases hvalid : n.isValidChar
  · exact fold_of_not_folded ((toNat_ofNat hvalid).symm ▸ h)
  · unfold Char.ofNat
    rw [dif_neg hvalid]
    rfl

/-! ## The folding of lower case -/

theorem foldRuns_inOrder : InOrder foldRuns := by
  have hchain : foldRuns.IsChain fun r r' : Run => r.2.1 < r'.1 ∧ r'.1 ≤ r'.2.1 := by
    decide +kernel
  have htrans : IsTrans Run fun r r' => r.2.1 < r'.1 ∧ r'.1 ≤ r'.2.1 :=
    ⟨fun r r' r'' h h' => ⟨by omega, h'.2⟩⟩
  exact (List.isChain_iff_pairwise.mp hchain).imp fun h => h.1

/-- The letters whose folding is the capital. -/
def capitalRuns : List Run := [(0x13a0, 0x13ef, 1, 0xab70), (0x13f0, 0x13f5, 1, 0x13f8)]

/-- The capitals that fold to more than one letter. -/
def sequenceRuns : List Run := [
  (0x1e9e, 0x1e9e, 1, 0xdf), (0x1f88, 0x1f8f, 1, 0x1f80), (0x1f98, 0x1f9f, 1, 0x1f90),
  (0x1fa8, 0x1faf, 1, 0x1fa0), (0x1fbc, 0x1fbc, 1, 0x1fb3), (0x1fcc, 0x1fcc, 1, 0x1fc3),
  (0x1ffc, 0x1ffc, 1, 0x1ff3)]

/-- All other runs of lower case stand in the table of folding. -/
def sharedRuns : List Run :=
  lowerRuns.filter fun r => !(capitalRuns ++ sequenceRuns).contains r

theorem sharedRuns_sublist : sharedRuns.Sublist foldRuns := by decide +kernel

/-- What is shared folds to its lower case and no further. The other letters fold
back to their capitals, which stay. -/
theorem runs_fold :
    ((sharedRuns.all fun r => r.foldsSingly && r.inverse.stays) &&
      capitalRuns.all fun r => r.stays && r.inverse.foldsSingly && foldRuns.contains r.inverse) =
        true := by
  decide +kernel

theorem capitalRuns_bounds :
    ∀ r ∈ capitalRuns, 0x80 ≤ r.inverse.1 ∧ r.inverse.2.1 < 0xd800 := by decide

theorem sequenceRuns_fold : (sequenceRuns.all fun r => r.points.all fun n =>
    fold (Char.ofNat (r.image n)) == fold (Char.ofNat n)) = true := by decide +kernel

/-- A run of the table of folding folds to its images. -/
theorem fold_of_run {r : Run} (hr : r ∈ foldRuns) (hsingly : r.foldsSingly = true) {c : Char}
    (hc : r.holds c.toNat = true) (hascii : ¬ c.toNat < 0x80) :
    fold c = [Char.ofNat (r.image c.toNat)] := by
  rw [fold_of_not_sequence hascii (not_mem_of_foldsSingly hsingly hc),
    mapRuns_of_mem foldRuns_inOrder hr hc]
  rfl

theorem fold_image {r : Run} (hr : r ∈ lowerRuns) {c : Char} (hc : r.holds c.toNat = true)
    (hascii : ¬ c.toNat < 0x80) : fold (Char.ofNat (r.image c.toNat)) = fold c := by
  have htables := runs_fold
  rw [Bool.and_eq_true] at htables
  obtain ⟨hshared, hcapital⟩ := htables
  by_cases hother : r ∈ capitalRuns ++ sequenceRuns
  · rcases List.mem_append.mp hother with hmem | hmem
    · have hrun := List.all_eq_true.mp hcapital r hmem
      simp only [Bool.and_eq_true, List.contains_iff_mem] at hrun
      obtain ⟨⟨hstays, hsingly⟩, hinverse⟩ := hrun
      obtain ⟨hlow, hhigh⟩ := capitalRuns_bounds r hmem
      obtain ⟨hfirst, hlast, _⟩ := holds_iff.mp (holds_inverse hc)
      have himage : (Char.ofNat (r.image c.toNat)).toNat = r.image c.toNat :=
        toNat_ofNat (.inl (by omega))
      have hback := holds_inverse hc
      rw [← himage] at hback
      rw [fold_of_run hinverse hsingly hback (by omega), himage, image_inverse hc,
        fold_of_not_folded (not_mem_of_stays hstays hc), Char.ofNat_toNat]
    · have hrun := List.all_eq_true.mp sequenceRuns_fold r hmem
      have hpoint := beq_iff_eq.mp (List.all_eq_true.mp hrun c.toNat (mem_points hc))
      rwa [Char.ofNat_toNat] at hpoint
  · have hmem : r ∈ sharedRuns := by
      refine List.mem_filter.mpr ⟨hr, ?_⟩
      simpa using hother
    have hrun := List.all_eq_true.mp hshared r hmem
    rw [Bool.and_eq_true] at hrun
    rw [fold_of_run (sharedRuns_sublist.subset hmem) hrun.1 hc hascii]
    exact fold_ofNat_of_not_folded (not_mem_of_stays hrun.2 (holds_inverse hc))

/-- Lower case does not change the folding of a character. -/
theorem foldAll_lowerChar (c : Char) : foldAll (lowerChar c) = fold c := by
  have hascii : ((List.range 0x80).all fun n =>
      foldAll (lowerChar (Char.ofNat n)) == fold (Char.ofNat n)) = true := by decide +kernel
  by_cases hc : c.toNat < 0x80
  · have hpoint := beq_iff_eq.mp (List.all_eq_true.mp hascii c.toNat (List.mem_range.mpr hc))
    rwa [Char.ofNat_toNat] at hpoint
  unfold lowerChar
  split
  · contradiction
  · rename_i hascii
    split
    · rename_i hdotted
      rw [← Char.ofNat_toNat c, hdotted]
      decide
    · rcases hmap : mapRuns lowerRuns c.toNat with _ | n
      · simp [foldAll]
      · obtain ⟨r, hr, hholds, rfl⟩ := exists_run_of_mapRuns hmap
        simpa [foldAll] using fold_image hr hholds hascii

theorem foldAll_lowerFrom (before cs : List Char) : foldAll (lowerFrom before cs) = foldAll cs := by
  have hsigma : foldAll [Char.ofNat 0x3c2] = fold (Char.ofNat 0x3a3) ∧
      foldAll [Char.ofNat 0x3c3] = fold (Char.ofNat 0x3a3) := by decide
  induction cs generalizing before with
  | nil => rfl
  | cons c cs ih =>
    have hsplit : ∀ image, foldAll image = fold c →
        foldAll (image ++ lowerFrom (c :: before) cs) = foldAll (c :: cs) := by
      intro image himage
      rw [foldAll, List.flatMap_append]
      exact congrArg₂ (· ++ ·) himage (ih (c :: before))
    rw [lowerFrom]
    apply hsplit
    split
    · rename_i hc
      subst hc
      split
      · exact hsigma.1
      · exact hsigma.2
    · exact foldAll_lowerChar c

/-- Lower case does not change the folding of a text. -/
theorem foldAll_lower (s : String) : foldAll (lower s).toList = foldAll s.toList := by
  rw [lower, String.toList_ofList, foldAll_lowerFrom]

/-! ## What lower case does not bring in -/

/-- No character without the property has one with it in its lower case. -/
structure NotBroughtIn (p : Char → Bool) : Prop where
  ascii : ((List.range 0x80).all fun n => p (Char.ofNat n) ||
    (lowerChar (Char.ofNat n)).all (!p ·)) = true
  apart : ([0, 0x69, 0x307, 0x3c2, 0x3c3].all fun n => !p (Char.ofNat n)) = true
  runs : ∀ r ∈ lowerRuns, ∀ c : Char, (Run.inverse r).1 ≤ c.toNat →
    c.toNat ≤ (Run.inverse r).2.1 → p c = false

namespace NotBroughtIn

variable {p : Char → Bool}

theorem of_apart (hp : NotBroughtIn p) {n : Nat} (hn : n ∈ [0, 0x69, 0x307, 0x3c2, 0x3c3]) :
    p (Char.ofNat n) = false := by
  simpa using List.all_eq_true.mp hp.apart n hn

theorem lowerChar (hp : NotBroughtIn p) {c : Char} (h : p c = false) :
    ∀ d ∈ lowerChar c, p d = false := by
  intro d hd
  by_cases hc : c.toNat < 0x80
  · have hpoint := List.all_eq_true.mp hp.ascii c.toNat (List.mem_range.mpr hc)
    rw [Char.ofNat_toNat, h, Bool.false_or] at hpoint
    simpa using List.all_eq_true.mp hpoint d hd
  · unfold Unicode.lowerChar at hd
    rw [if_neg hc] at hd
    split at hd
    · rcases List.mem_cons.mp hd with rfl | hd
      · exact hp.of_apart (n := 0x69) (by decide)
      · rw [List.mem_singleton.mp hd]
        exact hp.of_apart (by decide)
    · rcases hmap : mapRuns lowerRuns c.toNat with _ | n
      · rw [hmap] at hd
        rw [List.mem_singleton.mp hd]
        exact h
      · rw [hmap] at hd
        obtain rfl := List.mem_singleton.mp hd
        obtain ⟨r, hr, hholds, rfl⟩ := exists_run_of_mapRuns hmap
        obtain ⟨hfirst, hlast, _⟩ := holds_iff.mp (holds_inverse hholds)
        rw [Option.map_some, Option.getD_some]
        by_cases hvalid : (r.image c.toNat).isValidChar
        · refine hp.runs r hr _ ?_ ?_
          · rwa [toNat_ofNat hvalid]
          · rwa [toNat_ofNat hvalid]
        · unfold Char.ofNat
          rw [dif_neg hvalid]
          exact hp.of_apart (n := 0) (by decide)

theorem lowerFrom (hp : NotBroughtIn p) {cs : List Char} (h : ∀ c ∈ cs, p c = false)
    (before : List Char) : ∀ d ∈ lowerFrom before cs, p d = false := by
  induction cs generalizing before with
  | nil =>
    intro d hd
    cases hd
  | cons c cs ih =>
    intro d hd
    rw [Unicode.lowerFrom] at hd
    rcases List.mem_append.mp hd with hd | hd
    · split at hd
      · split at hd
        · rw [List.mem_singleton.mp hd]
          exact hp.of_apart (by decide)
        · rw [List.mem_singleton.mp hd]
          exact hp.of_apart (by decide)
      · exact hp.lowerChar (h c List.mem_cons_self) d hd
    · exact ih (fun c' hc' => h c' (List.mem_cons_of_mem c hc')) _ d hd

end NotBroughtIn

theorem toNat_toLower {c : Char} (h : 65 ≤ c.toNat ∧ c.toNat ≤ 90) :
    c.toLower.toNat = c.toNat + 32 := by
  unfold Char.toLower
  rw [dif_pos ⟨UInt32.le_iff_toNat_le.mpr h.1, UInt32.le_iff_toNat_le.mpr h.2⟩]
  show (c.val + ('a'.val - 'A'.val)).toNat = c.val.toNat + 32
  have hbound : c.val.toNat ≤ 90 := h.2
  rw [UInt32.toNat_add]
  exact Nat.mod_eq_of_lt (Nat.lt_of_le_of_lt (Nat.add_le_add_right hbound _) (by decide))

/-- Among the code points of ASCII, lower case leads to letters only. -/
theorem lowerRuns_letters : (lowerRuns.all fun r : Run =>
    Nat.blt 0x60 r.inverse.1 && (r.inverse.2.1.blt 0x7b || Nat.blt 0x7f r.inverse.1)) = true := by
  decide +kernel

/-- What lies between two code points of ASCII is not brought in if no letter lies there. -/
theorem NotBroughtIn.of_bounds {p : Char → Bool} (first last : Nat)
    (hp : ∀ c, p c = true → first ≤ c.toNat ∧ c.toNat ≤ last)
    (hletters : last < 0x41 ∨ 0x7b ≤ first ∧ last < 0x80)
    (hapart : ([0, 0x69, 0x307, 0x3c2, 0x3c3].all fun n => !p (Char.ofNat n)) = true) :
    NotBroughtIn p where
  ascii := by
    rw [List.all_eq_true]
    intro n hn
    have hchar : (Char.ofNat n).toNat = n :=
      toNat_ofNat (.inl (Nat.lt_trans (List.mem_range.mp hn) (by decide)))
    unfold Unicode.lowerChar
    rw [if_pos (by rw [hchar]; exact List.mem_range.mp hn)]
    by_cases hcapital : 65 ≤ n ∧ n ≤ 90
    · have hlower := toNat_toLower (hchar.symm ▸ hcapital)
      rcases himage : p (Char.ofNat n).toLower with _ | _
      · simp [himage]
      · obtain ⟨hfirst, hlast⟩ := hp _ himage
        omega
    · rw [toLower_of_not_capital (hchar.symm ▸ hcapital)]
      rcases hsame : p (Char.ofNat n) with _ | _
      · simp [hsame]
      · rfl
  apart := hapart
  runs := by
    intro r hr c hfirst hlast
    have hoff := List.all_eq_true.mp lowerRuns_letters r hr
    simp only [Bool.and_eq_true, Bool.or_eq_true, Nat.blt_eq] at hoff
    rw [Bool.eq_false_iff]
    intro hc
    obtain ⟨hlow, hhigh⟩ := hp c hc
    omega

/-- Lower case brings in no bar. -/
theorem bar_not_broughtIn : NotBroughtIn (· == '|') :=
  .of_bounds 0x7c 0x7c
    (fun c hc => by rw [beq_iff_eq.mp hc]; exact ⟨Nat.le_refl _, Nat.le_refl _⟩)
    (.inr (by decide)) (by decide)

/-! ## White space in lower case -/

def spaceRuns : List (Nat × Nat) := [
  (0x9, 0xd), (0x20, 0x20), (0x85, 0x85), (0xa0, 0xa0), (0x1680, 0x1680), (0x2000, 0x200a),
  (0x2028, 0x2029), (0x202f, 0x202f), (0x205f, 0x205f), (0x3000, 0x3000)]

theorem isSpace_iff {c : Char} :
    isSpace c = true ↔ ∃ r ∈ spaceRuns, r.1 ≤ c.toNat ∧ c.toNat ≤ r.2 := by
  rw [show isSpace c = inRuns spaceRuns c from rfl, inRuns, List.any_eq_true]
  simp only [Bool.and_eq_true, decide_eq_true_eq]

/-- No white space lies between two code points. -/
def spaceless (first last : Nat) : Bool := spaceRuns.all fun r => last.blt r.1 || r.2.blt first

theorem not_space_of_spaceless {first last : Nat} (h : spaceless first last = true) {c : Char}
    (hfirst : first ≤ c.toNat) (hlast : c.toNat ≤ last) : isSpace c = false := by
  rw [Bool.eq_false_iff]
  intro hspace
  obtain ⟨r, hr, hbounds⟩ := isSpace_iff.mp hspace
  have hapart := List.all_eq_true.mp h r hr
  simp only [Bool.or_eq_true, Nat.blt_eq] at hapart
  omega

theorem lowerRuns_spaceless : (lowerRuns.all fun r : Run =>
    spaceless r.inverse.1 r.inverse.2.1) = true := by decide +kernel

/-- A character that has no case and ends what case rules look at. -/
structure Caseless (c : Char) : Prop where
  ignorable : isCaseIgnorable c = false
  cased : isCased c = false
  lower : lowerChar c = [c]

/-- White space is caseless. -/
theorem caseless_of_space {c : Char} (h : isSpace c = true) : Caseless c := by
  have hall : (spaceRuns.all fun r => (List.range (r.2 + 1 - r.1)).all fun k =>
      !isCaseIgnorable (Char.ofNat (r.1 + k)) && (!isCased (Char.ofNat (r.1 + k)) &&
        lowerChar (Char.ofNat (r.1 + k)) == [Char.ofNat (r.1 + k)])) = true := by
    decide +kernel
  obtain ⟨r, hr, hfirst, hlast⟩ := isSpace_iff.mp h
  have hpoint := List.all_eq_true.mp (List.all_eq_true.mp hall r hr) (c.toNat - r.1)
    (List.mem_range.mpr (by omega))
  rw [Nat.add_sub_cancel' hfirst, Char.ofNat_toNat] at hpoint
  simp only [Bool.and_eq_true, Bool.not_eq_true', beq_iff_eq] at hpoint
  exact ⟨hpoint.1, hpoint.2.1, hpoint.2.2⟩

/-- Lower case brings in no white space. -/
theorem space_not_broughtIn : NotBroughtIn isSpace where
  ascii := by decide +kernel
  apart := by decide
  runs := by
    intro r hr c hfirst hlast
    exact not_space_of_spaceless (List.all_eq_true.mp lowerRuns_spaceless r hr) hfirst hlast

theorem lowerChar_ne_nil (c : Char) : lowerChar c ≠ [] := by
  unfold lowerChar
  split
  · exact List.cons_ne_nil _ _
  · split
    · exact List.cons_ne_nil _ _
    · exact List.cons_ne_nil _ _

/-! ## The words of a text in lower case -/

/-- What stands behind a caseless character is out of sight. -/
theorem nextIsCased_caseless {d : Char} (hd : Caseless d) (cs rest : List Char) :
    nextIsCased (cs ++ d :: rest) = nextIsCased cs := by
  unfold nextIsCased
  induction cs with
  | nil => simp [hd.ignorable, hd.cased]
  | cons c cs ih =>
    rw [List.cons_append, List.dropWhile_cons, List.dropWhile_cons]
    rcases isCaseIgnorable c with _ | _
    · rfl
    · exact ih

/-- What stands before a caseless character does not bear on a word behind it. -/
theorem lowerFrom_behind {d : Char} (hd : Caseless d) (near before cs : List Char) :
    lowerFrom (near ++ d :: before) cs = lowerFrom near cs := by
  induction cs generalizing near with
  | nil => rfl
  | cons c cs ih =>
    have hrest := ih (c :: near)
    rw [List.cons_append] at hrest
    rw [lowerFrom, lowerFrom, hrest, nextIsCased_caseless hd]

/-- Lower case is taken word by word. -/
theorem lowerFrom_append {d : Char} (hd : Caseless d) (before cs rest : List Char) :
    lowerFrom before (cs ++ d :: rest) = lowerFrom before cs ++ d :: lowerFrom [] rest := by
  induction cs generalizing before with
  | nil =>
    have hsigma : d ≠ Char.ofNat 0x3a3 := by
      rintro rfl
      exact absurd hd.cased (by decide +kernel)
    show lowerFrom before (d :: rest) = d :: lowerFrom [] rest
    rw [lowerFrom, if_neg hsigma, hd.lower]
    exact congrArg (d :: ·) (lowerFrom_behind hd [] before rest)
  | cons c cs ih =>
    rw [List.cons_append, lowerFrom, lowerFrom, ih, nextIsCased_caseless hd, List.append_assoc]

theorem lowerFrom_eq_nil {before cs : List Char} (h : lowerFrom before cs = []) : cs = [] := by
  rcases cs with _ | ⟨c, cs⟩
  · rfl
  · rw [lowerFrom, List.append_eq_nil_iff] at h
    have himage := h.1
    split at himage
    · split at himage <;> cases himage
    · exact absurd himage (lowerChar_ne_nil c)

end Highlighting.Unicode

namespace Highlighting.Text

/-- What is read up to the first separator belongs to one part. -/
theorem splitRuns_append {p : Char → Bool} {cs : List Char} (h : ∀ c ∈ cs, p c = false)
    (part rest : List Char) : splitRuns p part (cs ++ rest) = splitRuns p (cs.reverse ++ part) rest := by
  induction cs generalizing part with
  | nil => rfl
  | cons c cs ih =>
    have hc : ¬ p c = true := by simp [h c List.mem_cons_self]
    rw [List.cons_append, splitRuns, if_neg hc, ih fun c' hc' => h c' (List.mem_cons_of_mem c hc')]
    simp

/-- A text without separators is one part. -/
theorem splitRuns_of_none {p : Char → Bool} {cs : List Char} (h : ∀ c ∈ cs, p c = false) :
    splitRuns p [] cs = if cs = [] then [] else [cs] := by
  have hsplit := splitRuns_append h [] []
  rw [List.append_nil, List.append_nil] at hsplit
  rw [hsplit, splitRuns]
  simp

theorem splitRuns_at {p : Char → Bool} {cs : List Char} (h : ∀ c ∈ cs, p c = false) {d : Char}
    (hd : p d = true) (rest : List Char) :
    splitRuns p [] (cs ++ d :: rest) = splitRuns p [] cs ++ splitRuns p [] rest := by
  rw [splitRuns_append h, List.append_nil, splitRuns, hd, splitRuns_of_none h]
  rcases cs with _ | ⟨c, cs⟩
  · rfl
  · simp

/-- The parts are not empty and hold no separator. -/
theorem of_mem_splitRuns {p : Char → Bool} {part cs w : List Char} (hpart : ∀ c ∈ part, p c = false)
    (h : w ∈ splitRuns p part cs) : w ≠ [] ∧ ∀ c ∈ w, p c = false := by
  induction cs generalizing part with
  | nil =>
    rw [splitRuns] at h
    split at h
    · cases h
    · rename_i hne
      rw [List.mem_singleton.mp h]
      exact ⟨by simpa using hne, fun c hc => hpart c (List.mem_reverse.mp hc)⟩
  | cons c cs ih =>
    have hnone : ∀ c ∈ ([] : List Char), p c = false := fun c hc => nomatch hc
    rw [splitRuns] at h
    split at h
    · split at h
      · exact ih hnone h
      · rename_i hne
        rcases List.mem_cons.mp h with rfl | h
        · exact ⟨by simpa using hne, fun c hc => hpart c (List.mem_reverse.mp hc)⟩
        · exact ih hnone h
    · rename_i hc
      refine ih (fun c' hc' => ?_) h
      rcases List.mem_cons.mp hc' with rfl | hc'
      · simpa using hc
      · exact hpart c' hc'

/-- Every text is a word or goes on behind a separator. -/
theorem eq_or_split (p : Char → Bool) (cs : List Char) : (∀ c ∈ cs, p c = false) ∨
    ∃ w d rest, cs = w ++ d :: rest ∧ p d = true ∧ ∀ c ∈ w, p c = false := by
  induction cs with
  | nil => exact .inl fun c hc => nomatch hc
  | cons c cs ih =>
    rcases hc : p c with _ | _
    · rcases ih with hnone | ⟨w, d, rest, rfl, hd, hw⟩
      · exact .inl fun c' hc' => (List.mem_cons.mp hc').elim (fun h => h ▸ hc) (hnone c')
      · exact .inr ⟨c :: w, d, rest, rfl, hd,
          fun c' hc' => (List.mem_cons.mp hc').elim (fun h => h ▸ hc) (hw c')⟩
    · exact .inr ⟨[], c, cs, rfl, hc, fun c' hc' => nomatch hc'⟩

open Unicode in
theorem splitRuns_lowerFrom (n : Nat) (cs : List Char) (hn : cs.length ≤ n) :
    splitRuns isSpace [] (lowerFrom [] cs) = (splitRuns isSpace [] cs).map (lowerFrom []) := by
  have hword : ∀ cs : List Char, (∀ c ∈ cs, isSpace c = false) →
      splitRuns isSpace [] (lowerFrom [] cs) = (splitRuns isSpace [] cs).map (lowerFrom []) := by
    intro cs h
    rw [splitRuns_of_none h, splitRuns_of_none (space_not_broughtIn.lowerFrom h [])]
    by_cases hnil : cs = []
    · rw [hnil]
      rfl
    · rw [if_neg hnil, if_neg fun h => hnil (lowerFrom_eq_nil h)]
      rfl
  induction n generalizing cs with
  | zero =>
    rw [List.eq_nil_of_length_eq_zero (Nat.le_zero.mp hn)]
    rfl
  | succ n ih =>
    rcases eq_or_split isSpace cs with hnone | ⟨w, d, rest, rfl, hd, hw⟩
    · exact hword cs hnone
    · rw [List.length_append, List.length_cons] at hn
      rw [lowerFrom_append (caseless_of_space hd), splitRuns_at (space_not_broughtIn.lowerFrom hw []) hd, splitRuns_at hw hd,
        List.map_append, hword w hw, ih rest (by omega)]

/-- The words of a text in lower case are its words in lower case. -/
theorem words_lower (s : String) : words (Unicode.lower s) = (words s).map Unicode.lower := by
  simp only [words, Unicode.lower, String.toList_ofList, splitRuns_lowerFrom _ s.toList (Nat.le_refl _),
    List.map_map]
  refine List.map_congr_left fun w _ => ?_
  simp [Unicode.lower]

end Highlighting.Text
