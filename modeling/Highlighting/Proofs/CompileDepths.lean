-- How deep references lead. Compiling follows them deeper and deeper until none is left; so a
-- grammar compiles as it does at any depth that is not too small for it. A grammar whose
-- references never come to an end is too deep at every depth.
import Mathlib.Logic.Basic
import Mathlib.Tactic.ByContra
import Highlighting.Proofs.Fallible
import Highlighting.Proofs.ResolvingDepth

namespace Highlighting

/-- The grammar compiles to the language, when references are followed as deep as
they go. -/
def Grammar.CompilesTo (g : Grammar) (l : CompiledLanguage) : Prop :=
  ∃ depth, compileWithin g depth = .ok l

section

variable {g : Grammar}

theorem compileOrDeepen_of_tooDeep {depth : Nat} (h : compileWithin g depth = .error .tooDeep) :
    compileOrDeepen g depth = .inl (2 * depth + 1) := by
  rw [compileOrDeepen, h]

theorem compileOrDeepen_of_ne {depth : Nat} (h : compileWithin g depth ≠ .error .tooDeep) :
    compileOrDeepen g depth = .inr (compileWithin g depth) := by
  unfold compileOrDeepen
  split
  · rename_i hdeep
    exact absurd hdeep h
  · rfl

/-- From any depth on, a grammar for which some depth is not too small compiles as it does
there. -/
theorem compileFrom?_of_within {depth depth' : Nat} (h : compileWithin g depth' ≠ .error .tooDeep) :
    compileFrom? g depth = some (compileWithin g depth') := by
  -- Each round that is too deep brings the depth nearer to the one that is not.
  induction hgap : depth' - depth using Nat.strongRecOn generalizing depth with
  | ind gap ih =>
    by_cases hdeep : compileWithin g depth = .error .tooDeep
    · have hlt : depth < depth' := by
        by_contra hle
        exact h ((compileWithin_of_le (by omega) h).symm.trans hdeep)
      rw [← ih (depth' - (2 * depth + 1)) (by omega) rfl]
      exact loop?_of_inl (compileOrDeepen_of_tooDeep hdeep)
    · rw [← compileWithin_eq_compileWithin hdeep h]
      exact loop?_of_inr (compileOrDeepen_of_ne hdeep)

/-- Only a depth that is not too small gives a result. -/
theorem exists_depth_of_compileFrom? {depth : Nat} {x : Except GrammarError CompiledLanguage}
    (h : compileFrom? g depth = some x) : ∃ depth', compileWithin g depth' = x ∧ x ≠ .error .tooDeep := by
  rw [compileFrom?, loop?_eq_some] at h
  obtain ⟨n, hn⟩ := h
  induction n generalizing depth with
  | zero => cases hn
  | succ n ih =>
    rw [loopWithin] at hn
    by_cases hdeep : compileWithin g depth = .error .tooDeep
    · rw [compileOrDeepen_of_tooDeep hdeep] at hn
      exact ih hn
    · rw [compileOrDeepen_of_ne hdeep] at hn
      cases hn
      exact ⟨depth, rfl, hdeep⟩

/-- A grammar compiles as it does at any depth that is not too small. -/
theorem compile_of_within {depth : Nat} (h : compileWithin g depth ≠ .error .tooDeep) :
    compile g = compileWithin g depth := by
  unfold compile
  rw [compileFrom?_of_within h]
  rfl

theorem compile_eq_tooDeep :
    compile g = .error .tooDeep ↔ ∀ depth, compileWithin g depth = .error .tooDeep := by
  constructor
  · intro h depth
    by_contra hdeep
    rw [compile_of_within hdeep] at h
    exact hdeep h
  · intro h
    unfold compile
    rcases hfrom : compileFrom? g 0 with _ | x
    · rfl
    · obtain ⟨depth, rfl, hdeep⟩ := exists_depth_of_compileFrom? hfrom
      exact absurd (h depth) hdeep

/-- A grammar compiles to what all large enough depths agree on. -/
theorem exists_compileWithin_eq_compile (g : Grammar) :
    ∃ depth, ∀ depth', depth ≤ depth' → compileWithin g depth' = compile g := by
  by_cases hdeep : compile g = .error .tooDeep
  · rw [hdeep]
    exact ⟨0, fun depth' _ => compile_eq_tooDeep.mp hdeep depth'⟩
  · obtain ⟨depth, hdepth⟩ := not_forall.mp (mt compile_eq_tooDeep.mpr hdeep)
    rw [compile_of_within hdepth]
    exact ⟨depth, fun depth' hle => compileWithin_of_le hle hdepth⟩

theorem compilesTo_iff {l : CompiledLanguage} : g.CompilesTo l ↔ compile g = .ok l := by
  constructor
  · rintro ⟨depth, h⟩
    rw [← h]
    exact compile_of_within (h ▸ fun hdeep => nomatch hdeep)
  · intro h
    obtain ⟨depth, hdepth⟩ := exists_compileWithin_eq_compile g
    exact ⟨depth, (hdepth depth (Nat.le_refl _)).trans h⟩

theorem compile_of_compileWithin {depth : Nat} {l : CompiledLanguage}
    (h : compileWithin g depth = .ok l) : compile g = .ok l :=
  compilesTo_iff.mp ⟨depth, h⟩

/-- What is so at some depth is so of the language that comes out. -/
theorem compile_of_any {depth : Nat} {check : CompiledLanguage → Bool}
    (h : (compileWithin g depth).toOption.any check = true) : ∃ l, compile g = .ok l ∧ check l = true := by
  obtain ⟨l, hl, hcheck⟩ := toOption_any_eq_true.mp h
  exact ⟨l, compile_of_compileWithin hl, hcheck⟩

end

end Highlighting
