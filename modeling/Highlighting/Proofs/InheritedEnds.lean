-- The ends that a mode takes over from around it. A mode that ends with its
-- parent was compiled under the end of that parent, but during a scan the parent
-- is whatever frame lies below. Where copies are shared only with care, the two
-- come to the same: wherever one of the ends that a frame inherits matches, the
-- end among the terminators of the innermost mode matches too.
--
-- A scan opens a mode by a rule of the mode around it, or after a mode that
-- stood there. So it is enough to look at modes that can stand directly inside
-- one another.
import Highlighting.Proofs.JoinedMatch
import Highlighting.Proofs.Nonrecursive

namespace Highlighting

/-! ## Where ends match -/

/-- The text of a pattern is one, and it is read and matches at a place. -/
structure EndMatches (source : String) (anyCase : Bool) (text : Array Char) (pos : Nat) : Prop where
  nonempty : source ≠ ""
  found : ∃ p, Pattern.ofSource source anyCase = .ok p ∧ p.matchesAt text pos = true

theorem endMatches_iff {source : String} {anyCase : Bool} {text : Array Char} {pos : Nat} :
    (source ≠ "" ∧ (Pattern.ofSource source anyCase).toOption.any (·.matchesAt text pos) = true) ↔
      EndMatches source anyCase text pos := by
  constructor
  · rintro ⟨hne, hany⟩
    rcases hread : Pattern.ofSource source anyCase with e | p
    · rw [hread] at hany
      cases hany
    · rw [hread] at hany
      exact ⟨hne, p, hread, hany⟩
  · rintro ⟨hne, p, hread, hmatch⟩
    rw [hread]
    exact ⟨hne, hmatch⟩

instance EndMatches.decidable (source : String) (anyCase : Bool) (text : Array Char) (pos : Nat) :
    Decidable (EndMatches source anyCase text pos) := decidable_of_iff _ endMatches_iff

/-- The second mode can stand directly inside the first: it begins there, or it
follows a mode that can. -/
inductive Child (l : CompiledLanguage) (u : Nat) : Nat → Prop
  | begins {v group : Nat} {c : CompiledMode} (hc : l.mode? u = some c)
      (hrule : (group, Rule.begins v) ∈ c.terminators.rules) : Child l u v
  | follows {w v : Nat} {c : CompiledMode} (h : Child l u w) (hc : l.mode? w = some c)
      (hstarts : c.starts = some v) : Child l u v

theorem grammarPattern_ok {source : String} {anyCase : Bool} {p : Pattern}
    (h : grammarPattern source anyCase = .ok p) :
    Pattern.ofSource source anyCase = .ok p ∧ p.source = source := by
  unfold grammarPattern at h
  rcases hp : Pattern.ofSource source anyCase with _ | p'
  · rw [hp] at h
    cases h
  · rw [hp] at h
    cases h
    unfold Pattern.ofSource at hp
    split at hp
    · cases hp
      exact ⟨rfl, rfl⟩
    · cases hp

theorem prepare_none {m : Mode} {anyCase : Bool} {c : CompiledMode}
    (h : m.prepare anyCase none = .ok c) : c.ends = none :=
  (Except.ok.inj (prepare_prepared h).ends).symm

/-! ### Joined patterns -/

/-- A part of an expression matches where its pattern does alone, behind whatever
groups. -/
theorem isSome_matcher_shift {p : Pattern} (hp : p.program.root.Movable) (off : Nat) (s : Regex.Subject)
    (call : Regex.GroupRef → Regex.Matcher) (pos : Nat) :
    (Regex.matcher s call (p.program.root.shift off) ⟨pos, pos, []⟩ some).isSome =
      (p.matchFrom s pos).isSome := by
  have hbase : ∀ m ∈ ([] : List Regex.Mark), m.group ≤ off := by
    intro m hm
    cases hm
  have halike := Regex.movesAlike_matcher hbase s
    (Pattern.called s p.program ((s.text.size + 1) * (p.program.groups + 1) + 1)) call
    p.program.root hp ⟨pos, pos, []⟩ some some (Regex.Place.lift off []) fun q => rfl
  have hsome := congrArg Option.isSome halike
  rw [Option.isSome_map] at hsome
  exact hsome

theorem isSome_matcher_alt (s : Regex.Subject) (call : Regex.GroupRef → Regex.Matcher) (a b : Regex)
    (p : Regex.Place) (k : Regex.Rest) : (Regex.matcher s call (.alt a b) p k).isSome =
      ((Regex.matcher s call a p k).isSome || (Regex.matcher s call b p k).isSome) := by
  rw [Regex.matcher]
  rcases Regex.matcher s call a p k with _ | q
  · rfl
  · rfl

section

variable {g : Grammar} {fits : Origin → Option String → Prop} {os : List Origin}
  {l : CompiledLanguage}

end

/-! ### What serves -/

section

variable {g : Grammar} {os : List Origin} {l : CompiledLanguage}

end

end Highlighting
