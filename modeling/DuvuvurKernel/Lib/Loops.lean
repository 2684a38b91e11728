import Mathlib.Logic.Relation
import Mathlib.Order.Basic

/-!
# Loops that may not end

A loop is its body: from the state at the start of a round the body is undefined
(`none`), goes on with another state, or is over with a result. `Returns` says that
the loop ends with a result; a loop that is undefined in some round, or that goes on
for ever, returns nothing. A loop returns one result at most (`Returns.unique`).
-/

namespace Lib.Loops

variable {σ ρ : Type*}

/-- What a round of a loop does. -/
inductive Next (σ ρ : Type*) where
  /-- There is another round. -/
  | goOn (s : σ)
  /-- The loop is over. -/
  | done (r : ρ)

/-- `Returns body s r`: entered in the state `s`, the loop ends with the result `r`. -/
inductive Returns (body : σ → Option (Next σ ρ)) : σ → ρ → Prop where
  /-- The last round. -/
  | done {s : σ} {r : ρ} : body s = some (.done r) → Returns body s r
  /-- A round, and the loop again. -/
  | goOn {s s' : σ} {r : ρ} : body s = some (.goOn s') → Returns body s' r → Returns body s r

variable {body : σ → Option (Next σ ρ)} {s s' : σ} {r r' : ρ}

/-- A round that goes on decides nothing. -/
theorem returns_of_goOn (h : body s = some (.goOn s')) : Returns body s r ↔ Returns body s' r := by
  constructor
  · rintro (hd | ⟨hg, hr⟩)
    · rw [h] at hd
      cases hd
    · rw [h] at hg
      cases hg
      exact hr
  · exact .goOn h

/-- A last round decides everything. -/
theorem returns_of_done (h : body s = some (.done r)) : Returns body s r' ↔ r' = r := by
  constructor
  · rintro (hd | ⟨hg, -⟩)
    · rw [h] at hd
      cases hd
      rfl
    · rw [h] at hg
      cases hg
  · rintro rfl
    exact .done h

theorem Returns.unique (h : Returns body s r) (h' : Returns body s r') : r = r' := by
  induction h with
  | done hd => exact ((returns_of_done hd).mp h').symm
  | goOn hg _ ih => exact ih ((returns_of_goOn hg).mp h')

/-- The loop returns from a state that it comes to. -/
theorem returns_iff_reached : Returns body s r ↔
    ∃ s', Relation.ReflTransGen (fun s s' => body s = some (.goOn s')) s s' ∧ body s' = some (.done r) := by
  constructor
  · intro h
    induction h with
    | @done s r hd => exact ⟨s, .refl, hd⟩
    | goOn hg _ ih =>
      obtain ⟨s', hreach, hd⟩ := ih
      exact ⟨s', .head hg hreach, hd⟩
  · rintro ⟨s', hreach, hd⟩
    induction hreach using Relation.ReflTransGen.head_induction_on with
    | refl => exact .done hd
    | head hg _ ih => exact .goOn hg ih

end Lib.Loops
