import AnvilMQ.Transition.Run
import Mathlib.Algebra.Order.Group.Int

/-!
# Rotations by stamp

A rotation serves the candidate that was served longest ago.  All it keeps is a stamp
for each candidate it remembers; a service stamps its candidate above every stamp
there is, and candidates may be forgotten at any time.  A forgotten candidate counts
as never served, which is the stamp zero.

Forgetting can reuse stamps, so a stamp does not name a service.  The order of the
stamps still tells what it has to: among candidates that are remembered, the one
served last has the greater stamp.
-/

namespace Rotation

open Transition

variable {κ : Type*}

/-- A step of a rotation, labelled with the candidate it serves. -/
inductive Step (stamp : κ → ℤ) : Option κ → (κ → ℤ) → Prop
  | served {k : κ} {stamp' : κ → ℤ} : (∀ j, stamp j < stamp' k) →
      (∀ j, j ≠ k → stamp' j = stamp j) → Step stamp (some k) stamp'
  | dropped {stamp' : κ → ℤ} : (∀ j, stamp' j = stamp j ∨ stamp' j = 0) → Step stamp none stamp'

variable {stamp stamp' : κ → ℤ} {label : Option κ} {labels : List (Option κ)} {f g : κ}

/-- Stamps stay non-negative. -/
theorem Step.nonneg (step : Step stamp label stamp') (nonneg : ∀ j, 0 ≤ stamp j) (j : κ) :
    0 ≤ stamp' j := by
  cases step with
  | @served k _ above others =>
    by_cases same : j = k
    · rw [same]
      exact (nonneg k).trans (above k).le
    · rw [others j same]
      exact nonneg j
  | dropped keeps =>
    rcases keeps j with same | gone
    · rw [same]
      exact nonneg j
    · rw [gone]

/-- While `g` is not served, it stays below `f` or `f` is forgotten. -/
theorem Step.below (step : Step stamp label stamp') (nonneg : ∀ j, 0 ≤ stamp j)
    (unserved : label ≠ some g) (below : stamp g < stamp f ∨ stamp f = 0) :
    stamp' g < stamp' f ∨ stamp' f = 0 := by
  cases step with
  | @served k _ above others =>
    have other : g ≠ k := fun same => unserved (by rw [same])
    rw [others g other]
    by_cases here : f = k
    · rw [here]
      exact .inl (above g)
    · rw [others f here]
      exact below
  | dropped keeps =>
    have := nonneg g
    rcases keeps f with sameF | goneF
    · rcases keeps g with sameG | goneG
      · rw [sameF, sameG]
        exact below
      · rw [sameF, goneG]
        omega
    · exact .inr goneF

/-- **Who is stamped at least as high as a remembered candidate has been served since
that candidate was.** -/
theorem served_of_le (chain : Chain Step stamp (some f :: labels) stamp')
    (nonneg : ∀ j, 0 ≤ stamp j) (remembered : 0 < stamp' f) (other : g ≠ f)
    (le : stamp' f ≤ stamp' g) : some g ∈ labels := by
  by_contra unserved
  cases chain with
  | @cons _ first _ _ _ step rest =>
    have start : first g < first f := by
      cases step with
      | served above others =>
        rw [others g other]
        exact above g
    have kept := rest.preserves_of (G := fun label => label ≠ some g)
      (I := fun s => (∀ j, 0 ≤ s j) ∧ (s g < s f ∨ s f = 0))
      (fun idle step holds => ⟨step.nonneg holds.1, step.below holds.1 idle holds.2⟩)
      (fun label mem same => unserved (same ▸ mem)) ⟨step.nonneg nonneg, .inl start⟩
    rcases kept.2 with below | gone
    · exact absurd le (not_le.mpr below)
    · exact absurd gone remembered.ne'

end Rotation
