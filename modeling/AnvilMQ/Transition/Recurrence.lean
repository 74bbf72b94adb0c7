import AnvilMQ.Transition.Run
import Mathlib.Algebra.Order.Group.Int
import Mathlib.Order.Bounds.Basic

/-!
# Recurring production

A record that produces one item whenever an occurrence of its pattern has passed.  It
keeps the time of the next occurrence only, so an outage of any length leaves one
production due.  A production sets that time to the first occurrence after itself;
editing the record may set it anew.
-/

namespace Recurrence

open Transition

variable {P J : Type*}

/-- A recurring record. -/
structure Record (P J : Type*) where
  pattern : P
  next : Option ℤ
  count : ℕ
  last : Option J

/-- What may happen to a record. -/
inductive Label (P J : Type*)
  | created
  | edited
  | deleted
  | fired (pattern : P) (time : ℤ) (item : J)
deriving DecidableEq

/-- The items of the productions among some labels. -/
def produced : List (Label P J) → List J
  | [] => []
  | .fired _ _ item :: labels => item :: produced labels
  | _ :: labels => produced labels

theorem produced_append (labels labels' : List (Label P J)) :
    produced (labels ++ labels') = produced labels ++ produced labels' := by
  induction labels with
  | nil => rfl
  | cons label labels ih =>
    cases label with
    | fired pattern time item => exact congrArg (item :: ·) ih
    | _ => exact ih

/-- A step of a record, present or not.  A production happens at a time no earlier than
the one the record waits for. -/
inductive Step (occurs : P → ℤ → Prop) :
    Option (Record P J) → Label P J → Option (Record P J) → Prop
  | created {pattern : P} {next : Option ℤ} :
      Step occurs none .created (some ⟨pattern, next, 0, none⟩)
  | edited {r : Record P J} {pattern : P} {next : Option ℤ} :
      Step occurs (some r) .edited (some { r with pattern := pattern, next := next })
  | deleted {r : Record P J} : Step occurs (some r) .deleted none
  | fired {r : Record P J} {due next time : ℤ} {item : J} : r.next = some due → due ≤ time →
      IsLeast {u | time < u ∧ occurs r.pattern u} next →
      Step occurs (some r) (.fired r.pattern time item)
        (some { r with next := some next, count := r.count + 1, last := some item })

variable {occurs : P → ℤ → Prop} {s s' : Option (Record P J)} {labels : List (Label P J)}

/-! ## The tally -/

/-- A record, if there is one, has counted the productions since it was created. -/
def Tallied (labels : List (Label P J)) (s : Option (Record P J)) : Prop :=
  ∀ r, s = some r → ∃ old recent, labels = old ++ .created :: recent ∧
    (∀ l ∈ recent, l ≠ .created ∧ l ≠ .deleted) ∧
    r.count = (produced recent).length ∧ r.last = (produced recent).getLast?

/-- **A step keeps the tally.** -/
theorem Tallied.step {label : Label P J} (tallied : Tallied labels s)
    (step : Step occurs s label s') : Tallied (labels ++ [label]) s' := by
  intro r' here
  cases step with
  | created =>
    cases here
    exact ⟨labels, [], rfl, nofun, rfl, rfl⟩
  | @edited r pattern next =>
    cases here
    obtain ⟨old, recent, rfl, kept, count, last⟩ := tallied r rfl
    refine ⟨old, recent ++ [.edited], by simp, ?_, ?_, ?_⟩
    · intro l mem
      rcases List.mem_append.mp mem with earlier | new
      · exact kept l earlier
      · rw [List.mem_singleton.mp new]
        exact ⟨nofun, nofun⟩
    · rw [produced_append]
      simpa [produced] using count
    · rw [produced_append]
      simpa [produced] using last
  | deleted => cases here
  | @fired r due next time item _ _ _ =>
    cases here
    obtain ⟨old, recent, rfl, kept, count, last⟩ := tallied r rfl
    refine ⟨old, recent ++ [.fired r.pattern time item], by simp, ?_, ?_, ?_⟩
    · intro l mem
      rcases List.mem_append.mp mem with earlier | new
      · exact kept l earlier
      · rw [List.mem_singleton.mp new]
        exact ⟨nofun, nofun⟩
    · rw [produced_append, List.length_append, ← count]
      rfl
    · rw [produced_append]
      exact (List.getLast?_concat ..).symm

/-- **A record has counted the productions since it was created**, and knows the
last. -/
theorem tallied_of_chain (chain : Chain (Step occurs) none labels s) : Tallied labels s := by
  have start : Tallied ([] : List (Label P J)) none := nofun
  exact chain.invariant (fun step tallied => Tallied.step tallied step) start

/-! ## Occurrences -/

/-- The record waits for a time no earlier than some occurrence after `time`. -/
def Waits (occurs : P → ℤ → Prop) (pattern : P) (time : ℤ) (s : Option (Record P J)) : Prop :=
  ∀ r, s = some r → ∃ next u, r.next = some next ∧ occurs pattern u ∧ time < u ∧ u ≤ next

/-- A record waits for an occurrence until it is edited. -/
theorem Waits.step {label : Label P J} {pattern : P} {time : ℤ}
    (unedited : label ≠ .created ∧ label ≠ .edited) (step : Step occurs s label s')
    (waits : Waits occurs pattern time s) : Waits occurs pattern time s' := by
  intro r' here
  cases step with
  | created => exact absurd rfl unedited.1
  | edited => exact absurd rfl unedited.2
  | deleted => cases here
  | @fired r due next now item stored passed least =>
    cases here
    obtain ⟨awaited, u, same, occurs, after, before⟩ := waits r rfl
    cases stored.symm.trans same
    exact ⟨next, u, rfl, occurs, after, (before.trans passed).trans least.1.1.le⟩

/-- **Between two productions of an unedited record lies an occurrence.** -/
theorem occurrence_between {before between after : List (Label P J)} {p p' : P} {t t' : ℤ}
    {item item' : J}
    (chain : Chain (Step occurs) s
      (before ++ .fired p t item :: (between ++ .fired p' t' item' :: after)) s')
    (unedited : ∀ l ∈ between, l ≠ .created ∧ l ≠ .edited) :
    ∃ u, occurs p u ∧ t < u ∧ u ≤ t' := by
  obtain ⟨s₁, -, first⟩ := chain.exists_of_append
  cases first with
  | cons fire rest =>
    obtain ⟨s₂, quiet, second⟩ := rest.exists_of_append
    -- the first production makes the record wait, and nothing in between stops that
    have waits := quiet.preserves_of Waits.step unedited (I := Waits occurs p t) (by
      intro r' here
      cases fire with
      | fired _ _ least =>
        cases here
        exact ⟨_, _, rfl, least.1.2, least.1.1, le_rfl⟩)
    cases second with
    | cons again _ =>
      cases again with
      | @fired r due next _ _ stored passed _ =>
        obtain ⟨awaited, u, same, occurs, after, before⟩ := waits r rfl
        cases stored.symm.trans same
        exact ⟨u, occurs, after, before.trans passed⟩

end Recurrence
