import Mathlib.Data.List.Infix
import Mathlib.Data.List.Induction

/-!
# Runs of a transition system

Two views of a system that takes step after step.

A **deterministic** system is a function `step : σ → ι → σ`; a run is the list
of its inputs, `after` is the state it reaches and `observe` collects what an
observer records at each step.  `Along` states a property of every step of a
run, so that "in every run whose steps meet `C`, every step meets `P`" is
`Along C run → Along P run`.

A **labelled** system is a relation `R : σ → ℓ → σ → Prop`; `Chain R` is its
labelled reachability.  `Chain.invariant` carries an invariant that mentions the
labels already passed, which is how a history variable enters a proof without
entering the state.

A system whose labels carry all its choices is a function `step : σ → ℓ → Option σ`
that refuses the labels it cannot take.  `follow` runs a list of labels, so that a run can
be evaluated, and `TakesIf` is the relation of the steps that meet a condition.
-/

namespace Transition

universe u v w

section Deterministic

variable {σ : Type u} {ι : Type v} {α : Type w}

/-- The state a run reaches from `s`. -/
def after (step : σ → ι → σ) (s : σ) (run : List ι) : σ := run.foldl step s

@[simp] theorem after_nil (step : σ → ι → σ) (s : σ) : after step s [] = s := rfl

theorem after_cons (step : σ → ι → σ) (s : σ) (i : ι) (run : List ι) :
    after step s (i :: run) = after step (step s i) run := rfl

@[simp] theorem after_concat (step : σ → ι → σ) (s : σ) (run : List ι) (i : ι) :
    after step s (run ++ [i]) = step (after step s run) i := by
  simp [after]

/-- The invariant rule for the state a run reaches. -/
theorem after_preserves {I : σ → Prop} {step : σ → ι → σ} (keep : ∀ s i, I s → I (step s i))
    {s : σ} (holds : I s) (run : List ι) : I (after step s run) := by
  induction run generalizing s with
  | nil => exact holds
  | cons i rest ih => exact ih (keep s i holds)

/-- **A run settles** when each step decreases a measure or changes nothing, and a step that
changes nothing leaves nothing to do for any other. -/
theorem after_settles {step : σ → ι → σ} {size : σ → ℕ}
    (shrinks : ∀ s i, step s i = s ∨ size (step s i) < size s)
    (rests : ∀ s i j, step s i = s → step s j = s) {s : σ} {run : List ι}
    (long : size s ≤ run.length) (j : ι) : step (after step s run) j = after step s run := by
  induction run generalizing s with
  | nil =>
    rcases shrinks s j with same | smaller
    · exact same
    · exact absurd (smaller.trans_le long) (Nat.not_lt_zero _)
  | cons i rest ih =>
    rw [after_cons]
    rcases shrinks s i with same | smaller
    · have still : after step s rest = s :=
        after_preserves (I := fun s' => s' = s) (fun s' k reached => by
          rw [reached, rests s i k same]) rfl rest
      rw [same, still, rests s i j same]
    · exact ih (Nat.le_of_lt_succ (smaller.trans_le long))

/-- What an observer that sees each step from its starting state has recorded. -/
def observe (step : σ → ι → σ) (see : σ → ι → List α) : σ → List ι → List α
  | _, [] => []
  | s, i :: run => see s i ++ observe step see (step s i) run

@[simp] theorem observe_nil (step : σ → ι → σ) (see : σ → ι → List α) (s : σ) :
    observe step see s [] = [] := rfl

@[simp] theorem observe_concat (step : σ → ι → σ) (see : σ → ι → List α) (s : σ)
    (run : List ι) (i : ι) :
    observe step see s (run ++ [i]) =
      observe step see s run ++ see (after step s run) i := by
  induction run generalizing s with
  | nil => simp [observe]
  | cons head rest ih => simp [observe, after_cons, ih]

/-- What an observer that sees the run before each step has recorded. -/
def collect (see : List ι → ι → List α) : List ι → List ι → List α
  | _, [] => []
  | before, i :: run => see before i ++ collect see (before ++ [i]) run

theorem collect_concat (see : List ι → ι → List α) (before run : List ι) (i : ι) :
    collect see before (run ++ [i]) = collect see before run ++ see (before ++ run) i := by
  induction run generalizing before with
  | nil => simp [collect]
  | cons head rest ih => simp [collect, ih]

/-- What is read off a log that grows by one entry. -/
theorem filterMap_concat (see : ι → Option α) (log : List ι) (i : ι) :
    (log ++ [i]).filterMap see = log.filterMap see ++ (see i).toList := by
  rw [List.filterMap_append]
  cases seen : see i with
  | none =>
    rw [List.filterMap_cons_none seen]
    rfl
  | some a =>
    rw [List.filterMap_cons_some seen]
    rfl

theorem mem_filterMap_concat {see : ι → Option α} {log : List ι} {i : ι} {a : α} :
    a ∈ (log ++ [i]).filterMap see ↔ a ∈ log.filterMap see ∨ see i = some a := by
  rw [filterMap_concat, List.mem_append, Option.mem_toList]

/-- Entries of a log in which nothing is seen twice are determined by what is seen of them. -/
theorem eq_of_nodup_filterMap {see : ι → Option α} {log : List ι}
    (nodup : (log.filterMap see).Nodup) {i j : ι} {a : α} (left : i ∈ log) (right : j ∈ log)
    (seen : see i = some a) (seen' : see j = some a) : i = j := by
  induction log with
  | nil => cases left
  | cons head rest ih =>
    have later : (rest.filterMap see).Nodup ∧
        (see head = some a → ∀ k ∈ rest, see k ≠ some a) := by
      cases first : see head with
      | none =>
        rw [List.filterMap_cons_none first] at nodup
        exact ⟨nodup, nofun⟩
      | some b =>
        rw [List.filterMap_cons_some first] at nodup
        refine ⟨(List.nodup_cons.mp nodup).2, fun same k mem again => ?_⟩
        cases same
        exact (List.nodup_cons.mp nodup).1 (List.mem_filterMap.mpr ⟨k, mem, again⟩)
    rcases List.mem_cons.mp left with rfl | inRest <;>
      rcases List.mem_cons.mp right with rfl | inRest'
    · rfl
    · exact absurd seen' (later.2 seen j inRest')
    · exact absurd seen (later.2 seen' i inRest)
    · exact ih later.1 inRest inRest'

/-- Every step of a run meets `C`, which sees the run before the step. -/
def Along (C : List ι → ι → Prop) (run : List ι) : Prop :=
  ∀ before i, before ++ [i] <+: run → C before i

@[simp] theorem along_nil (C : List ι → ι → Prop) : Along C [] := by
  intro before i le
  have := List.prefix_nil.mp le
  simp at this

/-- What holds along a run and at its next step holds along the longer run. -/
theorem along_concat {C : List ι → ι → Prop} {run : List ι} {i : ι} :
    Along C (run ++ [i]) ↔ Along C run ∧ C run i := by
  constructor
  · intro meets
    refine ⟨fun before j le => meets before j (le.trans (List.prefix_append _ _)), ?_⟩
    exact meets run i (List.prefix_refl _)
  · rintro ⟨meets, last⟩ before j le
    rcases List.prefix_concat_iff.mp le with same | earlier
    · obtain ⟨rfl, rfl⟩ : before = run ∧ j = i := by
        have := List.append_inj' same rfl
        exact ⟨this.1, List.singleton_inj.mp this.2⟩
      exact last
    · exact meets before j earlier

/-- An entry of a longer log is in the old part or in the new one. -/
theorem split_log {log events before after : List α} {x : α}
    (same : log ++ events = before ++ x :: after) :
    (∃ middle, log = before ++ x :: middle ∧ after = middle ++ events) ∨
      ∃ front, before = log ++ front ∧ events = front ++ x :: after := by
  rcases List.append_eq_append_iff.mp same with ⟨front, head, tail⟩ | ⟨middle, head, tail⟩
  · exact .inr ⟨front, head, tail⟩
  · cases middle with
    | nil =>
      rw [List.append_nil] at head
      exact .inr ⟨[], by rw [head, List.append_nil], tail.symm⟩
    | cons y rest =>
      obtain ⟨rfl, rfl⟩ := List.cons.inj tail
      exact .inl ⟨rest, head, rfl⟩

end Deterministic

section Labelled

variable {σ : Type u} {ℓ : Type v}

/-- Labelled reachability: `Chain R s ls s'` when the labels `ls` lead from `s`
to `s'`. -/
inductive Chain (R : σ → ℓ → σ → Prop) : σ → List ℓ → σ → Prop
  | nil (s : σ) : Chain R s [] s
  | cons {s s' s'' : σ} {l : ℓ} {ls : List ℓ} :
      R s l s' → Chain R s' ls s'' → Chain R s (l :: ls) s''

namespace Chain

variable {R : σ → ℓ → σ → Prop} {s s' s'' : σ} {ls ls' : List ℓ}

theorem single {l : ℓ} (step : R s l s') : Chain R s [l] s' := cons step (nil s')

/-- Every label of a chain is that of a step. -/
theorem step_of_mem {l : ℓ} (chain : Chain R s ls s') (mem : l ∈ ls) : ∃ t t', R t l t' := by
  induction chain with
  | nil => cases mem
  | cons step _ ih =>
    rcases List.mem_cons.mp mem with rfl | later
    · exact ⟨_, _, step⟩
    · exact ih later

theorem append (first : Chain R s ls s') (second : Chain R s' ls' s'') :
    Chain R s (ls ++ ls') s'' := by
  induction first with
  | nil s => exact second
  | cons step _ ih => exact cons step (ih second)

/-- A chain passes through a state wherever its labels are cut. -/
theorem exists_of_append (chain : Chain R s (ls ++ ls') s'') :
    ∃ s', Chain R s ls s' ∧ Chain R s' ls' s'' := by
  induction ls generalizing s with
  | nil => exact ⟨s, nil s, chain⟩
  | cons l rest ih =>
    cases chain with
    | cons step later =>
      obtain ⟨middle, first, second⟩ := ih later
      exact ⟨middle, cons step first, second⟩

/-- The invariant rule with a history: an invariant of the labels passed so far
and the state they led to is kept by a chain when it is kept by each step. -/
theorem invariant {I : List ℓ → σ → Prop}
    (keep : ∀ {past s l s'}, R s l s' → I past s → I (past ++ [l]) s')
    (chain : Chain R s ls s') {past : List ℓ} (holds : I past s) : I (past ++ ls) s' := by
  induction chain generalizing past with
  | nil s => simpa using holds
  | cons step _ ih => simpa using ih (keep step holds)

/-- The invariant rule for the state alone. -/
theorem preserves {I : σ → Prop} (keep : ∀ {s l s'}, R s l s' → I s → I s')
    (chain : Chain R s ls s') (holds : I s) : I s' := by
  induction chain with
  | nil s => exact holds
  | cons step _ ih => exact ih (keep step holds)

/-- The same for a chain whose labels all meet `G`. -/
theorem preserves_of {I : σ → Prop} {G : ℓ → Prop}
    (keep : ∀ {s l s'}, G l → R s l s' → I s → I s') (chain : Chain R s ls s')
    (good : ∀ l ∈ ls, G l) (holds : I s) : I s' := by
  induction chain with
  | nil s => exact holds
  | cons step _ ih =>
    obtain ⟨first, rest⟩ := List.forall_mem_cons.mp good
    exact ih rest (keep first step holds)

end Chain

/-- The state a list of labels leads to, if none of them is refused. -/
def follow (step : σ → ℓ → Option σ) : σ → List ℓ → Option σ
  | s, [] => some s
  | s, l :: ls => (step s l).bind fun s' => follow step s' ls

/-- Every label of a list is taken in a state in which it meets `C`. -/
def Meets (C : σ → ℓ → Prop) (step : σ → ℓ → Option σ) : σ → List ℓ → Prop
  | _, [] => True
  | s, l :: ls => C s l ∧ ∀ s', step s l = some s' → Meets C step s' ls

/-- The steps of a function that meet a condition. -/
def TakesIf (C : σ → ℓ → Prop) (step : σ → ℓ → Option σ) (s : σ) (l : ℓ) (s' : σ) : Prop :=
  step s l = some s' ∧ C s l

theorem chain_of_follow {C : σ → ℓ → Prop} {step : σ → ℓ → Option σ} {s s' : σ} {ls : List ℓ}
    (meets : Meets C step s ls) (ran : follow step s ls = some s') :
    Chain (TakesIf C step) s ls s' := by
  induction ls generalizing s with
  | nil =>
    cases ran
    exact .nil _
  | cons l rest ih =>
    obtain ⟨middle, first, later⟩ := Option.bind_eq_some_iff.mp ran
    exact .cons ⟨first, meets.1⟩ (ih (meets.2 middle first) later)

/-- The invariant rule for a run, with the labels it has passed. -/
theorem invariant_of_follow {I : List ℓ → σ → Prop} {step : σ → ℓ → Option σ}
    (keep : ∀ {past s l s'}, step s l = some s' → I past s → I (past ++ [l]) s')
    (past : List ℓ) {ls : List ℓ} {s s' : σ} (ran : follow step s ls = some s')
    (holds : I past s) : I (past ++ ls) s' := by
  induction ls generalizing past s with
  | nil =>
    cases ran
    simpa using holds
  | cons l rest ih =>
    obtain ⟨middle, first, later⟩ := Option.bind_eq_some_iff.mp ran
    simpa using ih _ later (keep first holds)

theorem follow_concat {step : σ → ℓ → Option σ} {s s' s'' : σ} {ls : List ℓ} {l : ℓ}
    (ran : follow step s ls = some s') (taken : step s' l = some s'') :
    follow step s (ls ++ [l]) = some s'' := by
  induction ls generalizing s with
  | nil =>
    cases ran
    exact Option.bind_eq_some_iff.mpr ⟨s'', taken, rfl⟩
  | cons first rest ih =>
    obtain ⟨middle, head, later⟩ := Option.bind_eq_some_iff.mp ran
    exact Option.bind_eq_some_iff.mpr ⟨middle, head, ih later⟩

end Labelled

end Transition
