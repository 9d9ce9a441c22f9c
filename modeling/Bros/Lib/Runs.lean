import Mathlib.Tactic.Common

/-!
Runs of a deterministic machine that may refuse an action.

`run` performs a list of actions. `Along` says that every action of the list meets
a side condition in the state it is taken from; it is the form in which a law that
a single action can break is carried over whole runs.
-/

namespace Runs

variable {σ α : Type*}

/-- Perform the actions in order; `none` as soon as one of them is refused. -/
def run (step : σ → α → Option σ) : σ → List α → Option σ
  | s, [] => some s
  | s, a :: as => (step s a).bind fun s' => run step s' as

/-- Every action meets `ok` in the state before it. -/
def Along (step : σ → α → Option σ) (ok : σ → α → Prop) : σ → List α → Prop
  | _, [] => True
  | s, a :: as => ok s a ∧ ∀ s', step s a = some s' → Along step ok s' as

variable {step : σ → α → Option σ} {ok : σ → α → Prop} {Inv : σ → Prop}

theorem run_cons_eq_some {s t : σ} {a : α} {as : List α} :
    run step s (a :: as) = some t ↔ ∃ s', step s a = some s' ∧ run step s' as = some t := by
  simp only [run, Option.bind_eq_some_iff]

theorem run_append (s : σ) (as bs : List α) :
    run step s (as ++ bs) = (run step s as).bind fun t => run step t bs := by
  induction as generalizing s with
  | nil => rfl
  | cons a as ih =>
      rw [List.cons_append, run, run, Option.bind_assoc]
      exact Option.bind_congr fun s' _ => ih s'

theorem run_append_of_eq_some {s t : σ} {as : List α} (h : run step s as = some t) (bs : List α) :
    run step s (as ++ bs) = run step t bs := by
  rw [run_append, h, Option.bind_some]

theorem run_append_eq_some {s t : σ} {as bs : List α} :
    run step s (as ++ bs) = some t ↔ ∃ u, run step s as = some u ∧ run step u bs = some t := by
  rw [run_append, Option.bind_eq_some_iff]

theorem run_invariant (keep : ∀ s a s', Inv s → step s a = some s' → Inv s')
    {s t : σ} {as : List α} (init : Inv s) (h : run step s as = some t) : Inv t := by
  induction as generalizing s with
  | nil =>
      cases h
      exact init
  | cons a as ih =>
      obtain ⟨s', hs, ht⟩ := run_cons_eq_some.mp h
      exact ih (keep s a s' init hs) ht

/-- An invariant that every conforming step preserves holds after every conforming run. -/
theorem Along.invariant
    (keep : ∀ s a s', Inv s → ok s a → step s a = some s' → Inv s')
    {s t : σ} {as : List α} (along : Along step ok s as) (init : Inv s)
    (h : run step s as = some t) : Inv t := by
  induction as generalizing s with
  | nil =>
      cases h
      exact init
  | cons a as ih =>
      obtain ⟨s', hs, ht⟩ := run_cons_eq_some.mp h
      exact ih (along.2 s' hs) (keep s a s' init along.1 hs) ht

/-- A relation to a second machine that every conforming step preserves. -/
theorem Along.simulates {τ : Type*} {R : σ → τ → Prop} {f : τ → α → τ}
    (keep : ∀ s x a s', R s x → ok s a → step s a = some s' → R s' (f x a))
    {s t : σ} {x : τ} {as : List α} (along : Along step ok s as) (init : R s x)
    (h : run step s as = some t) : R t (as.foldl f x) := by
  induction as generalizing s x with
  | nil =>
      cases h
      exact init
  | cons a as ih =>
      obtain ⟨s', hs, ht⟩ := run_cons_eq_some.mp h
      exact ih (along.2 s' hs) (keep s x a s' init along.1 hs) ht

theorem along_of_invariant
    (keep : ∀ s a s', Inv s → ok s a → step s a = some s' → Inv s')
    {s : σ} {as : List α} (good : ∀ s, Inv s → ∀ a ∈ as, ok s a) (init : Inv s) :
    Along step ok s as := by
  induction as generalizing s with
  | nil => trivial
  | cons a as ih =>
      have ha := good s init a List.mem_cons_self
      refine ⟨ha, fun s' hs => ?_⟩
      exact ih (fun t ht b hb => good t ht b (List.mem_cons_of_mem a hb))
        (keep s a s' init ha hs)

/-- A side condition that follows from another one where the invariant holds. -/
theorem Along.weaken {ok' : σ → α → Prop}
    (keep : ∀ s a s', Inv s → ok s a → step s a = some s' → Inv s')
    (imp : ∀ s a, Inv s → ok s a → ok' s a) {s : σ} {as : List α}
    (along : Along step ok s as) (init : Inv s) : Along step ok' s as := by
  induction as generalizing s with
  | nil => trivial
  | cons a as ih =>
      refine ⟨imp s a init along.1, fun s' hs => ?_⟩
      exact ih (along.2 s' hs) (keep s a s' init along.1 hs)

/-- Two side conditions that agree where the invariant holds hold along the same runs. -/
theorem along_congr {ok' : σ → α → Prop}
    (keep : ∀ s a s', Inv s → ok s a → step s a = some s' → Inv s')
    (agree : ∀ s a, Inv s → (ok s a ↔ ok' s a)) {s : σ} {as : List α} (init : Inv s) :
    Along step ok s as ↔ Along step ok' s as := by
  induction as generalizing s with
  | nil => exact Iff.rfl
  | cons a as ih =>
      rw [Along, Along, ← agree s a init]
      refine and_congr_right fun hok => forall₂_congr fun s' hs => ?_
      exact ih (keep s a s' init hok hs)

end Runs
