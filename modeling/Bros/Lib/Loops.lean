import Mathlib.Algebra.Group.Nat.Defs
import Mathlib.Logic.Function.Iterate
import Mathlib.Tactic.Common

/-!
Two loop shapes of assembly code.

`doUntil` runs a body until a test after it succeeds, with a bound on the rounds;
`repeatM` runs a body that may fail a fixed number of times. Each has the rule that
carries an indexed invariant through it.
-/

namespace Loops

variable {σ : Type*}

/-- At most `n` rounds of `step`, each followed by the test `stop`. -/
def doUntil (step : σ → σ) (stop : σ → Bool) : Nat → σ → Option σ
  | 0, _ => none
  | n + 1, s => if stop (step s) then some (step s) else doUntil step stop n (step s)

def repeatM (step : σ → Option σ) : Nat → σ → Option σ
  | 0, s => some s
  | n + 1, s => (step s).bind (repeatM step n)

section DoUntil

variable {step : σ → σ} {stop : σ → Bool}

/-- A loop is still running after `n` rounds if no test has succeeded so far. -/
theorem doUntil_eq_none_iff {n : Nat} {s : σ} :
    doUntil step stop n s = none ↔ ∀ k < n, stop (step^[k + 1] s) = false := by
  induction n generalizing s with
  | zero => simp [doUntil]
  | succ n ih =>
      rw [doUntil]
      split
      · next h =>
          simp only [reduceCtorEq, false_iff]
          intro hall
          have := hall 0 (Nat.succ_pos n)
          rw [Function.iterate_one, h] at this
          cases this
      · next h =>
          rw [ih]
          constructor
          · intro hall k hk
            cases k with
            | zero => simpa using h
            | succ k => exact hall k (by omega)
          · intro hall k hk
            exact hall (k + 1) (by omega)

theorem doUntil_none_of_le {k n : Nat} (h : k ≤ n) {s : σ}
    (hn : doUntil step stop n s = none) : doUntil step stop k s = none :=
  doUntil_eq_none_iff.mpr fun j hj => doUntil_eq_none_iff.mp hn j (by omega)

/-- A loop that ends has run to the first round whose test succeeds. -/
theorem doUntil_eq_some_iff {n : Nat} {s t : σ} :
    doUntil step stop n s = some t ↔
      ∃ k < n, doUntil step stop k s = none ∧ stop (step^[k + 1] s) = true ∧
        step^[k + 1] s = t := by
  induction n generalizing s with
  | zero => simp [doUntil]
  | succ n ih =>
      rw [doUntil]
      split
      · next h =>
          constructor
          · intro ht
            injection ht with ht
            exact ⟨0, Nat.succ_pos n, rfl, h, ht⟩
          · intro hround
            obtain ⟨k, -, hnone, -, ht⟩ := hround
            have hk : k = 0 := by
              by_contra hk
              have := doUntil_eq_none_iff.mp hnone 0 (by omega)
              rw [Function.iterate_one, h] at this
              cases this
            subst hk
            exact congrArg some ht
      · next h =>
          have hstop : stop (step s) = false := by simpa using h
          rw [ih]
          constructor
          · intro hround
            obtain ⟨k, hk, hnone, hstopk, ht⟩ := hround
            refine ⟨k + 1, by omega, ?_, hstopk, ht⟩
            rw [doUntil, if_neg h, hnone]
          · intro hround
            obtain ⟨k, hk, hnone, hstopk, ht⟩ := hround
            cases k with
            | zero =>
                rw [Function.iterate_one, hstop] at hstopk
                cases hstopk
            | succ k =>
                rw [doUntil, if_neg h] at hnone
                exact ⟨k, by omega, hnone, hstopk, ht⟩

end DoUntil

section RepeatM

variable {step : σ → Option σ}

theorem repeatM_invariant {I : Nat → σ → Prop} {n : Nat}
    (keep : ∀ i < n, ∀ s t, I i s → step s = some t → I (i + 1) t)
    {s t : σ} (init : I 0 s) (h : repeatM step n s = some t) : I n t := by
  induction n generalizing I s with
  | zero =>
      injection h with h
      rwa [← h]
  | succ n ih =>
      obtain ⟨s', hs', ht⟩ := Option.bind_eq_some_iff.mp h
      exact ih (I := fun i => I (i + 1))
        (fun i hi => keep (i + 1) (by omega)) (keep 0 (Nat.succ_pos n) s s' init hs') ht

/-- If every round from a state with the invariant succeeds, so does the loop. -/
theorem repeatM_total {I : Nat → σ → Prop} {n : Nat}
    (keep : ∀ i < n, ∀ s, I i s → ∃ t, step s = some t ∧ I (i + 1) t)
    {s : σ} (init : I 0 s) : ∃ t, repeatM step n s = some t ∧ I n t := by
  induction n generalizing I s with
  | zero => exact ⟨s, rfl, init⟩
  | succ n ih =>
      obtain ⟨s', hs', inv'⟩ := keep 0 (Nat.succ_pos n) s init
      obtain ⟨t, ht, inv⟩ := ih (I := fun i => I (i + 1))
        (fun i hi => keep (i + 1) (by omega)) inv'
      exact ⟨t, Option.bind_eq_some_iff.mpr ⟨s', hs', ht⟩, inv⟩

end RepeatM

end Loops
