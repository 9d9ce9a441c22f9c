import Mathlib.Algebra.Group.Nat.Defs
import Mathlib.Logic.Function.Iterate
import Mathlib.Tactic.Common

/-!
Bounded polling of a status register.

`ready p` is what reading number `p` says. A loop takes readings until one is ready, `n`
at most; the next loop goes on with the reading after its last.
-/

namespace Polling

variable {ready : Nat → Bool} {n p : Nat}

/-- The number of the first reading the loop has not taken. -/
def pollEnd (ready : Nat → Bool) : Nat → Nat → Nat
  | 0, p => p
  | n + 1, p => if ready p then p + 1 else pollEnd ready n (p + 1)

/-- Whether the loop meets a ready reading. -/
def pollReady (ready : Nat → Bool) : Nat → Nat → Bool
  | 0, _ => false
  | n + 1, p => ready p || pollReady ready n (p + 1)

/-- Where loop number `k` of a row of loops starts. -/
def pollAt (ready : Nat → Bool) (n p k : Nat) : Nat := (pollEnd ready n)^[k] p

theorem pollReady_eq_false_iff : pollReady ready n p = false ↔ ∀ i < n, ready (p + i) = false := by
  induction n generalizing p with
  | zero => simp [pollReady]
  | succ n ih =>
      rw [pollReady, Bool.or_eq_false_iff, ih]
      constructor
      · intro hbusy i hi
        obtain ⟨hfirst, hrest⟩ := hbusy
        cases i with
        | zero => exact hfirst
        | succ i =>
            have := hrest i (by omega)
            rwa [Nat.add_assoc, Nat.add_comm 1] at this
      · intro hbusy
        refine ⟨hbusy 0 (Nat.succ_pos n), fun i hi => ?_⟩
        rw [Nat.add_assoc, Nat.add_comm 1]
        exact hbusy (i + 1) (by omega)

theorem pollReady_of_ready (h : ready p = true) (hn : 0 < n) : pollReady ready n p = true := by
  cases n with
  | zero => exact absurd hn (Nat.lt_irrefl 0)
  | succ n => rw [pollReady, h, Bool.true_or]

/-- A loop that gives up has taken all its readings. -/
theorem pollEnd_of_busy (h : pollReady ready n p = false) : pollEnd ready n p = p + n := by
  induction n generalizing p with
  | zero => rfl
  | succ n ih =>
      rw [pollReady, Bool.or_eq_false_iff] at h
      rw [pollEnd, h.1, ih h.2]
      simp only [Bool.false_eq_true, if_false]
      omega

@[simp] theorem pollAt_zero : pollAt ready n p 0 = p := rfl

theorem pollAt_succ (k : Nat) : pollAt ready n p (k + 1) = pollAt ready n (pollEnd ready n p) k :=
  rfl

theorem pollAt_add (k l : Nat) :
    pollAt ready n (pollAt ready n p k) l = pollAt ready n p (k + l) := by
  rw [Nat.add_comm]
  exact (Function.iterate_add_apply _ _ _ _).symm

/-- `m` loops in a row all give up exactly when all `n * m` readings are busy. -/
theorem all_busy_iff (ready : Nat → Bool) (n p m : Nat) :
    (∀ j < m, pollReady ready n (pollAt ready n p j) = false) ↔
      ∀ i < n * m, ready (p + i) = false := by
  induction m generalizing p with
  | zero => simp
  | succ m ih =>
      constructor
      · intro hbusy i hi
        have hfirst := hbusy 0 (Nat.succ_pos m)
        rw [pollAt_zero] at hfirst
        by_cases hin : i < n
        · exact pollReady_eq_false_iff.mp hfirst i hin
        · have hrest := (ih _).mp fun j hj => hbusy (j + 1) (by omega)
          rw [pollEnd_of_busy hfirst] at hrest
          have := hrest (i - n) (by rw [Nat.mul_succ] at hi; omega)
          rwa [show p + n + (i - n) = p + i by omega] at this
      · intro hbusy
        rw [Nat.mul_succ] at hbusy
        have hfirst : pollReady ready n p = false :=
          pollReady_eq_false_iff.mpr fun i hi => hbusy i (by omega)
        intro j hj
        cases j with
        | zero => exact hfirst
        | succ j =>
            refine (ih _).mpr (fun i hi => ?_) j (by omega)
            rw [pollEnd_of_busy hfirst, Nat.add_assoc]
            exact hbusy (n + i) (by omega)

end Polling
