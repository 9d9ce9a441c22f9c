import Mathlib.Data.Nat.Count
import Mathlib.Tactic.Common

/-!
First hits of bounded searches.

A loop that scans `0, 1, ..., n - 1` and leaves at the first index that decides the
search is `(List.range n).findSome? f`. Two nested loops of that shape are one loop
over the index pairs in order.
-/

namespace Search

variable {β : Type*}

theorem findSome?_range_eq_none {f : Nat → Option β} {n : Nat} :
    (List.range n).findSome? f = none ↔ ∀ j < n, f j = none := by
  simp only [List.findSome?_eq_none_iff, List.mem_range]

theorem findSome?_range_eq_some {f : Nat → Option β} {n : Nat} {b : β} :
    (List.range n).findSome? f = some b ↔
      ∃ i < n, f i = some b ∧ ∀ j < i, f j = none := by
  induction n with
  | zero => simp
  | succ n ih =>
      rw [List.range_succ, List.findSome?_append, Option.or_eq_some_iff, ih,
        findSome?_range_eq_none, List.findSome?_singleton]
      constructor
      · intro hfound
        cases hfound with
        | inl hbefore =>
            obtain ⟨i, hi, h⟩ := hbefore
            exact ⟨i, by omega, h⟩
        | inr hat =>
            obtain ⟨hnone, hlast⟩ := hat
            exact ⟨n, by omega, hlast, hnone⟩
      · intro hfirst
        obtain ⟨i, hi, hfi, hbefore⟩ := hfirst
        by_cases hin : i < n
        · exact Or.inl ⟨i, hin, hfi, hbefore⟩
        · have hi' : i = n := by omega
          subst hi'
          exact Or.inr ⟨hbefore, hfi⟩

theorem findSome?_congr {α : Type*} {f g : α → Option β} {l : List α}
    (h : ∀ a ∈ l, f a = g a) : l.findSome? f = l.findSome? g := by
  induction l with
  | nil => rfl
  | cons a l ih =>
      rw [List.findSome?_cons, List.findSome?_cons, h a List.mem_cons_self,
        ih fun b hb => h b (List.mem_cons_of_mem a hb)]

private theorem cell {i j k : Nat} (hj : j < k) : (i * k + j) / k = i ∧ (i * k + j) % k = j :=
  (Nat.div_mod_unique (by omega)).mpr ⟨by rw [Nat.mul_comm, Nat.add_comm], hj⟩

/-- A search over `m` rows of `k` columns is a search over the `m * k` cells in order. -/
theorem findSome?_range_nested (f : Nat → Nat → Option β) (m k : Nat) :
    ((List.range m).findSome? fun i => (List.range k).findSome? fun j => f i j) =
      (List.range (m * k)).findSome? fun p => f (p / k) (p % k) := by
  induction m with
  | zero => simp
  | succ m ih =>
      have row : ((List.range k).map (m * k + ·)).findSome? (fun p => f (p / k) (p % k)) =
          (List.range k).findSome? fun j => f m j := by
        rw [List.findSome?_map]
        apply findSome?_congr
        intro j hj
        obtain ⟨hdiv, hmod⟩ := cell (i := m) (List.mem_range.mp hj)
        simp only [Function.comp, hdiv, hmod]
      rw [List.range_succ, List.findSome?_append, ih, Nat.succ_mul, List.range_add,
        List.findSome?_append, row, List.findSome?_singleton]

/-! ### What a search does on its way -/

section
variable {γ : Type*}

/-- The events of a search through a list that does `ev a` at `a`, up to its first hit. -/
def trace {α : Type*} (f : α → Option β) (ev : α → List γ) : List α → List γ
  | [] => []
  | a :: as => ev a ++ if (f a).isSome then [] else trace f ev as

theorem trace_append {α : Type*} (f : α → Option β) (ev : α → List γ) (as bs : List α) :
    trace f ev (as ++ bs) =
      trace f ev as ++ if (as.findSome? f).isSome then [] else trace f ev bs := by
  induction as with
  | nil => rfl
  | cons a as ih =>
      rw [List.cons_append, trace, trace, List.findSome?_cons]
      cases h : f a with
      | none => simp [ih]
      | some b => simp

theorem mem_trace_range {f : Nat → Option β} {ev : Nat → List γ} {n : Nat} {e : γ} :
    e ∈ trace f ev (List.range n) ↔ ∃ i < n, (∀ j < i, f j = none) ∧ e ∈ ev i := by
  induction n with
  | zero => simp [trace]
  | succ n ih =>
      have hlast : e ∈ (if ((List.range n).findSome? f).isSome then [] else trace f ev [n]) ↔
          (∀ j < n, f j = none) ∧ e ∈ ev n := by
        rw [← findSome?_range_eq_none]
        cases (List.range n).findSome? f with
        | none => simp [trace]
        | some b => simp
      rw [List.range_succ, trace_append, List.mem_append, ih, hlast]
      constructor
      · rintro (⟨i, hi, h⟩ | h)
        · exact ⟨i, by omega, h⟩
        · exact ⟨n, by omega, h⟩
      · rintro ⟨i, hi, h⟩
        by_cases hin : i < n
        · exact .inl ⟨i, hin, h⟩
        · obtain rfl : i = n := by omega
          exact .inr h

/-- Rows and columns: the events are those of the cells in order. -/
theorem mem_trace_range_nested {f : Nat → Nat → Option β} {ev : Nat → Nat → List γ} {m k : Nat}
    {e : γ} :
    e ∈ trace (fun i => (List.range k).findSome? (f i))
        (fun i => trace (f i) (ev i) (List.range k)) (List.range m) ↔
      ∃ p < m * k, (∀ q < p, f (q / k) (q % k) = none) ∧ e ∈ ev (p / k) (p % k) := by
  rw [mem_trace_range]
  simp only [findSome?_range_eq_none, mem_trace_range]
  constructor
  · rintro ⟨i, hi, hrows, j, hj, hcols, he⟩
    obtain ⟨hdiv, hmod⟩ := cell (i := i) hj
    have hcell : i * k + j < m * k := by
      have := Nat.mul_le_mul_right k hi
      rw [Nat.succ_mul] at this
      omega
    refine ⟨i * k + j, hcell, ?_, by rwa [hdiv, hmod]⟩
    intro q hq
    have hmodq : q % k < k := Nat.mod_lt _ (by omega)
    have hrow : q / k ≤ i := by
      rw [← hdiv]
      exact Nat.div_le_div_right hq.le
    obtain hlt | heq := Nat.lt_or_eq_of_le hrow
    · exact hrows _ hlt _ hmodq
    · have hdecomp := Nat.div_add_mod q k
      rw [heq, Nat.mul_comm] at hdecomp
      rw [heq]
      exact hcols _ (by omega)
  · rintro ⟨p, hp, hbefore, he⟩
    have hk : 0 < k := by
      rcases Nat.eq_zero_or_pos k with rfl | hk
      · omega
      · exact hk
    have hdecomp := Nat.div_add_mod' p k
    have hmod : p % k < k := Nat.mod_lt p hk
    have hnone {i j : Nat} (hj : j < k) (hcell : i * k + j < p) : f i j = none := by
      have h := hbefore _ hcell
      rwa [(cell hj).1, (cell hj).2] at h
    refine ⟨p / k, (Nat.div_lt_iff_lt_mul hk).mpr hp, ?_, p % k, hmod, ?_, he⟩
    · intro i hi j hj
      have hnext := Nat.mul_le_mul_right k hi
      rw [Nat.succ_mul] at hnext
      exact hnone hj (by omega)
    · intro j hj
      exact hnone (by omega) (by omega)

end

end Search
