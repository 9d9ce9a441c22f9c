import Mathlib.Algebra.Group.Nat.Defs
import Mathlib.Tactic.Common

/-!
Circular buffers with one empty slot.

`contents` reads the cells from the tail up to the head, around the end of the buffer.
Pushing writes the head's cell and advances the head, popping reads the tail's cell and
advances the tail; a buffer of `cap` cells holds at most `cap - 1` elements.
-/

namespace Ring

variable {β : Type*} {cap head tail : Nat}

def next (cap i : Nat) : Nat := (i + 1) % cap

/-- The number of cells from the tail up to the head. -/
def count (cap head tail : Nat) : Nat := (head + (cap - tail)) % cap

def contents (cap : Nat) (cell : Nat → β) (head tail : Nat) : List β :=
  (List.range (count cap head tail)).map fun i => cell ((tail + i) % cap)

theorem next_lt (hcap : 0 < cap) (i : Nat) : next cap i < cap := Nat.mod_lt _ hcap

/-- `count` without the modulus. -/
theorem count_eq (hhead : head < cap) (htail : tail < cap) :
    count cap head tail = if tail ≤ head then head - tail else head + cap - tail := by
  rw [count]
  split
  · next h =>
      rw [show head + (cap - tail) = head - tail + cap by omega, Nat.add_mod_right,
        Nat.mod_eq_of_lt (by omega)]
  · next h =>
      rw [Nat.mod_eq_of_lt (by omega)]
      omega

theorem next_eq (hi : head < cap) :
    next cap head = if head + 1 = cap then 0 else head + 1 := by
  rw [next]
  split
  · next h => rw [h, Nat.mod_self]
  · next h => exact Nat.mod_eq_of_lt (by omega)

theorem count_lt (hhead : head < cap) : count cap head tail < cap :=
  Nat.mod_lt _ (by omega)

@[simp] theorem length_contents (cell : Nat → β) :
    (contents cap cell head tail).length = count cap head tail := by
  rw [contents, List.length_map, List.length_range]

theorem contents_eq_nil_iff (cell : Nat → β) (hhead : head < cap) (htail : tail < cap) :
    contents cap cell head tail = [] ↔ head = tail := by
  rw [← List.length_eq_zero_iff, length_contents, count_eq hhead htail]
  split <;> omega

/-- The buffer is full when one slot is left. -/
theorem next_eq_tail_iff (hhead : head < cap) (htail : tail < cap) :
    next cap head = tail ↔ count cap head tail + 1 = cap := by
  rw [next_eq hhead, count_eq hhead htail]
  split <;> split <;> omega

theorem count_next_head (hhead : head < cap) (htail : tail < cap)
    (hroom : next cap head ≠ tail) :
    count cap (next cap head) tail = count cap head tail + 1 := by
  rw [next_eq hhead] at hroom ⊢
  by_cases hwrap : head + 1 = cap
  · rw [if_pos hwrap] at hroom ⊢
    rw [count_eq (Nat.zero_lt_of_lt htail) htail, count_eq hhead htail]
    split <;> split <;> omega
  · rw [if_neg hwrap] at hroom ⊢
    rw [count_eq (by omega) htail, count_eq hhead htail]
    split <;> split <;> omega

theorem count_next_tail (hhead : head < cap) (htail : tail < cap) (hne : head ≠ tail) :
    count cap head tail = count cap head (next cap tail) + 1 := by
  have hnext := next_lt (Nat.zero_lt_of_lt htail) tail
  rw [count_eq hhead hnext, count_eq hhead htail, next_eq htail]
  split <;> split <;> split <;> omega

/-- The cell after the last element is the head's. -/
theorem tail_add_count (hhead : head < cap) (htail : tail < cap) :
    (tail + count cap head tail) % cap = head := by
  rw [count_eq hhead htail]
  split
  · next h => rw [Nat.add_sub_cancel' h, Nat.mod_eq_of_lt hhead]
  · next h =>
      rw [show tail + (head + cap - tail) = head + cap by omega, Nat.add_mod_right,
        Nat.mod_eq_of_lt hhead]

/-- The head's cell holds no element. -/
theorem index_ne_head (hhead : head < cap) (htail : tail < cap) {i : Nat}
    (hi : i < count cap head tail) : (tail + i) % cap ≠ head := by
  have hlt : count cap head tail < cap := count_lt hhead
  rw [count_eq hhead htail] at hi hlt
  by_cases hwrap : tail + i < cap
  · rw [Nat.mod_eq_of_lt hwrap]
    split at hi <;> omega
  · rw [Nat.mod_eq_sub_mod (by omega), Nat.mod_eq_of_lt (by omega)]
    split at hi <;> omega

/-- A push appends at the end. -/
theorem contents_push {cell cell' : Nat → β} {x : β} (hhead : head < cap) (htail : tail < cap)
    (hroom : next cap head ≠ tail) (hnew : cell' head = x)
    (hold : ∀ j, j ≠ head → cell' j = cell j) :
    contents cap cell' (next cap head) tail = contents cap cell head tail ++ [x] := by
  rw [contents, count_next_head hhead htail hroom, List.range_succ, List.map_append,
    List.map_singleton, tail_add_count hhead htail, hnew, contents]
  congr 1
  apply List.map_congr_left
  intro i hi
  exact hold _ (index_ne_head hhead htail (List.mem_range.mp hi))

/-- A pop takes the element in the tail's cell off the front. -/
theorem contents_pop (cell : Nat → β) (hhead : head < cap) (htail : tail < cap)
    (hne : head ≠ tail) :
    contents cap cell head tail = cell tail :: contents cap cell head (next cap tail) := by
  rw [contents, count_next_tail hhead htail hne, List.range_succ_eq_map, List.map_cons,
    List.map_map, Nat.add_zero, Nat.mod_eq_of_lt htail, contents]
  congr 2
  funext i
  rw [Function.comp, next, Nat.mod_add_mod, Nat.add_right_comm, Nat.add_assoc]

end Ring
