import Mathlib.Tactic.Common

/-!
Typing on an unbounded page of fixed width, and the window of its last rows.

`none` stands for a new line. The window of `h` rows follows the cursor down: it starts
as many rows below the top as the cursor has gone past row `h - 1`.
-/

namespace TextPage

variable {α : Type*}

structure Page (α : Type*) where
  cells : Nat → Nat → α
  row : Nat
  col : Nat

def Page.write (p : Page α) (a : α) : Page α :=
  { p with cells := fun r c => if r = p.row ∧ c = p.col then a else p.cells r c }

def Page.newline (p : Page α) : Page α := { p with row := p.row + 1, col := 0 }

/-- Advance by one cell, to the next row after the last column. -/
def Page.advance (w : Nat) (p : Page α) : Page α :=
  if p.col + 1 < w then { p with col := p.col + 1 } else p.newline

def Page.typeChar (w : Nat) (p : Page α) : Option α → Page α
  | some a => (p.write a).advance w
  | none => p.newline

def Page.type (w : Nat) (p : Page α) (text : List (Option α)) : Page α :=
  text.foldl (Page.typeChar w) p

/-- The rows above the window of the last `h`. -/
def Page.offset (h : Nat) (p : Page α) : Nat := p.row - (h - 1)

/-- The cursor is on the page, and no row that was below the first window and is below
the cursor has been written. -/
structure Page.Fresh (w h : Nat) (blank : α) (p : Page α) : Prop where
  col_lt : p.col < w
  below : ∀ r, h ≤ r → p.row < r → ∀ c, p.cells r c = blank

variable {w h : Nat} {blank : α} {p : Page α}

@[simp] theorem Page.write_col (p : Page α) (a : α) : (p.write a).col = p.col := rfl

@[simp] theorem Page.newline_row (p : Page α) : p.newline.row = p.row + 1 := rfl

@[simp] theorem Page.write_offset (h : Nat) (p : Page α) (a : α) :
    (p.write a).offset h = p.offset h := rfl

theorem Page.Fresh.write (fresh : p.Fresh w h blank) (a : α) : (p.write a).Fresh w h blank := by
  refine ⟨fresh.col_lt, ?_⟩
  intro r hr hrow c
  have hne : ¬ (r = p.row ∧ c = p.col) := by
    intro hhere
    obtain ⟨rfl, -⟩ := hhere
    exact Nat.lt_irrefl _ hrow
  exact (if_neg hne).trans (fresh.below r hr hrow c)

theorem Page.Fresh.newline (fresh : p.Fresh w h blank) (hw : 0 < w) :
    p.newline.Fresh w h blank :=
  ⟨hw, fun r hr hrow c => fresh.below r hr (Nat.lt_of_succ_lt hrow) c⟩

theorem Page.Fresh.next_row (fresh : p.Fresh w h blank) (hrow : h ≤ p.row + 1) (c : Nat) :
    p.cells (p.row + 1) c = blank :=
  fresh.below (p.row + 1) hrow (Nat.lt_succ_self _) c

end TextPage
