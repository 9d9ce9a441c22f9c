import Mathlib.Data.Set.Lattice
import Mathlib.Order.CompletePartialOrder
import Mathlib.Data.List.Basic
import Mathlib.Tactic.Common

/-!
Ownership of the points of a resource by named blocks.

`region` says which points a block descriptor stands for. `Owned` states that the
live blocks and the reserved part are used and that no point has two owners. Taking
unused points keeps it, and so does giving one whole block back.
-/

namespace Ownership

variable {α δ : Type*} (region : δ → Set α)

structure Owned (used reserved : Set α) (live : List δ) : Prop where
  reserved_used : reserved ⊆ used
  live_used : ∀ b ∈ live, region b ⊆ used
  live_disjoint : live.Pairwise fun a b => Disjoint (region a) (region b)
  live_reserved : ∀ b ∈ live, Disjoint (region b) reserved

variable {region} {used reserved : Set α} {live : List δ}

theorem Owned.init : Owned region used used [] :=
  ⟨subset_rfl, by simp, .nil, by simp⟩

/-- A block of unused points joins the live ones. -/
theorem Owned.take (h : Owned region used reserved live) {b : δ}
    (free : Disjoint (region b) used) :
    Owned region (used ∪ region b) reserved (b :: live) where
  reserved_used := h.reserved_used.trans Set.subset_union_left
  live_used := by
    intro c hc
    cases List.mem_cons.mp hc with
    | inl heq =>
        subst heq
        exact Set.subset_union_right
    | inr hc => exact (h.live_used c hc).trans Set.subset_union_left
  live_disjoint :=
    List.pairwise_cons.mpr ⟨fun c hc => free.mono_right (h.live_used c hc), h.live_disjoint⟩
  live_reserved := by
    intro c hc
    cases List.mem_cons.mp hc with
    | inl heq =>
        subst heq
        exact free.mono_right h.reserved_used
    | inr hc => exact h.live_reserved c hc

theorem Owned.disjoint_erase [DecidableEq δ] (h : Owned region used reserved live) {b c : δ}
    (hb : b ∈ live) (hc : c ∈ live.erase b) : Disjoint (region b) (region c) := by
  have perm := List.perm_cons_erase hb
  have hp := (perm.pairwise_iff (fun {x y} (hxy : Disjoint (region x) (region y)) =>
    hxy.symm)).mp h.live_disjoint
  exact (List.pairwise_cons.mp hp).1 c hc

/-- A live block is given back whole. -/
theorem Owned.release [DecidableEq δ] (h : Owned region used reserved live) {b : δ}
    (hb : b ∈ live) : Owned region (used \ region b) reserved (live.erase b) where
  reserved_used := by
    intro x hx
    refine ⟨h.reserved_used hx, ?_⟩
    intro hxb
    exact Set.disjoint_left.mp (h.live_reserved b hb) hxb hx
  live_used := by
    intro c hc x hx
    refine ⟨h.live_used c (List.mem_of_mem_erase hc) hx, ?_⟩
    intro hxb
    exact Set.disjoint_left.mp (h.disjoint_erase hb hc) hxb hx
  live_disjoint := h.live_disjoint.sublist List.erase_sublist
  live_reserved := fun c hc => h.live_reserved c (List.mem_of_mem_erase hc)

end Ownership
