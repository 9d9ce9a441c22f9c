import Mathlib.Data.List.Induction
import Mathlib.Order.Bounds.Basic
import Mathlib.Tactic.Common

/-!
Registers whose writers either replace the value or join something to it.

A sequence of writes is last-writer-wins if its result is what the last writer gave. Replacing
always is. Joining is exactly when the last value lies above everything since the last
replacement.
-/

namespace LastWriter

/-- What one operation does to the register. -/
inductive Effect (β : Type*) where
  | keep
  | replace (b : β)
  | join (b : β)

section
variable {α β σ : Type*} (effect : α → Effect β)

def Effect.value : Effect β → Option β
  | .keep => none
  | .replace b => some b
  | .join b => some b

def Effect.map {γ : Type*} (f : β → γ) : Effect β → Effect γ
  | .keep => .keep
  | .replace b => .replace (f b)
  | .join b => .join (f b)

theorem Effect.value_map {γ : Type*} (f : β → γ) (e : Effect β) :
    (e.map f).value = e.value.map f := by
  cases e <;> rfl

/-- The value of the last operation that has one. -/
def lastWrite (init : β) (as : List α) : β :=
  (as.filterMap fun a => (effect a).value).getLast?.getD init

theorem lastWrite_append_singleton (init : β) (as : List α) (a : α) :
    lastWrite effect init (as ++ [a]) = (effect a).value.getD (lastWrite effect init as) := by
  rw [lastWrite, List.filterMap_append]
  cases h : effect a <;> simp [lastWrite, Effect.value, h]

theorem lastWrite_map {γ : Type*} (f : β → γ) (init : β) (as : List α) :
    lastWrite (fun a => (effect a).map f) (f init) as = f (lastWrite effect init as) := by
  induction as using List.reverseRecOn with
  | nil => rfl
  | append_singleton as a ih =>
      rw [lastWrite_append_singleton, lastWrite_append_singleton, ih, Effect.value_map]
      cases (effect a).value <;> rfl

def Effect.collect (bs : Set β) : Effect β → Set β
  | .keep => bs
  | .replace b => {b}
  | .join b => insert b bs

/-- The last replacement, or the initial value, and all that was joined since. -/
def since (init : β) (as : List α) : Set β :=
  as.foldl (fun bs a => (effect a).collect bs) {init}

theorem since_append_singleton (init : β) (as : List α) (a : α) :
    since effect init (as ++ [a]) = (effect a).collect (since effect init as) := by
  rw [since, List.foldl_append]
  rfl

theorem Effect.collect_map {γ : Type*} (f : β → γ) (bs : Set β) (e : Effect β) :
    (e.map f).collect (f '' bs) = f '' e.collect bs := by
  cases e with
  | keep => rfl
  | replace b => exact Set.image_singleton.symm
  | join b => exact (Set.image_insert_eq ..).symm

theorem since_map {γ : Type*} (f : β → γ) (init : β) (as : List α) :
    since (fun a => (effect a).map f) (f init) as = f '' since effect init as := by
  induction as using List.reverseRecOn with
  | nil => exact Set.image_singleton.symm
  | append_singleton as a ih =>
      rw [since_append_singleton, since_append_singleton, ih, Effect.collect_map]

theorem lastWrite_mem_since (init : β) (as : List α) :
    lastWrite effect init as ∈ since effect init as := by
  induction as using List.reverseRecOn with
  | nil => exact Set.mem_singleton init
  | append_singleton as a ih =>
      rw [since_append_singleton, lastWrite_append_singleton]
      cases effect a with
      | keep => exact ih
      | replace b => exact Set.mem_singleton b
      | join b => exact Set.mem_insert b _

variable {effect}

/-- Without replacements everything joined counts. -/
theorem mem_since_of_not_replace {init : β} {as : List α}
    (hjoin : ∀ a ∈ as, ∀ b, effect a ≠ .replace b) {b : β} :
    b ∈ since effect init as ↔ b = init ∨ ∃ a ∈ as, (effect a).value = some b := by
  induction as using List.reverseRecOn with
  | nil => simp [since]
  | append_singleton as a ih =>
      have ih := ih fun a' ha' => hjoin a' (List.mem_append_left [a] ha')
      have ha := hjoin a (List.mem_append_right as List.mem_cons_self)
      rw [since_append_singleton]
      simp only [List.mem_append, List.mem_singleton, or_and_right, exists_or, exists_eq_left]
      cases h : effect a with
      | keep => simp [Effect.collect, Effect.value, ih]
      | replace b' => exact absurd h (ha b')
      | join b' =>
          rw [Effect.collect, Set.mem_insert_iff, ih, Effect.value, Option.some_inj, @eq_comm _ b']
          exact or_left_comm.trans (or_congr_right or_comm)

/-- A view that each step sets to the operation's value, if there is one. -/
theorem foldl_eq_lastWrite {step : σ → α → σ} (get : σ → β)
    (hstep : ∀ s a, get (step s a) = (effect a).value.getD (get s)) (s : σ) (as : List α) :
    get (as.foldl step s) = lastWrite effect (get s) as := by
  induction as using List.reverseRecOn with
  | nil => rfl
  | append_singleton as a ih =>
      rw [List.foldl_append, List.foldl_cons, List.foldl_nil, hstep, ih,
        lastWrite_append_singleton]

/-- Operations that change nothing can be left out. -/
theorem foldl_filter_of_idle {step : σ → α → σ} {p : α → Bool}
    (hidle : ∀ s a, p a = false → step s a = s) (s : σ) (as : List α) :
    (as.filter p).foldl step s = as.foldl step s := by
  induction as generalizing s with
  | nil => rfl
  | cons a as ih =>
      cases hp : p a with
      | true => rw [List.filter_cons_of_pos hp, List.foldl_cons, List.foldl_cons, ih]
      | false =>
          rw [List.filter_cons_of_neg (by simp [hp]), List.foldl_cons, hidle s a hp, ih]

end

section
variable {α β σ : Type*} [SemilatticeSup β] (effect : α → Effect β)

def Effect.apply (b : β) : Effect β → β
  | .keep => b
  | .replace b' => b'
  | .join b' => b' ⊔ b

/-- The register behind the operations. -/
def joined (init : β) (as : List α) : β := as.foldl (fun b a => (effect a).apply b) init

theorem joined_append_singleton (init : β) (as : List α) (a : α) :
    joined effect init (as ++ [a]) = (effect a).apply (joined effect init as) := by
  rw [joined, List.foldl_append]
  rfl

theorem isLUB_since (init : β) (as : List α) :
    IsLUB (since effect init as) (joined effect init as) := by
  induction as using List.reverseRecOn with
  | nil => exact isLUB_singleton
  | append_singleton as a ih =>
      rw [since_append_singleton, joined_append_singleton]
      cases effect a with
      | keep => exact ih
      | replace b => exact isLUB_singleton
      | join b => exact ih.insert b

/-- The register ends with one of the values just if that one lies above the others. -/
theorem joined_eq_iff {init : β} {as : List α} {b : β} (hb : b ∈ since effect init as) :
    joined effect init as = b ↔ ∀ b' ∈ since effect init as, b' ≤ b := by
  have hlub := isLUB_since effect init as
  constructor
  · rintro rfl
    exact hlub.1
  · intro hle
    exact le_antisymm (hlub.2 hle) (hlub.1 hb)

theorem joined_eq_lastWrite_iff (init : β) (as : List α) :
    joined effect init as = lastWrite effect init as ↔
      ∀ b ∈ since effect init as, b ≤ lastWrite effect init as :=
  joined_eq_iff effect (lastWrite_mem_since effect init as)

variable {effect}

theorem foldl_eq_joined {step : σ → α → σ} (get : σ → β)
    (hstep : ∀ s a, get (step s a) = (effect a).apply (get s)) (s : σ) (as : List α) :
    get (as.foldl step s) = joined effect (get s) as :=
  (List.foldl_hom get fun s a => (hstep s a).symm).symm

end

end LastWriter
