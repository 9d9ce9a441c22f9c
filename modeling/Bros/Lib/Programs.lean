import Mathlib.Tactic.Common

/-!
Programs with a state that may stop for good.

`EStateM ε σ` keeps the state of a program that stops. A sequence returns exactly when
both of its parts do, the second from the state the first leaves. `Emits` describes a
program by what it adds to a trace of its state; one that stops has added an initial part.
-/

namespace Programs

variable {ε σ α β : Type} {x : EStateM ε σ α} {f : α → EStateM ε σ β} {s s' : σ}

theorem run_bind_ok {t : σ} {b : β} :
    (x >>= f).run s = .ok b t ↔ ∃ a s', x.run s = .ok a s' ∧ (f a).run s' = .ok b t := by
  rw [EStateM.run_bind]
  cases h : x.run s with
  | ok a s' => simp
  | error e s' => simp

theorem run_bind_of_ok {a : α} (h : x.run s = .ok a s') :
    (x >>= f).run s = (f a).run s' := by
  rw [EStateM.run_bind, h]

theorem run_bind_of_error {e : ε} (h : x.run s = .error e s') :
    (x >>= f).run s = .error e s' := by
  rw [EStateM.run_bind, h]

/-- The state a program leaves, whether it returns or stops. -/
def finalState : EStateM.Result ε σ α → σ
  | .ok _ t => t
  | .error _ t => t

variable {τ : Type} {trace : σ → List τ} {ts us : List τ}

/-- From `s` the program adds `ts` to the trace. -/
def Emits (trace : σ → List τ) (s : σ) (x : EStateM ε σ α) (ts : List τ) : Prop :=
  match x.run s with
  | .ok _ t => trace t = trace s ++ ts
  | .error _ t => ∃ us, us <+: ts ∧ trace t = trace s ++ us

theorem Emits.ok (h : Emits trace s x ts) {a : α} (hrun : x.run s = .ok a s') :
    trace s' = trace s ++ ts := by
  rwa [Emits, hrun] at h

theorem Emits.error (h : Emits trace s x ts) {e : ε} (hrun : x.run s = .error e s') :
    ∃ us, us <+: ts ∧ trace s' = trace s ++ us := by
  rwa [Emits, hrun] at h

theorem emits_of_ok {a : α} (hrun : x.run s = .ok a s') (h : trace s' = trace s ++ ts) :
    Emits trace s x ts := by
  rwa [Emits, hrun]

theorem emits_pure (a : α) : Emits trace s (pure a : EStateM ε σ α) [] :=
  emits_of_ok rfl (List.append_nil _).symm

theorem emits_get : Emits trace s (get : EStateM ε σ σ) [] :=
  emits_of_ok rfl (List.append_nil _).symm

theorem emits_throw (e : ε) : Emits trace s (throw e : EStateM ε σ α) ts :=
  ⟨[], List.nil_prefix, (List.append_nil _).symm⟩

/-- A program that continues as another one from a state with the same trace. -/
theorem Emits.of_run {y : EStateM ε σ α} (h : Emits trace s' y ts) (hrun : x.run s = y.run s')
    (htrace : trace s' = trace s) : Emits trace s x ts := by
  rwa [Emits, hrun, ← htrace]

theorem Emits.bind_of_ok (hx : Emits trace s x ts) {a : α} (hrun : x.run s = .ok a s')
    (hf : Emits trace s' (f a) us) : Emits trace s (x >>= f) (ts ++ us) := by
  rw [Emits, run_bind_of_ok hrun]
  rw [Emits, hx.ok hrun] at hf
  split
  · next hok =>
      rw [hok] at hf
      rw [hf, List.append_assoc]
  · next herror =>
      rw [herror] at hf
      obtain ⟨vs, hvs, ht⟩ := hf
      refine ⟨ts ++ vs, (List.prefix_append_right_inj ts).mpr hvs, ?_⟩
      rw [ht, List.append_assoc]

/-- What stops in its first part has added an initial part of anything longer. -/
theorem Emits.bind_of_error (hx : Emits trace s x ts) {e : ε} (hrun : x.run s = .error e s')
    (hts : ts <+: us) : Emits trace s (x >>= f) us := by
  obtain ⟨vs, hvs, ht⟩ := hx.error hrun
  rw [Emits, run_bind_of_error hrun]
  exact ⟨vs, hvs.trans hts, ht⟩

theorem Emits.bind (hx : Emits trace s x ts)
    (hf : ∀ a t, x.run s = .ok a t → Emits trace t (f a) us) :
    Emits trace s (x >>= f) (ts ++ us) := by
  cases hrun : x.run s with
  | ok a s' => exact hx.bind_of_ok hrun (hf a s' hrun)
  | error e s' => exact hx.bind_of_error hrun (List.prefix_append ts us)

theorem Emits.bind_quiet (hx : Emits trace s x ts)
    (hf : ∀ a t, x.run s = .ok a t → Emits trace t (f a) []) : Emits trace s (x >>= f) ts :=
  List.append_nil ts ▸ hx.bind hf

/-- A program that adds nothing before one that adds `ts`. -/
theorem Emits.quiet_bind (hx : Emits trace s x [])
    (hf : ∀ a t, x.run s = .ok a t → Emits trace t (f a) us) : Emits trace s (x >>= f) us :=
  hx.bind hf

theorem emits_forM {ι : Type} {g : ι → EStateM ε σ PUnit} {h : ι → List τ}
    (hg : ∀ i s, Emits trace s (g i) (h i)) (l : List ι) :
    Emits trace s (l.forM g) (l.flatMap h) := by
  induction l generalizing s with
  | nil => exact emits_pure PUnit.unit
  | cons i l ih => exact (hg i s).bind fun _ _ _ => ih

end Programs
