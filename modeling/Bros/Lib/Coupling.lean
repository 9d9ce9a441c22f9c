import Bros.Lib.Programs
import Bros.Lib.Runs

/-!
Programs together with the machine they talk to.

A program leaves a trace of what it said to its environment and of what it was shown.
The environment is a machine that takes part in some events only. `Meets` speaks of the
runs whose trace the machine takes part in; in them the program has to return.
-/

namespace Coupling
open Programs Runs

variable {ε σ τ ω α β : Type}

/-- From every state the program only adds to the trace. -/
class Appends (trace : σ → List τ) (x : EStateM ε σ α) : Prop where
  appends : ∀ s, ∃ ts, trace (finalState (x.run s)) = trace s ++ ts

/-- When the environment, in state `w`, takes part in all that the program does from `s`, the
program returns with a result and two states that meet `Q`. -/
def Meets (trace : σ → List τ) (step : ω → τ → Option ω) (s : σ) (w : ω) (x : EStateM ε σ α)
    (Q : α → σ → ω → Prop) : Prop :=
  ∀ ts w', trace (finalState (x.run s)) = trace s ++ ts → run step w ts = some w' →
    ∃ a t, x.run s = .ok a t ∧ Q a t w'

variable {trace : σ → List τ} {step : ω → τ → Option ω} {x : EStateM ε σ α}
  {f : α → EStateM ε σ β} {s t : σ} {w : ω} {ts : List τ}

/-! ### What is added to the trace -/

theorem appends_of_ok (h : ∀ s, ∃ a t ts, x.run s = .ok a t ∧ trace t = trace s ++ ts) :
    Appends trace x := by
  refine ⟨fun s => ?_⟩
  obtain ⟨a, t, ts, hrun, htrace⟩ := h s
  refine ⟨ts, ?_⟩
  rw [hrun]
  exact htrace

instance appends_pure (a : α) : Appends trace (pure a : EStateM ε σ α) :=
  ⟨fun _ => ⟨[], (List.append_nil _).symm⟩⟩

instance appends_get : Appends trace (get : EStateM ε σ σ) :=
  ⟨fun _ => ⟨[], (List.append_nil _).symm⟩⟩

instance appends_throw (e : ε) : Appends trace (throw e : EStateM ε σ α) :=
  ⟨fun _ => ⟨[], (List.append_nil _).symm⟩⟩

instance appends_ite {p : Prop} [Decidable p] {y : EStateM ε σ α} [hx : Appends trace x]
    [hy : Appends trace y] : Appends trace (if p then x else y) := by
  split
  · exact hx
  · exact hy

theorem Appends.bind (hx : Appends trace x) (hf : ∀ a, Appends trace (f a)) :
    Appends trace (x >>= f) := by
  refine ⟨fun s => ?_⟩
  obtain ⟨ts, hts⟩ := hx.appends s
  cases hrun : x.run s with
  | ok a t =>
      rw [hrun] at hts
      obtain ⟨us, hus⟩ := (hf a).appends t
      refine ⟨ts ++ us, ?_⟩
      rw [run_bind_of_ok hrun, hus, ← List.append_assoc]
      exact congrArg (· ++ us) hts
  | error e t =>
      rw [hrun] at hts
      refine ⟨ts, ?_⟩
      rw [run_bind_of_error hrun]
      exact hts

instance appends_bind [hx : Appends trace x] [hf : ∀ a, Appends trace (f a)] :
    Appends trace (x >>= f) := hx.bind hf

instance appends_forM {ι : Type} {g : ι → EStateM ε σ PUnit} [hg : ∀ i, Appends trace (g i)]
    (l : List ι) : Appends trace (l.forM g) := by
  induction l with
  | nil => exact appends_pure PUnit.unit
  | cons i l ih => exact (hg i).bind fun _ => ih

/-! ### What is met -/

theorem meets_of_ok {Q : α → σ → ω → Prop} {a : α} (hrun : x.run s = .ok a t)
    (htrace : trace t = trace s ++ ts) (h : ∀ w', run step w ts = some w' → Q a t w') :
    Meets trace step s w x Q := by
  intro us w' hus hw'
  rw [hrun] at hus
  rw [List.append_cancel_left (hus.symm.trans htrace)] at hw'
  exact ⟨a, t, hrun, h w' hw'⟩

/-- A program that adds nothing to the trace. -/
theorem meets_of_quiet {Q : α → σ → ω → Prop} {a : α} (hrun : x.run s = .ok a t)
    (htrace : trace t = trace s) (h : Q a t w) : Meets trace step s w x Q := by
  refine meets_of_ok hrun (htrace.trans (List.append_nil _).symm) fun w' hw' => ?_
  injection hw' with hw'
  rwa [← hw']

theorem meets_pure {Q : α → σ → ω → Prop} {a : α} (h : Q a s w) :
    Meets trace step s w (pure a : EStateM ε σ α) Q := meets_of_quiet rfl rfl h

theorem Meets.weaken {Q R : α → σ → ω → Prop} (h : Meets trace step s w x Q)
    (himp : ∀ a t w', Q a t w' → R a t w') : Meets trace step s w x R := by
  intro ts w' hts hw'
  obtain ⟨a, t, hrun, hq⟩ := h ts w' hts hw'
  exact ⟨a, t, hrun, himp a t w' hq⟩

/-- The second program goes on in the states the first one leaves. -/
theorem Meets.bind {Q : α → σ → ω → Prop} {R : β → σ → ω → Prop}
    [hxs : Appends trace x] [hfs : ∀ a, Appends trace (f a)] (hx : Meets trace step s w x Q)
    (hf : ∀ a t w', Q a t w' → Meets trace step t w' (f a) R) :
    Meets trace step s w (x >>= f) R := by
  intro ts w' hts hw'
  obtain ⟨us, hus⟩ := hxs.appends s
  cases hrun : x.run s with
  | ok a t =>
      rw [hrun] at hus
      obtain ⟨vs, hvs⟩ := (hfs a).appends t
      rw [run_bind_of_ok hrun] at hts
      have htrace : trace t = trace s ++ us := hus
      rw [hvs, htrace, List.append_assoc] at hts
      rw [← List.append_cancel_left hts] at hw'
      obtain ⟨w1, hw1, hw2⟩ := run_append_eq_some.mp hw'
      obtain ⟨a', t', hrun', hq⟩ := hx us w1 (by rw [hrun]; exact htrace) hw1
      rw [hrun] at hrun'
      injection hrun' with ha ht
      subst ha ht
      rw [run_bind_of_ok hrun]
      exact hf a t w1 hq vs w' hvs hw2
  | error e t =>
      rw [run_bind_of_error hrun] at hts
      rw [hrun] at hus
      rw [List.append_cancel_left (hts.symm.trans hus)] at hw'
      obtain ⟨a, t', hrun', -⟩ := hx us w' (by rw [hrun]; exact hus) hw'
      rw [hrun] at hrun'
      cases hrun'

theorem meets_get {Q : β → σ → ω → Prop} {f : σ → EStateM ε σ β}
    (h : Meets trace step s w (f s) Q) : Meets trace step s w (get >>= f) Q := h

theorem meets_pure_bind {Q : β → σ → ω → Prop} {a : α}
    (h : Meets trace step s w (f a) Q) : Meets trace step s w (pure a >>= f) Q := h

/-- A loop over a list, by an invariant that may speak of what is left of the list. -/
theorem meets_forM {ι : Type} {g : ι → EStateM ε σ PUnit} [∀ i, Appends trace (g i)]
    {I : List ι → σ → ω → Prop}
    (hg : ∀ i l s w, I (i :: l) s w → Meets trace step s w (g i) fun _ t w' => I l t w')
    (l : List ι) (h : I l s w) :
    Meets trace step s w (l.forM g) fun _ t w' => I [] t w' := by
  induction l generalizing s w with
  | nil => exact meets_pure h
  | cons i l ih =>
      exact (hg i l s w h).bind fun _ _ _ hI => ih hI

end Coupling
