import Bros.Pit

/-!
`sleep` of `arch/x86/PIT.c` beside the timer interrupt.

The sleeper reads `_ticks` once for its target and once for each test of its loop; between
any two of its steps any number of interrupts is handled.
-/

namespace Bros

inductive SleepPc where
  | entry
  | waiting (targetTicks : BitVec 32)
  | returned
deriving DecidableEq

/-- `handled` counts the interrupts since the call. -/
structure Sleep where
  ticks : BitVec 32
  pc : SleepPc
  handled : Nat

inductive SleepEvent where
  | timer
  | sleeper

def sleepStart (ticks : BitVec 32) : Sleep := { ticks, pc := .entry, handled := 0 }

def sleepStep (n : BitVec 32) (s : Sleep) : SleepEvent → Sleep
  | .timer => { s with ticks := timerTick s.ticks, handled := s.handled + 1 }
  | .sleeper =>
      match s.pc with
      | .entry => { s with pc := .waiting (s.ticks + n) }
      | .waiting targetTicks => if s.ticks < targetTicks then s else { s with pc := .returned }
      | .returned => s

def sleepRun (n : BitVec 32) (s : Sleep) (events : List SleepEvent) : Sleep :=
  events.foldl (sleepStep n) s

/-- However the interrupts fall, a call that has returned has seen `n` of them. -/
def SleepsLongEnough (ticks n : BitVec 32) : Prop :=
  ∀ events, (sleepRun n (sleepStart ticks) events).pc = .returned →
    n.toNat ≤ (sleepRun n (sleepStart ticks) events).handled

/-! ### Enough interrupts -/

/-- The counter and the target are ahead of the counter at entry by the interrupts handled. -/
structure SleepInv (ticks n : BitVec 32) (s : Sleep) : Prop where
  counter : s.ticks.toNat = (ticks.toNat + s.handled) % 2 ^ 32
  target : ∀ t, s.pc = .waiting t →
    ∃ k ≤ s.handled, t.toNat = (ticks.toNat + k + n.toNat) % 2 ^ 32
  returned : s.pc = .returned → n.toNat ≤ s.handled

section
variable {ticks n : BitVec 32} {s : Sleep}

theorem toNat_timerTick (ticks : BitVec 32) :
    (timerTick ticks).toNat = (ticks.toNat + 1) % 2 ^ 32 := BitVec.toNat_add ticks 1#32

theorem SleepInv.timer (h : SleepInv ticks n s) : SleepInv ticks n (sleepStep n s .timer) := by
  refine ⟨?_, fun t ht => ?_, fun hpc => Nat.le_succ_of_le (h.returned hpc)⟩
  · change (timerTick s.ticks).toNat = (ticks.toNat + (s.handled + 1)) % 2 ^ 32
    have := h.counter
    rw [toNat_timerTick]
    omega
  · obtain ⟨k, hk, htarget⟩ := h.target t ht
    exact ⟨k, Nat.le_succ_of_le hk, htarget⟩

/-- A target in sight of the counter at entry is not passed before `n` interrupts. -/
theorem SleepInv.sleeper (hroom : ticks.toNat + 2 * n.toNat ≤ 2 ^ 32) (h : SleepInv ticks n s) :
    SleepInv ticks n (sleepStep n s .sleeper) := by
  have hcounter := h.counter
  cases hpc : s.pc with
  | entry =>
      have hstep : sleepStep n s .sleeper = { s with pc := .waiting (s.ticks + n) } := by
        simp only [sleepStep, hpc]
      rw [hstep]
      refine ⟨h.counter, fun t ht => ⟨s.handled, Nat.le_refl _, ?_⟩, fun hreturned => ?_⟩
      · injection ht with ht
        rw [← ht, BitVec.toNat_add]
        omega
      · cases hreturned
  | waiting t =>
      by_cases hless : s.ticks < t
      · have hstep : sleepStep n s .sleeper = s := by simp only [sleepStep, hpc, if_pos hless]
        rwa [hstep]
      · have hstep : sleepStep n s .sleeper = { s with pc := .returned } := by
          simp only [sleepStep, hpc, if_neg hless]
        rw [hstep]
        refine ⟨h.counter, fun t ht => (by cases ht), fun _ => ?_⟩
        obtain ⟨k, hk, htarget⟩ := h.target t hpc
        rw [BitVec.lt_def, hcounter, htarget] at hless
        change n.toNat ≤ s.handled
        by_contra hfew
        rw [Nat.mod_eq_of_lt (by omega), Nat.mod_eq_of_lt (by omega)] at hless
        omega
  | returned =>
      have hstep : sleepStep n s .sleeper = s := by simp only [sleepStep, hpc]
      rwa [hstep]

theorem SleepInv.run (hroom : ticks.toNat + 2 * n.toNat ≤ 2 ^ 32) (h : SleepInv ticks n s)
    (events : List SleepEvent) : SleepInv ticks n (sleepRun n s events) := by
  induction events generalizing s with
  | nil => exact h
  | cons e events ih =>
      cases e with
      | timer => exact ih h.timer
      | sleeper => exact ih (h.sleeper hroom)

theorem SleepInv.init (ticks n : BitVec 32) : SleepInv ticks n (sleepStart ticks) := by
  refine ⟨(Nat.mod_eq_of_lt ticks.isLt).symm, fun t ht => ?_, fun hreturned => ?_⟩
  · cases ht
  · cases hreturned

/-! ### Too few interrupts -/

theorem sleepRun_timers (n : BitVec 32) (s : Sleep) (k : Nat) :
    sleepRun n s (List.replicate k .timer) =
      { s with ticks := s.ticks + BitVec.ofNat 32 k, handled := s.handled + k } := by
  induction k generalizing s with
  | zero =>
      rw [BitVec.add_zero]
      rfl
  | succ k ih =>
      rw [List.replicate_succ, sleepRun, List.foldl_cons]
      refine (ih _).trans ?_
      simp only [sleepStep, timerTick, Sleep.mk.injEq, true_and]
      refine ⟨?_, by omega⟩
      rw [BitVec.add_assoc, ← BitVec.ofNat_add, Nat.add_comm]

/-- A target that wraps has been passed already. -/
theorem sleepRun_wrapped (hwrap : 2 ^ 32 ≤ s.ticks.toNat + n.toNat) (hpc : s.pc = .entry) :
    sleepRun n s [.sleeper, .sleeper] = { s with pc := .returned } := by
  have hn := n.isLt
  have hpassed : ¬ s.ticks < s.ticks + n := by
    rw [BitVec.lt_def, BitVec.toNat_add]
    omega
  simp only [sleepRun, List.foldl_cons, List.foldl_nil, sleepStep, hpc, if_neg hpassed]

/-- Interrupts before the target is read can carry it over the end of the counter. -/
theorem sleep_returns_early (hroom : 2 ^ 32 < ticks.toNat + 2 * n.toNat) :
    ∃ events, (sleepRun n (sleepStart ticks) events).pc = .returned ∧
      (sleepRun n (sleepStart ticks) events).handled < n.toNat := by
  have ht := ticks.isLt
  have hn := n.isLt
  let k := 2 ^ 32 - n.toNat - ticks.toNat
  let s : Sleep := { ticks := ticks + BitVec.ofNat 32 k, pc := .entry, handled := 0 + k }
  have htimers : sleepRun n (sleepStart ticks) (List.replicate k .timer) = s :=
    sleepRun_timers n (sleepStart ticks) k
  have hticks : s.ticks.toNat = ticks.toNat + k := by
    change (ticks + BitVec.ofNat 32 k).toNat = _
    rw [BitVec.toNat_add, BitVec.toNat_ofNat]
    omega
  have hrun : sleepRun n (sleepStart ticks) (List.replicate k .timer ++ [.sleeper, .sleeper]) =
      { s with pc := .returned } := by
    rw [sleepRun, List.foldl_append]
    change sleepRun n (sleepRun n (sleepStart ticks) (List.replicate k .timer)) _ = _
    rw [htimers]
    exact sleepRun_wrapped (by omega) rfl
  refine ⟨_, by rw [hrun], ?_⟩
  rw [hrun]
  change 0 + k < n.toNat
  omega

end

/-- A call sleeps long enough, wherever the interrupts fall, exactly when the counter is no
closer to its end than twice the argument. -/
theorem sleep_long_enough_iff (ticks n : BitVec 32) :
    SleepsLongEnough ticks n ↔ ticks.toNat + 2 * n.toNat ≤ 2 ^ 32 := by
  constructor
  · intro hlong
    by_contra hroom
    obtain ⟨events, hpc, hfew⟩ := sleep_returns_early (Nat.lt_of_not_le hroom)
    exact Nat.lt_irrefl _ (Nat.lt_of_lt_of_le hfew (hlong events hpc))
  · intro hroom events hpc
    exact ((SleepInv.init ticks n).run hroom events).returned hpc

/-- Ten ticks before the wrap, twenty ticks take none. -/
theorem sleep_returns_at_once : ¬ SleepsLongEnough 0xFFFFFFF6#32 20#32 := by
  intro hlong
  have h := hlong [.sleeper, .sleeper]
  revert h
  decide +kernel

end Bros
