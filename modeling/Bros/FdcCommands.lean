import Bros.Fdc

/-!
The bytes of one command on their way to the data register.

Each byte has retries of its own and its loss is not reported, so later bytes can get
through behind a lost one.
-/

namespace Bros
open ByteMemory Polling Programs

/-- The bytes that reach the data register. -/
def fdcDelivered (es : List FdcEvent) : List Byte :=
  es.filterMap fun
    | .outb port value => if port = fdcIoDr then some value else none
    | _ => none

/-- What is delivered is an initial part of the command, and nothing is written behind a
byte that timed out. -/
structure NoHole (cmd : List Byte) (es : List FdcEvent) : Prop where
  initial : fdcDelivered es <+: cmd
  quiet : es.Pairwise fun e e' => (∃ b, e = .dropped b) → fdcDelivered [e'] = []

/-- Issuing the command from `s` leaves no hole. -/
def IssuesWithoutHole (dev : FdcDevice) (s : FdcState) (cmd : FdcCommand) : Prop :=
  ∀ t, (fdcIssue dev cmd).run s = .ok () t → ∃ es, t.log = s.log ++ es ∧ NoHole cmd.bytes es

section
variable {dev : FdcDevice} {s : FdcState}

theorem fdcDelivered_cons (e : FdcEvent) (es : List FdcEvent) :
    fdcDelivered (e :: es) = fdcDelivered [e] ++ fdcDelivered es := by
  rw [← List.singleton_append, fdcDelivered, List.filterMap_append]
  rfl

theorem fdcDelivered_sendEvent_of_accepts {p : Nat} (h : dev.accepts p = true) (cmd : Byte) :
    fdcDelivered [dev.sendEvent p cmd] = [cmd] := by
  rw [FdcDevice.sendEvent, h]
  rfl

theorem sendEvent_of_busy {p : Nat} (h : dev.accepts p = false) (cmd : Byte) :
    dev.sendEvent p cmd = .dropped cmd := by
  rw [FdcDevice.sendEvent, h]
  rfl

theorem fdcDelivered_sendEvent_eq_nil_iff {p : Nat} {cmd : Byte} :
    fdcDelivered [dev.sendEvent p cmd] = [] ↔ dev.accepts p = false := by
  cases h : dev.accepts p with
  | true => simp [fdcDelivered_sendEvent_of_accepts h]
  | false =>
      rw [sendEvent_of_busy h]
      exact iff_of_true rfl rfl

/-- No byte of a command is written exactly when all its loops give up. -/
theorem sendEvents_quiet_iff {p : Nat} {cmds : List Byte} :
    (∀ e ∈ dev.sendEvents p cmds, fdcDelivered [e] = []) ↔
      ∀ j < cmds.length, dev.accepts (dev.loopAt p j) = false := by
  induction cmds generalizing p with
  | nil => simp [FdcDevice.sendEvents]
  | cons cmd cmds ih =>
      rw [FdcDevice.sendEvents, List.forall_mem_cons, fdcDelivered_sendEvent_eq_nil_iff, ih,
        List.length_cons, forall_lt_succ_loopAt_iff]

theorem fdcDelivered_of_quiet {es : List FdcEvent} (h : ∀ e ∈ es, fdcDelivered [e] = []) :
    fdcDelivered es = [] := by
  induction es with
  | nil => rfl
  | cons e es ih =>
      rw [fdcDelivered_cons, h e List.mem_cons_self,
        ih fun e' he' => h e' (List.mem_cons_of_mem e he')]
      rfl

/-- The loops for the bytes from `p` on are ready up to byte `k` and give up from there. -/
def AcceptsFirst (dev : FdcDevice) (p n k : Nat) : Prop :=
  (∀ j < k, dev.accepts (dev.loopAt p j) = true) ∧
    ∀ j < n - k, dev.accepts (dev.loopAt p (k + j)) = false

theorem acceptsFirst_succ_iff {p n k : Nat} (h : dev.accepts p = true) :
    AcceptsFirst dev p (n + 1) (k + 1) ↔ AcceptsFirst dev (dev.loopAt p 1) n k := by
  have hfirst : (∀ j < k + 1, dev.accepts (dev.loopAt p j) = true) ↔
      ∀ j < k, dev.accepts (dev.loopAt (dev.loopAt p 1) j) = true := by
    rw [forall_lt_succ_loopAt_iff, and_iff_right h]
  have hlater (j : Nat) :
      dev.loopAt p (k + 1 + j) = dev.loopAt (dev.loopAt p 1) (k + j) := by
    rw [loopAt_loopAt, Nat.add_right_comm, Nat.add_comm 1]
  simp only [AcceptsFirst, hfirst, hlater, Nat.add_sub_add_right]

theorem exists_acceptsFirst_of_accepts {p n : Nat} (h : dev.accepts p = true) :
    (∃ k ≤ n + 1, AcceptsFirst dev p (n + 1) k) ↔
      ∃ k ≤ n, AcceptsFirst dev (dev.loopAt p 1) n k := by
  constructor
  · intro hfirst
    obtain ⟨k, hk, hfirst⟩ := hfirst
    cases k with
    | zero =>
        have := hfirst.2 0 (Nat.succ_pos _)
        rw [Nat.add_zero, loopAt_zero, h] at this
        cases this
    | succ k => exact ⟨k, by omega, (acceptsFirst_succ_iff h).mp hfirst⟩
  · intro hfirst
    obtain ⟨k, hk, hfirst⟩ := hfirst
    exact ⟨k + 1, by omega, (acceptsFirst_succ_iff h).mpr hfirst⟩

/-- Where the first loop gives up all of them do. -/
theorem exists_acceptsFirst_of_busy {p n : Nat} (h : dev.accepts p = false) :
    (∃ k ≤ n + 1, AcceptsFirst dev p (n + 1) k) ↔
      ∀ j < n, dev.accepts (dev.loopAt (dev.loopAt p 1) j) = false := by
  have hlater (j : Nat) : dev.loopAt (dev.loopAt p 1) j = dev.loopAt p (0 + (j + 1)) := by
    rw [loopAt_loopAt, Nat.zero_add, Nat.add_comm]
  simp only [hlater]
  constructor
  · intro hfirst j hj
    obtain ⟨k, hk, hfirst⟩ := hfirst
    have hk0 : k = 0 := by
      by_contra hk0
      have := hfirst.1 0 (by omega)
      rw [loopAt_zero, h] at this
      cases this
    subst hk0
    exact hfirst.2 (j + 1) (by omega)
  · intro hbusy
    refine ⟨0, Nat.zero_le _, fun j hj => absurd hj j.not_lt_zero, fun j hj => ?_⟩
    cases j with
    | zero => exact h
    | succ j => exact hbusy j (by omega)

theorem noHole_cons_of_accepts {p : Nat} (h : dev.accepts p = true) {cmd : Byte}
    {cmds : List Byte} {es : List FdcEvent} :
    NoHole (cmd :: cmds) (dev.sendEvent p cmd :: es) ↔ NoHole cmds es := by
  have hdelivered : fdcDelivered (dev.sendEvent p cmd :: es) = cmd :: fdcDelivered es := by
    rw [fdcDelivered_cons, fdcDelivered_sendEvent_of_accepts h]
    rfl
  have hsent (b : Byte) : dev.sendEvent p cmd ≠ .dropped b := by
    rw [FdcDevice.sendEvent, h]
    exact FdcEvent.noConfusion
  constructor
  · intro hnone
    refine ⟨?_, (List.pairwise_cons.mp hnone.quiet).2⟩
    have := hnone.initial
    rw [hdelivered] at this
    exact (List.prefix_cons_inj cmd).mp this
  · intro hnone
    refine ⟨?_, List.pairwise_cons.mpr ⟨?_, hnone.quiet⟩⟩
    · rw [hdelivered]
      exact (List.prefix_cons_inj cmd).mpr hnone.initial
    · intro e _ hdropped
      obtain ⟨b, hb⟩ := hdropped
      exact absurd hb (hsent b)

theorem noHole_cons_of_busy {p : Nat} (h : dev.accepts p = false) {cmd : Byte}
    {cmds : List Byte} {es : List FdcEvent} :
    NoHole (cmd :: cmds) (dev.sendEvent p cmd :: es) ↔ ∀ e ∈ es, fdcDelivered [e] = [] := by
  rw [sendEvent_of_busy h]
  constructor
  · intro hnone e he
    exact (List.pairwise_cons.mp hnone.quiet).1 e he ⟨cmd, rfl⟩
  · intro hquiet
    refine ⟨?_, List.pairwise_cons.mpr ⟨fun e he _ => hquiet e he, ?_⟩⟩
    · rw [fdcDelivered_cons, fdcDelivered_of_quiet hquiet]
      exact List.nil_prefix
    · exact List.Pairwise.imp_of_mem (fun _ he' _ _ => hquiet _ he')
        (List.pairwise_of_forall fun _ _ => trivial)

/-- One byte after the other: a hole opens where a ready loop follows one that gave up. -/
theorem noHole_sendEvents_iff {p : Nat} {cmds : List Byte} :
    NoHole cmds (dev.sendEvents p cmds) ↔ ∃ k ≤ cmds.length, AcceptsFirst dev p cmds.length k := by
  induction cmds generalizing p with
  | nil =>
      refine iff_of_true ⟨List.prefix_rfl, List.Pairwise.nil⟩ ⟨0, Nat.le_refl 0, ?_, ?_⟩
      · exact fun j hj => absurd hj j.not_lt_zero
      · exact fun j hj => absurd hj j.not_lt_zero
  | cons cmd cmds ih =>
      rw [FdcDevice.sendEvents, List.length_cons]
      cases haccepts : dev.accepts p with
      | true =>
          rw [noHole_cons_of_accepts haccepts, ih, exists_acceptsFirst_of_accepts haccepts]
      | false =>
          rw [noHole_cons_of_busy haccepts, sendEvents_quiet_iff,
            exists_acceptsFirst_of_busy haccepts]

/-- The data register becomes ready in time for the first `k` bytes, and is then not
ready in any reading that the loops for the other bytes take. -/
def TakesFirst (dev : FdcDevice) (p n k : Nat) : Prop :=
  (∀ j < k, dev.accepts (dev.loopAt p j) = true) ∧
    ∀ i < fdcRetries * (n - k), dev.ready (dev.loopAt p k + i) = false

theorem acceptsFirst_iff {p n k : Nat} : AcceptsFirst dev p n k ↔ TakesFirst dev p n k := by
  have hbusy := all_busy_iff dev.ready fdcRetries (dev.loopAt p k) (n - k)
  rw [AcceptsFirst, TakesFirst, ← hbusy]
  simp only [FdcDevice.accepts, FdcDevice.loopAt, pollAt_add]

/-- A command is delivered without a hole exactly when the register, once it has let a
byte time out, stays busy for the rest of the command. -/
theorem fdcIssue_no_hole_iff (dev : FdcDevice) (s : FdcState) (cmd : FdcCommand) :
    IssuesWithoutHole dev s cmd ↔
      ∃ k ≤ cmd.bytes.length, TakesFirst dev s.polls cmd.bytes.length k := by
  simp only [← acceptsFirst_iff]
  rw [← noHole_sendEvents_iff]
  constructor
  · intro hissues
    obtain ⟨es, hlog, hnone⟩ := hissues _ (fdcIssue_run cmd)
    rwa [List.append_cancel_left hlog]
  · intro hnone t ht
    rw [fdcIssue_run] at ht
    injection ht with _ ht
    exact ⟨_, by rw [← ht, advance_log], hnone⟩

/-- The data register is busy for as many readings as one byte is tried. -/
def lateDevice : FdcDevice :=
  { msr := fun n => if n < fdcRetries then 0#8 else 0x80#8
    dr := fun _ => 0#8
    irq := fun _ => true
    cmos := fun _ => 0#8 }

/-- Of `CALIBRATE` only the drive number arrives. -/
theorem calibrate_loses_opcode : ¬ IssuesWithoutHole lateDevice fdcStart (.calibrate 0#8) := by
  have hbusy : lateDevice.accepts 0 = false := by
    refine pollReady_eq_false_iff.mpr fun i hi => ?_
    have hmsr : lateDevice.msr (0 + i) = 0#8 := by
      rw [Nat.zero_add]
      exact if_pos hi
    rw [FdcDevice.ready, hmsr]
    rfl
  have hready : lateDevice.accepts (lateDevice.loopAt 0 1) = true := by
    have hstart : lateDevice.loopAt 0 1 = fdcRetries := by
      rw [FdcDevice.loopAt, pollAt_succ, pollEnd_of_busy hbusy, Nat.zero_add]
      rfl
    refine pollReady_of_ready ?_ (by decide)
    rw [hstart]
    decide
  intro hissues
  obtain ⟨es, hlog, hnone⟩ := hissues _ (fdcIssue_run _)
  have hes : es = [.dropped fdcCmdCalibrate, .outb fdcIoDr 0#8] := by
    rw [← List.append_cancel_left hlog]
    change [lateDevice.sendEvent 0 fdcCmdCalibrate,
      lateDevice.sendEvent (lateDevice.loopAt 0 1) 0#8] = _
    rw [sendEvent_of_busy hbusy, FdcDevice.sendEvent, hready]
    rfl
  have hinitial := hnone.initial
  rw [hes] at hinitial
  revert hinitial
  decide

end

end Bros
