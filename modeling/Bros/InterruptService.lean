import Bros.Interrupts

/-!
What becomes of interrupt requests: which handler is called for them, that none is lost
or served twice, and in which order those that wait are served.
-/

namespace Bros
open ByteMemory Pic8259 Runs

section
variable {H : Type*}

/-! ### Handlers -/

/-- The entry of `isr_handlers` for a request. -/
def irqSlot (irq : Irq) : Nat := 32 + irq.number

theorem irqUniversalHandler_eq (history : List (Registration H)) (irq : Irq) (r : IsrRegisters) :
    irqUniversalHandler (isrHandlersAfter history)
        { r with intNo := (irqNumber irq).setWidth 32 } =
      (lastRegistered history (irqSlot irq)).map fun handler =>
        (handler, { r with intNo := BitVec.ofNat 32 (irqSlot irq) }) := by
  have hslot : (irqNumber irq).setWidth 32 + pic1BaseInt = BitVec.ofNat 32 (irqSlot irq) := by
    cases irq with
    | master i =>
        revert i
        decide
    | slave i =>
        revert i
        decide
  have hnat : (BitVec.ofNat 32 (irqSlot irq)).toNat = irqSlot irq := by
    cases irq with
    | master i =>
        revert i
        decide
    | slave i =>
        revert i
        decide
  simp only [irqUniversalHandler, hslot, hnat, isrHandlersAfter_eq_lastRegistered]

/-- A call went to the handler that was registered last, with the number of its entry. -/
def Call.Dispatched (c : Call H) : Prop :=
  ∃ r : IsrRegisters, c.called = (lastRegistered c.history (irqSlot c.irq)).map fun handler =>
    (handler, { r with intNo := BitVec.ofNat 32 (irqSlot c.irq) })

structure World.Dispatches (w : World H) : Prop where
  table : w.isrHandlers = isrHandlersAfter w.history
  calls : ∀ c ∈ w.calls, c.Dispatched ∧ c.history <+: w.history

theorem World.Dispatches.register {w : World H} (h : w.Dispatches) (r : Registration H) :
    r.perform w.isrHandlers = isrHandlersAfter (w.history ++ [r]) ∧
      ∀ c ∈ w.calls, c.Dispatched ∧ c.history <+: w.history ++ [r] := by
  refine ⟨?_, fun c hc => ⟨(h.calls c hc).1, (h.calls c hc).2.trans (List.prefix_append _ _)⟩⟩
  rw [h.table, isrHandlersAfter, isrHandlersAfter, List.foldl_append]
  rfl

theorem step_dispatches {w w' : World H} {a : Act H} (h : w.Dispatches)
    (hs : interruptStep w a = some w') : w'.Dispatches := by
  cases steps_of_interruptStep hs with
  | @call r savedIf irq stack hstack =>
      refine ⟨h.table, fun c hc => ?_⟩
      cases List.mem_append.mp hc with
      | inl hc => exact h.calls c hc
      | inr hc =>
          rw [List.mem_singleton.mp hc]
          refine ⟨⟨r, ?_⟩, List.prefix_refl _⟩
          rw [h.table]
          exact irqUniversalHandler_eq w.history irq r
  | registerMain hstack => exact ⟨(h.register _).1, (h.register _).2⟩
  | registerHandler hstack => exact ⟨(h.register _).1, (h.register _).2⟩
  | line => exact ⟨h.table, h.calls⟩
  | instr => exact ⟨h.table, h.calls⟩
  | accept => exact ⟨h.table, h.calls⟩
  | firstInta => exact ⟨h.table, h.calls⟩
  | secondInta => exact ⟨h.table, h.calls⟩
  | bootWrite => exact ⟨h.table, h.calls⟩
  | lastBootWrite => exact ⟨h.table, h.calls⟩
  | eoiWrite => exact ⟨h.table, h.calls⟩
  | stiMain => exact ⟨h.table, h.calls⟩
  | stiHandler => exact ⟨h.table, h.calls⟩
  | iret => exact ⟨h.table, h.calls⟩
  | cliMain => exact ⟨h.table, h.calls⟩
  | cliHandler => exact ⟨h.table, h.calls⟩

/-! ### Requests are neither lost nor served twice -/

/-- Requests taken from a controller that no handler has been called for yet. -/
def inFlight : List Frame → Irq → Nat
  | ⟨_, .inta (some i)⟩ :: _, irq => if irq = .master i then 1 else 0
  | ⟨_, .stub served _⟩ :: _, irq => if irq = served then 1 else 0
  | _, _ => 0

def waiting (p : Pair) (irq : Irq) : Nat := (p.input irq).isLatched.toNat

def World.callCount (w : World H) (irq : Irq) : Nat := w.calls.countP fun c => c.irq = irq

structure World.Accounted (w : World H) : Prop where
  booting : w.booting ≠ [] → w.calls = [] ∧ w.spurious = fun _ => 0
  balance : w.booting = [] → ∀ irq, irq ≠ .master cascade →
    w.rises irq + w.spurious irq =
      w.falls irq + waiting w.pics irq + inFlight w.stack irq + w.callCount irq

theorem start_accounted (p : Pair) : (World.start p : World H).Accounted :=
  ⟨fun _ => ⟨rfl, rfl⟩, nofun⟩

theorem Phase.intr_programmed {writes : List PortWrite} {savedIf flag shadow : Bool}
    {stack : List Frame} {p : Pair} (h : Phase writes (⟨savedIf, .intr⟩ :: stack) flag shadow p) :
    Programmed p idle idle := by
  cases h with
  | intr programmed linked => exact programmed

theorem Phase.inta_programmed {writes : List PortWrite} {savedIf flag shadow : Bool}
    {taken : Option Line} {stack : List Frame} {p : Pair}
    (h : Phase writes (⟨savedIf, .inta taken⟩ :: stack) flag shadow p) :
    Programmed p (takenIsr taken) idle := by
  cases h with
  | inta programmed linked => exact programmed

theorem Phase.stub_eoi {writes : List PortWrite} {savedIf flag shadow : Bool} {irq : Irq}
    {rest : List PortWrite} {stack : List Frame} {p : Pair}
    (h : Phase writes (⟨savedIf, .stub irq rest⟩ :: stack) flag shadow p) :
    ∀ x ∈ rest, x.2 = picOcw2MaskEoi := by
  cases h with
  | stub programs linked eoi => exact eoi

theorem Phase.single {writes : List PortWrite} {f : Frame} {stack : List Frame}
    {flag shadow : Bool} {p : Pair} (h : Phase writes (f :: stack) flag shadow p) :
    stack = [] ∧ writes = [] := by
  cases h <;> exact ⟨rfl, rfl⟩

/-- The counts after one more of `irq`, where `b` says whether it is one. -/
theorem bump_if (f : Irq → Nat) (irq k : Irq) {b : Bool} :
    (if b then bump f irq else f) k = f k + if k = irq then b.toNat else 0 := by
  cases b with
  | false => simp
  | true => by_cases h : k = irq <;> simp [bump, h]

/-- An edge makes a request or ends one that still waits. -/
theorem line_balance (w : World H) (irq : Irq) (level : Bool) {k : Irq}
    (hk : k ≠ .master cascade) :
    (w.line irq level).rises k + w.falls k + waiting w.pics k =
      w.rises k + (w.line irq level).falls k + waiting (w.line irq level).pics k := by
  have hrises : (w.line irq level).rises k =
      w.rises k + if k = irq then (level && (w.pics.input irq).isLow).toNat else 0 :=
    bump_if ..
  have hfalls : (w.line irq level).falls k =
      w.falls k + if k = irq then (!level && (w.pics.input irq).isLatched).toNat else 0 :=
    bump_if ..
  have hpics : (w.line irq level).pics = w.pics.drive irq level := rfl
  rw [hrises, hfalls, hpics, waiting, waiting]
  by_cases hirq : k = irq
  · subst hirq
    rw [if_pos rfl, if_pos rfl, input_drive_self]
    cases w.pics.input k <;> cases level <;> simp [Input.drive, Input.isLow, Input.isLatched] <;>
      omega
  · rw [if_neg hirq, if_neg hirq, input_drive_of_ne hirq hk]
    omega

section
variable {p : Pair} (savedIf : Bool) (stack : List Frame) {k : Irq}

/-- The request that the master takes leaves the controller. -/
theorem firstInta_balance (h : Programmed p idle idle) (k : Irq) :
    waiting p k =
      waiting p.firstInta.1 k + inFlight (⟨savedIf, .inta p.firstInta.2⟩ :: stack) k := by
  cases hi : p.master.resolve with
  | none =>
      rw [Pair.firstInta, acknowledge_none hi]
      rfl
  | some i =>
      have hlatched := resolve_latched h.masterNested h.masterIsr_eq hi
      rw [Pair.firstInta, acknowledge_some h.masterNested h.masterIsr_eq hi]
      cases k with
      | master j =>
          by_cases hj : j = i
          · subst hj
            simp [waiting, inFlight, Pair.input, hlatched, Input.isLatched]
          · simp [waiting, inFlight, Pair.input, hj]
      | slave j => simp [waiting, inFlight, Pair.input]

theorem spuriousIrq_slave {masterIsr : Line → Bool} (h : Programmed p masterIsr idle) :
    spuriousIrq p (some cascade) = if p.slave.int then none else some (.slave lastLine) := by
  simp only [spuriousIrq, answers_slave h]

theorem spuriousIrq_master {masterIsr slaveIsr : Line → Bool}
    (h : Programmed p masterIsr slaveIsr) {i : Line} (hi : i ≠ cascade) :
    spuriousIrq p (some i) = none := by
  have hne : some i ≠ some cascade := fun hs => hi (Option.some.inj hs)
  simp only [spuriousIrq, answers_master h hne]

/-- The second pulse makes the request of the slave, or the spurious one, that of a stub. -/
theorem secondInta_balance {taken : Option Line} (h : Programmed p (takenIsr taken) idle)
    (hk : k ≠ .master cascade) :
    waiting p k + inFlight (⟨savedIf, .inta taken⟩ :: stack) k +
        (if spuriousIrq p taken = some k then 1 else 0) =
      waiting (p.secondInta taken).1 k + if k = servedBy p taken then 1 else 0 := by
  cases taken with
  | none =>
      have hne : none ≠ some cascade := fun he => by cases he
      rw [(secondInta_master h hne).1]
      simp only [spuriousIrq, servedBy, inFlight]
      simp [eq_comm]
  | some i =>
      by_cases hi : i = cascade
      · subst hi
        rw [(secondInta_slave h).1, spuriousIrq_slave h, servedBy, if_pos rfl, waiting, waiting,
          input_settle hk]
        cases hj : p.slave.resolve with
        | none =>
            rw [acknowledge_none hj, Chip.int, hj]
            simp [inFlight, hk, eq_comm]
        | some j =>
            have hlatched := resolve_latched h.slaveNested h.slaveIsr_eq hj
            rw [acknowledge_some h.slaveNested h.slaveIsr_eq hj, Chip.int, hj]
            cases k with
            | master l => simp [inFlight, hk, Pair.input]
            | slave l =>
                by_cases hl : l = j
                · subst hl
                  simp [inFlight, Pair.input, hlatched, Input.isLatched]
                · simp [inFlight, Pair.input, hl]
      · have hne : some i ≠ some cascade := fun hs => hi (Option.some.inj hs)
        rw [(secondInta_master h hne).1, spuriousIrq_master h hi, servedBy, if_neg hne]
        simp [inFlight]

theorem eoi_waiting {x : PortWrite} (hx : x.2 = picOcw2MaskEoi) (hk : k ≠ .master cascade) :
    waiting (p.portWrite x) k = waiting p k := by
  unfold Pair.portWrite
  cases decodePort x.1 with
  | none => rfl
  | some r => rw [waiting, waiting, input_write hk r (by rw [hx]; rfl)]

end

theorem bumpSome_apply (f : Irq → Nat) (irq? : Option Irq) (k : Irq) :
    bumpSome f irq? k = f k + if irq? = some k then 1 else 0 := by
  cases irq? with
  | none => rfl
  | some irq =>
      by_cases h : k = irq
      · simp [bumpSome, bump, h]
      · simp [bumpSome, bump, h, eq_comm]

/-- While the program runs: how the fields of the accounts go together. -/
theorem World.Accounted.of_balance {w : World H} (hbooting : w.booting = [])
    (balance : ∀ irq, irq ≠ .master cascade →
      w.rises irq + w.spurious irq =
        w.falls irq + waiting w.pics irq + inFlight w.stack irq + w.callCount irq) :
    w.Accounted :=
  ⟨fun h => absurd hbooting h, fun _ => balance⟩

theorem step_accounted {w w' : World H} {a : Act H} (safe : w.Safe) (h : w.Accounted)
    (hs : interruptStep w a = some w') : w'.Accounted := by
  unfold World.Safe at safe
  cases steps_of_interruptStep hs with
  | @line irq level hirq =>
      refine ⟨h.booting, fun hbooting k hk => ?_⟩
      have hbalance := h.balance hbooting k hk
      have hline := line_balance w irq level hk
      change (w.line irq level).rises k + w.spurious k = (w.line irq level).falls k +
        waiting (w.line irq level).pics k + inFlight w.stack k + w.callCount k
      omega
  | accept hflag hshadow hexec hint =>
      refine ⟨h.booting, fun hbooting k hk => ?_⟩
      have hbalance := h.balance hbooting k hk
      have hstack : inFlight w.stack k = 0 := by
        have hsingle := (safe.accept hflag hshadow hexec).single.1
        rw [hsingle]
        rfl
      rw [hstack] at hbalance
      exact hbalance
  | @firstInta savedIf stack hstack =>
      rw [hstack] at safe
      refine .of_balance safe.single.2 fun k hk => ?_
      have hbalance := h.balance safe.single.2 k hk
      have hintr : inFlight w.stack k = 0 := by rw [hstack]; rfl
      have htaken := firstInta_balance savedIf stack safe.intr_programmed k
      change w.rises k + w.spurious k = w.falls k + waiting w.pics.firstInta.1 k +
        inFlight (⟨savedIf, .inta w.pics.firstInta.2⟩ :: stack) k + w.callCount k
      omega
  | @secondInta savedIf taken stack hstack =>
      rw [hstack] at safe
      refine .of_balance safe.single.2 fun k hk => ?_
      have hbalance := h.balance safe.single.2 k hk
      have htaken := secondInta_balance savedIf stack safe.inta_programmed hk
      rw [hstack] at hbalance
      simp only [bumpSome_apply, safe.secondInta.1]
      change w.rises k + (w.spurious k + _) = w.falls k + waiting (w.pics.secondInta taken).1 k +
        (if k = servedBy w.pics taken then 1 else 0) + w.callCount k
      omega
  | bootWrite hstack hbooting =>
      exact ⟨fun _ => h.booting (by rw [hbooting]; nofun), nofun⟩
  | @lastBootWrite x hstack hbooting =>
      obtain ⟨hcalls, hspurious⟩ := h.booting (by rw [hbooting]; nofun)
      refine .of_balance rfl fun k hk => ?_
      simp only [World.booted, World.pending, World.callCount, hcalls, hspurious, hstack, inFlight,
        waiting, List.countP_nil, Nat.zero_add, Nat.add_zero]
  | @eoiWrite savedIf irq x rest stack hstack =>
      rw [hstack] at safe
      refine .of_balance safe.single.2 fun k hk => ?_
      have hbalance := h.balance safe.single.2 k hk
      rw [← eoi_waiting (safe.stub_eoi x List.mem_cons_self) hk, hstack] at hbalance
      exact hbalance
  | @call r savedIf irq stack hstack =>
      rw [hstack] at safe
      refine .of_balance safe.single.2 fun k hk => ?_
      have hbalance := h.balance safe.single.2 k hk
      rw [hstack] at hbalance
      simp only [World.callCount, List.countP_append, List.countP_singleton, inFlight] at hbalance ⊢
      by_cases hirq : k = irq
      · simp only [hirq, if_true, decide_true] at hbalance ⊢
        omega
      · have hirq' : irq ≠ k := fun he => hirq he.symm
        simp only [hirq, hirq', if_false, decide_false, Bool.false_eq_true] at hbalance ⊢
        omega
  | iret hstack =>
      rw [hstack] at safe
      refine .of_balance safe.single.2 fun k hk => ?_
      have hbalance := h.balance safe.single.2 k hk
      rw [hstack] at hbalance
      simp only [safe.single.1]
      exact hbalance
  | instr hstack => exact ⟨h.booting, h.balance⟩
  | stiMain hstack hbooting => exact ⟨h.booting, h.balance⟩
  | stiHandler hstack =>
      rw [hstack] at safe
      refine .of_balance safe.single.2 fun k hk => ?_
      have hbalance := h.balance safe.single.2 k hk
      rw [hstack] at hbalance
      exact hbalance
  | cliMain hstack => exact ⟨h.booting, h.balance⟩
  | cliHandler hstack => exact ⟨h.booting, h.balance⟩
  | registerMain hstack => exact ⟨h.booting, h.balance⟩
  | registerHandler hstack => exact ⟨h.booting, h.balance⟩

/-- Only the lowest line of a chip stands for a request that is gone. -/
def World.SpuriousLowest (w : World H) : Prop :=
  ∀ irq, irq ≠ .master lastLine → irq ≠ .slave lastLine → w.spurious irq = 0

theorem spuriousIrq_lowest {p : Pair} {taken : Option Line} {irq : Irq}
    (h : spuriousIrq p taken = some irq) : irq = .master lastLine ∨ irq = .slave lastLine := by
  unfold spuriousIrq at h
  split at h
  · exact .inl (Option.some.inj h).symm
  · split at h
    · cases h
    · exact .inr (Option.some.inj h).symm
  · cases h

theorem step_spuriousLowest {w w' : World H} {a : Act H} (h : w.SpuriousLowest)
    (hs : interruptStep w a = some w') : w'.SpuriousLowest := by
  cases steps_of_interruptStep hs with
  | @secondInta savedIf taken stack hstack =>
      intro irq hmaster hslave
      have hne : spuriousIrq w.pics taken ≠ some irq := fun he =>
        (spuriousIrq_lowest he).elim hmaster hslave
      simp only [bumpSome_apply, if_neg hne]
      exact h irq hmaster hslave
  | line => exact h
  | instr => exact h
  | accept => exact h
  | firstInta => exact h
  | bootWrite => exact h
  | lastBootWrite => exact h
  | eoiWrite => exact h
  | call => exact h
  | stiMain => exact h
  | stiHandler => exact h
  | iret => exact h
  | cliMain => exact h
  | cliHandler => exact h
  | registerMain => exact h
  | registerHandler => exact h

/-! ### A run -/

def keyboardIrq : Irq := .master ⟨1, by decide⟩

def mouseIrq : Irq := .slave ⟨4, by decide⟩

/-- Chips that were left in the middle of something, with the keyboard's line up. -/
def leftOver : Pair where
  master :=
    { input := fun i => if Irq.master i = keyboardIrq then .latched else .low, isr := fun _ => true,
      config := ⟨0xFF#8, 8#8, 0#8, 2#8, some .icw3, 0xFB#8, cascade, true, true, true⟩ }
  slave :=
    { input := fun _ => .high, isr := fun _ => true,
      config := ⟨0xFF#8, 0x70#8, 0#8, 2#8, none, 0xFF#8, cascade, true, true, true⟩ }

def noRegisters : IsrRegisters :=
  ⟨0, 0, 0, 0, 0, 0, 0, 0, 0, 0, 0, 0, 0, 0, 0, 0⟩

/-- A key while `PIC_init` runs, and the mouse while its handler does. -/
def keyAndMouse : List (Act String) :=
  List.replicate 4 .write ++ [.line keyboardIrq false, .line keyboardIrq true] ++
    List.replicate 4 .write ++
    [.register (.irq 1#8 (some "keyboard")), .register (.irq 12#8 (some "mouse")), .sti, .instr,
      .accept, .inta, .inta, .write, .call noRegisters, .line mouseIrq false,
      .line mouseIrq true, .sti, .iret]

theorem keyAndMouse_runs :
    (run interruptStep (World.start leftOver) keyAndMouse).isSome = true := by
  decide +kernel

theorem keyAndMouse_run : run interruptStep (World.start leftOver) keyAndMouse =
    some ((run interruptStep (World.start leftOver) keyAndMouse).get keyAndMouse_runs) :=
  (Option.some_get _).symm

/-! ### What holds in every run -/

/-- Nothing is in service at either chip. -/
structure Quiet (p : Pair) : Prop where
  master : p.master.isr = idle
  slave : p.slave.isr = idle

theorem Programmed.quiet {p : Pair} (h : Programmed p idle idle) : Quiet p :=
  ⟨h.masterIsr_eq, h.slaveIsr_eq⟩

/-- The processor is asked exactly when a device waits. -/
theorem int_iff_pending {p : Pair} (h : Programmed p idle idle) (linked : p.Linked) :
    p.master.int = true ↔
      ∃ irq, irq ≠ .master cascade ∧ (p.input irq).isLatched = true := by
  rw [int_idle h.masterNested h.masterIsr_eq]
  constructor
  · rintro ⟨i, hi⟩
    by_cases hc : i = cascade
    · subst hc
      have hint : p.slave.int = true := by
        rw [Chip.pending, linked] at hi
        cases hint : p.slave.int with
        | true => rfl
        | false => rw [hint] at hi; cases hi
      obtain ⟨j, hj⟩ := (int_idle h.slaveNested h.slaveIsr_eq).mp hint
      exact ⟨.slave j, (by intro h; cases h), hj⟩
    · exact ⟨.master i, fun he => hc (Irq.master.inj he), hi⟩
  · rintro ⟨irq, hne, hirq⟩
    cases irq with
    | master i => exact ⟨i, hirq⟩
    | slave j =>
        have hint := (int_idle h.slaveNested h.slaveIsr_eq).mpr ⟨j, hirq⟩
        refine ⟨cascade, ?_⟩
        rw [Chip.pending, linked, hint]
        rfl

theorem Phase.facts {writes : List PortWrite} {stack : List Frame} {flag shadow : Bool} {p : Pair}
    (h : Phase writes stack flag shadow p) :
    stack.length ≤ 1 ∧ (∀ f ∈ stack, ∀ v, f.stage ≠ .stray v) ∧
      ∀ f ∈ stack, ∀ irq, f.stage = .handler irq → flag = false ∧ Quiet p := by
  cases h with
  | booting => exact ⟨by decide, nofun, nofun⟩
  | main => exact ⟨by decide, nofun, nofun⟩
  | handler programmed linked =>
      refine ⟨Nat.le_refl 1, fun f hf => ?_, fun f hf irq hirq => ⟨rfl, programmed.quiet⟩⟩
      rw [List.mem_singleton.mp hf]
      exact nofun
  | _ =>
      refine ⟨Nat.le_refl 1, fun f hf => ?_, fun f hf => ?_⟩ <;>
      · rw [List.mem_singleton.mp hf]
        exact nofun

theorem Phase.of_main {flag shadow : Bool} {p : Pair} (h : Phase [] [] flag shadow p) :
    Programmed p idle idle ∧ p.Linked := by
  cases h with
  | booting suffix ne => exact absurd rfl ne
  | main programmed linked => exact ⟨programmed, linked⟩

/-- In every run from a reset, interrupts do not nest, each goes to the stub of a request,
and while a handler runs nothing is in service any more. Between interrupts the
processor is asked exactly when a device waits. -/
theorem interrupts_do_not_nest {p : Pair} {acts : List (Act H)} {w : World H}
    (h : run interruptStep (World.start p) acts = some w) :
    w.stack.length ≤ 1 ∧ (∀ f ∈ w.stack, ∀ v, f.stage ≠ .stray v) ∧
      (∀ f ∈ w.stack, ∀ irq, f.stage = .handler irq → w.interruptFlag = false ∧ Quiet w.pics) ∧
      (w.booting = [] → w.stack = [] → Quiet w.pics ∧
        (w.pics.master.int = true ↔
          ∃ irq, irq ≠ .master cascade ∧ w.pending irq = true)) := by
  have safe := run_safe h
  obtain ⟨hlen, hstray, hhandler⟩ := safe.facts
  refine ⟨hlen, hstray, hhandler, fun hbooting hstack => ?_⟩
  unfold World.Safe at safe
  rw [hbooting, hstack] at safe
  obtain ⟨programmed, linked⟩ := safe.of_main
  exact ⟨programmed.quiet, int_iff_pending programmed linked⟩

theorem interrupts_do_not_nest_keyAndMouse :
    ∃ w, run interruptStep (World.start leftOver) keyAndMouse = some w ∧
      w.stack.length ≤ 1 ∧ (∀ f ∈ w.stack, ∀ v, f.stage ≠ .stray v) ∧
      (∀ f ∈ w.stack, ∀ irq, f.stage = .handler irq → w.interruptFlag = false ∧ Quiet w.pics) ∧
      (w.booting = [] → w.stack = [] → Quiet w.pics ∧
        (w.pics.master.int = true ↔
          ∃ irq, irq ≠ .master cascade ∧ w.pending irq = true)) :=
  ⟨_, keyAndMouse_run, interrupts_do_not_nest keyAndMouse_run⟩

/-- Every edge since `PIC_init` is waiting, has fallen again, is on its way to the handler
or has led to one call of it, and the only other calls are those of spurious requests. -/
theorem requests_served_once {p : Pair} {acts : List (Act H)} {w : World H}
    (h : run interruptStep (World.start p) acts = some w) (hbooting : w.booting = []) {irq : Irq}
    (hirq : irq ≠ .master cascade) :
    w.rises irq + w.spurious irq =
        w.falls irq + (w.pending irq).toNat + inFlight w.stack irq + w.callCount irq ∧
      (irq ≠ .master lastLine → irq ≠ .slave lastLine → w.spurious irq = 0) := by
  have keep (u : World H) (a : Act H) (u' : World H) (hu : u.Safe ∧ u.Accounted)
      (hs : interruptStep u a = some u') : u'.Safe ∧ u'.Accounted :=
    ⟨step_safe hu.1 hs, step_accounted hu.1 hu.2 hs⟩
  have accounted := run_invariant keep ⟨start_safe p, start_accounted p⟩ h
  have lowest : w.SpuriousLowest :=
    run_invariant (fun _ _ _ hw hs => step_spuriousLowest hw hs)
      (show (World.start p).SpuriousLowest from fun _ _ _ => rfl) h
  exact ⟨accounted.2.balance hbooting irq hirq, lowest irq⟩

theorem requests_served_once_keyAndMouse :
    ∃ w, run interruptStep (World.start leftOver) keyAndMouse = some w ∧
      w.rises mouseIrq + w.spurious mouseIrq =
        w.falls mouseIrq + (w.pending mouseIrq).toNat + inFlight w.stack mouseIrq +
          w.callCount mouseIrq ∧
      (mouseIrq ≠ .master lastLine → mouseIrq ≠ .slave lastLine → w.spurious mouseIrq = 0) :=
  ⟨_, keyAndMouse_run,
    requests_served_once keyAndMouse_run (by decide +kernel) (fun h => by cases h)⟩

/-- Each call went to the handler registered last for its request at the time. -/
theorem calls_dispatched {p : Pair} {acts : List (Act H)} {w : World H}
    (h : run interruptStep (World.start p) acts = some w) :
    ∀ c ∈ w.calls, c.Dispatched ∧ c.history <+: w.history := by
  have dispatches : w.Dispatches :=
    run_invariant (fun _ _ _ hw hs => step_dispatches hw hs)
      (show (World.start p).Dispatches from ⟨rfl, nofun⟩) h
  exact dispatches.calls

theorem calls_dispatched_keyAndMouse :
    ∃ w, run interruptStep (World.start leftOver) keyAndMouse = some w ∧
      ∀ c ∈ w.calls, c.Dispatched ∧ c.history <+: w.history :=
  ⟨_, keyAndMouse_run, calls_dispatched keyAndMouse_run⟩

/-! ### Service in order of priority -/

/-- The requests of devices from the highest priority to the lowest. -/
def irqOrder : List Irq :=
  ((List.finRange 8).filter (· < cascade)).map .master ++ (List.finRange 8).map .slave ++
    ((List.finRange 8).filter (cascade < ·)).map .master

theorem find?_irqOrder {p : Pair}
    (h : p.master.pending cascade = ((List.finRange 8).find? p.slave.pending).isSome) :
    irqOrder.find? (fun irq => (p.input irq).isLatched) =
      ((List.finRange 8).find? p.master.pending).map fun i =>
        if i = cascade then .slave (((List.finRange 8).find? p.slave.pending).getD lastLine)
        else .master i := by
  have hlines : List.finRange 8 = (List.finRange 8).filter (· < cascade) ++ [cascade] ++
      (List.finRange 8).filter (cascade < ·) := by decide
  have hmaster (l : List Line) : (l.map Irq.master).find? (fun irq => (p.input irq).isLatched) =
      (l.find? p.master.pending).map .master := List.find?_map ..
  have hslave (l : List Line) : (l.map Irq.slave).find? (fun irq => (p.input irq).isLatched) =
      (l.find? p.slave.pending).map .slave := List.find?_map ..
  have hfind := congrArg (List.find? p.master.pending) hlines
  rw [List.find?_append, List.find?_append] at hfind
  rw [irqOrder, List.find?_append, List.find?_append, hmaster, hmaster, hslave, hfind]
  cases hfirst : ((List.finRange 8).filter (· < cascade)).find? p.master.pending with
  | some i =>
      have hmem := List.mem_filter.mp (List.mem_of_find?_eq_some hfirst)
      have hne : i ≠ cascade := Fin.ne_of_lt (of_decide_eq_true hmem.2)
      change some (Irq.master i) = some (if i = cascade then _ else .master i)
      rw [if_neg hne]
  | none =>
      rw [Option.map_none, Option.none_or, Option.none_or]
      cases hj : (List.finRange 8).find? p.slave.pending with
      | some j =>
          have hcascade : [cascade].find? p.master.pending = some cascade :=
            List.find?_cons_of_pos (by rw [h, hj]; rfl)
          rw [hcascade]
          rfl
      | none =>
          have hcascade : [cascade].find? p.master.pending = none :=
            List.find?_cons_of_neg (by rw [h, hj]; exact Bool.false_ne_true)
          rw [hcascade, Option.map_none, Option.none_or, Option.none_or]
          cases hlast : ((List.finRange 8).filter (cascade < ·)).find? p.master.pending with
          | none => rfl
          | some i =>
              have hmem := List.mem_filter.mp (List.mem_of_find?_eq_some hlast)
              have hne : i ≠ cascade := (Fin.ne_of_lt (of_decide_eq_true hmem.2)).symm
              rw [Option.map_some, Option.map_some, if_neg hne]

/-- The program runs with interrupts on and none of them in progress. -/
structure World.AtMain (w : World H) : Prop where
  booting : w.booting = []
  stack : w.stack = []
  flag : w.interruptFlag = true
  shadow : w.shadow = false

theorem slave_pending {p : Pair} (h : Programmed p idle idle) (linked : p.Linked) :
    p.master.pending cascade = ((List.finRange 8).find? p.slave.pending).isSome := by
  rw [← resolve_idle h.slaveNested h.slaveIsr_eq, Chip.pending, linked]
  change (if p.slave.int then Input.latched else Input.low).isLatched = p.slave.int
  cases p.slave.int <;> rfl

/-- The first request in the order is the one that an acknowledge cycle serves. -/
theorem servedBy_first {p : Pair} (h : Programmed p idle idle) (linked : p.Linked) {irq : Irq}
    (hfirst : irqOrder.find? (fun irq => (p.input irq).isLatched) = some irq) :
    servedBy p.firstInta.1 p.firstInta.2 = irq ∧
      spuriousIrq p.firstInta.1 p.firstInta.2 = none ∧ p.master.int = true := by
  rw [find?_irqOrder (slave_pending h linked), ← resolve_idle h.masterNested h.masterIsr_eq,
    ← resolve_idle h.slaveNested h.slaveIsr_eq] at hfirst
  obtain ⟨i, hi, hirq⟩ := Option.map_eq_some_iff.mp hfirst
  have hint : p.master.int = true := by rw [Chip.int, hi]; rfl
  have hprogrammed := firstInta_programmed h
  rw [firstInta_taken, hi] at hprogrammed ⊢
  by_cases hc : i = cascade
  · subst hc
    have hslave : p.slave.int = true := by
      have hlatched := resolve_latched h.masterNested h.masterIsr_eq hi
      rw [linked] at hlatched
      cases hslave : p.slave.int with
      | true => rfl
      | false => rw [hslave] at hlatched; cases hlatched
    rw [if_pos rfl] at hirq
    refine ⟨hirq, ?_, hint⟩
    rw [spuriousIrq_slave hprogrammed]
    exact if_pos hslave
  · rw [if_neg hc] at hirq
    refine ⟨?_, spuriousIrq_master hprogrammed hc, hint⟩
    rw [servedBy, if_neg fun hs => hc (Option.some.inj hs)]
    exact hirq

/-- All that the processor does about one request. -/
def serviceActs (r : IsrRegisters) (irq : Irq) : List (Act H) :=
  [.accept, .inta, .inta] ++ List.replicate (picEoi (irqNumber irq)).length .write ++
    [.call r, .sti, .iret]

theorem run_eoi (w : World H) (savedIf : Bool) (irq : Irq) (rest : List PortWrite)
    (stack : List Frame) :
    run interruptStep { w with stack := ⟨savedIf, .stub irq rest⟩ :: stack }
        (List.replicate rest.length .write) =
      some { w with pics := w.pics.run rest, stack := ⟨savedIf, .stub irq []⟩ :: stack } := by
  induction rest generalizing w with
  | nil => rfl
  | cons x rest ih => exact ih { w with pics := w.pics.portWrite x }

theorem run_eoi_waiting {p : Pair} {rest : List PortWrite} (h : ∀ x ∈ rest, x.2 = picOcw2MaskEoi)
    {k : Irq} (hk : k ≠ .master cascade) : waiting (p.run rest) k = waiting p k := by
  induction rest generalizing p with
  | nil => rfl
  | cons x rest ih =>
      rw [run_cons, ih fun y hy => h y (List.mem_cons_of_mem x hy),
        eoi_waiting (h x List.mem_cons_self) hk]

/-- What is called for a request. -/
def World.callFor (w : World H) (r : IsrRegisters) (irq : Irq) : Call H :=
  ⟨irq, w.history, irqUniversalHandler w.isrHandlers
    { r with intNo := (irqNumber irq).setWidth 32 }⟩

/-- The request of highest priority is served, and no other one changes. -/
theorem service {w : World H} (safe : w.Safe) (main : w.AtMain) {irq : Irq}
    (hfirst : irqOrder.find? w.pending = some irq) (r : IsrRegisters) :
    ∃ w', run interruptStep w (serviceActs r irq) = some w' ∧ w'.AtMain ∧
      w'.calls = w.calls ++ [w.callFor r irq] ∧ w'.history = w.history ∧
      w'.isrHandlers = w.isrHandlers ∧
      ∀ k, k ≠ .master cascade →
        waiting w'.pics k + (if k = irq then 1 else 0) = waiting w.pics k := by
  unfold World.Safe at safe
  rw [main.booting, main.stack] at safe
  obtain ⟨programmed, linked⟩ := safe.of_main
  obtain ⟨hserved, hspurious, hint⟩ := servedBy_first programmed linked hfirst
  have intr : Phase [] [⟨true, .intr⟩] true false w.pics := .intr programmed linked
  have hvector := intr.firstInta.secondInta.1
  rw [hserved] at hvector
  have haccept : w.accept = some { w with stack := [⟨true, .intr⟩] } := by
    rw [World.accept, main.flag, main.shadow, main.stack, hint]
    rfl
  let p := (w.pics.firstInta.1.secondInta w.pics.firstInta.2).1
  have hinta : run interruptStep w [.accept, .inta, .inta] = some
      { w with
        pics := p
        interruptFlag := false
        stack := [⟨true, .stub irq (picEoi (irqNumber irq))⟩] } := by
    simp only [run, haccept, Option.bind_some, interruptStep, World.inta, hspurious, bumpSome,
      hvector, p]
  have hservice : run interruptStep w (serviceActs r irq) = some
      { w with
        pics := p.run (picEoi (irqNumber irq))
        interruptFlag := true
        shadow := false
        stack := []
        calls := w.calls ++ [w.callFor r irq] } := by
    rw [serviceActs, List.append_assoc, run_append_of_eq_some hinta,
      run_append_of_eq_some (run_eoi { w with pics := p, interruptFlag := false } _ _ _ _)]
    rfl
  refine ⟨_, hservice, ⟨main.booting, rfl, rfl, rfl⟩, rfl, rfl, rfl, fun k hk => ?_⟩
  have hfirstInta := firstInta_balance true [] programmed k
  have hsecondInta := secondInta_balance true [] (firstInta_programmed programmed) hk
  rw [hspurious, hserved] at hsecondInta
  change waiting (p.run (picEoi (irqNumber irq))) k + _ = _
  rw [run_eoi_waiting (picEoi_writes _) hk]
  simpa [hfirstInta] using hsecondInta.symm

theorem mem_irqOrder {irq : Irq} (h : irq ≠ .master cascade) : irq ∈ irqOrder := by
  cases irq with
  | master i =>
      have hmem : ∀ i : Line, i ≠ cascade → Irq.master i ∈ irqOrder := by decide
      exact hmem i fun hi => h (congrArg Irq.master hi)
  | slave i =>
      revert i
      decide

theorem ne_cascade_of_mem {irq : Irq} (h : irq ∈ irqOrder) : irq ≠ .master cascade := by
  rintro rfl
  exact absurd h (by decide)

theorem waiting_eq_one {w : World H} {irq : Irq} :
    waiting w.pics irq = 1 ↔ w.pending irq = true := by
  rw [World.pending, waiting]
  cases (w.pics.input irq).isLatched <;> decide

/-- The requests that are left after the first one was served. -/
theorem filter_after_service {w w' : World H} {irq : Irq} {irqs : List Irq}
    (hfilter : irqOrder.filter w.pending = irq :: irqs)
    (hwaiting : ∀ k, k ≠ .master cascade →
      waiting w'.pics k + (if k = irq then 1 else 0) = waiting w.pics k) :
    irqOrder.filter w'.pending = irqs := by
  have hnodup : (irq :: irqs).Nodup := by
    rw [← hfilter]
    exact List.Nodup.filter _ (by decide)
  have hpending : ∀ k ∈ irqOrder, w'.pending k = (!decide (k = irq) && w.pending k) := by
    intro k hk
    have hcount := hwaiting k (ne_cascade_of_mem hk)
    by_cases hirq : k = irq
    · subst hirq
      have hle : waiting w.pics k ≤ 1 := Bool.toNat_le _
      rw [if_pos rfl] at hcount
      rw [decide_eq_true rfl, Bool.not_true, Bool.false_and]
      exact Bool.eq_false_iff.mpr fun hp => by
        have hone := waiting_eq_one.mpr hp
        omega
    · rw [if_neg hirq, Nat.add_zero] at hcount
      rw [decide_eq_false hirq, Bool.not_false, Bool.true_and]
      exact Bool.eq_iff_iff.mpr (by rw [← waiting_eq_one, ← waiting_eq_one, hcount])
  rw [List.filter_congr hpending, ← List.filter_filter, hfilter, List.filter_cons_of_neg (by simp)]
  exact List.filter_eq_self.mpr fun k hk => by
    have hne : k ≠ irq := fun he => (List.nodup_cons.mp hnodup).1 (he ▸ hk)
    simpa using hne

/-- While the devices keep still, all waiting requests are served one after the other, in
the order of their priorities and each once; then the processor is asked no more. -/
theorem drain (regs : Irq → IsrRegisters) {w : World H} (safe : w.Safe) (main : w.AtMain) :
    ∃ w', run interruptStep w
        ((irqOrder.filter w.pending).flatMap fun irq => serviceActs (regs irq) irq) = some w' ∧
      w'.AtMain ∧ w'.pics.master.int = false ∧
      w'.calls =
        w.calls ++ (irqOrder.filter w.pending).map fun irq => w.callFor (regs irq) irq := by
  generalize hirqs : irqOrder.filter w.pending = irqs
  induction irqs generalizing w with
  | nil =>
      refine ⟨w, rfl, main, ?_, (List.append_nil _).symm⟩
      unfold World.Safe at safe
      rw [main.booting, main.stack] at safe
      obtain ⟨programmed, linked⟩ := safe.of_main
      refine Bool.eq_false_iff.mpr fun hint => ?_
      obtain ⟨irq, hne, hirq⟩ := (int_iff_pending programmed linked).mp hint
      have hmem : irq ∈ irqOrder.filter w.pending := List.mem_filter.mpr ⟨mem_irqOrder hne, hirq⟩
      rw [hirqs] at hmem
      exact List.not_mem_nil hmem
  | cons irq irqs ih =>
      have hfirst : irqOrder.find? w.pending = some irq := by
        rw [← List.head?_filter, hirqs]
        rfl
      obtain ⟨w₁, hrun, main₁, hcalls, hhistory, htable, hwaiting⟩ :=
        service safe main hfirst (regs irq)
      have safe₁ : w₁.Safe :=
        run_invariant (fun _ _ _ hw hs => step_safe hw hs) safe hrun
      obtain ⟨w', hrest, main', hint, hcalls'⟩ :=
        ih safe₁ main₁ (filter_after_service hirqs hwaiting)
      refine ⟨w', ?_, main', hint, ?_⟩
      · rw [List.flatMap_cons, run_append_of_eq_some hrun]
        exact hrest
      · rw [hcalls', hcalls, List.map_cons, List.append_assoc]
        simp only [World.callFor, hhistory, htable, List.singleton_append]

theorem pending_requests_drained (regs : Irq → IsrRegisters) {p : Pair} {acts : List (Act H)}
    {w : World H} (h : run interruptStep (World.start p) acts = some w) (main : w.AtMain) :
    ∃ w', run interruptStep (World.start p)
        (acts ++ (irqOrder.filter w.pending).flatMap fun irq => serviceActs (regs irq) irq) =
          some w' ∧
      w'.AtMain ∧ w'.pics.master.int = false ∧
      w'.calls = w.calls ++ (irqOrder.filter w.pending).map fun irq =>
        w.callFor (regs irq) irq := by
  rw [run_append_of_eq_some h]
  exact drain regs (run_safe h) main

theorem keyAndMouse_atMain :
    ((run interruptStep (World.start leftOver) keyAndMouse).get keyAndMouse_runs).AtMain :=
  ⟨by decide +kernel, by decide +kernel, by decide +kernel, by decide +kernel⟩

theorem pending_requests_drained_keyAndMouse :
    ∃ w, run interruptStep (World.start leftOver) keyAndMouse = some w ∧
      irqOrder.filter w.pending = [mouseIrq] ∧
      ∃ w', run interruptStep (World.start leftOver)
          (keyAndMouse ++
            (irqOrder.filter w.pending).flatMap fun irq => serviceActs noRegisters irq) = some w' ∧
        w'.AtMain ∧ w'.pics.master.int = false ∧
        w'.calls = w.calls ++ (irqOrder.filter w.pending).map fun irq =>
          w.callFor noRegisters irq :=
  ⟨_, keyAndMouse_run, by decide +kernel,
    pending_requests_drained (fun _ => noRegisters) keyAndMouse_run keyAndMouse_atMain⟩

end

end Bros
