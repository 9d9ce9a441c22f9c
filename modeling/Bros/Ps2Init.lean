import Bros.Ps2
import Bros.Lib.Coupling
import Bros.Lib.I8042

/-!
`PS2_init` on an 8042 with a keyboard and perhaps a mouse.

A run counts when the controller takes part in its log. Only one reading follows each
command, so that the driver depends on devices that answer at once.
-/

namespace Bros
open ByteMemory Programs Runs Coupling I8042

/-- What an access is to the controller. -/
def ps2Step (c : Controller) : Ps2Event → Option Controller
  | .outb port value =>
      some (if port = ps2Command then c.command value else c.data value)
  | .inb port value => if port = ps2Status then c.status value else c.read value

/-- Among so many readings of the status there is one that lets the driver send. -/
def Ps2Device.Patient (dev : Ps2Device) : Prop :=
  ∀ n, ∃ i < ps2PollTimeout, (dev.status (n + i) &&& 2#8 == 0#8) = true

abbrev OnPs2 (s : Ps2State) (c : Controller) {α : Type} (x : Ps2M α)
    (Q : α → Ps2State → Controller → Prop) : Prop :=
  Meets Ps2State.log ps2Step s c x Q

/-! ### The driver only adds to its log -/

section
variable {dev : Ps2Device}

instance appends_ps2Outb (port : Port) (value : Byte) :
    Appends Ps2State.log (ps2Outb port value) :=
  appends_of_ok fun _ => ⟨_, _, _, rfl, rfl⟩

instance appends_ps2Register (irq : Byte) (handler : Ps2Handler) :
    Appends Ps2State.log (ps2Register irq handler) :=
  appends_of_ok fun _ => ⟨_, _, [], rfl, (List.append_nil _).symm⟩

instance appends_ps2ReadStatus : Appends Ps2State.log (ps2ReadStatus dev) :=
  appends_of_ok fun _ => ⟨_, _, _, rfl, rfl⟩

instance appends_ps2ReadData : Appends Ps2State.log (ps2ReadData dev) :=
  appends_of_ok fun _ => ⟨_, _, _, rfl, rfl⟩

instance appends_ps2PollingWait (ready : Byte → Bool) (n : Nat) :
    Appends Ps2State.log (ps2PollingWait dev ready n) := by
  induction n with
  | zero =>
      unfold ps2PollingWait
      infer_instance
  | succ n ih =>
      unfold ps2PollingWait
      infer_instance

instance appends_ps2CanSend : Appends Ps2State.log (ps2PollingWaitUntilCanSend dev) :=
  appends_ps2PollingWait _ _

instance appends_ps2IsReady : Appends Ps2State.log (ps2PollingWaitUntilIsReady dev) :=
  appends_ps2PollingWait _ _

instance appends_ps2Command (cmd : Byte) : Appends Ps2State.log (ps2SendCommand cmd) :=
  appends_ps2Outb _ _

instance appends_ps2SendCommand (cmd : Byte) :
    Appends Ps2State.log (ps2PollingSendCommand dev cmd) := by
  unfold ps2PollingSendCommand
  infer_instance

instance appends_ps2SendData (data : Byte) :
    Appends Ps2State.log (ps2PollingSendData dev data) := by
  unfold ps2PollingSendData
  infer_instance

instance appends_ps2SendAck (data : Byte) :
    Appends Ps2State.log (ps2PollingSendAck dev data) := by
  unfold ps2PollingSendAck
  infer_instance

instance appends_ps2ScancodeSet (set : Byte) :
    Appends Ps2State.log (ps2ScancodeSet dev set) := by
  unfold ps2ScancodeSet
  infer_instance

instance appends_ps2ResetDevice : Appends Ps2State.log (ps2ResetDevice dev) := by
  unfold ps2ResetDevice
  infer_instance

instance appends_ps2MouseSetScaling (scale : Byte) :
    Appends Ps2State.log (ps2MouseSetScaling dev scale) := by
  unfold ps2MouseSetScaling
  infer_instance

instance appends_ps2MouseSetResolution (resolution : Byte) :
    Appends Ps2State.log (ps2MouseSetResolution dev resolution) := by
  unfold ps2MouseSetResolution
  infer_instance

instance appends_ps2MouseSetSampleRate (rate : Byte) :
    Appends Ps2State.log (ps2MouseSetSampleRate dev rate) := by
  unfold ps2MouseSetSampleRate
  infer_instance

set_option synthInstance.maxSize 4000 in
instance appends_ps2InitController : Appends Ps2State.log (ps2InitController dev) := by
  unfold ps2InitController
  infer_instance

set_option synthInstance.maxSize 4000 in
instance appends_ps2InitChannels : Appends Ps2State.log (ps2InitChannels dev) := by
  unfold ps2InitChannels
  infer_instance

set_option synthInstance.maxSize 4000 in
instance appends_ps2InitTests (hasPort2 : Bool) :
    Appends Ps2State.log (ps2InitTests dev hasPort2) := by
  unfold ps2InitTests
  infer_instance

instance appends_ps2InitScancode : Appends Ps2State.log (ps2InitScancode dev) := by
  unfold ps2InitScancode
  infer_instance

set_option synthInstance.maxSize 4000 in
instance appends_ps2InitDevices (hasPort2 : Bool) :
    Appends Ps2State.log (ps2InitDevices dev hasPort2) := by
  unfold ps2InitDevices
  infer_instance

set_option synthInstance.maxSize 4000 in
instance appends_ps2InitEnable (cfg : Byte) (hasPort2 : Bool) :
    Appends Ps2State.log (ps2InitEnable dev cfg hasPort2) := by
  unfold ps2InitEnable
  infer_instance

end

/-! ### Single exchanges -/

section
variable {dev : Ps2Device} {s : Ps2State} {c : Controller}

theorem ps2ReadStatus_spec (s : Ps2State) (c : Controller) :
    OnPs2 s c (ps2ReadStatus dev) fun v t c' =>
      (v = dev.status s.statusReads ∧ t.statusReads = s.statusReads + 1 ∧
        t.registered = s.registered) ∧ v.getLsbD 0 = (!c.output.isEmpty) ∧ c' = c := by
  refine meets_of_ok rfl rfl fun c' hc' => ⟨⟨rfl, rfl, rfl⟩, ?_⟩
  obtain ⟨c1, hc1, hrest⟩ := run_cons_eq_some.mp hc'
  rw [← Option.some.inj hrest]
  exact status_eq_some.mp hc1

theorem ps2ReadData_spec (s : Ps2State) (c : Controller) :
    OnPs2 s c (ps2ReadData dev) fun v t c' =>
      t.registered = s.registered ∧ c.read v = some c' := by
  refine meets_of_ok rfl rfl fun c' hc' => ⟨rfl, ?_⟩
  obtain ⟨c1, hc1, hrest⟩ := run_cons_eq_some.mp hc'
  rw [← Option.some.inj hrest]
  exact hc1

/-- The controller takes its time before it lets the driver send, but not too much. -/
theorem canSend_spec (patient : dev.Patient) (s : Ps2State) (c : Controller) :
    OnPs2 s c (ps2PollingWaitUntilCanSend dev) fun _ t c' =>
      t.registered = s.registered ∧ c' = c := by
  obtain ⟨i, hi, hready⟩ := patient s.statusReads
  unfold ps2PollingWaitUntilCanSend
  generalize ps2PollTimeout = n at hi ⊢
  induction n generalizing i s with
  | zero => exact absurd hi i.not_lt_zero
  | succ n ih =>
      rw [ps2PollingWait]
      refine (ps2ReadStatus_spec s c).bind fun v t c' h => ?_
      obtain ⟨⟨rfl, hreads, hregistered⟩, -, rfl⟩ := h
      cases i with
      | zero =>
          rw [Nat.add_zero] at hready
          rw [if_pos hready]
          exact meets_pure ⟨hregistered, rfl⟩
      | succ i =>
          split
          · exact meets_pure ⟨hregistered, rfl⟩
          · have hready' : (dev.status (t.statusReads + i) &&& 2#8 == 0#8) = true := by
              rwa [hreads, Nat.add_assoc, Nat.add_comm 1]
            refine (ih t i hready' (by omega)).weaken fun _ u c'' h => ?_
            exact ⟨h.1.trans hregistered, h.2⟩

/-- There is something to read. -/
theorem isReady_spec (s : Ps2State) (h : c.output ≠ []) :
    OnPs2 s c (ps2PollingWaitUntilIsReady dev) fun _ t c' =>
      t.registered = s.registered ∧ c' = c := by
  unfold ps2PollingWaitUntilIsReady
  rw [show ps2PollTimeout = 999999 + 1 from rfl, ps2PollingWait]
  refine (ps2ReadStatus_spec s c).bind fun v t c' hv => ?_
  obtain ⟨⟨-, -, hregistered⟩, hbit, rfl⟩ := hv
  have hready : ∀ v : Byte, v.getLsbD 0 = true → (v &&& 1#8 != 0#8) = true := by decide
  have hsome : (!c'.output.isEmpty) = true := by
    rw [Bool.not_eq_true', List.isEmpty_eq_false_iff]
    exact h
  rw [if_pos (hready v (hbit.trans hsome))]
  exact meets_pure ⟨hregistered, rfl⟩

variable (patient : dev.Patient)
include patient

theorem sendCommand_ps2_spec (s : Ps2State) (c : Controller) (cmd : Byte) :
    OnPs2 s c (ps2PollingSendCommand dev cmd) fun _ t c' =>
      t.registered = s.registered ∧ c' = c.command cmd := by
  refine (canSend_spec patient s c).bind fun _ t c' h => ?_
  obtain ⟨hregistered, rfl⟩ := h
  refine meets_of_ok rfl rfl fun c'' hc => ⟨hregistered, ?_⟩
  injection hc with hc
  exact hc.symm

theorem sendData_ps2_spec (s : Ps2State) (c : Controller) (data : Byte) :
    OnPs2 s c (ps2PollingSendData dev data) fun _ t c' =>
      t.registered = s.registered ∧ c' = c.data data := by
  refine (canSend_spec patient s c).bind fun _ t c' h => ?_
  obtain ⟨hregistered, rfl⟩ := h
  refine meets_of_ok rfl rfl fun c'' hc => ⟨hregistered, ?_⟩
  injection hc with hc
  exact hc.symm

/-- A byte that is acknowledged. -/
theorem sendAck_spec (s : Ps2State) {c : Controller} (c1 : Controller) {data : Byte}
    {rest : List Byte} (h : c.data data = { c1 with output := acknowledge :: rest }) :
    OnPs2 s c (ps2PollingSendAck dev data) fun _ t c' =>
      t.registered = s.registered ∧ c' = { c1 with output := rest } := by
  refine (sendData_ps2_spec patient s c data).bind fun _ t c' h1 => ?_
  obtain ⟨hregistered, rfl⟩ := h1
  rw [h]
  refine (isReady_spec t (List.cons_ne_nil _ _)).bind fun _ u c' h2 => ?_
  obtain ⟨hregistered2, rfl⟩ := h2
  refine (ps2ReadData_spec u _).bind fun v w c' h3 => ?_
  obtain ⟨hregistered3, hread⟩ := h3
  obtain ⟨rfl, rfl⟩ := (read_cons rfl).mp hread
  exact meets_pure ⟨hregistered3.trans (hregistered2.trans hregistered), rfl⟩

/-- A command with one byte to read, followed by more. -/
theorem query_then {α : Type} {k : Byte → Ps2M α} [∀ v, Appends Ps2State.log (k v)]
    {Q : α → Ps2State → Controller → Prop} {cmd : Byte} (v : Byte) (c1 : Controller)
    (h : c.command cmd = { c1 with output := [v] })
    (hk : ∀ t, t.registered = s.registered → OnPs2 t { c1 with output := [] } (k v) Q) :
    OnPs2 s c (ps2PollingSendCommand dev cmd >>= fun _ => ps2ReadData dev >>= k) Q := by
  refine (sendCommand_ps2_spec patient s c cmd).bind fun _ t c' h1 => ?_
  obtain ⟨hregistered, rfl⟩ := h1
  rw [h]
  refine (ps2ReadData_spec t _).bind fun v' u c' h2 => ?_
  obtain ⟨hregistered2, hread⟩ := h2
  obtain ⟨rfl, rfl⟩ := (read_cons rfl).mp hread
  exact hk u (hregistered2.trans hregistered)

/-- The configuration byte is written. -/
theorem writeConfig_then {α : Type} {x : Ps2M α} [Appends Ps2State.log x]
    {Q : α → Ps2State → Controller → Prop} {v : Byte}
    (hx : ∀ t, t.registered = s.registered →
      OnPs2 t { c.setConfig v with target := .keyboard } x Q) :
    OnPs2 s c (ps2PollingSendCommand dev ps2CommandWriteCfg >>= fun _ =>
      ps2PollingSendData dev v >>= fun _ => x) Q := by
  refine (sendCommand_ps2_spec patient s c _).bind fun _ t c' h1 => ?_
  obtain ⟨hregistered, rfl⟩ := h1
  refine (sendData_ps2_spec patient t _ v).bind fun _ u c' h2 => ?_
  obtain ⟨hregistered2, rfl⟩ := h2
  exact hx u (hregistered2.trans hregistered)

/-! ### The parts of `PS2_init` -/

/-- Nothing is under way; a byte may be left over. -/
structure Quiescent (c : Controller) : Prop where
  target : c.target = .keyboard
  output : c.output.length ≤ 1
  keyboard : c.keyboard.argument = false
  mouse : ∀ m, c.mouse = some m → m.argument = none

omit patient in
/-- Whatever is left over is read. -/
theorem flush_spec (s : Ps2State) (c : Controller) (h : c.output.length ≤ 1) :
    OnPs2 s c (ps2ReadData dev) fun _ t c' =>
      t.registered = s.registered ∧ c' = { c with output := [] } := by
  refine (ps2ReadData_spec s c).weaken fun v t c' hr => ⟨hr.1, ?_⟩
  cases hout : c.output with
  | nil =>
      rw [(read_nil hout).mp hr.2, ← hout]
  | cons b rest =>
      rw [hout] at h
      have hrest : rest = [] := List.length_eq_zero_iff.mp (by simpa using h)
      subst hrest
      exact ((read_cons hout).mp hr.2).2

omit patient in
theorem disabled_config (c : Controller) :
    c.config (c.config (c.config (c.cfg ||| 0x10#8) ||| 0x20#8) &&& ~~~(1#8 <<< 0) &&&
      ~~~(1#8 <<< 6) &&& ~~~(1#8 <<< 4)) = c.cfg &&& 0x8E#8 ||| 0x20#8 := by
  have hbits : ∀ v : Byte,
      (v ||| 0x10#8 ||| 0x20#8) &&& ~~~(1#8 <<< 0) &&& ~~~(1#8 <<< 6) &&& ~~~(1#8 <<< 4) =
          v &&& 0x8E#8 ||| 0x20#8 ∧
        (v ||| 0x10#8 ||| 0x20#8 ||| 0x20#8 ||| 0x20#8) &&& ~~~(1#8 <<< 0) &&&
            ~~~(1#8 <<< 6) &&& ~~~(1#8 <<< 4) ||| 0x20#8 = v &&& 0x8E#8 ||| 0x20#8 := by
    decide
  simp only [Controller.config]
  cases c.mouse.isSome with
  | true => exact (hbits c.cfg).1
  | false => exact (hbits c.cfg).2

set_option synthInstance.maxSize 4000 in
/-- Both ports are stopped, and the first is started again without its interrupt. -/
theorem initController_spec (s : Ps2State) (hq : Quiescent c) :
    OnPs2 s c (ps2InitController dev) fun _ t c' =>
      t.registered = s.registered ∧
        c' = { c with cfg := c.cfg &&& 0x8E#8 ||| 0x20#8, output := [] } := by
  refine (sendCommand_ps2_spec patient s c _).bind fun _ t1 c1 h => ?_
  obtain ⟨hr1, rfl⟩ := h
  refine (sendCommand_ps2_spec patient t1 _ _).bind fun _ t2 c2 h => ?_
  obtain ⟨hr2, rfl⟩ := h
  refine (flush_spec t2 ((c.command ps2CommandDisablePort1).command ps2CommandDisablePort2)
    hq.output).bind fun _ t3 c3 h => ?_
  obtain ⟨hr3, rfl⟩ := h
  refine query_then patient _ _ (by rfl) ?_
  intro t4 hr4
  refine writeConfig_then patient ?_
  intro t5 hr5
  refine query_then patient _ _ (by rfl) ?_
  intro t6 hr6
  refine meets_pure ⟨hr6.trans (hr5.trans (hr4.trans (hr3.trans (hr2.trans hr1)))), ?_⟩
  rw [← disabled_config, ← hq.target]
  rfl

/-- What `PS2_init` finds in the configuration byte once it knows of the second port. -/
def channelConfig (v : Byte) (hasPort2 : Bool) : Byte :=
  if hasPort2 then v &&& 0x8C#8 else v &&& 0x8E#8 ||| 0x20#8

set_option synthInstance.maxSize 4000 in
/-- The second port is found where there is one, and left running without its interrupt. -/
theorem initChannels_spec (s : Ps2State) (v : Byte) (k : KeyboardState)
    (mouse : Option MouseState) :
    OnPs2 s ⟨v &&& 0x8E#8 ||| 0x20#8, [], .keyboard, k, mouse⟩ (ps2InitChannels dev)
      fun r t c' => t.registered = s.registered ∧
        r = (channelConfig v mouse.isSome, mouse.isSome) ∧
        c' = ⟨channelConfig v mouse.isSome, [], .keyboard, k, mouse⟩ := by
  have hfound : ∀ v : Byte, (v &&& 0x8E#8 ||| 0x20#8) &&& 0xDF#8 &&& 32#8 = 0#8 := by decide
  have hwritten : ∀ v : Byte, (v &&& 0x8E#8 ||| 0x20#8) &&& 0xDF#8 &&& ~~~(1#8 <<< 1) &&&
      ~~~(1#8 <<< 5) = v &&& 0x8C#8 := by decide
  have hmissing : ∀ v : Byte, ((v &&& 0x8E#8 ||| 0x20#8) &&& 0xDF#8 ||| 0x20#8 =
      v &&& 0x8E#8 ||| 0x20#8) ∧ (v &&& 0x8E#8 ||| 0x20#8) &&& 32#8 ≠ 0#8 := by decide
  refine (sendCommand_ps2_spec patient s _ _).bind fun _ t1 c1 h => ?_
  obtain ⟨hr1, rfl⟩ := h
  cases mouse with
  | some m =>
      refine query_then patient ((v &&& 0x8E#8 ||| 0x20#8) &&& 0xDF#8)
        ⟨(v &&& 0x8E#8 ||| 0x20#8) &&& 0xDF#8, [], .keyboard, k, some m⟩ (by rfl) ?_
      intro t2 hr2
      rw [if_pos (hfound v)]
      refine (sendCommand_ps2_spec patient t2 _ _).bind fun _ t3 c3 h => ?_
      obtain ⟨hr3, rfl⟩ := h
      refine writeConfig_then patient ?_
      intro t4 hr4
      rw [hwritten]
      exact meets_pure ⟨hr4.trans (hr3.trans (hr2.trans hr1)), rfl, rfl⟩
  | none =>
      refine query_then patient ((v &&& 0x8E#8 ||| 0x20#8) &&& 0xDF#8 ||| 0x20#8)
        ⟨(v &&& 0x8E#8 ||| 0x20#8) &&& 0xDF#8 ||| 0x20#8, [], .keyboard, k, none⟩ (by rfl) ?_
      intro t2 hr2
      rw [(hmissing v).1, if_neg (hmissing v).2]
      exact meets_pure ⟨hr2.trans hr1, rfl, rfl⟩

variable {cfg : Byte} {k : KeyboardState} {mouse : Option MouseState}

set_option synthInstance.maxSize 4000 in
theorem initTests_spec (s : Ps2State) (hasPort2 : Bool) :
    OnPs2 s ⟨cfg, [], .keyboard, k, mouse⟩ (ps2InitTests dev hasPort2) fun _ t c' =>
      t.registered = s.registered ∧ c' = ⟨cfg, [], .keyboard, k, mouse⟩ := by
  refine query_then patient 0#8 ⟨cfg, [], .keyboard, k, mouse⟩ (by rfl) ?_
  intro t1 hr1
  rw [if_neg (by decide)]
  cases hasPort2 with
  | false => exact meets_pure ⟨hr1, rfl⟩
  | true =>
      refine query_then patient 0#8 ⟨cfg, [], .keyboard, k, mouse⟩ (by rfl) ?_
      intro t2 hr2
      exact meets_pure ⟨hr2.trans hr1, rfl⟩

/-- With the clock of the first port running, a byte reaches the keyboard. -/
theorem keyboardAck_spec (s : Ps2State) (hport : cfg.getLsbD 4 = false) {b : Byte}
    (k' : KeyboardState) (rest : List Byte) (h : k.send b = (k', acknowledge :: rest)) :
    OnPs2 s ⟨cfg, [], .keyboard, k, mouse⟩ (ps2PollingSendAck dev b) fun _ t c' =>
      t.registered = s.registered ∧ c' = ⟨cfg, rest, .keyboard, k', mouse⟩ := by
  refine sendAck_spec patient s ⟨cfg, rest, .keyboard, k', mouse⟩ ?_
  rw [data_keyboard rfl (by rw [Controller.port1, hport]; rfl), h]
  rfl

/-- With the clock of the second port running, a byte reaches the mouse. -/
theorem mouseAck_spec (s : Ps2State) (hport : cfg.getLsbD 5 = false) {m m' : MouseState} {b : Byte}
    (rest : List Byte) (h : m.send b = (m', acknowledge :: rest)) :
    OnPs2 s ⟨cfg, [], .mouse, k, some m⟩ (ps2PollingSendAck dev b) fun _ t c' =>
      t.registered = s.registered ∧ c' = ⟨cfg, rest, .keyboard, k, some m'⟩ := by
  refine sendAck_spec patient s ⟨cfg, rest, .keyboard, k, some m'⟩ ?_
  rw [data_mouse rfl rfl (by rw [Controller.port2, hport]; rfl), h]
  rfl

theorem scancodeSet_spec (s : Ps2State) (hport : cfg.getLsbD 4 = false) {set : Byte}
    (hset : set ≠ 0#8) (old : Byte) :
    OnPs2 s ⟨cfg, [], .keyboard, ⟨old, false⟩, mouse⟩ (ps2ScancodeSet dev set) fun _ t c' =>
      t.registered = s.registered ∧ c' = ⟨cfg, [], .keyboard, ⟨set, false⟩, mouse⟩ := by
  refine (keyboardAck_spec patient s hport ⟨old, true⟩ [] rfl).bind
    fun _ t1 c1 h => ?_
  obtain ⟨hr1, rfl⟩ := h
  refine (keyboardAck_spec patient t1 hport ⟨set, false⟩ [] ?_).weaken
    fun _ t2 c2 h => ⟨h.1.trans hr1, h.2⟩
  simp only [KeyboardState.send, if_neg hset, if_true]

/-- Set 0 asks for the set in use. -/
theorem scancodeGet_spec (s : Ps2State) (hport : cfg.getLsbD 4 = false) (set : Byte) :
    OnPs2 s ⟨cfg, [], .keyboard, ⟨set, false⟩, mouse⟩
      (ps2ScancodeSet dev ps2DataKeyboardGetScancode) fun _ t c' =>
        t.registered = s.registered ∧ c' = ⟨cfg, [set], .keyboard, ⟨set, false⟩, mouse⟩ := by
  refine (keyboardAck_spec patient s hport ⟨set, true⟩ [] rfl).bind
    fun _ t1 c1 h => ?_
  obtain ⟨hr1, rfl⟩ := h
  exact (keyboardAck_spec patient t1 hport ⟨set, false⟩ [set] rfl).weaken
    fun _ t2 c2 h => ⟨h.1.trans hr1, h.2⟩

set_option synthInstance.maxSize 4000 in
theorem initScancode_spec (s : Ps2State) (hport : cfg.getLsbD 4 = false) (old : Byte) :
    OnPs2 s ⟨cfg, [], .keyboard, ⟨old, false⟩, mouse⟩ (ps2InitScancode dev) fun _ t c' =>
      t.registered = s.registered ∧ c' = ⟨cfg, [], .keyboard, ⟨2#8, false⟩, mouse⟩ := by
  refine (scancodeSet_spec patient s hport (by decide) old).bind fun _ t1 c1 h => ?_
  obtain ⟨hr1, rfl⟩ := h
  refine (scancodeGet_spec patient t1 hport _).bind fun _ t2 c2 h => ?_
  obtain ⟨hr2, rfl⟩ := h
  refine (ps2ReadData_spec t2 _).bind fun v t3 c3 h => ?_
  obtain ⟨hr3, hread⟩ := h
  obtain ⟨rfl, rfl⟩ := (read_cons rfl).mp hread
  exact meets_pure ⟨hr3.trans (hr2.trans hr1), rfl⟩

/-- A device that passes its self test, and perhaps tells its identity. -/
theorem resetDevice_spec (s : Ps2State) {c : Controller} (c1 : Controller) {id : List Byte}
    (h : c.data ps2DataReset = { c1 with output := acknowledge :: 0xAA#8 :: id })
    (hid : id.length ≤ 1) :
    OnPs2 s c (ps2ResetDevice dev) fun _ t c' =>
      t.registered = s.registered ∧ c' = { c1 with output := [] } := by
  refine (sendAck_spec patient s c1 h).bind fun _ t1 c2 h => ?_
  obtain ⟨hr1, rfl⟩ := h
  refine (ps2ReadData_spec t1 _).bind fun v t2 c3 h => ?_
  obtain ⟨hr2, hread⟩ := h
  obtain ⟨rfl, rfl⟩ := (read_cons rfl).mp hread
  rw [if_neg (by decide)]
  refine (flush_spec t2 { c1 with output := id } hid).bind fun _ t3 c4 h => ?_
  obtain ⟨hr3, rfl⟩ := h
  refine (flush_spec t3 { c1 with output := [] } (Nat.zero_le 1)).bind fun _ t4 c5 h => ?_
  obtain ⟨hr4, rfl⟩ := h
  exact meets_pure ⟨hr4.trans (hr3.trans (hr2.trans hr1)), rfl⟩

/-- A byte for the mouse, and the answer. -/
theorem mouseSend_then {α : Type} {x : Ps2M α} [Appends Ps2State.log x]
    {Q : α → Ps2State → Controller → Prop} (hport : cfg.getLsbD 5 = false) {m : MouseState}
    (m' : MouseState) {b : Byte} (h : m.send b = (m', [acknowledge]))
    (hx : ∀ t, t.registered = s.registered → OnPs2 t ⟨cfg, [], .keyboard, k, some m'⟩ x Q) :
    OnPs2 s ⟨cfg, [], .keyboard, k, some m⟩
      (ps2PollingSendCommand dev ps2CommandWritePort2 >>= fun _ =>
        ps2PollingSendAck dev b >>= fun _ => x) Q := by
  refine (sendCommand_ps2_spec patient s _ _).bind fun _ t1 c1 h1 => ?_
  obtain ⟨hr1, rfl⟩ := h1
  refine (mouseAck_spec patient t1 hport [] h).bind fun _ t2 c2 h2 => ?_
  obtain ⟨hr2, rfl⟩ := h2
  exact hx t2 (hr2.trans hr1)

theorem mouseSend_spec (s : Ps2State) (hport : cfg.getLsbD 5 = false) {m : MouseState}
    (m' : MouseState) {b : Byte} (h : m.send b = (m', [acknowledge])) :
    OnPs2 s ⟨cfg, [], .keyboard, k, some m⟩ (do
      ps2PollingSendCommand dev ps2CommandWritePort2
      ps2PollingSendAck dev b) fun _ t c' =>
        t.registered = s.registered ∧ c' = ⟨cfg, [], .keyboard, k, some m'⟩ := by
  refine (sendCommand_ps2_spec patient s _ _).bind fun _ t1 c1 h1 => ?_
  obtain ⟨hr1, rfl⟩ := h1
  exact (mouseAck_spec patient t1 hport [] h).weaken fun _ t2 c2 h2 => ⟨h2.1.trans hr1, h2.2⟩

theorem mouseSetScaling_spec (s : Ps2State) (hport : cfg.getLsbD 5 = false) {m : MouseState}
    (hm : m.argument = none) :
    OnPs2 s ⟨cfg, [], .keyboard, k, some m⟩ (ps2MouseSetScaling dev 1#8) fun _ t c' =>
      t.registered = s.registered ∧
        c' = ⟨cfg, [], .keyboard, k, some { m with doubleScale := false }⟩ :=
  mouseSend_spec patient s hport _ (b := ps2DataMouseSetScaling11)
    (by rw [MouseState.send, hm]; rfl)

theorem mouseSetResolution_spec (s : Ps2State) (hport : cfg.getLsbD 5 = false) {m : MouseState}
    (hm : m.argument = none) (resolution : Byte) :
    OnPs2 s ⟨cfg, [], .keyboard, k, some m⟩ (ps2MouseSetResolution dev resolution) fun _ t c' =>
      t.registered = s.registered ∧
        c' = ⟨cfg, [], .keyboard, k, some { m with resolution := resolution }⟩ := by
  refine mouseSend_then patient hport { m with argument := some .resolution }
    (b := ps2DataMouseSetResolution) (by rw [MouseState.send, hm]; rfl) ?_
  intro t1 hr1
  refine (mouseSend_spec patient t1 hport _ rfl).weaken fun _ t2 c2 h => ⟨h.1.trans hr1, ?_⟩
  rw [h.2, hm]

theorem mouseSetSampleRate_spec (s : Ps2State) (hport : cfg.getLsbD 5 = false) {m : MouseState}
    (hm : m.argument = none) (rate : Byte) :
    OnPs2 s ⟨cfg, [], .keyboard, k, some m⟩ (ps2MouseSetSampleRate dev rate) fun _ t c' =>
      t.registered = s.registered ∧
        c' = ⟨cfg, [], .keyboard, k, some { m with sampleRate := rate }⟩ := by
  refine mouseSend_then patient hport { m with argument := some .sampleRate }
    (b := ps2DataMouseSetSampleRate) (by rw [MouseState.send, hm]; rfl) ?_
  intro t1 hr1
  refine (mouseSend_spec patient t1 hport _ rfl).weaken fun _ t2 c2 h => ⟨h.1.trans hr1, ?_⟩
  rw [h.2, hm]

/-- The mouse as `PS2_init` leaves it. -/
def ps2Mouse : MouseState where
  doubleScale := false
  resolution := 0#8
  sampleRate := 20#8
  reporting := true
  argument := none

set_option synthInstance.maxSize 4000 in
theorem initDevices_spec (s : Ps2State) (hport1 : cfg.getLsbD 4 = false)
    (hport2 : mouse.isSome = true → cfg.getLsbD 5 = false)
    (hmouse : ∀ m, mouse = some m → m.argument = none) :
    OnPs2 s ⟨cfg, [], .keyboard, ⟨2#8, false⟩, mouse⟩ (ps2InitDevices dev mouse.isSome)
      fun _ t c' => t.registered = s.registered ∧
        c' = ⟨cfg, [], .keyboard, ⟨2#8, false⟩, mouse.map fun _ => ps2Mouse⟩ := by
  have hkeyboard : Controller.data ⟨cfg, [], .keyboard, ⟨2#8, false⟩, mouse⟩ ps2DataReset =
      ⟨cfg, [acknowledge, 0xAA#8], .keyboard, ⟨2#8, false⟩, mouse⟩ := by
    rw [data_keyboard rfl (by rw [Controller.port1, hport1]; rfl)]
    rfl
  refine (resetDevice_spec patient s ⟨cfg, [], .keyboard, ⟨2#8, false⟩, mouse⟩ hkeyboard
    (by decide)).bind fun _ t1 c1 h => ?_
  obtain ⟨hr1, rfl⟩ := h
  cases mouse with
  | none => exact meets_pure ⟨hr1, rfl⟩
  | some m =>
      refine (sendCommand_ps2_spec patient t1 _ _).bind fun _ t2 c2 h => ?_
      obtain ⟨hr2, rfl⟩ := h
      have hreset : Controller.data ⟨cfg, [], .mouse, ⟨2#8, false⟩, some m⟩ ps2DataReset =
          ⟨cfg, [acknowledge, 0xAA#8, 0#8], .keyboard, ⟨2#8, false⟩, some MouseState.reset⟩ := by
        rw [data_mouse rfl rfl (by rw [Controller.port2, hport2 rfl]; rfl), MouseState.send,
          hmouse m rfl]
        rfl
      refine (resetDevice_spec patient t2 ⟨cfg, [], .keyboard, ⟨2#8, false⟩, some MouseState.reset⟩
        hreset (by decide)).bind fun _ t3 c3 h => ?_
      obtain ⟨hr3, rfl⟩ := h
      refine (mouseSetScaling_spec patient t3 (hport2 rfl) rfl).bind fun _ t4 c4 h => ?_
      obtain ⟨hr4, rfl⟩ := h
      refine (mouseSetResolution_spec patient t4 (hport2 rfl) rfl 0#8).bind fun _ t5 c5 h => ?_
      obtain ⟨hr5, rfl⟩ := h
      refine (mouseSetSampleRate_spec patient t5 (hport2 rfl) rfl 20#8).bind fun _ t6 c6 h => ?_
      obtain ⟨hr6, rfl⟩ := h
      refine (mouseSend_spec patient t6 (hport2 rfl) ps2Mouse rfl).weaken
        fun _ t7 c7 h => ⟨?_, h.2⟩
      exact h.1.trans (hr6.trans (hr5.trans (hr4.trans (hr3.trans (hr2.trans hr1)))))

/-- Both clocks run, the second port's only where there is one, and so do the interrupts. -/
def runningConfig (v : Byte) (hasPort2 : Bool) : Byte :=
  if hasPort2 then v &&& 0x8C#8 ||| 3#8 else v &&& 0x8E#8 ||| 0x21#8

def ps2Handlers (hasPort2 : Bool) : List (Byte × Ps2Handler) :=
  (irqKeyboard, .keyboardHandlerScancode) :: if hasPort2 then [(irqAux, .mouseHandler)] else []

omit patient in
theorem register_spec (s : Ps2State) (c : Controller) (irq : Byte) (handler : Ps2Handler) :
    OnPs2 s c (ps2Register irq handler) fun _ t c' =>
      t.registered = s.registered ++ [(irq, handler)] ∧ c' = c :=
  meets_of_quiet rfl rfl ⟨rfl, rfl⟩

set_option synthInstance.maxSize 4000 in
theorem initEnable_spec (s : Ps2State) (v : Byte) {hasPort2 : Bool}
    (hmouse : mouse.isSome = hasPort2) :
    OnPs2 s ⟨channelConfig v hasPort2, [], .keyboard, k, mouse⟩
      (ps2InitEnable dev (channelConfig v hasPort2) hasPort2) fun _ t c' =>
        t.registered = s.registered ++ ps2Handlers hasPort2 ∧
          c' = ⟨runningConfig v hasPort2, [], .keyboard, k, mouse⟩ := by
  subst hmouse
  have hwith : ∀ v : Byte, v &&& 0x8C#8 ||| 1#8 <<< 0 ||| 1#8 <<< 1 = v &&& 0x8C#8 ||| 3#8 := by
    decide
  have hwithout : ∀ v : Byte, v &&& 0x8E#8 ||| 0x20#8 ||| 1#8 <<< 0 ||| 0x20#8 =
      v &&& 0x8E#8 ||| 0x21#8 := by decide
  refine (sendCommand_ps2_spec patient s _ _).bind fun _ t1 c1 h => ?_
  obtain ⟨hr1, rfl⟩ := h
  cases mouse with
  | none =>
      refine meets_pure_bind (writeConfig_then patient ?_)
      intro t3 hr3
      refine (register_spec t3 _ _ _).bind fun _ t4 c4 h => ?_
      obtain ⟨hr4, rfl⟩ := h
      refine meets_pure ⟨by rw [hr4, hr3, hr1]; rfl, ?_⟩
      rw [runningConfig, if_neg (by decide), ← hwithout]
      rfl
  | some m =>
      refine (sendCommand_ps2_spec patient t1 _ _).bind fun _ t2 c2 h => ?_
      obtain ⟨hr2, rfl⟩ := h
      refine meets_pure_bind (writeConfig_then patient ?_)
      intro t3 hr3
      refine (register_spec t3 _ _ _).bind fun _ t4 c4 h => ?_
      obtain ⟨hr4, rfl⟩ := h
      refine (register_spec t4 _ _ _).weaken fun _ t5 c5 h => ⟨?_, ?_⟩
      · rw [h.1, hr4, hr3, hr2, hr1, List.append_assoc]
        rfl
      · rw [h.2, runningConfig, if_pos Option.isSome_some, ← hwith]
        rfl

omit patient in
theorem channelConfig_ports (v : Byte) (hasPort2 : Bool) :
    (channelConfig v hasPort2).getLsbD 4 = false ∧
      (hasPort2 = true → (channelConfig v hasPort2).getLsbD 5 = false) := by
  have hwith : ∀ v : Byte, (v &&& 0x8C#8).getLsbD 4 = false ∧
      (v &&& 0x8C#8).getLsbD 5 = false := by decide
  have hwithout : ∀ v : Byte, (v &&& 0x8E#8 ||| 0x20#8).getLsbD 4 = false := by decide
  cases hasPort2 with
  | false => exact ⟨hwithout v, fun h => nomatch h⟩
  | true => exact ⟨(hwith v).1, fun _ => (hwith v).2⟩

set_option synthInstance.maxSize 4000 in
theorem init_ps2_spec (s : Ps2State) (hq : Quiescent c) :
    OnPs2 s c (ps2Init dev) fun _ t c' =>
      t.registered = s.registered ++ ps2Handlers c.mouse.isSome ∧
        c' = ⟨runningConfig c.cfg c.mouse.isSome, [], .keyboard, ⟨2#8, false⟩,
          c.mouse.map fun _ => ps2Mouse⟩ := by
  obtain ⟨cfg, output, target, ⟨set, argument⟩, mouse⟩ := c
  obtain ⟨rfl, -, rfl, hmouse⟩ := id hq
  obtain ⟨hport1, hport2⟩ := channelConfig_ports cfg mouse.isSome
  refine (initController_spec patient s hq).bind fun _ t1 c1 h => ?_
  obtain ⟨hr1, rfl⟩ := h
  refine (initChannels_spec patient t1 cfg ⟨set, false⟩ mouse).bind fun r t2 c2 h => ?_
  obtain ⟨hr2, rfl, rfl⟩ := h
  refine (initTests_spec patient t2 mouse.isSome).bind fun _ t3 c3 h => ?_
  obtain ⟨hr3, rfl⟩ := h
  refine (initScancode_spec patient t3 hport1 set).bind fun _ t4 c4 h => ?_
  obtain ⟨hr4, rfl⟩ := h
  refine (initDevices_spec patient t4 hport1 hport2 hmouse).bind fun _ t5 c5 h => ?_
  obtain ⟨hr5, rfl⟩ := h
  refine (initEnable_spec patient t5 cfg Option.isSome_map).weaken fun _ t6 c6 h => ⟨?_, h.2⟩
  rw [h.1, hr5, hr4, hr3, hr2, hr1]

/-! ### The main result -/

variable {es : List Ps2Event} {c' : Controller}

/-- `PS2_init` returns and has emptied the output of the controller; the ports that there are
run with their interrupts and have their handlers, the keyboard uses scancode set 2 and the
mouse, where there is one, reports. -/
theorem ps2_init_configures (hq : Quiescent c) (hnone : s.registered = [])
    (log : (finalState ((ps2Init dev).run s)).log = s.log ++ es)
    (takesPart : run ps2Step c es = some c') :
    (∃ t, (ps2Init dev).run s = .ok () t ∧ t.registered = ps2Handlers c.mouse.isSome) ∧
      c' = ⟨runningConfig c.cfg c.mouse.isSome, [], .keyboard, ⟨2#8, false⟩,
        c.mouse.map fun _ => ps2Mouse⟩ := by
  obtain ⟨_, t, hrun, hregistered, hc'⟩ := init_ps2_spec patient s hq es c' log takesPart
  rw [hnone, List.nil_append] at hregistered
  exact ⟨⟨t, hrun, hregistered⟩, hc'⟩

omit patient

/-- A key was pressed before the start, and a mouse is there. -/
def mousePresent : Controller :=
  ⟨0x47#8, [0x1E#8], .keyboard, ⟨2#8, false⟩, some MouseState.reset⟩

def mouseAnswers : Ps2Device where
  status n := if [0, 1, 14, 16, 18, 20, 22, 25, 28, 31, 34, 37, 40, 43].contains n then 1#8 else 0#8
  data n := [0x1E#8, 0x77#8, 0x55#8, 6#8, 0#8, 0#8, 0xFA#8, 0xFA#8, 0xFA#8, 0xFA#8, 2#8, 0xFA#8,
    0xAA#8, 0#8, 0#8, 0xFA#8, 0xAA#8, 0#8, 0#8].getD n 0xFA#8

theorem mouseAnswers_patient : mouseAnswers.Patient := by
  refine fun n => ⟨0, by decide, ?_⟩
  change ((if _ then 1#8 else 0#8) &&& 2#8 == 0#8) = true
  split <;> rfl

theorem mousePresent_quiescent : Quiescent mousePresent where
  target := rfl
  output := by decide
  keyboard := rfl
  mouse := by
    rintro m ⟨⟩
    rfl

theorem ps2_init_configures_mouse : ∃ t, (ps2Init mouseAnswers).run ps2Start = .ok () t ∧
    t.registered = [(irqKeyboard, .keyboardHandlerScancode), (irqAux, .mouseHandler)] := by
  obtain ⟨c', hc'⟩ := Option.isSome_iff_exists.mp (by decide +kernel : (run ps2Step mousePresent
    (finalState ((ps2Init mouseAnswers).run ps2Start)).log).isSome = true)
  exact (ps2_init_configures (s := ps2Start) mouseAnswers_patient mousePresent_quiescent rfl
    (List.nil_append _).symm hc').1

end

end Bros
