import Bros.Lib.Dma8237
import Bros.Lib.Memory
import Mathlib.Data.List.GetD
import Mathlib.Data.List.Induction

/-!
A 82077 floppy disk controller with the DMA controller and the memory behind it.

The processor writes commands byte by byte, waits for an interrupt and reads results. What a
register shows is a condition on the reading, so that `readDr` and `takeIrq` are partial. A
command is carried out as soon as its last byte is there. Commands other than the five below
count as invalid, and times, overruns and the density of a disk are left out.
-/

namespace Fdc82077
open ByteMemory Dma8237

/-- The 512 bytes of each sector: drive, cylinder, head, sector number. -/
abbrev Media := Nat → Nat → Nat → Nat → Option (Nat → Byte)

/-- A result byte that the chip's description leaves open is `none`. -/
inductive Phase where
  | command (bytes : List Byte)
  | transfer (data : List Byte) (results : List (Option Byte))
  | result (bytes : List (Option Byte))

/-- `finished` holds the drives that `SENSE INTERRUPT` has still to report, with their status.
`irq` is set by an interrupt and stays until the processor has waited for it. -/
structure System where
  dor : Byte
  nonDma : Bool
  cylinder : Nat → Byte
  phase : Phase
  finished : List (Nat × Byte)
  irq : Bool
  dma : Controller
  mem : Mem

inductive Opcode where
  | specify
  | read
  | recalibrate
  | senseInterrupt
  | seek
  | invalid
deriving DecidableEq

/-- Three bits of a read are options. -/
def opcode (b : Byte) : Opcode :=
  if b = 3#8 then .specify
  else if b = 7#8 then .recalibrate
  else if b = 8#8 then .senseInterrupt
  else if b = 15#8 then .seek
  else if b.toNat % 32 = 6 then .read
  else .invalid

def Opcode.length : Opcode → Nat
  | .specify => 3
  | .read => 9
  | .recalibrate => 2
  | .senseInterrupt => 1
  | .seek => 3
  | .invalid => 1

/-- The command byte at `i`. -/
def arg (bytes : List Byte) (i : Nat) : Byte := bytes.getD i 0#8

def System.enabled (w : System) : Bool := w.dor.getLsbD 2

/-- The digital output register connects the interrupt and the DMA request. -/
def System.gate (w : System) : Bool := w.dor.getLsbD 3

def System.interrupt (w : System) : System := { w with irq := w.irq || w.gate }

/-- The drive is selected and its motor on. -/
def System.spinning (w : System) (drive : Nat) : Bool :=
  w.dor.toNat % 4 == drive && w.dor.getLsbD (4 + drive)

/-! ### Reading a track -/

/-- Heads and sectors from `sector` on; a multi-track read goes on under the other head. -/
def positions (multiTrack : Bool) (head sector last : Nat) : List (Nat × Nat) :=
  (List.range' sector (last - sector + 1)).map (Prod.mk head) ++
    if multiTrack && head == 0 then (List.range' 1 last).map (Prod.mk 1) else []

/-- The bytes of the sectors in order, up to the first that is missing. -/
def Media.bytes (media : Media) (drive cylinder : Nat) : List (Nat × Nat) → List Byte
  | [] => []
  | (head, sector) :: rest =>
      match media drive cylinder head sector with
      | some data => (List.range 512).map data ++ Media.bytes media drive cylinder rest
      | none => []

/-- What a read command finds: the arm has to be at the cylinder, the selected head is the
one asked for, and sectors have 512 bytes. -/
def System.found (media : Media) (w : System) (cmd : List Byte) : List Byte :=
  let drive := (arg cmd 1).toNat % 4
  if w.spinning drive && w.cylinder drive == arg cmd 2 &&
      (arg cmd 1).toNat / 4 % 2 == (arg cmd 3).toNat && (arg cmd 0).getLsbD 6 &&
      arg cmd 5 == 2#8 then
    media.bytes drive (arg cmd 2).toNat (positions ((arg cmd 0).getLsbD 7) (arg cmd 3).toNat
      (arg cmd 4).toNat (arg cmd 6).toNat)
  else []

/-- The channel stores the bytes of `data` one after the other. -/
def fill (ch : Channel) (m : Mem) (data : List Byte) : Mem :=
  data.zipIdx.foldl (fun m p => store8 m (ch.byteAddress p.2) p.1) m

def floppyChannel : Fin 4 := ⟨2, by decide⟩

def System.channel (w : System) : Channel := w.dma.channel floppyChannel

/-- The DMA controller answers a request of the floppy disk controller. -/
def System.served (w : System) : Bool :=
  w.gate && !w.channel.masked && w.channel.transferType == .deviceToMemory

/-- Result bytes of a read, whose termination is normal or not. -/
def readResults (normal : Bool) (cmd : List Byte) : List (Option Byte) :=
  if normal then [some (arg cmd 1 &&& 7#8), some 0#8, some 0#8, none, none, none, none]
  else [some (0x40#8 ||| arg cmd 1 &&& 7#8), none, none, none, none, none, none]

def enterTransfer (data : List Byte) (results : List (Option Byte)) : Phase :=
  if data = [] then .result results else .transfer data results

/-- A transfer by DMA ends when the channel has counted down; otherwise the processor takes
the bytes, each announced by an interrupt. -/
def System.read (media : Media) (w : System) (cmd : List Byte) : System :=
  let data := w.found media cmd
  if w.nonDma then
    { w with phase := enterTransfer data (readResults false cmd) }.interrupt
  else if w.served then
    let n := min data.length w.channel.length
    { w with
      mem := fill w.channel w.mem (data.take n)
      dma := w.dma.update floppyChannel fun ch => ch.after n
      phase := .result (readResults (n == w.channel.length) cmd) }.interrupt
  else { w with phase := .result (readResults false cmd) }.interrupt

/-! ### Commands -/

/-- The arm of a drive has moved. -/
def System.moved (w : System) (drive : Nat) (cylinder status : Byte) : System :=
  { w with
    cylinder := fun k => if k = drive then cylinder else w.cylinder k
    finished := w.finished ++ [(drive, status)]
    phase := .command [] }.interrupt

def System.sense (w : System) : System :=
  match w.finished with
  | [] => { w with phase := .result [some 0x80#8] }
  | d :: rest =>
      { w with finished := rest, phase := .result [some d.2, some (w.cylinder d.1)] }

def System.execute (media : Media) (w : System) (cmd : List Byte) : System :=
  match opcode (arg cmd 0) with
  | .specify => { w with nonDma := (arg cmd 2).getLsbD 0, phase := .command [] }
  | .read => w.read media cmd
  | .recalibrate => w.moved ((arg cmd 1).toNat % 4) 0#8 (0x20#8 ||| arg cmd 1 &&& 3#8)
  | .senseInterrupt => w.sense
  | .seek => w.moved ((arg cmd 1).toNat % 4) (arg cmd 2) (0x20#8 ||| arg cmd 1 &&& 7#8)
  | .invalid => { w with phase := .result [some 0x80#8] }

/-! ### The ports -/

def resetStatus (drive : Nat) : Nat × Byte := (drive, BitVec.ofNat 8 (0xC0 + drive))

/-- Bit 2 clear holds the controller in reset; it leaves it with an interrupt and has then
something to report for every drive. -/
def System.writeDor (w : System) (v : Byte) : System :=
  if v.getLsbD 2 then
    if w.enabled then { w with dor := v }
    else { w with dor := v, finished := (List.range 4).map resetStatus }.interrupt
  else { w with dor := v, phase := .command [], finished := [] }

/-- A byte of a command; the chip ignores what comes while it has bytes to deliver. -/
def System.writeDr (media : Media) (w : System) (v : Byte) : System :=
  match w.phase with
  | .command bytes =>
      if w.enabled then
        if (bytes ++ [v]).length = (opcode (arg (bytes ++ [v]) 0)).length then
          w.execute media (bytes ++ [v])
        else { w with phase := .command (bytes ++ [v]) }
      else w
  | _ => w

def dorPort : BitVec 16 := 0x3F2#16

def drPort : BitVec 16 := 0x3F5#16

def System.outb (media : Media) (w : System) (port : BitVec 16) (v : Byte) : System :=
  if port = dorPort then w.writeDor v
  else if port = drPort then w.writeDr media v
  else { w with dma := w.dma.portWrite (port, v) }

/-- The data register shows `v`; outside a delivery it may show anything. -/
def System.readDr (w : System) (v : Byte) : Option System :=
  match w.phase with
  | .command _ => some w
  | .transfer data results =>
      match data with
      | [] => none
      | b :: rest =>
          if v = b then some { w with phase := enterTransfer rest results }.interrupt else none
  | .result bytes =>
      match bytes with
      | [] => none
      | b :: rest =>
          if b.getD v = v then
            some { w with phase := if rest = [] then .command [] else .result rest }
          else none

def System.takeIrq (w : System) : Option System :=
  if w.irq then some { w with irq := false } else none

/-- The controller leaves its reset. -/
theorem writeDor_of_reset {w : System} {v : Byte} (hset : v.getLsbD 2 = true)
    (hreset : w.enabled = false) :
    w.writeDor v =
      ({ w with dor := v, finished := (List.range 4).map resetStatus } : System).interrupt := by
  rw [System.writeDor, if_pos hset, if_neg (Bool.eq_false_iff.mp hreset)]

section
variable {w w' : System} {v : Byte}

theorem readDr_command {bytes : List Byte} (h : w.phase = .command bytes) :
    w.readDr v = some w' ↔ w' = w := by
  simp only [System.readDr, h, Option.some.injEq, eq_comm]

theorem readDr_result {b : Option Byte} {rest : List (Option Byte)}
    (h : w.phase = .result (b :: rest)) :
    w.readDr v = some w' ↔
      b.getD v = v ∧ w' = { w with phase := if rest = [] then .command [] else .result rest } := by
  simp only [System.readDr, h, Option.ite_none_right_eq_some, Option.some.injEq,
    eq_comm (b := w')]

theorem readDr_transfer {b : Byte} {rest : List Byte} {results : List (Option Byte)}
    (h : w.phase = .transfer (b :: rest) results) :
    w.readDr v = some w' ↔
      v = b ∧ w' = ({ w with phase := enterTransfer rest results } : System).interrupt := by
  simp only [System.readDr, h, Option.ite_none_right_eq_some, Option.some.injEq,
    eq_comm (b := w')]

end

/-! ### Commands as a whole -/

/-- Nothing is under way. -/
structure System.Idle (w : System) : Prop where
  enabled : w.enabled = true
  phase : w.phase = .command []
  finished : w.finished = []
  irq : w.irq = false

section
variable (media : Media) {w : System} {cmd : List Byte}

/-- A command depends on nothing of the phase in which its last byte comes. -/
theorem execute_phase (p : Phase) :
    ({ w with phase := p } : System).execute media cmd = w.execute media cmd := by
  cases hop : opcode (arg cmd 0) with
  | senseInterrupt =>
      simp only [System.execute, hop, System.sense]
  | read =>
      simp only [System.execute, hop, System.read]
      rfl
  | specify => simp only [System.execute, hop]
  | recalibrate => simp only [System.execute, hop]; rfl
  | seek => simp only [System.execute, hop]; rfl
  | invalid => simp only [System.execute, hop]

/-- Bytes of a command behind the ones that are there. -/
theorem foldl_writeDr {before rest : List Byte} (hen : w.enabled = true)
    (hphase : w.phase = .command before) (hne : rest ≠ [])
    (hlen : (before ++ rest).length = (opcode (arg (before ++ rest) 0)).length) :
    rest.foldl (System.writeDr media) w = w.execute media (before ++ rest) := by
  induction rest generalizing before w with
  | nil => exact absurd rfl hne
  | cons v rest ih =>
      have harg : arg (before ++ [v]) 0 = arg (before ++ v :: rest) 0 := by
        cases before <;> rfl
      rw [List.foldl_cons]
      by_cases hrest : rest = []
      · subst hrest
        simp only [System.writeDr, hphase, hen, if_true, hlen, List.foldl_nil]
      · have hpos : 0 < rest.length := List.length_pos_iff.mpr hrest
        have hshort : (before ++ [v]).length ≠ (opcode (arg (before ++ [v]) 0)).length := by
          rw [harg, ← hlen]
          simp only [List.length_append, List.length_cons, List.length_nil]
          omega
        simp only [System.writeDr, hphase, hen, if_true, hshort, if_false]
        have hsplit : before ++ v :: rest = before ++ [v] ++ rest := by simp
        rw [hsplit] at hlen ⊢
        rw [ih (w := { w with phase := .command (before ++ [v]) }) hen rfl hrest hlen,
          execute_phase media]

theorem foldl_writeDr_command (hen : w.enabled = true) (hphase : w.phase = .command [])
    (hne : cmd ≠ []) (hlen : cmd.length = (opcode (arg cmd 0)).length) :
    cmd.foldl (System.writeDr media) w = w.execute media cmd :=
  foldl_writeDr media hen hphase hne hlen

end

theorem sense_of_nil {w : System} (h : w.finished = []) :
    w.sense = { w with phase := .result [some 0x80#8] } := by
  simp only [System.sense, h]

theorem sense_of_cons {w : System} {d : Nat × Byte} {rest : List (Nat × Byte)}
    (h : w.finished = d :: rest) :
    w.sense = { w with finished := rest, phase := .result [some d.2, some (w.cylinder d.1)] } := by
  simp only [System.sense, h]

/-- The arm of a drive is at a cylinder, and everybody knows. -/
def System.atCylinder (w : System) (drive : Nat) (cyl : Byte) : System :=
  { w with cylinder := fun k => if k = drive then cyl else w.cylinder k, irq := false }

@[simp] theorem atCylinder_cylinder (w : System) (drive : Nat) (cyl : Byte) :
    (w.atCylinder drive cyl).cylinder drive = cyl := if_pos rfl

theorem System.Idle.atCylinder {w : System} (h : w.Idle) (drive : Nat) (cyl : Byte) :
    (w.atCylinder drive cyl).Idle := ⟨h.enabled, h.phase, h.finished, rfl⟩

/-! ### What DMA stores -/

theorem fill_append (ch : Channel) (m : Mem) (data : List Byte) (b : Byte) :
    fill ch m (data ++ [b]) = store8 (fill ch m data) (ch.byteAddress data.length) b := by
  rw [fill, List.zipIdx_append, List.foldl_append]
  simp only [List.zipIdx_singleton, List.foldl_cons, List.foldl_nil, Nat.zero_add]
  rfl

/-- Bytes that go to consecutive addresses. -/
theorem fill_consecutive {ch : Channel} {a : Nat} (m : Mem) {data : List Byte}
    (h : ∀ i < data.length, ch.byteAddress i = a + i) :
    fill ch m data = write m a data.length fun i => data.getD i 0#8 := by
  induction data using List.reverseRecOn with
  | nil =>
      rw [List.length_nil, write_zero]
      rfl
  | append_singleton data b ih =>
      have hlen : (data ++ [b]).length = data.length + 1 := by
        rw [List.length_append, List.length_singleton]
      rw [hlen] at h ⊢
      rw [fill_append, ih fun i hi => h i (by omega), h _ (Nat.lt_succ_self _)]
      funext c
      by_cases hlast : c = a + data.length
      · subst hlast
        rw [store8, write_inside _ _ ⟨Nat.le_refl _, by omega⟩,
          write_inside _ _ ⟨by omega, by omega⟩, Nat.add_sub_cancel_left,
          List.getD_append_right _ _ _ _ (Nat.le_refl _), Nat.sub_self]
        rfl
      · rw [store8, write_outside _ _ (by omega)]
        by_cases hin : a ≤ c ∧ c < a + data.length
        · rw [write_inside _ _ hin, write_inside _ _ ⟨hin.1, by omega⟩,
            List.getD_append _ _ _ _ (by omega)]
        · rw [write_outside _ _ (by omega), write_outside _ _ (by omega)]

theorem positions_cons (multiTrack : Bool) (head sector last : Nat) :
    ∃ rest, positions multiTrack head sector last = (head, sector) :: rest := ⟨_, rfl⟩

theorem length_readResults (normal : Bool) (cmd : List Byte) :
    (readResults normal cmd).length = 7 := by
  cases normal <;> rfl

/-- A read that the DMA controller answers. -/
theorem read_served (media : Media) {w : System} (hdma : w.nonDma = false)
    (hserved : w.served = true) (cmd : List Byte) :
    ∃ d results, results.length = 7 ∧
      w.read media cmd =
        { w with
          mem := fill w.channel w.mem ((w.found media cmd).take
            (min (w.found media cmd).length w.channel.length))
          dma := d
          phase := .result results
          irq := true } := by
  have hgate : w.gate = true := by
    simp only [System.served, Bool.and_eq_true] at hserved
    exact hserved.1.1
  refine ⟨w.dma.update floppyChannel fun ch =>
    ch.after (min (w.found media cmd).length w.channel.length), _,
    length_readResults (min (w.found media cmd).length w.channel.length == w.channel.length) cmd,
    ?_⟩
  have hirq : (w.irq || w.gate) = true := by rw [hgate, Bool.or_true]
  rw [← hirq]
  simp only [System.read, hdma, hserved]
  rfl

/-- A read whose bytes the processor has to take. -/
theorem read_nonDma {media : Media} {w : System} (hdma : w.nonDma = true) (cmd : List Byte) :
    w.read media cmd =
      ({ w with phase := enterTransfer (w.found media cmd) (readResults false cmd) } :
        System).interrupt := by
  simp only [System.read, hdma, if_true]

end Fdc82077
