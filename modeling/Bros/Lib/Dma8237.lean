import Mathlib.Tactic.Common
import Mathlib.Algebra.Group.Nat.Defs

/-!
The 8237 DMA controller of a PC, with its page registers.

The 16-bit registers of a channel are written in two bytes through one port; a flip-flop
shared by all channels says which byte comes next. A transfer counts its address inside
the 64 KiB that the page register selects.
-/

namespace Dma8237

structure Channel where
  address : BitVec 16
  count : BitVec 16
  page : BitVec 8
  mode : BitVec 8
  masked : Bool

/-- `flipFlop` is set when the next byte is a high byte. -/
structure Controller where
  channel : Fin 4 → Channel
  flipFlop : Bool

inductive Register where
  | address (c : Fin 4)
  | count (c : Fin 4)
  | page (c : Fin 4)
  | singleMask
  | mode
  | clearFlipFlop
  | clearMask
deriving DecidableEq

/-- The registers of the first controller; other ports are not its own. -/
def decodePort (port : BitVec 16) : Option Register :=
  match port.toNat with
  | 0x00 => some (.address 0)
  | 0x01 => some (.count 0)
  | 0x02 => some (.address 1)
  | 0x03 => some (.count 1)
  | 0x04 => some (.address 2)
  | 0x05 => some (.count 2)
  | 0x06 => some (.address 3)
  | 0x07 => some (.count 3)
  | 0x0A => some .singleMask
  | 0x0B => some .mode
  | 0x0C => some .clearFlipFlop
  | 0x0E => some .clearMask
  | 0x81 => some (.page 2)
  | 0x82 => some (.page 3)
  | 0x83 => some (.page 1)
  | 0x87 => some (.page 0)
  | _ => none

/-- The channel a mask or mode byte selects by its low bits. -/
def selected (v : BitVec 8) : Fin 4 := ⟨v.toNat % 4, Nat.mod_lt _ (by decide)⟩

def Controller.update (d : Controller) (c : Fin 4) (f : Channel → Channel) : Controller :=
  { d with channel := fun k => if k = c then f (d.channel k) else d.channel k }

/-- One byte of a 16-bit register. -/
def latch (high : Bool) (old : BitVec 16) (v : BitVec 8) : BitVec 16 :=
  if high then v ++ old.setWidth 8 else (old >>> 8).setWidth 8 ++ v

def Controller.toggle (d : Controller) : Controller := { d with flipFlop := !d.flipFlop }

def Controller.write (d : Controller) (r : Register) (v : BitVec 8) : Controller :=
  match r with
  | .address c =>
      (d.update c fun ch => { ch with address := latch d.flipFlop ch.address v }).toggle
  | .count c => (d.update c fun ch => { ch with count := latch d.flipFlop ch.count v }).toggle
  | .page c => d.update c fun ch => { ch with page := v }
  | .singleMask => d.update (selected v) fun ch => { ch with masked := v.getLsbD 2 }
  | .mode => d.update (selected v) fun ch => { ch with mode := v }
  | .clearFlipFlop => { d with flipFlop := false }
  | .clearMask => { d with channel := fun k => { d.channel k with masked := false } }

def Controller.portWrite (d : Controller) (w : BitVec 16 × BitVec 8) : Controller :=
  match decodePort w.1 with
  | some r => d.write r w.2
  | none => d

def Controller.run (d : Controller) (ws : List (BitVec 16 × BitVec 8)) : Controller :=
  ws.foldl Controller.portWrite d

/-! ### The programmed transfer -/

inductive TransferType where
  | verify
  | deviceToMemory
  | memoryToDevice
  | illegal
deriving DecidableEq

def Channel.transferType (ch : Channel) : TransferType :=
  match (ch.mode >>> 2).toNat % 4 with
  | 0 => .verify
  | 1 => .deviceToMemory
  | 2 => .memoryToDevice
  | _ => .illegal

inductive ServiceMode where
  | demand
  | single
  | block
  | cascade
deriving DecidableEq

def Channel.serviceMode (ch : Channel) : ServiceMode :=
  match (ch.mode >>> 6).toNat with
  | 0 => .demand
  | 1 => .single
  | 2 => .block
  | _ => .cascade

def Channel.decrements (ch : Channel) : Bool := ch.mode.getLsbD 5

/-- The number of bytes until terminal count. -/
def Channel.length (ch : Channel) : Nat := ch.count.toNat + 1

/-- The address of byte `i`: the counter wraps, the page stays. -/
def Channel.byteAddress (ch : Channel) (i : Nat) : Nat :=
  let offset := BitVec.ofNat 16 i
  2 ^ 16 * ch.page.toNat +
    (if ch.decrements then ch.address - offset else ch.address + offset).toNat

def Channel.autoInit (ch : Channel) : Bool := ch.mode.getLsbD 4

/-- The channel when it has transferred `n` bytes. At terminal count it is masked, or made
ready for the same transfer again. -/
def Channel.after (ch : Channel) (n : Nat) : Channel :=
  if n = ch.length ∧ ch.autoInit = true then ch
  else
    { ch with
      address :=
        if ch.decrements then ch.address - BitVec.ofNat 16 n else ch.address + BitVec.ofNat 16 n
      count := ch.count - BitVec.ofNat 16 n
      masked := ch.masked || n == ch.length }

/-! ### Writes in sequence -/

@[simp] theorem run_nil (d : Controller) : d.run [] = d := rfl

@[simp] theorem run_cons (d : Controller) (w : BitVec 16 × BitVec 8)
    (ws : List (BitVec 16 × BitVec 8)) : d.run (w :: ws) = (d.portWrite w).run ws := rfl

theorem portWrite_of_decode {d : Controller} {port : BitVec 16} {v : BitVec 8} {r : Register}
    (h : decodePort port = some r) : d.portWrite (port, v) = d.write r v := by
  simp only [Controller.portWrite, h]

@[simp] theorem update_channel_self (d : Controller) (c : Fin 4) (f : Channel → Channel) :
    (d.update c f).channel c = f (d.channel c) := if_pos rfl

@[simp] theorem update_flipFlop (d : Controller) (c : Fin 4) (f : Channel → Channel) :
    (d.update c f).flipFlop = d.flipFlop := rfl

@[simp] theorem toggle_channel (d : Controller) : d.toggle.channel = d.channel := rfl

@[simp] theorem toggle_flipFlop (d : Controller) : d.toggle.flipFlop = !d.flipFlop := rfl

/-- A low byte and then a high byte make the word, whatever was there. -/
theorem latch_word (old : BitVec 16) (low high : BitVec 8) :
    latch true (latch false old low) high = high ++ low := by
  have hlow : (latch false old low).setWidth 8 = low := BitVec.setWidth_append_eq_right
  rw [latch, if_pos rfl, hlow]

/-- A cleared flip-flop and two writes to the address port. -/
theorem write_address_word (d : Controller) (c : Fin 4) (v low high : BitVec 8) :
    let d' := ((d.write .clearFlipFlop v).write (.address c) low).write (.address c) high
    d'.channel c = { d.channel c with address := high ++ low } ∧ d'.flipFlop = false := by
  refine ⟨?_, rfl⟩
  simp only [Controller.write, toggle_channel, update_channel_self, toggle_flipFlop,
    update_flipFlop, Bool.not_false, latch_word]

theorem write_count_word (d : Controller) (c : Fin 4) (v low high : BitVec 8) :
    let d' := ((d.write .clearFlipFlop v).write (.count c) low).write (.count c) high
    d'.channel c = { d.channel c with count := high ++ low } ∧ d'.flipFlop = false := by
  refine ⟨?_, rfl⟩
  simp only [Controller.write, toggle_channel, update_channel_self, toggle_flipFlop,
    update_flipFlop, Bool.not_false, latch_word]

@[simp] theorem write_page_channel (d : Controller) (c : Fin 4) (v : BitVec 8) :
    (d.write (.page c) v).channel c = { d.channel c with page := v } := by
  simp only [Controller.write, update_channel_self]

theorem write_singleMask_channel (d : Controller) {c : Fin 4} {v : BitVec 8}
    (h : selected v = c) :
    (d.write .singleMask v).channel c = { d.channel c with masked := v.getLsbD 2 } := by
  subst h
  simp only [Controller.write, update_channel_self]

theorem write_mode_channel (d : Controller) {c : Fin 4} {v : BitVec 8} (h : selected v = c) :
    (d.write .mode v).channel c = { d.channel c with mode := v } := by
  subst h
  simp only [Controller.write, update_channel_self]

/-- An incrementing transfer of `n` bytes reads consecutive addresses exactly when the
first one is the wanted one and the counter does not wrap. -/
theorem byteAddress_consecutive_iff {ch : Channel} (hinc : ch.decrements = false) {a n : Nat}
    (hn : 0 < n) (hn' : n ≤ 2 ^ 16) :
    (∀ i < n, ch.byteAddress i = a + i) ↔
      2 ^ 16 * ch.page.toNat + ch.address.toNat = a ∧ ch.address.toNat + (n - 1) < 2 ^ 16 := by
  have hlt := ch.address.isLt
  have haddr (i : Nat) (hi : i < n) :
      ch.byteAddress i = 2 ^ 16 * ch.page.toNat + (ch.address.toNat + i) % 2 ^ 16 := by
    simp only [Channel.byteAddress, hinc, Bool.false_eq_true, if_false, BitVec.toNat_add,
      BitVec.toNat_ofNat, Nat.add_mod_mod]
  constructor
  · intro h
    have hfirst := h 0 hn
    have hlast := h (n - 1) (by omega)
    rw [haddr _ hn] at hfirst
    rw [haddr _ (by omega)] at hlast
    omega
  · intro h i hi
    rw [haddr i hi]
    omega

end Dma8237
