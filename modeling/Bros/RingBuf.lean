import Bros.Lib.Memory
import Bros.Lib.Ring
import Bros.Lib.Runs
import Mathlib.Logic.Function.Basic

/-!
The scancode ring buffer of `drivers/ps2.c`.

The keyboard interrupt pushes while a pop may be half done, so a call of
`_PS2_ring_buf_pop` is three actions of a run and a push may stand between any two of
them. The ghost logs of a run, what was accepted and what was popped, make the buffer a
bounded queue.
-/

namespace Bros
open ByteMemory Runs

def ps2RingBufferSize : Nat := 16

/-- `ring_buf_t`; indices of `buf` from `PS2_RING_BUFFER_SIZE` on are outside the array. -/
structure RingBuf where
  buf : Nat → Byte
  head : Byte
  tail : Byte

def gRingBuf : RingBuf := ⟨fun _ => 0#8, 0#8, 0#8⟩

def ps2RingBufEmpty (r : RingBuf) : Bool := r.head == r.tail

def ps2RingBufFull (r : RingBuf) : Bool :=
  (r.head.toNat + 1) % ps2RingBufferSize == r.tail.toNat

/-- `(i + 1) % PS2_RING_BUFFER_SIZE`, computed as an `int` and stored in a `uint8_t`. -/
def ps2RingBufNext (i : Byte) : Byte := BitVec.ofNat 8 ((i.toNat + 1) % ps2RingBufferSize)

def ps2RingBufPush (r : RingBuf) (scancode : Byte) : RingBuf :=
  if ps2RingBufFull r then r
  else
    { r with
      buf := Function.update r.buf r.head.toNat scancode
      head := ps2RingBufNext r.head }

/-- Where a call of `_PS2_ring_buf_pop` stands. -/
inductive PopState where
  | idle
  | notEmpty
  | loaded (scancode : Byte)

/-- The two early returns of `_PS2_ring_buf_pop`, for `pScancode == NULL` and for an
empty buffer. -/
def ps2RingBufPopTest (r : RingBuf) (pScancodeIsNull : Bool) : PopState :=
  if pScancodeIsNull then .idle
  else if ps2RingBufEmpty r then .idle
  else .notEmpty

/-- `*pScancode = g_ring_buf.buf[g_ring_buf.tail]` -/
def ps2RingBufPopLoad (r : RingBuf) : Byte := r.buf r.tail.toNat

/-- `g_ring_buf.tail = (g_ring_buf.tail + 1) % PS2_RING_BUFFER_SIZE` -/
def ps2RingBufPopStore (r : RingBuf) : RingBuf := { r with tail := ps2RingBufNext r.tail }

/-! ### Interleavings -/

/-- The buffer, the pop in progress, and what has been accepted and popped so far. -/
structure RingWorld where
  ring : RingBuf
  pop : PopState
  accepted : List Byte
  popped : List Byte

inductive RingAct where
  | push (scancode : Byte)
  | popTest (pScancodeIsNull : Bool)
  | popLoad
  | popStore

/-- A push may come at any time; the actions of a pop come in the order of its code. -/
def ringStep (w : RingWorld) : RingAct → Option RingWorld
  | .push scancode =>
      some
        { w with
          ring := ps2RingBufPush w.ring scancode
          accepted := if ps2RingBufFull w.ring then w.accepted else w.accepted ++ [scancode] }
  | .popTest null =>
      match w.pop with
      | .idle => some { w with pop := ps2RingBufPopTest w.ring null }
      | _ => none
  | .popLoad =>
      match w.pop with
      | .notEmpty => some { w with pop := .loaded (ps2RingBufPopLoad w.ring) }
      | _ => none
  | .popStore =>
      match w.pop with
      | .loaded scancode =>
          some
            { w with
              ring := ps2RingBufPopStore w.ring
              pop := .idle
              popped := w.popped ++ [scancode] }
      | _ => none

def ringStart : RingWorld := ⟨gRingBuf, .idle, [], []⟩

/-! ### The queue behind the buffer -/

/-- The bytes between tail and head, oldest first. -/
def RingBuf.unpopped (r : RingBuf) : List Byte :=
  Ring.contents ps2RingBufferSize r.buf r.head.toNat r.tail.toNat

/-- Both indices are inside `buf`. -/
structure RingBuf.InRange (r : RingBuf) : Prop where
  head : r.head.toNat < ps2RingBufferSize
  tail : r.tail.toNat < ps2RingBufferSize

@[simp] theorem toNat_ps2RingBufNext (i : Byte) :
    (ps2RingBufNext i).toNat = Ring.next ps2RingBufferSize i.toNat := by
  have hlt := Ring.next_lt (show 0 < ps2RingBufferSize by decide) i.toNat
  rw [ps2RingBufNext, BitVec.toNat_ofNat]
  exact Nat.mod_eq_of_lt (Nat.lt_trans hlt (by decide))

namespace RingBuf
variable {r : RingBuf}

theorem ps2RingBufFull_iff : ps2RingBufFull r = true ↔
    Ring.next ps2RingBufferSize r.head.toNat = r.tail.toNat := beq_iff_eq

theorem ps2RingBufEmpty_iff : ps2RingBufEmpty r = true ↔ r.head.toNat = r.tail.toNat := by
  rw [ps2RingBufEmpty, beq_iff_eq, BitVec.toNat_eq]

theorem InRange.empty_iff (h : r.InRange) : ps2RingBufEmpty r = true ↔ r.unpopped = [] := by
  rw [ps2RingBufEmpty_iff, unpopped, Ring.contents_eq_nil_iff _ h.head h.tail]

/-- A full buffer holds one byte less than it has cells. -/
theorem InRange.full_iff (h : r.InRange) :
    ps2RingBufFull r = true ↔ r.unpopped.length = ps2RingBufferSize - 1 := by
  rw [ps2RingBufFull_iff, Ring.next_eq_tail_iff h.head h.tail, unpopped, Ring.length_contents]
  have : 0 < ps2RingBufferSize := by decide
  omega

theorem InRange.push (h : r.InRange) (scancode : Byte) : (ps2RingBufPush r scancode).InRange := by
  rw [ps2RingBufPush]
  split
  · exact h
  · exact ⟨by rw [toNat_ps2RingBufNext]; exact Ring.next_lt (by decide) _, h.tail⟩

theorem InRange.popStore (h : r.InRange) : (ps2RingBufPopStore r).InRange :=
  ⟨h.head, by rw [ps2RingBufPopStore, toNat_ps2RingBufNext]; exact Ring.next_lt (by decide) _⟩

/-- `_PS2_ring_buf_push` is the push of a bounded queue. -/
theorem InRange.unpopped_push (h : r.InRange) (scancode : Byte) :
    (ps2RingBufPush r scancode).unpopped =
      if ps2RingBufFull r then r.unpopped else r.unpopped ++ [scancode] := by
  rw [ps2RingBufPush]
  split
  · rfl
  · next hroom =>
      rw [unpopped, toNat_ps2RingBufNext]
      apply Ring.contents_push h.head h.tail (mt ps2RingBufFull_iff.mpr hroom)
      · exact Function.update_self ..
      · intro j hj
        exact Function.update_of_ne hj ..

/-- The load and the store of `_PS2_ring_buf_pop` take the oldest byte. -/
theorem InRange.unpopped_pop (h : r.InRange) (hne : ps2RingBufEmpty r = false) :
    r.unpopped = ps2RingBufPopLoad r :: (ps2RingBufPopStore r).unpopped := by
  have hne' : r.head.toNat ≠ r.tail.toNat := by
    intro heq
    rw [ps2RingBufEmpty_iff.mpr heq] at hne
    cases hne
  rw [unpopped, Ring.contents_pop _ h.head h.tail hne', unpopped, ps2RingBufPopStore,
    toNat_ps2RingBufNext, ps2RingBufPopLoad]

end RingBuf

/-- What the code of a pop may rely on between its actions. -/
def PopState.Agrees (r : RingBuf) : PopState → Prop
  | .idle => True
  | .notEmpty => ps2RingBufEmpty r = false
  | .loaded scancode => ps2RingBufEmpty r = false ∧ ps2RingBufPopLoad r = scancode

structure RingInv (w : RingWorld) : Prop where
  inRange : w.ring.InRange
  fifo : w.accepted = w.popped ++ w.ring.unpopped
  pop : w.pop.Agrees w.ring

theorem RingInv.start : RingInv ringStart :=
  ⟨⟨by decide, by decide⟩, rfl, trivial⟩

/-- A push that comes between two actions of a pop leaves a nonempty buffer nonempty and
its oldest byte in place. -/
theorem PopState.Agrees.push {r : RingBuf} (hr : r.InRange) {pop : PopState}
    (h : pop.Agrees r) (scancode : Byte) : pop.Agrees (ps2RingBufPush r scancode) := by
  have keep (hne : ps2RingBufEmpty r = false) :
      ps2RingBufEmpty (ps2RingBufPush r scancode) = false ∧
        ps2RingBufPopLoad (ps2RingBufPush r scancode) = ps2RingBufPopLoad r := by
    have hr' := hr.push scancode
    have hpop := hr.unpopped_pop hne
    have hpush := hr.unpopped_push scancode
    rw [hpop] at hpush
    have hne' : ps2RingBufEmpty (ps2RingBufPush r scancode) = false := by
      rw [← Bool.not_eq_true, hr'.empty_iff, hpush]
      split <;> simp
    rw [hr'.unpopped_pop hne'] at hpush
    refine ⟨hne', ?_⟩
    split at hpush
    · exact (List.cons.inj hpush).1
    · exact (List.cons.inj hpush).1
  cases pop with
  | idle => trivial
  | notEmpty => exact (keep h).1
  | loaded c => exact ⟨(keep h.1).1, (keep h.1).2.trans h.2⟩

theorem RingInv.step {w w' : RingWorld} {act : RingAct} (inv : RingInv w)
    (h : ringStep w act = some w') : RingInv w' := by
  obtain ⟨ring, pop, accepted, popped⟩ := w
  have inRange : ring.InRange := inv.inRange
  have fifo : accepted = popped ++ ring.unpopped := inv.fifo
  have agrees : pop.Agrees ring := inv.pop
  cases act with
  | push scancode =>
      injection h with h
      subst h
      refine ⟨inRange.push scancode, ?_, agrees.push inRange scancode⟩
      rw [inRange.unpopped_push]
      cases ps2RingBufFull ring with
      | true => exact fifo
      | false =>
          simp only [Bool.false_eq_true, if_false]
          rw [fifo, List.append_assoc]
  | popTest null =>
      cases pop with
      | idle =>
          injection h with h
          subst h
          refine ⟨inRange, fifo, ?_⟩
          simp only [ps2RingBufPopTest]
          split
          · trivial
          · split
            · trivial
            · next hne => exact Bool.eq_false_iff.mpr hne
      | notEmpty => cases h
      | loaded c => cases h
  | popLoad =>
      cases pop with
      | notEmpty =>
          injection h with h
          subst h
          exact ⟨inRange, fifo, agrees, rfl⟩
      | idle => cases h
      | loaded c => cases h
  | popStore =>
      cases pop with
      | loaded c =>
          injection h with h
          subst h
          obtain ⟨hne, hload⟩ := agrees
          refine ⟨inRange.popStore, ?_, trivial⟩
          rw [fifo, inRange.unpopped_pop hne, hload]
          simp only [List.append_assoc, List.singleton_append]
      | idle => cases h
      | notEmpty => cases h

/-- The bounded queue a run sees: bytes come out in the order they were accepted, a push
is refused only while all but one cell hold unpopped bytes, and the indices stay inside
the array. -/
structure BoundedFifo (w : RingWorld) : Prop where
  order : w.popped <+: w.accepted
  refuses : ps2RingBufFull w.ring = true ↔
    w.accepted.length = w.popped.length + (ps2RingBufferSize - 1)
  empty : ps2RingBufEmpty w.ring = true ↔ w.popped = w.accepted
  head : w.ring.head.toNat < ps2RingBufferSize
  tail : w.ring.tail.toNat < ps2RingBufferSize

theorem RingInv.boundedFifo {w : RingWorld} (inv : RingInv w) : BoundedFifo w := by
  have hlen : w.accepted.length = w.popped.length + w.ring.unpopped.length := by
    rw [inv.fifo, List.length_append]
  refine ⟨⟨_, inv.fifo.symm⟩, ?_, ?_, inv.inRange.head, inv.inRange.tail⟩
  · rw [inv.inRange.full_iff, hlen, Nat.add_left_cancel_iff]
  · rw [inv.inRange.empty_iff, inv.fifo, List.self_eq_append_right]

theorem ring_buf_bounded_fifo {acts : List RingAct} {w : RingWorld}
    (h : run ringStep ringStart acts = some w) : BoundedFifo w :=
  (run_invariant (fun _ _ _ inv hstep => inv.step hstep) RingInv.start h).boundedFifo

/-- A push between every two actions of a pop. -/
theorem ring_buf_bounded_fifo_interrupted :
    ∃ w, run ringStep ringStart [.push 0x1C#8, .popTest false, .push 0xF0#8, .popLoad,
        .push 0x1C#8, .popStore, .popTest true] = some w ∧ w.popped = [0x1C#8] ∧
      BoundedFifo w := by
  obtain ⟨w, hrun, hpopped⟩ : ∃ w, run ringStep ringStart [.push 0x1C#8, .popTest false,
      .push 0xF0#8, .popLoad, .push 0x1C#8, .popStore, .popTest true] = some w ∧
      w.popped = [0x1C#8] := ⟨_, rfl, rfl⟩
  exact ⟨w, hrun, hpopped, ring_buf_bounded_fifo hrun⟩

end Bros
