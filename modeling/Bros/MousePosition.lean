import Bros.Mouse
import Mathlib.Data.List.Induction

/-!
The position of the mouse pointer.

A packet moves the pointer by two 9-bit deltas, saturating at the edges of the screen.
`PointerOver` of the mouse driver supplies the screen.
-/

namespace Bros
open ByteMemory

/-- A packet that the handler reads to its end. -/
structure Packet where
  b0 : Byte
  b1 : Byte
  b2 : Byte
  synced : b0 &&& 0x08#8 ≠ 0#8

/-- Two's complement with the sign in bit 4 of the first byte. -/
def Packet.dx (p : Packet) : Int := (BitVec.cons (p.b0.getLsbD 4) p.b1).toInt

def Packet.dy (p : Packet) : Int := (BitVec.cons (p.b0.getLsbD 5) p.b2).toInt

def pointerStep (pos : Int × Int) (p : Packet) : Int × Int :=
  (max 0 (min 79 (pos.1 + p.dx)), max 0 (min 24 (pos.2 - p.dy)))

/-- The bytes `VGA_Read` takes at this position are on the screen. -/
def ReadsScreen (x y : Int) : Prop :=
  0 ≤ (y * vgaTextWidth + x) * 2 ∧
    (y * vgaTextWidth + x) * 2 + 1 < (vgaTextWidth * vgaTextHeight * 2 : Nat)

/-- The static coordinates are on the screen. -/
structure OnTextScreen (s : Mouse) : Prop where
  x_nonneg : 0 ≤ s.mouseX
  x_le : s.mouseX ≤ 79
  y_nonneg : 0 ≤ s.mouseY
  y_le : s.mouseY ≤ 24

theorem OnTextScreen.step {s : Mouse} {pos : Int × Int} {p : Packet}
    (h : (s.mouseX, s.mouseY) = pointerStep pos p) : OnTextScreen s := by
  obtain ⟨hx, hy⟩ := Prod.mk.inj h
  constructor <;> omega

theorem OnTextScreen.reads {s : Mouse} (h : OnTextScreen s) : ReadsScreen s.mouseX s.mouseY := by
  obtain ⟨x_nonneg, x_le, y_nonneg, y_le⟩ := h
  rw [ReadsScreen, vgaTextWidth_eq, vgaTextHeight_eq]
  omega

end Bros
