import Bros.Console
import Bros.Lib.Runs

/-!
The mouse pointer of `drivers/ps2.c` on the console's screen.

The pointer is the cell under it with its colour nibbles exchanged. `PointerOver` relates
the screen with the pointer to the screen the console alone would have; it is kept by
every packet, and by characters that do not touch the cell under the pointer.
-/

namespace Bros
open ByteMemory Runs

/-- `VGA_char_t` -/
structure VgaChar where
  ch : Byte
  col : Byte

def vgaWrite (m : Mem) (x y : Int) (ch : VgaChar) : Mem := vgaWriteChar m x y ch.ch ch.col

def vgaRead (m : Mem) (x y : Int) : VgaChar :=
  let off := (y * vgaTextWidth + x) * 2
  ⟨m (vgaMemText + off).toNat, m (vgaMemText + off + 1).toNat⟩

/-- Conversion of an `int` to `int16_t`. -/
def int16 (z : Int) : Int := (BitVec.ofInt 16 z).toInt

def clampCoordinate (v size : Int) : Int :=
  if v < 0 then 0 else if size ≤ v then size - 1 else v

def swapNibbles (col : Byte) : Byte := (col &&& 0x0F#8) <<< 4 ||| (col &&& 0xF0#8) >>> 4

/-- The statics of `_mouse_handler`. -/
structure Mouse where
  mouseX : Int
  mouseY : Int
  oldMouseX : Int
  oldMouseY : Int
  savedChar : VgaChar

def mouseStart : Mouse := ⟨40, 12, -1, -1, ⟨0#8, 0#8⟩⟩

/-- `_mouse_handler` on the three bytes it reads. -/
def mouseHandler (m : Mem) (s : Mouse) (b0 b1 b2 : Byte) : Mem × Mouse :=
  if b0 &&& 0x08#8 = 0#8 then (m, s)
  else
    let mouseX := int16 (s.mouseX + (b1.toNat - (b0.toNat <<< 4 &&& 0x100 : Nat)))
    let mouseY := int16 (s.mouseY - (b2.toNat - (b0.toNat <<< 3 &&& 0x100 : Nat)))
    let mouseX := clampCoordinate mouseX vgaTextWidth
    let mouseY := clampCoordinate mouseY vgaTextHeight
    let s := { s with mouseX, mouseY }
    if s.oldMouseX = mouseX ∧ s.oldMouseY = mouseY then (m, s)
    else
      -- draw cursor
      let m := vgaWrite m s.oldMouseX s.oldMouseY s.savedChar
      let savedChar := vgaRead m mouseX mouseY
      let s := { s with savedChar, oldMouseX := mouseX, oldMouseY := mouseY }
      (vgaWriteChar m mouseX mouseY savedChar.ch (swapNibbles savedChar.col), s)

/-! ### Packets and characters -/

structure Desktop where
  console : Console
  mouse : Mouse

inductive DesktopOp where
  | packet (b0 b1 b2 : Byte)
  | putc (ch : Byte)

def desktopStep (w : Desktop) : DesktopOp → Option Desktop
  | .packet b0 b1 b2 =>
      let (mem, mouse) := mouseHandler w.console.mem w.mouse b0 b1 b2
      some ⟨{ w.console with mem }, mouse⟩
  | .putc ch => some { w with console := conPutc w.console ch }

/-- The same operations without a mouse. -/
def consoleAlone (s : Console) : DesktopOp → Console
  | .packet _ _ _ => s
  | .putc ch => conPutc s ch

/-- The screen with the pointer's colour inversion undone at its current cell. -/
def undoPointer (w : Desktop) : Mem :=
  if w.mouse.oldMouseX < 0 then w.console.mem
  else
    let c := vgaRead w.console.mem w.mouse.oldMouseX w.mouse.oldMouseY
    vgaWriteChar w.console.mem w.mouse.oldMouseX w.mouse.oldMouseY c.ch (swapNibbles c.col)

/-- `CON_putc` scrolls the screen. -/
def ConScrolls (s : Console) (ch : Byte) : Prop :=
  conHeight ≤ if ch = lineFeed ∨ conWidth ≤ s.curX + 1#8 then s.curY + 1#8 else s.curY

/-- `CON_putc` writes its character over the pointer. -/
def ConWritesPointer (w : Desktop) (ch : Byte) : Prop :=
  ch ≠ lineFeed ∧
    (w.console.curY.toNat * 80 + w.console.curX.toNat : Int) =
      w.mouse.oldMouseY * 80 + w.mouse.oldMouseX

/-- While the pointer is drawn, the character neither replaces the cell under it nor
moves it by scrolling. -/
def LeavesPointer (w : Desktop) : DesktopOp → Prop
  | .packet _ _ _ => True
  | .putc ch =>
      0 ≤ w.mouse.oldMouseX → ¬ ConWritesPointer w ch ∧ ¬ ConScrolls w.console ch

/-! ### Inverting one cell -/

theorem swapNibbles_swapNibbles (col : Byte) : swapNibbles (swapNibbles col) = col := by
  revert col
  decide +kernel

/-- Memory with the colour nibbles exchanged in one byte. -/
def invertAt (m : Mem) (a : Nat) : Mem := fun b => if b = a then swapNibbles (m b) else m b

def colourAddr (x y : Nat) : Nat := vgaMemText + (y * 80 + x) * 2 + 1

theorem invertAt_invertAt (m : Mem) (a : Nat) : invertAt (invertAt m a) a = m := by
  funext b
  by_cases h : b = a
  · simp only [invertAt, h, if_true, swapNibbles_swapNibbles]
  · simp only [invertAt, h, if_false]

theorem vgaRead_eq (m : Mem) (x y : Nat) :
    vgaRead m x y = ⟨m (vgaMemText + (y * 80 + x) * 2), m (colourAddr x y)⟩ := by
  simp only [vgaRead, vgaOffset_natCast]
  rfl

/-- Reading a cell and writing it back with another colour. -/
theorem vgaWriteChar_vgaRead {m : Mem} {x y : Nat} (hx : x < 80) (hy : y < 25) (col : Byte) :
    vgaWriteChar m x y (vgaRead m x y).ch col = store8 m (colourAddr x y) col := by
  rw [vgaWriteChar_eq m hx hy, vgaRead_eq, colourAddr]
  congr 1
  funext b
  rw [store8, write]
  split
  · next h => rw [show b = vgaMemText + (y * 80 + x) * 2 by omega]
  · rfl

theorem store8_swapNibbles (m : Mem) (a : Nat) :
    store8 m a (swapNibbles (m a)) = invertAt m a := by
  funext b
  rw [store8, write, invertAt]
  by_cases h : b = a
  · rw [if_pos h, if_pos ⟨by omega, by omega⟩, h]
  · rw [if_neg h, if_neg (by omega)]

/-- Drawing or undrawing the pointer at a cell. -/
theorem vgaWriteChar_swap {m : Mem} {x y : Nat} (hx : x < 80) (hy : y < 25) :
    vgaWriteChar m x y (vgaRead m x y).ch (swapNibbles (vgaRead m x y).col) =
      invertAt m (colourAddr x y) := by
  rw [vgaWriteChar_vgaRead hx hy, vgaRead_eq, store8_swapNibbles]

/-- Writing the saved character removes the pointer. -/
theorem vgaWrite_saved {m : Mem} {x y : Nat} (hx : x < 80) (hy : y < 25) :
    vgaWrite (invertAt m (colourAddr x y)) x y (vgaRead m x y) = m := by
  have hch : (vgaRead m x y).ch = (vgaRead (invertAt m (colourAddr x y)) x y).ch := by
    rw [vgaRead_eq, vgaRead_eq]
    refine (if_neg ?_).symm
    rw [colourAddr]
    omega
  rw [vgaWrite, hch, vgaWriteChar_vgaRead hx hy, vgaRead_eq]
  funext b
  rw [store8, write, invertAt]
  by_cases h : b = colourAddr x y
  · rw [if_pos ⟨by omega, by omega⟩, h]
  · rw [if_neg (by omega), if_neg h]

/-! ### The pointer over the console's screen -/

/-- The screen is the console's own one, `alone`, with the cell under the pointer inverted
and saved. -/
inductive PointerOver (s : Mouse) (m alone : Mem) : Prop where
  | hidden (hx : s.oldMouseX = -1) (hy : s.oldMouseY = -1) (mem : m = alone)
  | drawn (x y : Nat) (x_lt : x < 80) (y_lt : y < 25)
      (hx : s.oldMouseX = x) (hy : s.oldMouseY = y)
      (mem : m = invertAt alone (colourAddr x y)) (saved : s.savedChar = vgaRead alone x y)

/-- The desktop beside the console that runs without a mouse. -/
structure Beside (w : Desktop) (c : Console) : Prop where
  console : w.console = { c with mem := w.console.mem }
  pointer : PointerOver w.mouse w.console.mem c.mem

theorem PointerOver.undo {w : Desktop} {alone : Mem}
    (h : PointerOver w.mouse w.console.mem alone) : undoPointer w = alone := by
  cases h with
  | hidden hx hy mem => rw [undoPointer, hx, if_pos (by decide), mem]
  | drawn x y x_lt y_lt hx hy mem saved =>
      rw [undoPointer, hx, hy, if_neg (by omega), mem]
      exact (vgaWriteChar_swap x_lt y_lt).trans (invertAt_invertAt alone _)

/-- Restoring the saved character gives the console's screen back. -/
theorem PointerOver.restore {s : Mouse} {m alone : Mem} (h : PointerOver s m alone) :
    vgaWrite m s.oldMouseX s.oldMouseY s.savedChar = alone := by
  cases h with
  | hidden hx hy mem =>
      rw [vgaWrite, vgaWriteChar, hx, hy, if_pos (by decide)]
      exact mem
  | drawn x y x_lt y_lt hx hy mem saved => rw [hx, hy, mem, saved, vgaWrite_saved x_lt y_lt]

theorem clampCoordinate_range (v : Int) {size : Nat} (hsize : 0 < size) :
    ∃ n < size, clampCoordinate v size = n := by
  refine ⟨(clampCoordinate v size).toNat, ?_, ?_⟩
  all_goals
    rw [clampCoordinate]
    split
    · omega
    · split <;> omega

/-- A packet restores the old cell and draws the pointer at the new one, which the clamp
keeps on the screen. -/
theorem PointerOver.packet {s : Mouse} {m alone : Mem} (h : PointerOver s m alone)
    (b0 b1 b2 : Byte) :
    PointerOver (mouseHandler m s b0 b1 b2).2 (mouseHandler m s b0 b1 b2).1 alone := by
  rw [mouseHandler]
  split
  · exact h
  · obtain ⟨x, x_lt, hx⟩ := clampCoordinate_range
      (int16 (s.mouseX + (b1.toNat - (b0.toNat <<< 4 &&& 0x100 : Nat))))
      (show 0 < vgaTextWidth by decide)
    obtain ⟨y, y_lt, hy⟩ := clampCoordinate_range
      (int16 (s.mouseY - (b2.toNat - (b0.toNat <<< 3 &&& 0x100 : Nat))))
      (show 0 < vgaTextHeight by decide)
    simp only [hx, hy]
    split
    · cases h with
      | hidden hx hy mem => exact .hidden hx hy mem
      | drawn x y x_lt y_lt hx hy mem saved => exact .drawn x y x_lt y_lt hx hy mem saved
    · rw [h.restore]
      exact .drawn x y x_lt y_lt rfl rfl (vgaWriteChar_swap x_lt y_lt) rfl

/-! ### Characters beside the pointer -/

theorem vgaWriteChar_invertAt (m : Mem) {x y : Nat} (ch col : Byte) {p : Nat}
    (h : y * 80 + x ≠ p) :
    vgaWriteChar (invertAt m (vgaMemText + p * 2 + 1)) x y ch col =
      invertAt (vgaWriteChar m x y ch col) (vgaMemText + p * 2 + 1) := by
  simp only [vgaWriteChar, vgaOffset_natCast, Int.toNat_natCast]
  split
  · rfl
  · funext b
    simp only [store8, write, invertAt]
    by_cases hb : b = vgaMemText + p * 2 + 1
    · have hch : ¬ (vgaMemText + (y * 80 + x) * 2 ≤ b ∧
          b < vgaMemText + (y * 80 + x) * 2 + 1) := by omega
      have hcol : ¬ (vgaMemText + (y * 80 + x) * 2 + 1 ≤ b ∧
          b < vgaMemText + (y * 80 + x) * 2 + 1 + 1) := by omega
      simp only [hb ▸ hch, hb ▸ hcol, hb, if_false, if_true]
    · simp only [if_neg hb]

theorem adjScrollDrown_mem {s : Console} (m : Mem)
    (h : ¬ conHeight ≤ if conWidth ≤ s.curX then s.curY + 1#8 else s.curY) :
    adjScrollDrown { s with mem := m } = { adjScrollDrown s with mem := m } ∧
      (adjScrollDrown s).mem = s.mem := by
  simp only [adjScrollDrown]
  by_cases hwrap : conWidth ≤ s.curX
  · rw [if_pos hwrap] at h
    simp only [hwrap, if_true, h, if_false, and_self]
  · rw [if_neg hwrap] at h
    simp only [hwrap, if_false, h, and_self]

/-- Without scrolling, `CON_putc` is one write to the screen. -/
theorem conPutc_mem {s : Console} {ch : Byte} (h : ¬ ConScrolls s ch) (m : Mem) :
    conPutc { s with mem := m } ch =
      { conPutc s ch with
        mem :=
          if ch = lineFeed then m
          else vgaWriteChar m s.curX.toNat s.curY.toNat ch s.col } := by
  rw [ConScrolls] at h
  by_cases hch : ch = lineFeed
  · have hno : ¬ conWidth ≤ (0#8 : Byte) := by decide
    rw [if_pos (Or.inl hch)] at h
    simp only [conPutc, hch, if_true, conNewline, conGotoXY, adjScrollDrown, hno, if_false, h]
  · have h' : ¬ conHeight ≤ if conWidth ≤ s.curX + 1#8 then s.curY + 1#8 else s.curY := by
      simpa only [hch, false_or] using h
    simp only [conPutc, hch, if_false]
    have left := (adjScrollDrown_mem (s := { s with curX := s.curX + 1#8 })
      (vgaWriteChar m s.curX.toNat s.curY.toNat ch s.col) h').1
    have right := (adjScrollDrown_mem (s := { s with curX := s.curX + 1#8 })
      (vgaWriteChar s.mem s.curX.toNat s.curY.toNat ch s.col) h').1
    rw [left, right]

theorem vgaRead_vgaWriteChar (m : Mem) {x y px py : Nat} (ch col : Byte)
    (h : y * 80 + x ≠ py * 80 + px) :
    vgaRead (vgaWriteChar m x y ch col) px py = vgaRead m px py := by
  rw [vgaRead_eq, vgaRead_eq, vgaWriteChar, vgaOffset_natCast, Int.toNat_natCast,
    colourAddr]
  split
  · rfl
  · rw [store8, write_outside _ _ (by omega), store8, write_outside _ _ (by omega),
      write_outside _ _ (by omega), write_outside _ _ (by omega)]

theorem vgaWriteChar_colour (m : Mem) {cx cy x y : Nat} (ch col : Byte) (hx : x < 80)
    (hy : y < 25) (h : cy * 80 + cx = y * 80 + x) :
    vgaWriteChar m cx cy ch col (colourAddr x y) = col := by
  rw [vgaWriteChar, vgaOffset_natCast, Int.toNat_natCast, h, vgaTextWidth_eq, vgaTextHeight_eq,
    if_neg (by omega)]
  exact write_offset _ (vgaMemText + (y * 80 + x) * 2 + 1) 1 0 _ (by decide)

/-- A character beside the pointer is the same character on both screens. -/
theorem Beside.putc {w : Desktop} {c : Console} (h : Beside w c) {ch : Byte}
    (hok : LeavesPointer w (.putc ch)) :
    Beside { w with console := conPutc w.console ch } (conPutc c ch) := by
  obtain ⟨hconsole, hpointer⟩ := h
  cases hpointer with
  | hidden hx hy mem =>
      have hsame : w.console = c := by rw [hconsole, mem]
      rw [hsame]
      exact ⟨rfl, .hidden hx hy rfl⟩
  | drawn x y x_lt y_lt hx hy mem saved =>
      obtain ⟨hwrites, hscrolls⟩ := hok (by omega)
      have hscrolls' : ¬ ConScrolls c ch := by
        rw [hconsole] at hscrolls
        exact hscrolls
      have hw := conPutc_mem hscrolls' w.console.mem
      rw [← hconsole] at hw
      have hc := conPutc_mem hscrolls' c.mem
      have hne : ch ≠ lineFeed → c.curY.toNat * 80 + c.curX.toNat ≠ y * 80 + x := by
        intro hch heq
        rw [ConWritesPointer, hconsole, hx, hy] at hwrites
        exact hwrites ⟨hch, by exact_mod_cast heq⟩
      refine ⟨by rw [hw], ?_⟩
      rw [show (conPutc w.console ch).mem = _ from congrArg Console.mem hw,
        show (conPutc c ch).mem = _ from congrArg Console.mem hc, mem]
      refine .drawn x y x_lt y_lt hx hy ?_ ?_
      all_goals by_cases hch : ch = lineFeed
      · simp only [hch, if_true]
      · simp only [hch, if_false]
        exact vgaWriteChar_invertAt c.mem ch c.col (hne hch)
      · simpa only [hch, if_true] using saved
      · simp only [hch, if_false]
        exact saved.trans (vgaRead_vgaWriteChar c.mem ch c.col (hne hch)).symm

/-- A character written over the pointer in a colour with two different nibbles breaks the
law at once: the cell it is written to is no longer inverted. -/
theorem undoPointer_putc_over {w : Desktop} {c : Console} (h : Beside w c) {ch : Byte}
    (hx : 0 ≤ w.mouse.oldMouseX) (hover : ConWritesPointer w ch)
    (hscrolls : ¬ ConScrolls w.console ch) (hcol : swapNibbles c.col ≠ c.col) :
    undoPointer { w with console := conPutc w.console ch } ≠ (conPutc c ch).mem := by
  obtain ⟨hconsole, hpointer⟩ := h
  obtain ⟨hch, hcell⟩ := hover
  cases hpointer with
  | hidden hx' => omega
  | drawn x y x_lt y_lt hx' hy' =>
      rw [hconsole] at hscrolls hcell
      rw [hx', hy'] at hcell
      have hcell' : c.curY.toNat * 80 + c.curX.toNat = y * 80 + x := by exact_mod_cast hcell
      have hput (m : Mem) :
          (conPutc { c with mem := m } ch).mem (colourAddr x y) = c.col := by
        rw [conPutc_mem hscrolls m, if_neg hch]
        exact vgaWriteChar_colour m ch c.col x_lt y_lt hcell'
      have hput' : (conPutc w.console ch).mem (colourAddr x y) = c.col := by
        rw [hconsole]
        exact hput w.console.mem
      intro heq
      have hat := congrFun heq (colourAddr x y)
      rw [undoPointer, hx', hy', if_neg (by omega), vgaWriteChar_swap x_lt y_lt, invertAt,
        if_pos rfl] at hat
      apply hcol
      calc swapNibbles c.col
        _ = swapNibbles ((conPutc w.console ch).mem (colourAddr x y)) := by rw [hput']
        _ = (conPutc c ch).mem (colourAddr x y) := hat
        _ = c.col := hput c.mem

theorem Beside.step {w : Desktop} {c : Console} {op : DesktopOp} {w' : Desktop}
    (h : Beside w c) (hok : LeavesPointer w op) (hs : desktopStep w op = some w') :
    Beside w' (consoleAlone c op) := by
  cases op with
  | packet b0 b1 b2 =>
      cases hs
      refine ⟨?_, h.pointer.packet b0 b1 b2⟩
      rw [h.console]
      rfl
  | putc ch =>
      cases hs
      exact h.putc hok

/-- From every screen, in every run of packets and characters in which no character is
written over the pointer and none scrolls the screen under it, undoing the pointer gives
the screen of the characters alone. -/
theorem pointer_transparent (s : Console) (ops : List DesktopOp)
    (along : Along desktopStep LeavesPointer ⟨s, mouseStart⟩ ops) (w : Desktop)
    (h : run desktopStep ⟨s, mouseStart⟩ ops = some w) :
    undoPointer w = (ops.foldl consoleAlone s).mem := by
  have init : Beside ⟨s, mouseStart⟩ s := ⟨rfl, .hidden rfl rfl rfl⟩
  have keep : ∀ w c op w', Beside w c → LeavesPointer w op → desktopStep w op = some w' →
      Beside w' (consoleAlone c op) := fun _ _ _ _ => Beside.step
  exact (along.simulates keep init h).pointer.undo

/-- The pointer appears in the middle of the screen and a character is written at its start. -/
theorem pointer_transparent_beside :
    let s : Console := ⟨fun _ => 0#8, 0#8, 0#8, 7#8, 0#16⟩
    let ops := [.packet 8#8 0#8 0#8, .putc 65#8]
    ∀ w, run desktopStep ⟨s, mouseStart⟩ ops = some w →
      undoPointer w = (ops.foldl consoleAlone s).mem := by
  intro s ops w
  refine pointer_transparent s ops ⟨trivial, fun w hw => ?_⟩ w
  rw [← Option.some.inj hw]
  refine ⟨fun _ => ⟨?_, ?_⟩, fun _ _ => trivial⟩
  · rw [ConWritesPointer]
    decide +kernel
  · rw [ConScrolls]
    decide +kernel

/-- A character written over the pointer is gone when the pointer moves on. -/
theorem pointer_erases_character :
    let s : Console := ⟨fun _ => 0#8, 40#8, 12#8, 7#8, 0#16⟩
    let ops := [.packet 8#8 0#8 0#8, .putc 65#8, .packet 8#8 1#8 0#8]
    ¬ ∀ w, run desktopStep ⟨s, mouseStart⟩ ops = some w →
      undoPointer w = (ops.foldl consoleAlone s).mem := by
  intro s ops h
  have hcell := congrFun (h _ rfl) (vgaMemText + 2000)
  revert hcell
  decide +kernel

end Bros
