import Bros.Vga
import Bros.Lib.TextPage

/-!
The console of `lib/conio.c` as a window on an unbounded page.

`Shows` relates a console to the page: the screen is the page's last 25 rows. It is kept
by every character, so the simulation goes over whole texts.
-/

namespace Bros
open ByteMemory TextPage

def conWidth : Byte := 80#8

def conHeight : Byte := 25#8

/-- The statics of `conio.c` with video memory and the cursor registers. -/
structure Console where
  mem : Mem
  curX : Byte
  curY : Byte
  col : Byte
  cursor : BitVec 16

def adjScrollDrown (s : Console) : Console :=
  let s := if conWidth ≤ s.curX then { s with curX := 0#8, curY := s.curY + 1#8 } else s
  let s :=
    if conHeight ≤ s.curY then { s with mem := vgaScrollDown s.mem, curY := s.curY - 1#8 }
    else s
  { s with cursor := vgaUpdateCursor s.curX s.curY }

def conSetConsoleColor2 (s : Console) (bgCol fgCol : Byte) : Console :=
  { s with col := bgCol <<< 4 ||| fgCol &&& 0xF#8 }

def conGotoXY (s : Console) (x y : Byte) : Console :=
  { s with cursor := vgaUpdateCursor x y, curX := x, curY := y }

def conNewline (s : Console) : Console :=
  adjScrollDrown (conGotoXY s 0#8 (s.curY + 1#8))

def lineFeed : Byte := 10#8

def conPutc (s : Console) (ch : Byte) : Console :=
  if ch = lineFeed then conNewline s
  else
    adjScrollDrown
      { s with
        mem := vgaWriteChar s.mem s.curX.toNat s.curY.toNat ch s.col
        curX := s.curX + 1#8 }

/-- A C string is the list of its bytes; the end of the list is a terminator too. -/
def conPuts (s : Console) : List Byte → Console
  | [] => s
  | c :: cs => if c = 0#8 then s else conPuts (conPutc s c) cs

inductive ConOp where
  | putc (ch : Byte)
  | puts (str : List Byte)

def conOp (s : Console) : ConOp → Console
  | .putc ch => conPutc s ch
  | .puts str => conPuts s str

/-! ### The page -/

def pageChar (ch : Byte) : Option Byte := if ch = lineFeed then none else some ch

def ConOp.text : ConOp → List Byte
  | .putc ch => [ch]
  | .puts str => str.takeWhile (· ≠ 0#8)

def textOf (ops : List ConOp) : List Byte := ops.flatMap ConOp.text

/-- The page whose first rows are the screen, with the console's cursor. -/
def initialPage (s : Console) : Page Byte where
  cells := fun r c => if r < 25 then cell s.mem r c else 0#8
  row := s.curY.toNat
  col := s.curX.toNat

/-- The console shows the last 25 rows of the page, and memory outside the screen is as in
`m0`. -/
structure Shows (m0 : Mem) (p : Page Byte) (s : Console) : Prop where
  fresh : p.Fresh 80 25 0#8
  curX : s.curX.toNat = p.col
  curY : s.curY.toNat = p.row - p.offset 25
  cells : ∀ r < 25, ∀ c < 80, cell s.mem r c = p.cells (p.offset 25 + r) c
  outside : ∀ a, OffScreen a → s.mem a = m0 a

theorem Shows.curY_lt {m0 : Mem} {p : Page Byte} {s : Console} (h : Shows m0 p s) :
    s.curY.toNat < 25 := by
  rw [h.curY, Page.offset]
  omega

theorem Shows.init {s : Console} (hx : s.curX.toNat < 80) (hy : s.curY.toNat < 25) :
    Shows s.mem (initialPage s) s := by
  have hoffset : (initialPage s).offset 25 = 0 := by
    change s.curY.toNat - 24 = 0
    omega
  refine ⟨⟨hx, ?_⟩, rfl, ?_, ?_, fun _ _ => rfl⟩
  · intro r hr _ c
    exact if_neg (Nat.not_lt.mpr hr)
  · rw [hoffset]
    rfl
  · intro r hr c _
    rw [hoffset, Nat.zero_add]
    exact (if_pos hr).symm

/-! ### One character -/

/-- A column past the last is the first column of the next row. -/
theorem adjScrollDrown_wrap {s : Console} (hx : s.curX = conWidth) :
    adjScrollDrown s = adjScrollDrown { s with curX := 0#8, curY := s.curY + 1#8 } := by
  have hwrap : conWidth ≤ s.curX := by
    rw [hx]
    decide
  have hno : ¬ conWidth ≤ 0#8 := by decide
  simp only [adjScrollDrown, if_pos hwrap, if_neg hno]

/-- The next row, scrolled into the window when the cursor is on the last one. -/
theorem Shows.newline {m0 : Mem} {p : Page Byte} {s t : Console} (h : Shows m0 p s)
    (hmem : t.mem = s.mem) (htx : t.curX = 0#8) (hty : t.curY = s.curY + 1#8) :
    Shows m0 p.newline (adjScrollDrown t) := by
  have hcurY := h.curY
  have hno : ¬ conWidth ≤ t.curX := by
    rw [htx]
    decide
  have htyNat : t.curY.toNat = s.curY.toNat + 1 := by
    have := h.curY_lt
    rw [hty, BitVec.toNat_add, show (1#8).toNat = 1 from rfl]
    omega
  have hfresh := h.fresh.newline (by decide)
  have hheight : conHeight ≤ t.curY ↔ 24 ≤ p.row := by
    rw [BitVec.le_def, htyNat, hcurY, Page.offset, show conHeight.toNat = 25 from rfl]
    omega
  have hoffset : p.newline.offset 25 = if 24 ≤ p.row then p.offset 25 + 1 else p.offset 25 := by
    rw [Page.offset, Page.offset, Page.newline_row]
    split <;> omega
  simp only [adjScrollDrown, if_neg hno, hheight]
  by_cases hlast : 24 ≤ p.row
  · simp only [if_pos hlast] at hoffset ⊢
    refine ⟨hfresh, by rw [htx]; rfl, ?_, ?_, ?_⟩
    · change (t.curY - 1#8).toNat = p.row + 1 - _
      rw [BitVec.toNat_sub, htyNat, hoffset, show (1#8).toNat = 1 from rfl]
      have := h.curY_lt
      rw [Page.offset] at hcurY ⊢
      omega
    · intro r hr c hc
      rw [vgaScrollDown_cell t.mem hr hc, hmem, hoffset]
      split
      · next hlt =>
          rw [h.cells (r + 1) (by omega) c hc, show p.offset 25 + 1 + r = p.offset 25 + (r + 1) by
            omega]
          rfl
      · have hrow : p.offset 25 + 1 + r = p.row + 1 := by
          rw [Page.offset]
          omega
        rw [hrow]
        exact (h.fresh.next_row (by omega) c).symm
    · intro a ha
      exact (vgaScrollDown_offScreen t.mem ha).trans (by rw [hmem]; exact h.outside a ha)
  · simp only [if_neg hlast] at hoffset ⊢
    refine ⟨hfresh, by rw [htx]; rfl, ?_, ?_, ?_⟩
    · change t.curY.toNat = p.row + 1 - _
      rw [htyNat, hoffset, hcurY, Page.offset]
      omega
    · intro r hr c hc
      rw [hoffset, hmem]
      exact h.cells r hr c hc
    · intro a ha
      rw [hmem]
      exact h.outside a ha

theorem Shows.write {m0 : Mem} {p : Page Byte} {s : Console} (h : Shows m0 p s) (ch : Byte) :
    Shows m0 (p.write ch)
      { s with mem := vgaWriteChar s.mem s.curX.toNat s.curY.toNat ch s.col } := by
  have hx : s.curX.toNat < 80 := by
    rw [h.curX]
    exact h.fresh.col_lt
  have hy := h.curY_lt
  refine ⟨h.fresh.write ch, h.curX, h.curY, ?_, ?_⟩
  · intro r hr c hc
    change cell (vgaWriteChar s.mem s.curX.toNat s.curY.toNat ch s.col) r c = _
    rw [vgaWriteChar_cell s.mem hx hy ch s.col hc, h.cells r hr c hc, Page.write_offset]
    have hcurY := h.curY
    have hle : p.offset 25 ≤ p.row := Nat.sub_le _ _
    have hhere : (r = s.curY.toNat ∧ c = s.curX.toNat) ↔
        (p.offset 25 + r = p.row ∧ c = p.col) := by
      rw [h.curX]
      omega
    simp only [Page.write, hhere]
  · intro a ha
    exact (vgaWriteChar_offScreen s.mem hx hy ch s.col ha).trans (h.outside a ha)

theorem Shows.putc {m0 : Mem} {p : Page Byte} {s : Console} (h : Shows m0 p s) (ch : Byte) :
    Shows m0 (p.typeChar 80 (pageChar ch)) (conPutc s ch) := by
  rw [conPutc, pageChar]
  split
  · exact h.newline rfl rfl rfl
  · have hw := h.write ch
    have hcol := h.fresh.col_lt
    have hcurX : (s.curX + 1#8).toNat = p.col + 1 := by
      rw [BitVec.toNat_add, h.curX, show (1#8).toNat = 1 from rfl]
      omega
    rw [Page.typeChar, Page.advance, Page.write_col]
    split
    · next hlt =>
        have hno : ¬ conWidth ≤ s.curX + 1#8 := by
          rw [BitVec.le_def, hcurX, show conWidth.toNat = 80 from rfl]
          omega
        have hno' : ¬ conHeight ≤ s.curY := by
          have := h.curY_lt
          rw [BitVec.le_def, show conHeight.toNat = 25 from rfl]
          omega
        simp only [adjScrollDrown, if_neg hno, if_neg hno']
        exact ⟨⟨hlt, hw.fresh.below⟩, hcurX, hw.curY, hw.cells, hw.outside⟩
    · have hwrap : s.curX + 1#8 = conWidth := by
        apply BitVec.eq_of_toNat_eq
        rw [hcurX, show conWidth.toNat = 80 from rfl]
        omega
      rw [adjScrollDrown_wrap hwrap]
      exact hw.newline rfl rfl rfl

/-! ### Whole texts -/

theorem conPuts_eq_foldl (s : Console) (str : List Byte) :
    conPuts s str = (str.takeWhile (· ≠ 0#8)).foldl conPutc s := by
  induction str generalizing s with
  | nil => rfl
  | cons c cs ih =>
      rw [conPuts]
      by_cases hc : c = 0#8
      · rw [if_pos hc, List.takeWhile_cons_of_neg (by simpa using hc)]
        rfl
      · rw [if_neg hc, List.takeWhile_cons_of_pos (by simpa using hc)]
        exact ih (conPutc s c)

theorem conOp_eq_foldl (s : Console) (op : ConOp) : conOp s op = op.text.foldl conPutc s := by
  cases op with
  | putc ch => rfl
  | puts str => exact conPuts_eq_foldl s str

theorem conOps_eq_foldl (s : Console) (ops : List ConOp) :
    ops.foldl conOp s = (textOf ops).foldl conPutc s := by
  induction ops generalizing s with
  | nil => rfl
  | cons op ops ih =>
      rw [List.foldl_cons, ih, conOp_eq_foldl, ← List.foldl_append]
      rfl

theorem Shows.text {m0 : Mem} {p : Page Byte} {s : Console} (h : Shows m0 p s)
    (text : List Byte) : Shows m0 (p.type 80 (text.map pageChar)) (text.foldl conPutc s) := by
  induction text generalizing p s with
  | nil => exact h
  | cons ch text ih => exact ih (h.putc ch)

/-- Every character leaves the hardware cursor where the console has its own. -/
theorem conPutc_cursor (s : Console) (ch : Byte) :
    (conPutc s ch).cursor = vgaUpdateCursor (conPutc s ch).curX (conPutc s ch).curY := by
  rw [conPutc]
  split <;> rfl

theorem foldl_conPutc_cursor {text : List Byte} (htext : text ≠ []) (s : Console) :
    (text.foldl conPutc s).cursor =
      vgaUpdateCursor (text.foldl conPutc s).curX (text.foldl conPutc s).curY := by
  obtain ⟨init, ch, rfl⟩ : ∃ init ch, text = init ++ [ch] :=
    ⟨_, _, (List.dropLast_concat_getLast htext).symm⟩
  rw [List.foldl_append]
  exact conPutc_cursor _ ch

def pageAfter (s : Console) (ops : List ConOp) : Page Byte :=
  (initialPage s).type 80 ((textOf ops).map pageChar)

/-- The window on the page: 25 consecutive rows, from as many rows down as the text ran
past row 24; the cursor is the page's relative to it, and in range, also in the registers
once a character has come; no byte outside the screen has changed. -/
structure IsWindow (s0 : Console) (ops : List ConOp) (s : Console) : Prop where
  rows : ∀ r < 25, ∀ c < 80,
    cell s.mem r c = (pageAfter s0 ops).cells ((pageAfter s0 ops).row - 24 + r) c
  curX : s.curX.toNat = (pageAfter s0 ops).col
  curY : s.curY.toNat = (pageAfter s0 ops).row - ((pageAfter s0 ops).row - 24)
  in_range : s.curX.toNat < 80 ∧ s.curY.toNat < 25
  cursor : textOf ops ≠ [] → s.cursor = vgaUpdateCursor s.curX s.curY
  outside : ∀ a, OffScreen a → s.mem a = s0.mem a

/-- The console is a window on the unbounded page, for every text from every screen and
every cursor in range. -/
theorem console_is_window {s : Console} (hx : s.curX.toNat < 80) (hy : s.curY.toNat < 25)
    (ops : List ConOp) : IsWindow s ops (ops.foldl conOp s) := by
  have h := (Shows.init hx hy).text (textOf ops)
  rw [conOps_eq_foldl]
  refine ⟨h.cells, h.curX, h.curY, ⟨?_, h.curY_lt⟩, fun htext => foldl_conPutc_cursor htext s,
    h.outside⟩
  rw [h.curX]
  exact h.fresh.col_lt

/-- The last cell of the screen, then a new line: the screen scrolls twice. -/
theorem console_is_window_last_cell :
    let s : Console := ⟨fun _ => 65#8, 79#8, 24#8, 7#8, 0#16⟩
    IsWindow s [.putc 66#8, .puts [10#8, 67#8]]
      ([ConOp.putc 66#8, .puts [10#8, 67#8]].foldl conOp s) :=
  console_is_window (by decide) (by decide) _

end Bros
