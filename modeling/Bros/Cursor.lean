import Bros.PrintfRoom
import Bros.Lib.Runs

/-!
Where the calls of `lib/conio.h` leave the cursor.

`CON_putc` and `CON_newline` move the cursor by one cell or row and adjust it by at most one
wrap and one scrolled row. `CON_gotoXY` stores any two bytes; `CON_newline` relies on that
for the row below the screen.
-/

namespace Bros
open ByteMemory Runs

/-- The text of `_start_VGA_init`, without its newline. -/
def startMessage (debug : Bool) : List Byte :=
  cBytes (if debug then "Console Init (DEBUG)" else "Console Init")

/-- `_start_VGA_init`; `debug` is the build flag. -/
def startVgaInit (s : Console) (debug : Bool) : Console :=
  let curOffs := vgaGetCursorOffset s.cursor
  let s := conGotoXY s (.ofNat 8 (curOffs % 80)) (.ofNat 8 (curOffs / 80))
  let s := conSetConsoleColor2 s vgaColorBlack vgaColorGreen
  conPuts s (startMessage debug ++ [lineFeed])

inductive ConsoleCall where
  | gotoXY (x y : Byte)
  | putc (ch : Byte)
  | puts (str : List Byte)
  | newline
  | printf (va : VaList) (fmt : List Byte) (buf : Mem)

def consoleStep (s : Console) : ConsoleCall → Option Console
  | .gotoXY x y => some (conGotoXY s x y)
  | .putc ch => some (conPutc s ch)
  | .puts str => some (conPuts s str)
  | .newline => some (conNewline s)
  | .printf va fmt buf => conPrintf va s fmt buf

/-- The cached cursor is in range, and the next character appears where it stands. -/
structure OnScreen (s : Console) : Prop where
  curX_lt : s.curX < conWidth
  curY_lt : s.curY < conHeight
  visible : ∀ ch col, cell (vgaWriteChar s.mem s.curX.toNat s.curY.toNat ch col)
    s.curY.toNat s.curX.toNat = ch

/-- The cursor is on the screen after `_start_VGA_init` and after each of the calls. -/
def StaysOnScreen (s : Console) (debug : Bool) (calls : List ConsoleCall) : Prop :=
  OnScreen (startVgaInit s debug) ∧
    Along consoleStep (fun s call => ∀ t, consoleStep s call = some t → OnScreen t)
      (startVgaInit s debug) calls

def ConsoleCall.Visible : ConsoleCall → Prop
  | .gotoXY x y => x < conWidth ∧ y < conHeight
  | _ => True

/-- The row `_start_VGA_init` takes over is on the screen, or no further below it than its
message scrolls back: one row a character, but for the one that ends a row. From the last
cell of row 255 the row wraps to the top. -/
def StartVisible (s : Console) (debug : Bool) : Prop :=
  let x := vgaGetCursorOffset s.cursor % 80
  let y := vgaGetCursorOffset s.cursor / 80 % 256
  let n := (startMessage debug).length
  y ≤ 24 + n - (if 80 ≤ x + n then 1 else 0) ∨ x = 79 ∧ y = 255

/-! ### One character -/

theorem onScreen_iff {s : Console} : OnScreen s ↔ s.curX.toNat < 80 ∧ s.curY.toNat < 25 := by
  refine ⟨fun h => ⟨h.curX_lt, h.curY_lt⟩, fun h => ⟨h.1, h.2, fun ch col => ?_⟩⟩
  rw [vgaWriteChar_cell s.mem h.1 h.2 ch col h.1]
  exact if_pos ⟨rfl, rfl⟩

/-- `_AdjScrollDrown` scrolls by one row at most. -/
def adjustRow (y : Nat) : Nat := if 25 ≤ y then y - 1 else y

theorem adjScrollDrown_cursor (s : Console) :
    (adjScrollDrown s).curX.toNat = (if 80 ≤ s.curX.toNat then 0 else s.curX.toNat) ∧
      (adjScrollDrown s).curY.toNat = adjustRow
        (if 80 ≤ s.curX.toNat then (s.curY.toNat + 1) % 256 else s.curY.toNat) := by
  have hrow (t : Console) :
      (if conHeight ≤ t.curY then t.curY - 1#8 else t.curY).toNat = adjustRow t.curY.toNat := by
    have hlt := t.curY.isLt
    rw [adjustRow]
    by_cases hscroll : conHeight ≤ t.curY
    · have hle : 25 ≤ t.curY.toNat := hscroll
      rw [if_pos hscroll, if_pos hle, BitVec.toNat_sub]
      change (2 ^ 8 - 1 + t.curY.toNat) % 2 ^ 8 = _
      omega
    · rw [if_neg hscroll, if_neg (show ¬ 25 ≤ t.curY.toNat from hscroll)]
  have hY (t : Console) : (if conHeight ≤ t.curY then
      { t with mem := vgaScrollDown t.mem, curY := t.curY - 1#8 } else t).curY =
        if conHeight ≤ t.curY then t.curY - 1#8 else t.curY := by
    split <;> rfl
  have hX (t : Console) : (if conHeight ≤ t.curY then
      { t with mem := vgaScrollDown t.mem, curY := t.curY - 1#8 } else t).curX = t.curX := by
    split <;> rfl
  rw [adjScrollDrown]
  dsimp only
  rw [hX, hY, hrow]
  by_cases hwrap : conWidth ≤ s.curX
  · have hle : 80 ≤ s.curX.toNat := hwrap
    rw [if_pos hwrap, if_pos hle, if_pos hle]
    exact ⟨rfl, rfl⟩
  · have hnle : ¬ 80 ≤ s.curX.toNat := hwrap
    rw [if_neg hwrap, if_neg hnle, if_neg hnle]
    exact ⟨rfl, rfl⟩

theorem conNewline_cursor (s : Console) :
    (conNewline s).curX.toNat = 0 ∧
      (conNewline s).curY.toNat = adjustRow ((s.curY.toNat + 1) % 256) :=
  adjScrollDrown_cursor (conGotoXY s 0#8 (s.curY + 1#8))

theorem conPutc_char_cursor {s : Console} {ch : Byte} (hch : ch ≠ lineFeed)
    (hx : s.curX.toNat < 80) :
    (conPutc s ch).curX.toNat = (if s.curX.toNat = 79 then 0 else s.curX.toNat + 1) ∧
      (conPutc s ch).curY.toNat =
        adjustRow (if s.curX.toNat = 79 then (s.curY.toNat + 1) % 256 else s.curY.toNat) := by
  obtain ⟨hcurX, hcurY⟩ := adjScrollDrown_cursor
    { s with
      mem := vgaWriteChar s.mem s.curX.toNat s.curY.toNat ch s.col
      curX := s.curX + 1#8 }
  have hsucc : (s.curX + 1#8).toNat = s.curX.toNat + 1 := by
    rw [BitVec.toNat_add]
    change (s.curX.toNat + 1) % 2 ^ 8 = _
    omega
  have hwrap : 80 ≤ s.curX.toNat + 1 ↔ s.curX.toNat = 79 := by omega
  rw [conPutc, if_neg hch, hcurX, hcurY]
  simp only [hsucc, hwrap, and_self]

/-! ### Calls on the screen -/

theorem conNewline_onScreen {s : Console} (h : s.curY.toNat < 25) : OnScreen (conNewline s) := by
  obtain ⟨hcurX, hcurY⟩ := conNewline_cursor s
  refine onScreen_iff.mpr ⟨by omega, ?_⟩
  rw [hcurY, adjustRow]
  split <;> omega

theorem OnScreen.putc {s : Console} (h : OnScreen s) (ch : Byte) : OnScreen (conPutc s ch) := by
  obtain ⟨hx, hy⟩ := onScreen_iff.mp h
  by_cases hch : ch = lineFeed
  · rw [conPutc, if_pos hch]
    exact conNewline_onScreen hy
  · obtain ⟨hcurX, hcurY⟩ := conPutc_char_cursor hch hx
    rw [onScreen_iff, hcurX, hcurY, adjustRow]
    constructor
    · split <;> omega
    · split <;> split <;> omega

theorem OnScreen.text {s : Console} (h : OnScreen s) (text : List Byte) :
    OnScreen (text.foldl conPutc s) := by
  induction text generalizing s with
  | nil => exact h
  | cons ch text ih => exact ih (h.putc ch)

theorem OnScreen.puts {s : Console} (h : OnScreen s) (str : List Byte) :
    OnScreen (conPuts s str) := by
  rw [conPuts_eq_foldl]
  exact h.text _

theorem OnScreen.printf {s t : Console} (h : OnScreen s) {va : VaList} {fmt : List Byte}
    {buf : Mem} (ht : conPrintf va s fmt buf = some t) : OnScreen t := by
  rw [conPrintf] at ht
  split at ht
  · split at ht
    · cases ht
      exact h.puts _
    · cases ht
  · cases ht

theorem gotoXY_onScreen (s : Console) (x y : Byte) :
    OnScreen (conGotoXY s x y) ↔ x < conWidth ∧ y < conHeight :=
  onScreen_iff

/-- `CON_gotoXY` is the only call that can leave the screen. -/
theorem OnScreen.call_iff {s : Console} (h : OnScreen s) (call : ConsoleCall) :
    (∀ t, consoleStep s call = some t → OnScreen t) ↔ call.Visible := by
  cases call with
  | gotoXY x y =>
      rw [ConsoleCall.Visible, ← gotoXY_onScreen s]
      exact ⟨fun hstep => hstep _ rfl, fun hgoto t ht => Option.some.inj ht ▸ hgoto⟩
  | putc ch => exact iff_of_true (fun t ht => Option.some.inj ht ▸ h.putc ch) trivial
  | puts str => exact iff_of_true (fun t ht => Option.some.inj ht ▸ h.puts str) trivial
  | newline =>
      have hnewline := conNewline_onScreen (onScreen_iff.mp h).2
      exact iff_of_true (fun t ht => Option.some.inj ht ▸ hnewline) trivial
  | printf va fmt buf => exact iff_of_true (fun t ht => h.printf ht) trivial

/-! ### The start message -/

/-- From a row below the screen, each character scrolls one row back unless it starts the
next row. -/
theorem text_scrollsBack {text : List Byte} (htext : ∀ ch ∈ text, ch ≠ lineFeed) {s : Console}
    (hx : s.curX.toNat + text.length < 160) (hwidth : s.curX.toNat < 80)
    (hy : 24 ≤ s.curY.toNat) (hwrap : s.curX.toNat = 79 → s.curY.toNat ≠ 255) :
    (text.foldl conPutc s).curY.toNat =
      max 24 (s.curY.toNat -
        (text.length - if 80 ≤ s.curX.toNat + text.length then 1 else 0)) := by
  induction text generalizing s with
  | nil =>
      change s.curY.toNat = _
      rw [List.length_nil]
      omega
  | cons ch text ih =>
      have hlt := s.curY.isLt
      obtain ⟨hcurX, hcurY⟩ := conPutc_char_cursor (htext ch List.mem_cons_self) hwidth
      rw [List.length_cons] at hx ⊢
      by_cases hlast : s.curX.toNat = 79
      · have hne := hwrap hlast
        rw [if_pos hlast] at hcurX hcurY
        rw [adjustRow, if_pos (by omega)] at hcurY
        rw [List.foldl_cons, ih (fun c hc => htext c (List.mem_cons_of_mem ch hc)) (by omega)
          (by omega) (by omega) (by omega), hcurX, hcurY, hlast, if_neg (by omega),
          if_pos (by omega)]
        omega
      · rw [if_neg hlast] at hcurX hcurY
        have hrow : (conPutc s ch).curY.toNat = max 24 (s.curY.toNat - 1) := by
          rw [hcurY, adjustRow]
          split <;> omega
        rw [List.foldl_cons, ih (fun c hc => htext c (List.mem_cons_of_mem ch hc)) (by omega)
          (by omega) (by omega) (by omega), hcurX, hrow, Nat.add_right_comm, Nat.add_assoc]
        split <;> omega

theorem conPuts_line (s : Console) {text : List Byte} (h : ∀ ch ∈ text, ch ≠ 0#8) :
    conPuts s (text ++ [lineFeed]) = conNewline (text.foldl conPutc s) := by
  have hall : (text ++ [lineFeed]).takeWhile (· ≠ 0#8) = text ++ [lineFeed] := by
    rw [List.takeWhile_eq_self_iff]
    intro ch hch
    rcases List.mem_append.mp hch with hmem | hmem
    · simpa using h ch hmem
    · rw [List.mem_singleton.mp hmem]
      decide
  rw [conPuts_eq_foldl, hall, List.foldl_append]
  rfl

/-- The first character wraps from the last cell of row 255 to the top. -/
theorem text_wrapsToTop {ch : Byte} (hch : ch ≠ lineFeed) (text : List Byte) {s : Console}
    (hx : s.curX.toNat = 79) (hy : s.curY.toNat = 255) :
    OnScreen ((ch :: text).foldl conPutc s) := by
  obtain ⟨hcurX, hcurY⟩ := conPutc_char_cursor hch (show s.curX.toNat < 80 by omega)
  rw [if_pos hx] at hcurX hcurY
  rw [hy, adjustRow, if_neg (by decide)] at hcurY
  refine OnScreen.text (onScreen_iff.mpr ?_) text
  rw [hcurX, hcurY]
  decide

theorem conNewline_onScreen_iff {s : Console} (hy : 24 ≤ s.curY.toNat) (hne : s.curY.toNat ≠ 255) :
    OnScreen (conNewline s) ↔ s.curY.toNat = 24 := by
  have hlt := s.curY.isLt
  obtain ⟨hcurX, hcurY⟩ := conNewline_cursor s
  rw [adjustRow, if_pos (by omega)] at hcurY
  rw [onScreen_iff, hcurX, hcurY]
  omega

/-- Where a line of at least two characters leaves the cursor. -/
theorem line_onScreen_iff {text : List Byte} (htext : ∀ ch ∈ text, ch ≠ lineFeed)
    (htwo : 2 ≤ text.length) (hshort : text.length ≤ 80) {s : Console}
    (hx : s.curX.toNat < 80) :
    OnScreen (conNewline (text.foldl conPutc s)) ↔
      s.curY.toNat ≤ 24 + text.length - (if 80 ≤ s.curX.toNat + text.length then 1 else 0) ∨
        s.curX.toNat = 79 ∧ s.curY.toNat = 255 := by
  by_cases hrow : s.curY.toNat < 25
  · have hstay := (onScreen_iff.mpr ⟨hx, hrow⟩).text text
    refine iff_of_true (conNewline_onScreen (onScreen_iff.mp hstay).2) (Or.inl ?_)
    split <;> omega
  · by_cases hcorner : s.curX.toNat = 79 ∧ s.curY.toNat = 255
    · refine iff_of_true ?_ (Or.inr hcorner)
      cases text with
      | nil => exact absurd htwo (by decide)
      | cons ch text =>
          have htop := text_wrapsToTop (htext ch List.mem_cons_self) text hcorner.1 hcorner.2
          exact conNewline_onScreen (onScreen_iff.mp htop).2
    · have hlt := s.curY.isLt
      have hback := text_scrollsBack htext (by omega) hx (by omega) (by omega)
      rw [conNewline_onScreen_iff (by omega) (by split at hback <;> omega), hback,
        or_iff_left hcorner]
      split <;> omega

theorem startMessage_char (debug : Bool) : ∀ ch ∈ startMessage debug, ch ≠ lineFeed ∧ ch ≠ 0#8 := by
  cases debug <;> decide +kernel

theorem length_startMessage (debug : Bool) :
    (startMessage debug).length = if debug then 20 else 12 := by
  cases debug <;> decide +kernel

theorem startVgaInit_onScreen (s : Console) (debug : Bool) :
    OnScreen (startVgaInit s debug) ↔ StartVisible s debug := by
  have hchars := startMessage_char debug
  have hlength : 2 ≤ (startMessage debug).length ∧ (startMessage debug).length ≤ 80 := by
    rw [length_startMessage]
    cases debug <;> decide
  rw [startVgaInit, StartVisible, conPuts_line _ fun ch hch => (hchars ch hch).2]
  generalize hstart : conSetConsoleColor2 (conGotoXY s _ _) vgaColorBlack vgaColorGreen = t
  have hx : t.curX.toNat = vgaGetCursorOffset s.cursor % 80 := by
    rw [← hstart]
    change (BitVec.ofNat 8 _).toNat = _
    rw [BitVec.toNat_ofNat]
    omega
  have hy : t.curY.toNat = vgaGetCursorOffset s.cursor / 80 % 256 := by
    rw [← hstart]
    exact BitVec.toNat_ofNat _ _
  rw [← hx, ← hy]
  exact line_onScreen_iff (fun ch hch => (hchars ch hch).1) hlength.1 hlength.2 (by omega)

/-! ### Runs of calls -/

/-- From every state of the console and the cursor registers, the cursor stays on the screen
exactly when start-up brings it there and every `CON_gotoXY` names a cell of the screen. -/
theorem console_stays_on_screen (s : Console) (debug : Bool) (calls : List ConsoleCall) :
    StaysOnScreen s debug calls ↔
      StartVisible s debug ∧
        Along consoleStep (fun _ call => call.Visible) (startVgaInit s debug) calls := by
  rw [StaysOnScreen, ← startVgaInit_onScreen]
  refine and_congr_right fun hstart => along_congr ?_ ?_ hstart
  · intro s call t _ hok hstep
    exact hok t hstep
  · intro s call hs
    exact hs.call_iff call

/-- Column 80 is stored as it is given. -/
theorem gotoXY_leaves_screen :
    ¬ StaysOnScreen ⟨fun _ => 0#8, 0#8, 0#8, 7#8, 0#16⟩ false [.gotoXY 80#8 0#8] := by
  intro h
  have hx : (80#8 : Byte) < conWidth := (h.2.1 _ rfl).curX_lt
  exact absurd hx (by decide)

end Bros
