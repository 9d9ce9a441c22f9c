import Bros.Console
import Bros.Lib.LastWriter
import Bros.Lib.Nibbles
import Mathlib.Data.Fintype.Order

/-!
The colour byte of the console under its four setters.

Two of them replace the byte. `CON_setBackgroundColor` and `CON_setForegroundColor` join their
colour to a nibble they do not clear.
-/

namespace Bros
open ByteMemory LastWriter

structure ConCol where
  fgCol : BitVec 4
  bgCol : BitVec 4

def conSetConsoleColor (s : Console) (col : ConCol) : Console :=
  conSetConsoleColor2 s (col.bgCol.setWidth 8) (col.fgCol.setWidth 8)

def conSetBackgroundColor (s : Console) (bgCol : Byte) : Console :=
  { s with col := s.col ||| bgCol <<< 4 }

def conSetForegroundColor (s : Console) (fgCol : Byte) : Console :=
  { s with col := s.col ||| fgCol &&& 0xF#8 }

def conGetConsoleColor (s : Console) : ConCol :=
  { bgCol := (s.col >>> 4).setWidth 4, fgCol := (s.col &&& 0xF#8).setWidth 4 }

def conGetConsoleColor2 (s : Console) : Byte := s.col

inductive ColorCall where
  | setConsoleColor (col : ConCol)
  | setConsoleColor2 (bgCol fgCol : BitVec 4)
  | setBackgroundColor (bgCol : BitVec 4)
  | setForegroundColor (fgCol : BitVec 4)

def colorStep (s : Console) : ColorCall → Console
  | .setConsoleColor col => conSetConsoleColor s col
  | .setConsoleColor2 bgCol fgCol =>
      conSetConsoleColor2 s (bgCol.setWidth 8) (fgCol.setWidth 8)
  | .setBackgroundColor bgCol => conSetBackgroundColor s (bgCol.setWidth 8)
  | .setForegroundColor fgCol => conSetForegroundColor s (fgCol.setWidth 8)

def colorRun (s : Console) (calls : List ColorCall) : Console := calls.foldl colorStep s

def ColorCall.background : ColorCall → Effect (BitVec 4)
  | .setConsoleColor col => .replace col.bgCol
  | .setConsoleColor2 bgCol _ => .replace bgCol
  | .setBackgroundColor bgCol => .join bgCol
  | .setForegroundColor _ => .keep

def ColorCall.foreground : ColorCall → Effect (BitVec 4)
  | .setConsoleColor col => .replace col.fgCol
  | .setConsoleColor2 _ fgCol => .replace fgCol
  | .setBackgroundColor _ => .keep
  | .setForegroundColor fgCol => .join fgCol

/-- The colours that the last setters of each asked for. -/
def lastColor (col : ConCol) (calls : List ColorCall) : ConCol :=
  { bgCol := lastWrite ColorCall.background col.bgCol calls
    fgCol := lastWrite ColorCall.foreground col.fgCol calls }

/-- The last writer of each nibble wins, and the colours can be saved and restored. -/
structure LastColorWins (s : Console) (calls : List ColorCall) : Prop where
  color : conGetConsoleColor (colorRun s calls) = lastColor (conGetConsoleColor s) calls
  color2 : conGetConsoleColor2 (colorRun s calls) =
    (lastColor (conGetConsoleColor s) calls).bgCol ++ (lastColor (conGetConsoleColor s) calls).fgCol
  background : ∀ call, call.background.value = none →
    (conGetConsoleColor (colorStep (colorRun s calls) call)).bgCol =
      (conGetConsoleColor (colorRun s calls)).bgCol
  foreground : ∀ call, call.foreground.value = none →
    (conGetConsoleColor (colorStep (colorRun s calls) call)).fgCol =
      (conGetConsoleColor (colorRun s calls)).fgCol
  restore : conGetConsoleColor2 (conSetConsoleColor (colorRun s calls) (conGetConsoleColor s)) =
    conGetConsoleColor2 s

/-- The bits of a colour, ordered as their values. -/
def colorBits (c : BitVec 4) : Fin 4 → Bool := fun i => c.getLsbD i

theorem colorBits_inj {c c' : BitVec 4} : colorBits c = colorBits c' ↔ c = c' := by
  constructor
  · intro h
    exact BitVec.eq_of_getLsbD_eq fun i hi => congrFun h ⟨i, hi⟩
  · exact congrArg colorBits

theorem colorBits_or (c c' : BitVec 4) : colorBits (c ||| c') = colorBits c ⊔ colorBits c' := by
  funext i
  exact BitVec.getLsbD_or ..

theorem colorBits_le_iff {c c' : BitVec 4} : colorBits c ≤ colorBits c' ↔ c ||| c' = c' := by
  rw [← sup_eq_right, ← colorBits_or, colorBits_inj]

/-! ### One call -/

theorem conSetConsoleColor2_eq (s : Console) (bgCol fgCol : BitVec 4) :
    conGetConsoleColor (conSetConsoleColor2 s (bgCol.setWidth 8) (fgCol.setWidth 8)) =
      { bgCol, fgCol } := by
  change ConCol.mk (lowNibble _) (highNibble _) = _
  rw [conSetConsoleColor2, lowNibble_or, highNibble_or]
  simp

theorem colorStep_background (s : Console) (call : ColorCall) :
    colorBits (conGetConsoleColor (colorStep s call)).bgCol =
      (call.background.map colorBits).apply (colorBits (conGetConsoleColor s).bgCol) := by
  cases call with
  | setConsoleColor col =>
      exact congrArg (fun col : ConCol => colorBits col.bgCol)
        (conSetConsoleColor2_eq s col.bgCol col.fgCol)
  | setConsoleColor2 bgCol fgCol =>
      exact congrArg (fun col : ConCol => colorBits col.bgCol)
        (conSetConsoleColor2_eq s bgCol fgCol)
  | setBackgroundColor bgCol =>
      change colorBits (highNibble (s.col ||| bgCol.setWidth 8 <<< 4)) =
        colorBits bgCol ⊔ colorBits (highNibble s.col)
      rw [highNibble_or, highNibble_shiftLeft, colorBits_or, sup_comm]
  | setForegroundColor fgCol =>
      change colorBits (highNibble (s.col ||| fgCol.setWidth 8 &&& 0xF#8)) =
        colorBits (highNibble s.col)
      rw [highNibble_or, highNibble_and, BitVec.or_zero]

theorem colorStep_foreground (s : Console) (call : ColorCall) :
    colorBits (conGetConsoleColor (colorStep s call)).fgCol =
      (call.foreground.map colorBits).apply (colorBits (conGetConsoleColor s).fgCol) := by
  cases call with
  | setConsoleColor col =>
      exact congrArg (fun col : ConCol => colorBits col.fgCol)
        (conSetConsoleColor2_eq s col.bgCol col.fgCol)
  | setConsoleColor2 bgCol fgCol =>
      exact congrArg (fun col : ConCol => colorBits col.fgCol)
        (conSetConsoleColor2_eq s bgCol fgCol)
  | setBackgroundColor bgCol =>
      change colorBits (lowNibble (s.col ||| bgCol.setWidth 8 <<< 4)) =
        colorBits (lowNibble s.col)
      rw [lowNibble_or, lowNibble_shiftLeft, BitVec.or_zero]
  | setForegroundColor fgCol =>
      change colorBits (lowNibble (s.col ||| fgCol.setWidth 8 &&& 0xF#8)) =
        colorBits fgCol ⊔ colorBits (lowNibble s.col)
      rw [lowNibble_or, lowNibble_and, colorBits_or, sup_comm]

/-! ### Runs -/

section
variable {effect : ColorCall → Effect (BitVec 4)}

/-- No colour since the last replacement has a bit that the last colour lacks. -/
def LastCovers (effect : ColorCall → Effect (BitVec 4)) (init : BitVec 4)
    (calls : List ColorCall) : Prop :=
  ∀ c ∈ since effect init calls,
    c ||| lastWrite effect init calls = lastWrite effect init calls

variable (get : Console → BitVec 4)
  (hstep : ∀ s call, colorBits (get (colorStep s call)) =
    ((effect call).map colorBits).apply (colorBits (get s)))
include hstep

theorem colorRun_eq_lastWrite_iff (s : Console) (calls : List ColorCall) :
    get (colorRun s calls) = lastWrite effect (get s) calls ↔ LastCovers effect (get s) calls := by
  have hjoined : colorBits (get (colorRun s calls)) =
      joined (fun call => (effect call).map colorBits) (colorBits (get s)) calls :=
    foldl_eq_joined (fun s => colorBits (get s)) hstep s calls
  rw [← colorBits_inj, hjoined, ← lastWrite_map effect colorBits, joined_eq_lastWrite_iff,
    since_map, Set.forall_mem_image, lastWrite_map, LastCovers]
  simp only [colorBits_le_iff]

theorem colorStep_idle (s : Console) {call : ColorCall} (hidle : (effect call).value = none) :
    get (colorStep s call) = get s := by
  have hcall := hstep s call
  cases heffect : effect call with
  | keep =>
      rw [heffect] at hcall
      exact colorBits_inj.mp hcall
  | replace c => rw [heffect] at hidle; cases hidle
  | join c => rw [heffect] at hidle; cases hidle

end

theorem conGetConsoleColor2_eq (s : Console) :
    conGetConsoleColor2 s = (conGetConsoleColor s).bgCol ++ (conGetConsoleColor s).fgCol :=
  (highNibble_append_lowNibble s.col).symm

/-- The colours are those of the last writers exactly when, in each nibble, the last colour has
the bits of those it is joined to. -/
theorem lastColorWins_iff (s : Console) (calls : List ColorCall) :
    LastColorWins s calls ↔
      LastCovers ColorCall.background (conGetConsoleColor s).bgCol calls ∧
        LastCovers ColorCall.foreground (conGetConsoleColor s).fgCol calls := by
  have hbackground := colorRun_eq_lastWrite_iff (fun s => (conGetConsoleColor s).bgCol)
    colorStep_background s calls
  have hforeground := colorRun_eq_lastWrite_iff (fun s => (conGetConsoleColor s).fgCol)
    colorStep_foreground s calls
  constructor
  · intro h
    exact ⟨hbackground.mp (congrArg ConCol.bgCol h.color),
      hforeground.mp (congrArg ConCol.fgCol h.color)⟩
  · rintro ⟨hbg, hfg⟩
    have hcolor : conGetConsoleColor (colorRun s calls) =
        lastColor (conGetConsoleColor s) calls := by
      rw [lastColor, ← hbackground.mpr hbg, ← hforeground.mpr hfg]
    exact
      { color := hcolor
        color2 := by rw [conGetConsoleColor2_eq, hcolor]
        background := fun _ =>
          colorStep_idle (fun s => (conGetConsoleColor s).bgCol) colorStep_background _
        foreground := fun _ =>
          colorStep_idle (fun s => (conGetConsoleColor s).fgCol) colorStep_foreground _
        restore := by
          rw [conGetConsoleColor2_eq, conGetConsoleColor2_eq s, conSetConsoleColor,
            conSetConsoleColor2_eq] }

/-- Bright black over the initial white gives bright white. -/
theorem foreground_or_ed :
    ¬ LastColorWins ⟨fun _ => 0#8, 0#8, 0#8, 7#8, 0#16⟩ [.setForegroundColor 8#4] := by
  intro h
  exact absurd (congrArg ConCol.fgCol h.color) (by decide)

end Bros
