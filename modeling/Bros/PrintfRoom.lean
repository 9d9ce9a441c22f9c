import Bros.Console
import Bros.PrintfScan

/-!
The room `CON_vsprintf` takes in the buffer of `CON_printf`.

`CON_vsprintf` is not told how large its destination is. What it stores is counted here
from the format and the arguments, also for a call that reads on behind its format.
-/

namespace Bros
open ByteMemory CStrings Numerals Programs

/-- The size of `buf` in `CON_printf`. -/
def conPrintfBufSize : Nat := 256

/-- A call whose text runs over `buf`, or whose format or arguments are not defined, has no
result. -/
def conPrintf (va : VaList) (s : Console) (fmt : List Byte) (buf : Mem) : Option Console :=
  match (conVsprintf va fmt).run (printStart buf) with
  | .ok _ t => if t.str.length ≤ conPrintfBufSize then some (conPuts s t.str) else none
  | .error _ _ => none

/-- The call comes to its end, and what it has stored, terminator included, fits in `buf`. -/
def PrintfFits (va : VaList) (fmt : List Byte) (buf : Mem) : Prop :=
  ∃ n t, (conVsprintf va fmt).run (printStart buf) = .ok n t ∧ t.str.length ≤ conPrintfBufSize

/-- The number of digits, and a sign. -/
def intSize (value : BitVec 32) : Nat :=
  (lowFirst 10 value.toInt.natAbs).length + if value.toInt < 0 then 1 else 0

/-- The number of bytes a directive stores. -/
def Directive.size (strings : BitVec 32 → CString) (w : BitVec 32) : Directive → Nat
  | .literal _ | .percent | .char => 1
  | .string => (strings w).bytes.length
  | .signed => intSize w
  | .unsigned => (lowFirst 10 w.toNat).length
  | .hex => (lowFirst 16 w.toNat).length
  | .other _ => 2

/-- The format is read to a terminator, and `itoa` has a result for every argument. -/
def PrintfDefined (va : VaList) (fmt : List Byte) : Prop :=
  (formatRest fmt).head? = some 0#8 ∧
    ∀ p ∈ withArgs va.words 0 (directives fmt), ¬ Negates p

/-- The directives with their arguments, and the terminator. -/
def outputSize (va : VaList) (fmt : List Byte) : Nat :=
  ((withArgs va.words 0 (directives fmt)).map fun p => p.1.size va.strings p.2).sum + 1

theorem Directive.length_text {strings : BitVec 32 → CString} {d : Directive} {w : BitVec 32}
    (h : ¬ Negates (d, w)) : (d.text strings w).length = d.size strings w := by
  cases d with
  | literal c => rfl
  | percent => rfl
  | char => rfl
  | string => rfl
  | signed =>
      have hmin : w ≠ intMin := fun hmin => h ⟨rfl, hmin⟩
      rw [Directive.text, itoaString_eq (Or.inl rfl) hmin]
      exact length_itoaText 10 w
  | unsigned => exact length_numeralBytes 10 w.toNat
  | hex => exact length_numeralBytes 16 w.toNat
  | other z => rfl

theorem length_texts {strings : BitVec 32 → CString} {ps : List (Directive × BitVec 32)}
    (h : ∀ p ∈ ps, ¬ Negates p) :
    (ps.flatMap fun p => p.1.text strings p.2).length =
      (ps.map fun p => p.1.size strings p.2).sum := by
  rw [List.length_flatMap]
  exact congrArg List.sum (List.map_congr_left fun p hp => Directive.length_text (h p hp))

section
variable (va : VaList)

/-- A call ends where its format and arguments are defined, and stores as much as the sizes of
the directives add up to. -/
theorem conVsprintf_ends_iff (fmt : List Byte) (buf : Mem) (n : Nat) :
    (∃ m t, (conVsprintf va fmt).run (printStart buf) = .ok m t ∧ t.str.length ≤ n) ↔
      PrintfDefined va fmt ∧ outputSize va fmt ≤ n := by
  obtain ⟨t, hprinted, hrun⟩ := forM_performDirective va (directives fmt) (printStart buf)
  cases hrun with
  | inl hok =>
      have hloop := conVsprintfLoop_run_rest va hok.2
      have hlength := congrArg List.length hprinted.str
      rw [performed_eq_self hok.1] at hlength
      have hsize : t.str.length + 1 = outputSize va fmt :=
        congrArg (· + 1) (hlength.trans (length_texts hok.1))
      rcases formatRest_cases fmt with hrest | hrest | ⟨beyond, hrest, -⟩
      · have hnot : ¬ (formatRest fmt).head? = some 0#8 := by simp [hrest]
        rw [hrest] at hloop
        change _ = EStateM.Result.error PrintFault.format t at hloop
        refine iff_of_false (fun h => ?_) fun h => hnot h.1.1
        obtain ⟨m, t', hrun, -⟩ := h
        rw [conVsprintf_of_error hloop] at hrun
        cases hrun
      · have hnot : ¬ (formatRest fmt).head? = some 0#8 := by
          rw [hrest]
          decide
        rw [hrest, conVsprintfLoop_percent] at hloop
        refine iff_of_false (fun h => ?_) fun h => hnot h.1.1
        obtain ⟨m, t', hrun, -⟩ := h
        rw [conVsprintf_of_error hloop] at hrun
        cases hrun
      · have hnul : (formatRest fmt).head? = some 0#8 := by rw [hrest, List.head?_cons]
        rw [hrest, conVsprintfLoop_nul] at hloop
        have hstr : (t.str ++ [0#8]).length = outputSize va fmt := by
          rw [List.length_append, ← hsize]
          rfl
        rw [conVsprintf_of_ok hloop, and_iff_right ⟨hnul, hok.1⟩, ← hstr]
        constructor
        · intro h
          obtain ⟨m, t', hrun, hle⟩ := h
          cases hrun
          exact hle
        · exact fun hle => ⟨_, _, rfl, hle⟩
  | inr hfailed =>
      obtain ⟨⟨p, hp, hneg⟩, hrun⟩ := hfailed
      refine iff_of_false (fun h => ?_) fun h => h.1.2 p hp hneg
      obtain ⟨m, t', hends, -⟩ := h
      rw [conVsprintf_of_error (conVsprintfLoop_stops_rest va hrun)] at hends
      cases hends

/-- What a call with a complete format shows. -/
theorem conPrintf_complete {fmt : CString} (complete : Complete fmt)
    (defined : ∀ p ∈ formatArgs va fmt, ¬ Negates p)
    (hfits : (formatText va fmt).length < conPrintfBufSize) (console : Console) (buf : Mem) :
    conPrintf va console fmt.memory buf =
      some (conPuts console (formatText va fmt ++ [0#8])) := by
  obtain ⟨t, hprinted, hrun⟩ := conVsprintf_complete va complete defined [] buf
  have hstr : t.str = formatText va fmt := hprinted.str
  have hlength : (formatText va fmt ++ [0#8]).length ≤ conPrintfBufSize := by
    rw [List.length_append]
    exact hfits
  rw [conPrintf, CString.memory, hrun, hstr]
  exact if_pos hlength

theorem printfFits_iff (fmt : List Byte) (buf : Mem) :
    PrintfFits va fmt buf ↔ PrintfDefined va fmt ∧ outputSize va fmt ≤ conPrintfBufSize :=
  conVsprintf_ends_iff va fmt buf conPrintfBufSize

end

/-! ### `panic` -/

def panicFormat : CString := ⟨cBytes "Kernel Panic!\n%s\nfile: %s:%d", by decide⟩

/-- The arguments of the `CON_printf` call in `panic`. -/
def panicArgs (errMsg filename : CString) (line : BitVec 32) : VaList where
  words := fun k => [0#32, 1#32, line].getD k 0#32
  strings := fun p => if p = 0#32 then errMsg else filename

/-- Ordinary characters before the argument `w`. -/
def literals (cs : List Byte) (w : BitVec 32) : List (Directive × BitVec 32) :=
  cs.map fun c => (.literal c, w)

theorem withArgs_literals (words : Nat → BitVec 32) (k : Nat) (cs : List Byte)
    (ds : List Directive) :
    withArgs words k (cs.map .literal ++ ds) = literals cs (words k) ++ withArgs words k ds := by
  induction cs with
  | nil => rfl
  | cons c cs ih => exact congrArg ((.literal c, words k) :: ·) ih

theorem literals_defined (cs : List Byte) (w : BitVec 32) : ∀ p ∈ literals cs w, ¬ Negates p := by
  intro p hp hneg
  obtain ⟨c, -, hc⟩ := List.mem_map.mp hp
  have hsigned : p.1 = .signed := hneg.1
  rw [← hc] at hsigned
  cases hsigned

theorem literals_size (strings : BitVec 32 → CString) (cs : List Byte) (w : BitVec 32) :
    ((literals cs w).map fun p => p.1.size strings p.2).sum = cs.length := by
  induction cs with
  | nil => rfl
  | cons c cs ih =>
      rw [literals, List.map_cons, List.map_cons, List.sum_cons, List.length_cons]
      rw [literals] at ih
      rw [ih, Directive.size, Nat.add_comm]

theorem literals_text (strings : BitVec 32 → CString) (cs : List Byte) (w : BitVec 32) :
    ((literals cs w).flatMap fun p => p.1.text strings p.2) = cs := by
  induction cs with
  | nil => rfl
  | cons c cs ih => exact congrArg (c :: ·) ih

/-- The arguments of the directives before the line number. -/
def panicTexts (line : BitVec 32) : List (Directive × BitVec 32) :=
  literals (cBytes "Kernel Panic!\n") 0#32 ++ ((.string, 0#32) ::
    (literals (cBytes "\nfile: ") 1#32 ++ [(.string, 1#32), (.literal (charByte ':'), line)]))

theorem withArgs_panic (errMsg filename : CString) (line : BitVec 32) :
    withArgs (panicArgs errMsg filename line).words 0 (directives panicFormat.memory) =
      panicTexts line ++ [(.signed, line)] := by
  have hdirectives : directives panicFormat.memory =
      (cBytes "Kernel Panic!\n").map .literal ++ .string ::
        ((cBytes "\nfile: ").map .literal ++ [.string, .literal (charByte ':'), .signed]) := by
    decide +kernel
  rw [hdirectives, withArgs_literals, withArgs, withArgs_literals, panicTexts, List.append_assoc,
    List.cons_append, List.append_assoc]
  rfl

theorem panicTexts_defined (line : BitVec 32) : ∀ p ∈ panicTexts line, ¬ Negates p := by
  intro p hp
  rw [panicTexts, List.mem_append, List.mem_cons, List.mem_append, List.mem_cons,
    List.mem_singleton] at hp
  rcases hp with hp | hp | hp | hp | hp
  · exact literals_defined _ _ p hp
  · exact fun hneg => by cases hp ▸ hneg.1
  · exact literals_defined _ _ p hp
  · exact fun hneg => by cases hp ▸ hneg.1
  · exact fun hneg => by cases hp ▸ hneg.1

theorem panicTexts_size (errMsg filename : CString) (line : BitVec 32) :
    ((panicTexts line).map fun p => p.1.size (panicArgs errMsg filename line).strings p.2).sum =
      22 + errMsg.bytes.length + filename.bytes.length := by
  have hkernel : (cBytes "Kernel Panic!\n").length = 14 := by decide +kernel
  have hfile : (cBytes "\nfile: ").length = 7 := by decide +kernel
  have herrMsg : (panicArgs errMsg filename line).strings 0#32 = errMsg := rfl
  have hfilename : (panicArgs errMsg filename line).strings 1#32 = filename := rfl
  rw [panicTexts, List.map_append, List.sum_append, literals_size, List.map_cons, List.sum_cons,
    List.map_append, List.sum_append, literals_size, hkernel, hfile]
  simp only [List.map_cons, List.map_nil, List.sum_cons, List.sum_nil, Directive.size, herrMsg,
    hfilename]
  omega

theorem printfDefined_panic (errMsg filename : CString) (line : BitVec 32) :
    PrintfDefined (panicArgs errMsg filename line) panicFormat.memory ↔ line ≠ intMin := by
  have hrest : (formatRest panicFormat.memory).head? = some 0#8 := by decide +kernel
  rw [PrintfDefined, and_iff_right hrest, withArgs_panic, List.forall_mem_append,
    and_iff_right (panicTexts_defined line), List.forall_mem_singleton]
  exact not_congr (and_iff_right rfl)

/-- The fixed part has 22 characters. -/
theorem outputSize_panic (errMsg filename : CString) (line : BitVec 32) :
    outputSize (panicArgs errMsg filename line) panicFormat.memory =
      22 + errMsg.bytes.length + filename.bytes.length + intSize line + 1 := by
  rw [outputSize, withArgs_panic, List.map_append, List.sum_append, panicTexts_size]
  rfl

/-- `CON_printf` stays in its buffer exactly for the formats and arguments that are defined and
whose sizes add up to no more than it has, and `panic` for a message and a file name that leave
room for the line number. -/
theorem conPrintf_fits_iff (va : VaList) (fmt : CString) (beyond : List Byte)
    (errMsg filename : CString) (line : BitVec 32) (buf : Mem) :
    (PrintfFits va (fmt.bytes ++ 0#8 :: beyond) buf ↔
      PrintfDefined va (fmt.bytes ++ 0#8 :: beyond) ∧
        outputSize va (fmt.bytes ++ 0#8 :: beyond) ≤ conPrintfBufSize) ∧
      (PrintfFits (panicArgs errMsg filename line) panicFormat.memory buf ↔
        line ≠ intMin ∧
          errMsg.bytes.length + filename.bytes.length + intSize line + 1 ≤ 234) := by
  refine ⟨printfFits_iff va _ buf, ?_⟩
  rw [printfFits_iff, printfDefined_panic, outputSize_panic, conPrintfBufSize]
  refine and_congr_right fun _ => ?_
  omega

/-- `%s` with a string of 256 characters. -/
theorem conPrintf_overrun :
    ¬ PrintfFits
      { words := fun _ => 0#32, strings := fun _ => ⟨List.replicate 256 65#8, by decide⟩ }
      (cBytes "%s" ++ [0#8]) (fun _ => 0#8) := by
  rw [printfFits_iff]
  refine fun h => absurd h.2 ?_
  decide +kernel

end Bros
