import Bros.Strings
import Bros.Itoa
import Bros.Lib.Programs
import Mathlib.Data.List.TakeWhile

/-!
`CON_vsprintf` of `lib/conio.c`.

The format is the list of the bytes that may be read from `fmt` on, so that a program
that steps over the terminator goes on reading what lies behind it. Its run is compared
with the list of the directives of the format, which `directives` reads off it.
-/

namespace Bros
open ByteMemory CStrings Numerals Programs

def bufSize : Nat := 13

/-- The bytes of a string literal without its terminator. -/
def cBytes (s : String) : List Byte := s.toList.map charByte

/-- The argument words above the named parameters, and the strings that pointers denote. -/
structure VaList where
  words : Nat → BitVec 32
  strings : BitVec 32 → CString

inductive PrintFault where
  | format
  | string
  | number (e : CFault)
deriving DecidableEq

/-- How far `fmt` has come, what is stored at `str`, how many arguments are taken, and
`buf`. `steps` counts the rounds of the loop. -/
structure PrintState where
  fmt : Nat
  str : List Byte
  args : Nat
  buf : Mem
  steps : Nat

/-- `buf` is not initialised. -/
def printStart (buf : Mem) : PrintState := { fmt := 0, str := [], args := 0, buf, steps := 0 }

abbrev PrintM := EStateM PrintFault PrintState

def nextFmt : PrintM Unit := modify fun s => { s with fmt := s.fmt + 1 }

def countStep : PrintM Unit := modify fun s => { s with steps := s.steps + 1 }

def putStr (bs : List Byte) : PrintM Unit := modify fun s => { s with str := s.str ++ bs }

def vaArg (va : VaList) : PrintM (BitVec 32) :=
  modifyGet fun s => (va.words s.args, { s with args := s.args + 1 })

def formatNumber (format : Mem → Except CFault Mem) : PrintM Unit := do
  let s ← get
  match format s.buf with
  | .ok buf => set { s with buf }
  | .error e => throw (.number e)

/-- `strnlen` and `memcpy` from `buf`. -/
def putBuf : PrintM Unit := do
  let s ← get
  let buf := loadBytes s.buf 0 bufSize
  match strnlen buf bufSize with
  | some length => putStr (buf.take length)
  | none => throw .string

/-- `strlen` and `memcpy` from an argument. -/
def putString (s : CString) : PrintM Unit :=
  match strlen s.memory with
  | some length => putStr (s.memory.take length)
  | none => throw .string

section
variable (va : VaList)

def conUnsigned (base : Byte) : PrintM Unit := do
  let u ← vaArg va
  formatNumber fun buf => utoa buf u 0 base
  putBuf

/-- The `switch` on the byte behind a `%`. -/
def conDirective (z : Byte) : PrintM Unit :=
  if z = charByte '%' then putStr [charByte '%']
  else if z = charByte 'c' then do
    let c ← vaArg va
    putStr [c.setWidth 8]
  else if z = charByte 's' then do
    let s ← vaArg va
    putString (va.strings s)
  else if z = charByte 'd' ∨ z = charByte 'i' then do
    let i ← vaArg va
    formatNumber fun buf => itoa buf i 0 10#8
    putBuf
  else if z = charByte 'u' then conUnsigned va 10#8
  else if z = charByte 'X' ∨ z = charByte 'x' then conUnsigned va 16#8
  else putStr [charByte '%', z]

def conVsprintfLoop : List Byte → PrintM Unit
  | [] => throw .format
  | c :: fmt =>
      if c = 0#8 then pure ()
      else if c ≠ charByte '%' then do
        countStep
        putStr [c]
        nextFmt
        conVsprintfLoop fmt
      else do
        countStep
        nextFmt
        match fmt with
        | [] => throw .format
        | z :: fmt => do
            conDirective va z
            nextFmt
            conVsprintfLoop fmt

def conVsprintf (fmt : List Byte) : PrintM Nat := do
  conVsprintfLoop va fmt
  putStr [0#8]
  let s ← get
  return s.str.length

end

/-! ### Directives -/

inductive Directive where
  | literal (c : Byte)
  | percent
  | char
  | string
  | signed
  | unsigned
  | hex
  | other (z : Byte)
deriving DecidableEq

def directiveOf (z : Byte) : Directive :=
  if z = charByte '%' then .percent
  else if z = charByte 'c' then .char
  else if z = charByte 's' then .string
  else if z = charByte 'd' ∨ z = charByte 'i' then .signed
  else if z = charByte 'u' then .unsigned
  else if z = charByte 'X' ∨ z = charByte 'x' then .hex
  else .other z

/-- The number of bytes of the directive in the format. -/
def Directive.width : Directive → Nat
  | .literal _ => 1
  | _ => 2

def Directive.arity : Directive → Nat
  | .char | .string | .signed | .unsigned | .hex => 1
  | .literal _ | .percent | .other _ => 0

/-- What a directive stands for when `w` is the next argument. -/
def Directive.text (strings : BitVec 32 → CString) (w : BitVec 32) : Directive → List Byte
  | .literal c => [c]
  | .percent => [charByte '%']
  | .char => [w.setWidth 8]
  | .string => (strings w).bytes
  | .signed => itoaString w 10#8
  | .unsigned => numeralBytes 10 w.toNat
  | .hex => numeralBytes 16 w.toNat
  | .other z => [charByte '%', z]

def directives : List Byte → List Directive
  | [] => []
  | c :: fmt =>
      if c = 0#8 then []
      else if c ≠ charByte '%' then .literal c :: directives fmt
      else
        match fmt with
        | [] => []
        | z :: fmt => directiveOf z :: directives fmt

/-- What is left behind the last directive: nothing, a terminator, or a lone `%`. -/
def formatRest : List Byte → List Byte
  | [] => []
  | c :: fmt =>
      if c = 0#8 then c :: fmt
      else if c ≠ charByte '%' then formatRest fmt
      else
        match fmt with
        | [] => [c]
        | _ :: fmt => formatRest fmt

/-- The directives with the next argument of each, from argument `k` on. -/
def withArgs (words : Nat → BitVec 32) : Nat → List Directive → List (Directive × BitVec 32)
  | _, [] => []
  | k, d :: ds => (d, words k) :: withArgs words (k + d.arity) ds

/-- `itoa` negates `INT_MIN`. -/
def Negates (p : Directive × BitVec 32) : Prop := p.1 = .signed ∧ p.2 = intMin

instance (p : Directive × BitVec 32) : Decidable (Negates p) :=
  inferInstanceAs (Decidable (_ ∧ _))

/-! ### One directive -/

/-- What the directives of `ps` do, each with its argument. -/
structure Printed (strings : BitVec 32 → CString) (ps : List (Directive × BitVec 32))
    (s t : PrintState) : Prop where
  fmt : t.fmt = s.fmt + (ps.map fun p => p.1.width).sum
  str : t.str = s.str ++ ps.flatMap fun p => p.1.text strings p.2
  args : t.args = s.args + (ps.map fun p => p.1.arity).sum
  steps : t.steps = s.steps + ps.length

theorem Printed.refl (strings : BitVec 32 → CString) (s : PrintState) : Printed strings [] s s :=
  ⟨rfl, (List.append_nil _).symm, rfl, rfl⟩

theorem Printed.cons {strings : BitVec 32 → CString} {p : Directive × BitVec 32}
    {ps : List (Directive × BitVec 32)} {s s' t : PrintState} (h : Printed strings [p] s s')
    (h' : Printed strings ps s' t) : Printed strings (p :: ps) s t := by
  refine ⟨?_, ?_, ?_, ?_⟩
  · rw [h'.fmt, h.fmt, List.map_cons, List.sum_cons, Nat.add_assoc]
    rfl
  · rw [h'.str, h.str, List.append_assoc, List.flatMap_singleton, List.flatMap_cons]
  · rw [h'.args, h.args, List.map_cons, List.sum_cons, Nat.add_assoc]
    rfl
  · rw [h'.steps, h.steps, List.length_singleton, List.length_cons]
    omega

section
variable (va : VaList)

def Directive.run : Directive → PrintM Unit
  | .literal c => putStr [c]
  | .percent => putStr [charByte '%']
  | .char => do
      let c ← vaArg va
      putStr [c.setWidth 8]
  | .string => do
      let s ← vaArg va
      putString (va.strings s)
  | .signed => do
      let i ← vaArg va
      formatNumber fun buf => itoa buf i 0 10#8
      putBuf
  | .unsigned => conUnsigned va 10#8
  | .hex => conUnsigned va 16#8
  | .other z => putStr [charByte '%', z]

/-- `++fmt` over the `%`. -/
def skipPercent (d : Directive) : PrintM Unit := if d.width = 2 then nextFmt else pure ()

/-- One round of the loop. -/
def performDirective (d : Directive) : PrintM Unit := do
  countStep
  skipPercent d
  d.run va
  nextFmt

theorem conDirective_eq (z : Byte) : conDirective va z = (directiveOf z).run va := by
  rw [conDirective, directiveOf]
  split_ifs <;> rfl

theorem width_directiveOf (z : Byte) : (directiveOf z).width = 2 := by
  rw [directiveOf]
  split_ifs <;> rfl

theorem forM_cons (d : Directive) (ds : List Directive) :
    (d :: ds).forM (performDirective va) = (do
      performDirective va d
      ds.forM (performDirective va)) := rfl

/-- The loop performs the directives of `text` and goes on with what is left. -/
theorem conVsprintfLoop_append (text more : List Byte) :
    conVsprintfLoop va (text ++ more) = (do
      (directives text).forM (performDirective va)
      conVsprintfLoop va (formatRest text ++ more)) := by
  fun_induction directives text with
  | case1 => rfl
  | case2 fmt =>
      rw [formatRest.eq_def, List.cons_append]
      rfl
  | case3 c fmt hnul hc ih =>
      rw [List.cons_append, conVsprintfLoop.eq_def, formatRest.eq_def]
      simp only [if_neg hnul, if_pos hc, ih]
      rfl
  | case4 c hnul hc =>
      rw [formatRest.eq_def]
      simp only [if_neg hnul, if_neg hc]
      rfl
  | case5 c hnul hc z fmt ih =>
      have hwidth := width_directiveOf z
      rw [List.cons_append, List.cons_append, conVsprintfLoop.eq_def, formatRest.eq_def]
      simp only [if_neg hnul, if_neg hc, ih, conDirective_eq, forM_cons, performDirective,
        skipPercent, hwidth, if_true, bind_assoc]

/-! ### Runs -/

theorem putString_eq (s : CString) : putString s = putStr s.bytes := by
  rw [putString, strlen_memory]
  simp only [CString.memory, List.take_left]

/-- A number comes out of `buf` as it was written. -/
theorem formatNumber_run {format : Mem → Except CFault Mem} {text : List Byte} {s : PrintState}
    (hformat : format s.buf = .ok (storeBytes s.buf 0 (text ++ [0#8]))) (hnul : 0#8 ∉ text)
    (hlength : text.length < bufSize) :
    ∃ buf, (do formatNumber format; putBuf : PrintM Unit).run s =
      .ok () { s with str := s.str ++ text, buf } := by
  obtain ⟨rest, hrest⟩ := loadBytes_terminated s.buf 0 hlength
  have hlen : strnlen (text ++ 0#8 :: rest) bufSize = some text.length :=
    strnlen_eq hnul (Nat.le_of_lt hlength) rest
  have hrun : (formatNumber format).run s =
      .ok () { s with buf := storeBytes s.buf 0 (text ++ [0#8]) } := by
    rw [formatNumber, run_bind_of_ok (EStateM.run_get _)]
    simp only [hformat]
    rfl
  refine ⟨storeBytes s.buf 0 (text ++ [0#8]), (run_bind_of_ok hrun).trans ?_⟩
  rw [putBuf, run_bind_of_ok (EStateM.run_get _)]
  simp only [hrest, hlen, List.take_left]
  rfl

theorem conUnsigned_run {base : Byte} (hbase : base = 10#8 ∨ base = 16#8) (s : PrintState) :
    ∃ buf, (conUnsigned va base).run s =
      .ok () { s with
        str := s.str ++ numeralBytes base.toNat (va.words s.args).toNat
        args := s.args + 1
        buf } := by
  obtain ⟨hlow, hhigh⟩ := base_bounds hbase
  have hlength := length_lowFirst_unsigned hbase (va.words s.args)
  refine formatNumber_run (utoa_eq hbase _ _ _) (numeralBytes_noNul hlow hhigh) ?_
  rw [length_numeralBytes, bufSize]
  omega

/-- Everything but the negation of `INT_MIN` is defined. -/
theorem Directive.run_ok {d : Directive} {s : PrintState}
    (h : ¬ Negates (d, va.words s.args)) :
    ∃ buf, (d.run va).run s =
      .ok () { s with
        str := s.str ++ d.text va.strings (va.words s.args)
        args := s.args + d.arity
        buf } := by
  cases d with
  | literal c => exact ⟨s.buf, rfl⟩
  | percent => exact ⟨s.buf, rfl⟩
  | char => exact ⟨s.buf, rfl⟩
  | string =>
      refine ⟨s.buf, ?_⟩
      simp only [Directive.run, putString_eq]
      rfl
  | signed =>
      have hmin : va.words s.args ≠ intMin := fun hmin => h ⟨rfl, hmin⟩
      have hbase : 10#8 = 10#8 ∨ 10#8 = 16#8 := Or.inl rfl
      rw [Directive.text, itoaString_eq hbase hmin]
      refine formatNumber_run (itoa_eq_text hbase hmin _ _) (itoaText_noNul hbase _) ?_
      have := length_itoaText_le hbase (va.words s.args)
      rw [bufSize]
      omega
  | unsigned => exact conUnsigned_run va (Or.inl rfl) s
  | hex => exact conUnsigned_run va (Or.inr rfl) s
  | other z => exact ⟨s.buf, rfl⟩

theorem Directive.run_negates {d : Directive} {s : PrintState}
    (h : Negates (d, va.words s.args)) :
    (d.run va).run s = .error (.number .overflow) { s with args := s.args + 1 } := by
  obtain ⟨hd, hmin⟩ := h
  change d = .signed at hd
  change va.words s.args = intMin at hmin
  subst hd
  have hformat : (formatNumber fun buf => itoa buf (va.words s.args) 0 10#8).run
      { s with args := s.args + 1 } =
        .error (.number .overflow) { s with args := s.args + 1 } := by
    rw [formatNumber, run_bind_of_ok (EStateM.run_get _)]
    simp only [hmin, itoa_intMin]
    rfl
  have harg : (vaArg va).run s = .ok (va.words s.args) { s with args := s.args + 1 } := rfl
  exact (run_bind_of_ok harg).trans (run_bind_of_error hformat)

theorem performDirective_run {d : Directive} {s : PrintState}
    (h : ¬ Negates (d, va.words s.args)) :
    ∃ t, Printed va.strings [(d, va.words s.args)] s t ∧ t.args = s.args + d.arity ∧
      (performDirective va d).run s = .ok () t := by
  have hskip : ∀ s, (skipPercent d).run s = .ok () { s with fmt := s.fmt + (d.width - 1) } := by
    intro s
    cases d <;> rfl
  have hwidth : d.width - 1 + 1 = d.width := by
    cases d <;> rfl
  have hcount : countStep.run s = .ok () { s with steps := s.steps + 1 } := rfl
  obtain ⟨buf, hrun⟩ := Directive.run_ok va (d := d)
    (s := { s with steps := s.steps + 1, fmt := s.fmt + (d.width - 1) }) h
  refine ⟨{ fmt := s.fmt + d.width, str := s.str ++ d.text va.strings (va.words s.args)
            args := s.args + d.arity, buf := buf, steps := s.steps + 1 }, ⟨rfl, ?_, rfl, rfl⟩,
    rfl, ?_⟩
  · rw [List.flatMap_singleton]
  · rw [performDirective, run_bind_of_ok hcount, run_bind_of_ok (hskip _), run_bind_of_ok hrun]
    rw [← hwidth, ← Nat.add_assoc]
    rfl

theorem performDirective_negates {d : Directive} {s : PrintState}
    (h : Negates (d, va.words s.args)) :
    (performDirective va d).run s = .error (.number .overflow)
      { s with fmt := s.fmt + 1, args := s.args + 1, steps := s.steps + 1 } := by
  have hcount : countStep.run s = .ok () { s with steps := s.steps + 1 } := rfl
  have hskip : (skipPercent d).run { s with steps := s.steps + 1 } =
      .ok () { s with steps := s.steps + 1, fmt := s.fmt + 1 } := by
    rw [show d = .signed from h.1]
    rfl
  have hrun := Directive.run_negates va (s := { s with steps := s.steps + 1, fmt := s.fmt + 1 }) h
  rw [performDirective, run_bind_of_ok hcount, run_bind_of_ok hskip, run_bind_of_error hrun]

/-- The directives before the first one that negates `INT_MIN`. -/
def performed (ps : List (Directive × BitVec 32)) : List (Directive × BitVec 32) :=
  ps.takeWhile (¬ Negates ·)

/-- The directives of a format are performed up to a negation of `INT_MIN`. -/
theorem forM_performDirective (ds : List Directive) (s : PrintState) :
    ∃ t, Printed va.strings (performed (withArgs va.words s.args ds)) s t ∧
      (((∀ p ∈ withArgs va.words s.args ds, ¬ Negates p) ∧
          (ds.forM (performDirective va)).run s = .ok () t) ∨
        (∃ p ∈ withArgs va.words s.args ds, Negates p) ∧
          (ds.forM (performDirective va)).run s = .error (.number .overflow)
            { t with fmt := t.fmt + 1, args := t.args + 1, steps := t.steps + 1 }) := by
  induction ds generalizing s with
  | nil => exact ⟨s, .refl _ s, Or.inl ⟨List.forall_mem_nil _, rfl⟩⟩
  | cons d ds ih =>
      rw [forM_cons, withArgs, performed]
      by_cases h : Negates (d, va.words s.args)
      · rw [List.takeWhile_cons_of_neg (by simpa using h),
          run_bind_of_error (performDirective_negates va h)]
        exact ⟨s, .refl _ s, Or.inr ⟨⟨_, List.mem_cons_self, h⟩, rfl⟩⟩
      · obtain ⟨s', hprinted, hargs, hrun⟩ := performDirective_run va h
        obtain ⟨t, hprinted', hrest⟩ := ih s'
        rw [hargs] at hprinted' hrest
        rw [List.takeWhile_cons_of_pos (by simpa using h), run_bind_of_ok hrun]
        refine ⟨t, hprinted.cons hprinted', hrest.imp ?_ ?_⟩
        · intro hok
          exact ⟨List.forall_mem_cons.mpr ⟨h, hok.1⟩, hok.2⟩
        · intro hfailed
          obtain ⟨⟨p, hp, hneg⟩, hrun⟩ := hfailed
          exact ⟨⟨p, List.mem_cons_of_mem _ hp, hneg⟩, hrun⟩

theorem performed_eq_self {ps : List (Directive × BitVec 32)} (h : ∀ p ∈ ps, ¬ Negates p) :
    performed ps = ps :=
  List.takeWhile_eq_self_iff.mpr fun p hp => decide_eq_true (h p hp)

theorem map_withArgs {α : Type*} (f : Directive → α) (words : Nat → BitVec 32) (k : Nat)
    (ds : List Directive) : (withArgs words k ds).map (fun p => f p.1) = ds.map f := by
  induction ds generalizing k with
  | nil => rfl
  | cons d ds ih => exact congrArg (f d :: ·) (ih _)

/-! ### The output -/

/-- The arguments of a format, in order. -/
def formatArgs (fmt : CString) : List (Directive × BitVec 32) :=
  withArgs va.words 0 (directives fmt.bytes)

def formatText (fmt : CString) : List Byte :=
  (formatArgs va fmt).flatMap fun p => p.1.text va.strings p.2

/-- The format does not end in the middle of a directive. -/
def Complete (fmt : CString) : Prop := formatRest fmt.bytes = []

/-- Only a `%d` or `%i` may negate. -/
theorem formatArgs_defined {fmt : CString} (h : .signed ∉ directives fmt.bytes) :
    ∀ p ∈ formatArgs va fmt, ¬ Negates p := by
  intro p hp hneg
  have hfst : (formatArgs va fmt).map Prod.fst = directives fmt.bytes :=
    (map_withArgs id va.words 0 _).trans (List.map_id _)
  have hmem : p.1 ∈ directives fmt.bytes := hfst ▸ List.mem_map_of_mem hp
  rw [hneg.1] at hmem
  exact h hmem

theorem conVsprintfLoop_nul (beyond : List Byte) (s : PrintState) :
    (conVsprintfLoop va (0#8 :: beyond)).run s = .ok () s := by
  rw [conVsprintfLoop.eq_def]
  rfl

theorem conVsprintf_of_ok {va : VaList} {text : List Byte} {s t : PrintState}
    (h : (conVsprintfLoop va text).run s = .ok () t) :
    (conVsprintf va text).run s =
      .ok (t.str.length + 1) { t with str := t.str ++ [0#8] } := by
  rw [conVsprintf, run_bind_of_ok h, ← List.length_singleton (a := 0#8), ← List.length_append]
  rfl

/-- A complete format is read to its terminator. -/
theorem conVsprintf_complete {fmt : CString} (complete : Complete fmt)
    (defined : ∀ p ∈ formatArgs va fmt, ¬ Negates p) (beyond : List Byte) (buf : Mem) :
    ∃ t, Printed va.strings (formatArgs va fmt) (printStart buf) t ∧
      (conVsprintf va (fmt.bytes ++ 0#8 :: beyond)).run (printStart buf) =
        .ok (t.str.length + 1) { t with str := t.str ++ [0#8] } := by
  obtain ⟨t, hprinted, hrun⟩ := forM_performDirective va (directives fmt.bytes) (printStart buf)
  cases hrun with
  | inl hok =>
      have hloop : (conVsprintfLoop va (fmt.bytes ++ 0#8 :: beyond)).run (printStart buf) =
          .ok () t := by
        rw [conVsprintfLoop_append, run_bind_of_ok hok.2, complete]
        exact conVsprintfLoop_nul va beyond t
      rw [performed_eq_self hok.1] at hprinted
      exact ⟨t, hprinted, conVsprintf_of_ok hloop⟩
  | inr hfailed =>
      obtain ⟨⟨p, hp, hneg⟩, -⟩ := hfailed
      exact absurd hneg (defined p hp)

/-- What is stored is the text of the directives in order and a terminator, and each of
them takes as many arguments as it has. -/
theorem conVsprintf_output (fmt : CString) (beyond : List Byte) (buf : Mem)
    (complete : Complete fmt) (defined : ∀ p ∈ formatArgs va fmt, ¬ Negates p) :
    ∃ t, (conVsprintf va (fmt.bytes ++ 0#8 :: beyond)).run (printStart buf) =
        .ok t.str.length t ∧
      t.str = formatText va fmt ++ [0#8] ∧
      t.args = ((directives fmt.bytes).map Directive.arity).sum := by
  obtain ⟨t, hprinted, hrun⟩ := conVsprintf_complete va complete defined beyond buf
  refine ⟨{ t with str := t.str ++ [0#8] }, ?_, ?_, ?_⟩
  · have hlength : (t.str ++ [0#8]).length = t.str.length + 1 := List.length_append
    rw [hrun, hlength]
  · exact congrArg (· ++ [0#8]) hprinted.str
  · have hargs := hprinted.args
    rw [formatArgs, map_withArgs Directive.arity] at hargs
    exact hargs.trans (Nat.zero_add _)

/-- The message of a panic in `PMM_free`. -/
theorem conVsprintf_output_frames :
    let va : VaList :=
      { words := fun k => [0#32, 3#32, 32#32].getD k 0#32
        strings := fun _ => ⟨cBytes "PMM_free_frames", by decide⟩ }
    let fmt : CString := ⟨cBytes "%s: %u (%u)", by decide⟩
    ∃ t, (conVsprintf va (fmt.bytes ++ [0#8])).run (printStart fun _ => 0#8) =
        .ok t.str.length t ∧
      t.str = formatText va fmt ++ [0#8] ∧
      t.args = ((directives fmt.bytes).map Directive.arity).sum := by
  intro va fmt
  have hcomplete : formatRest (cBytes "%s: %u (%u)") = [] := by decide +kernel
  have hdefined : ∀ p ∈ formatArgs va fmt, ¬ Negates p := by decide +kernel
  exact conVsprintf_output va fmt [] (fun _ => 0#8) hcomplete hdefined

end

end Bros
