import Bros.Lib.Memory
import Mathlib.Data.List.Basic

/-!
Decoding scan code set 2: `PS2_get_char` of `drivers/ps2.c`.

The stream is what `PS2_get_scancode` hands over; it blocks at the end. The decoder keeps
`released` and `extended` over the whole call, so what a modifier sequence sets is still
set for the sequences after it. `decodeSeqs` is the decoder on whole key sequences;
`KeyItem.modifier` is a ghost that says which modifier key a sequence was taken for.
-/

namespace Bros
open ByteMemory

inductive Modifier where
  | lshift
  | rshift
  | lctrl
  | rctrl
  | lalt
  | ralt
deriving DecidableEq

structure KeyMod where
  lshift : Bool
  rshift : Bool
  lctrl : Bool
  rctrl : Bool
  lalt : Bool
  ralt : Bool
deriving DecidableEq

/-- The value of the static at the first call. -/
def KeyMod.empty : KeyMod := ⟨false, false, false, false, false, false⟩

def KeyMod.get (mod : KeyMod) : Modifier → Bool
  | .lshift => mod.lshift
  | .rshift => mod.rshift
  | .lctrl => mod.lctrl
  | .rctrl => mod.rctrl
  | .lalt => mod.lalt
  | .ralt => mod.ralt

def KeyMod.set (mod : KeyMod) : Modifier → KeyMod
  | .lshift => { mod with lshift := true }
  | .rshift => { mod with rshift := true }
  | .lctrl => { mod with lctrl := true }
  | .rctrl => { mod with rctrl := true }
  | .lalt => { mod with lalt := true }
  | .ralt => { mod with ralt := true }

structure KeyEvent where
  scancode : Byte
  released : Bool
  modifiers : KeyMod
  ascii : Char
deriving DecidableEq

/-- The modifier cases of the two switches; `none` is their `default`. -/
def modifierOf (extended : Bool) (c : Byte) : Option Modifier :=
  if extended then
    if c = 0x14#8 then some .rctrl
    else if c = 0x11#8 then some .ralt
    else none
  else
    if c = 0x12#8 then some .lshift
    else if c = 0x59#8 then some .rshift
    else if c = 0x14#8 then some .lctrl
    else if c = 0x11#8 then some .lalt
    else none

def digitKeys : List (Byte × Char × Char) :=
  [(0x16#8, '1', '!'), (0x1E#8, '2', '@'), (0x26#8, '3', '#'), (0x25#8, '4', '$'),
   (0x2E#8, '5', '%'), (0x36#8, '6', '^'), (0x3D#8, '7', '&'), (0x3E#8, '8', '*'),
   (0x46#8, '9', '('), (0x45#8, '0', ')')]

def digitAscii (scancode : Byte) (shift : Bool) : Char :=
  match digitKeys.lookup scancode with
  | some (plain, shifted) => if shift then shifted else plain
  | none => Char.ofNat 0

/-- The event that is returned once a scan code is stored. -/
def keyEvent (mod : KeyMod) (released : Bool) (scancode : Byte) : KeyEvent where
  scancode
  released
  modifiers := mod
  ascii :=
    if released then Char.ofNat 0 else digitAscii scancode (mod.lshift || mod.rshift)

/-- One call: the modifiers it set, the static after it, and the event with the rest of
the stream, or `none` when it blocks. -/
structure Ps2Result where
  taken : List Modifier
  mod : KeyMod
  event : Option (KeyEvent × List Byte)

/-- The loop of `PS2_get_char`. A zero byte leaves `k.scancode` zero and goes on. -/
def ps2GetCharLoop (mod : KeyMod) (released extended : Bool) : List Byte → Ps2Result
  | [] => { taken := [], mod, event := none }
  | c :: cs =>
      if c = 0xE0#8 then ps2GetCharLoop mod released true cs
      else if c = 0xF0#8 then ps2GetCharLoop mod true extended cs
      else
        match modifierOf extended c with
        | some key =>
            let r := ps2GetCharLoop (mod.set key) released extended cs
            { r with taken := key :: r.taken }
        | none =>
            if c = 0#8 then ps2GetCharLoop mod released extended cs
            else { taken := [], mod, event := some (keyEvent mod released c, cs) }

def ps2GetChar (mod : KeyMod) (stream : List Byte) : Ps2Result :=
  ps2GetCharLoop mod false false stream

inductive KeyItem where
  | modifier (key : Modifier)
  | event (k : KeyEvent)
deriving DecidableEq

/-- `n` successive calls, up to the first that blocks. -/
def ps2GetChars : Nat → KeyMod → List Byte → List KeyItem
  | 0, _, _ => []
  | n + 1, mod, stream =>
      let r := ps2GetChar mod stream
      r.taken.map .modifier ++
        match r.event with
        | none => []
        | some (k, rest) => .event k :: ps2GetChars n r.mod rest

/-! ### Modifier bits -/

@[simp] theorem KeyMod.get_empty (key : Modifier) : KeyMod.empty.get key = false := by
  cases key <;> rfl

@[simp] theorem KeyMod.get_set (mod : KeyMod) (key key' : Modifier) :
    (mod.set key).get key' = (decide (key' = key) || mod.get key') := by
  cases key <;> cases key' <;> simp [KeyMod.set, KeyMod.get]

/-- Keys that have no plain modifier meaning have no extended one. -/
theorem modifierOf_true_none {c : Byte} (h : modifierOf false c = none) :
    modifierOf true c = none := by
  simp only [modifierOf, Bool.false_eq_true, if_false, if_true] at h ⊢
  grind

/-- Read as extended, a plain modifier key is never itself. -/
theorem modifierOf_true_ne {c : Byte} {key : Modifier} (h : modifierOf false c = some key) :
    modifierOf true c ≠ some key := by
  simp only [modifierOf, Bool.false_eq_true, if_false, if_true] at h ⊢
  grind

/-! ### Key sequences -/

/-- A complete key sequence: make or break, plain or extended. -/
structure KeySeq where
  ext : Bool
  brk : Bool
  code : Byte
  code_ne : code ≠ 0x00#8 ∧ code ≠ 0xE0#8 ∧ code ≠ 0xF0#8

def KeySeq.bytes (q : KeySeq) : List Byte :=
  (if q.ext then [0xE0#8] else []) ++ (if q.brk then [0xF0#8] else []) ++ [q.code]

def KeySeq.key (q : KeySeq) : Option Modifier := modifierOf q.ext q.code

def streamOf (qs : List KeySeq) : List Byte := qs.flatMap KeySeq.bytes

/-- The decoder on key sequences, with the flags of the call in progress. -/
def decodeSeqs (mod : KeyMod) (released extended : Bool) : List KeySeq → List KeyItem
  | [] => []
  | q :: qs =>
      let released := released || q.brk
      let extended := extended || q.ext
      match modifierOf extended q.code with
      | some key => .modifier key :: decodeSeqs (mod.set key) released extended qs
      | none => .event (keyEvent mod released q.code) :: decodeSeqs mod false false qs

theorem ps2GetCharLoop_bytes (mod : KeyMod) (released extended : Bool) (q : KeySeq)
    (rest : List Byte) :
    ps2GetCharLoop mod released extended (q.bytes ++ rest) =
      match modifierOf (extended || q.ext) q.code with
      | some key =>
          let r := ps2GetCharLoop (mod.set key) (released || q.brk) (extended || q.ext) rest
          { r with taken := key :: r.taken }
      | none =>
          { taken := [], mod, event := some (keyEvent mod (released || q.brk) q.code, rest) } := by
  obtain ⟨ext, brk, code, hzero, hE0, hF0⟩ := q
  have hcode (released extended : Bool) :
      ps2GetCharLoop mod released extended (code :: rest) =
        match modifierOf extended code with
        | some key =>
            let r := ps2GetCharLoop (mod.set key) released extended rest
            { r with taken := key :: r.taken }
        | none => { taken := [], mod, event := some (keyEvent mod released code, rest) } := by
    rw [ps2GetCharLoop, if_neg hE0, if_neg hF0, if_neg hzero]
  cases ext <;> cases brk
  · simpa [KeySeq.bytes] using hcode released extended
  · simpa [KeySeq.bytes, ps2GetCharLoop] using hcode true extended
  · simpa [KeySeq.bytes, ps2GetCharLoop] using hcode released true
  · simpa [KeySeq.bytes, ps2GetCharLoop] using hcode true true

def finishCall (n : Nat) (r : Ps2Result) : List KeyItem :=
  r.taken.map .modifier ++
    match r.event with
    | none => []
    | some (k, rest) => .event k :: ps2GetChars n r.mod rest

theorem finishCall_loop (qs : List KeySeq) (n : Nat) (mod : KeyMod)
    (released extended : Bool) (hn : qs.length ≤ n) :
    finishCall n (ps2GetCharLoop mod released extended (streamOf qs)) =
      decodeSeqs mod released extended qs := by
  induction qs generalizing n mod released extended with
  | nil => rfl
  | cons q qs ih =>
      obtain ⟨n, rfl⟩ : ∃ n', n = n' + 1 := ⟨n - 1, by rw [List.length_cons] at hn; omega⟩
      have hn' : qs.length ≤ n := Nat.le_of_succ_le_succ hn
      rw [streamOf, List.flatMap_cons, ps2GetCharLoop_bytes, decodeSeqs]
      cases hkey : modifierOf (extended || q.ext) q.code with
      | some key =>
          have := ih (n + 1) (mod.set key) (released || q.brk) (extended || q.ext) (by omega)
          exact congrArg (List.cons (KeyItem.modifier key)) this
      | none =>
          exact congrArg (List.cons _) (ih n mod false false hn')

/-- Enough calls decode the whole stream, sequence by sequence. -/
theorem ps2GetChars_streamOf {qs : List KeySeq} {n : Nat} (hn : qs.length < n) (mod : KeyMod) :
    ps2GetChars n mod (streamOf qs) = decodeSeqs mod false false qs := by
  obtain ⟨n, rfl⟩ : ∃ n', n = n' + 1 := ⟨n - 1, by omega⟩
  exact finishCall_loop qs n mod false false (by omega)

/-! ### What sequences are taken for -/

/-- A modifier key, or the scan code and the `released` flag of an event. -/
inductive KeyReading where
  | modifier (key : Modifier)
  | event (scancode : Byte) (released : Bool)
deriving DecidableEq

def KeyItem.reading : KeyItem → KeyReading
  | .modifier key => .modifier key
  | .event k => .event k.scancode k.released

def KeySeq.reading (q : KeySeq) : KeyReading :=
  match q.key with
  | some key => .modifier key
  | none => .event q.code q.brk

def KeyReading.event? : KeyReading → Option (Byte × Bool)
  | .modifier _ => none
  | .event scancode released => some (scancode, released)

/-- Successive calls return one event for each sequence that is no modifier's, in stream
order and with its own code and flag, and take every sequence for what it is by itself. -/
structure DecodesExactly (mod : KeyMod) (qs : List KeySeq) : Prop where
  events : ∀ n > qs.length,
    (ps2GetChars n mod (streamOf qs)).filterMap (KeyReading.event? ∘ KeyItem.reading) =
      (qs.filter fun q => q.key.isNone).map fun q => (q.code, q.brk)
  readings : ∀ n > qs.length,
    (ps2GetChars n mod (streamOf qs)).map KeyItem.reading = qs.map KeySeq.reading

/-- What modifier sequences leave behind does no harm: from an extended modifier up to
the next event all modifier sequences are extended, and after the break of a modifier the
next event is a break. -/
def NoCarryOver (released extended : Bool) : List KeySeq → Prop
  | [] => True
  | q :: qs =>
      if q.key.isSome then
        (extended → q.ext) ∧ NoCarryOver (released || q.brk) (extended || q.ext) qs
      else (released → q.brk) ∧ NoCarryOver false false qs

theorem KeySeq.key_none_extended {q : KeySeq} (h : q.key = none) (extended : Bool) :
    modifierOf (extended || q.ext) q.code = none := by
  unfold KeySeq.key at h
  cases hext : q.ext with
  | true => simpa [hext] using h
  | false =>
      rw [hext] at h
      cases extended with
      | false => exact h
      | true => exact modifierOf_true_none h

theorem decodeSeqs_readings (qs : List KeySeq) (mod : KeyMod) (released extended : Bool) :
    (decodeSeqs mod released extended qs).map KeyItem.reading = qs.map KeySeq.reading ↔
      NoCarryOver released extended qs := by
  induction qs generalizing mod released extended with
  | nil => simp [decodeSeqs, NoCarryOver]
  | cons q qs ih =>
      cases hkey : q.key with
      | none =>
          have hflag : (released || q.brk) = q.brk ↔ (released → q.brk) := by
            cases released <;> cases q.brk <;> decide
          simp only [decodeSeqs, q.key_none_extended hkey, List.map_cons, KeyItem.reading,
            keyEvent, KeySeq.reading, hkey, List.cons.injEq, KeyReading.event.injEq, true_and,
            NoCarryOver, Option.isSome_none, Bool.false_eq_true, if_false, ih, hflag]
      | some key =>
          by_cases hext : extended → q.ext
          · have hor : (extended || q.ext) = q.ext := by
              cases extended
              · rfl
              · simpa using (hext rfl).symm
            have htaken : modifierOf (extended || q.ext) q.code = some key := by
              rw [hor]
              exact hkey
            simp only [decodeSeqs, htaken, List.map_cons, KeyItem.reading, KeySeq.reading,
              hkey, List.cons.injEq, true_and, NoCarryOver, Option.isSome_some, if_true, ih,
              and_iff_right hext]
          · -- a plain modifier read as extended is taken for something else
            have hflags : extended = true ∧ q.ext = false := by
              cases hq : q.ext
              · cases extended
                · exact absurd (fun h => nomatch h) hext
                · exact ⟨rfl, rfl⟩
              · exact absurd (fun _ => hq) hext
            have hplain : modifierOf false q.code = some key := by
              rw [← hflags.2]
              exact hkey
            have hne := modifierOf_true_ne hplain
            refine iff_of_false ?_ ?_
            · intro h
              simp only [decodeSeqs, hflags.1, Bool.true_or] at h
              cases htaken : modifierOf true q.code with
              | none =>
                  rw [htaken] at h
                  simp [KeyItem.reading, KeySeq.reading, hkey] at h
              | some key' =>
                  rw [htaken] at h hne
                  simp only [List.map_cons, KeyItem.reading, KeySeq.reading, hkey,
                    List.cons.injEq, KeyReading.modifier.injEq] at h
                  exact hne (congrArg some h.1)
            · intro h
              rw [NoCarryOver, if_pos (by rw [hkey]; rfl)] at h
              exact hext h.1

theorem KeySeq.filterMap_reading (qs : List KeySeq) :
    (qs.map KeySeq.reading).filterMap KeyReading.event? =
      (qs.filter fun q => q.key.isNone).map fun q => (q.code, q.brk) := by
  induction qs with
  | nil => rfl
  | cons q qs ih =>
      cases hkey : q.key with
      | none => simp [KeySeq.reading, KeyReading.event?, hkey, ih]
      | some key =>
          have hreading : q.reading = .modifier key := by rw [KeySeq.reading, hkey]
          rw [List.map_cons, hreading, List.filterMap_cons_none rfl, ih,
            List.filter_cons_of_neg (by rw [hkey]; simp)]

/-- The decoder takes every sequence for what it is exactly when nothing that a modifier
sequence leaves behind reaches a sequence it changes. -/
theorem scancode_decoding_iff (mod : KeyMod) (qs : List KeySeq) :
    DecodesExactly mod qs ↔ NoCarryOver false false qs := by
  rw [← decodeSeqs_readings qs mod false false]
  constructor
  · intro h
    rw [← ps2GetChars_streamOf (Nat.lt_succ_self _)]
    exact h.readings _ (Nat.lt_succ_self _)
  · intro h
    refine ⟨?_, ?_⟩
    · intro n hn
      rw [← List.filterMap_map, ps2GetChars_streamOf hn, h, KeySeq.filterMap_reading]
    · intro n hn
      rw [ps2GetChars_streamOf hn, h]

def makeKey (code : Byte) (h : code ≠ 0x00#8 ∧ code ≠ 0xE0#8 ∧ code ≠ 0xF0#8) : KeySeq :=
  ⟨false, false, code, h⟩

def breakKey (code : Byte) (h : code ≠ 0x00#8 ∧ code ≠ 0xE0#8 ∧ code ≠ 0xF0#8) : KeySeq :=
  ⟨false, true, code, h⟩

/-- Left shift goes up, then `1C` goes down: the event is a release. -/
theorem released_carries_over :
    ¬ DecodesExactly KeyMod.empty
      [breakKey 0x12#8 (by decide), makeKey 0x1C#8 (by decide)] := by
  intro h
  have := h.readings 3 (by decide)
  revert this
  decide

end Bros
