import Bros.Keyboard
import Mathlib.Data.List.Induction

/-!
The modifier bits of key events.

`PS2_get_char` sets a bit for every modifier sequence, make or break, and clears none. A
bit is right as long as every modifier key that has come up before an event is held.
-/

namespace Bros
open ByteMemory

/-- The last sequence of the key is a make. -/
def held (key : Modifier) (qs : List KeySeq) : Bool :=
  qs.foldl (fun down q => if q.key = some key then !q.brk else down) false

/-- What each sequence is taken for: a modifier sequence is read as extended also when an
extended one has come since the last event. -/
def takenAs (extended : Bool) : List KeySeq → List (Option Modifier)
  | [] => []
  | q :: qs =>
      let extended := extended || q.ext
      let key := modifierOf extended q.code
      key :: takenAs (extended && key.isSome) qs

/-- In every event returned, a modifier bit is set exactly if the key is held when the
event's key comes, and a digit's shifted character comes only with a shift key held. Item
`i` of the calls stems from sequence `i`. -/
structure ModifiersTracked (qs : List KeySeq) : Prop where
  bits : ∀ n > qs.length, ∀ i k,
    (ps2GetChars n KeyMod.empty (streamOf qs))[i]? = some (.event k) →
    ∀ key, k.modifiers.get key = held key (qs.take i)
  shifted : ∀ n > qs.length, ∀ i k,
    (ps2GetChars n KeyMod.empty (streamOf qs))[i]? = some (.event k) →
    (∃ plain, digitKeys.lookup k.scancode = some (plain, k.ascii)) →
    held .lshift (qs.take i) ∨ held .rshift (qs.take i)

/-- Before each sequence that is taken for an event, the modifier keys that earlier
sequences were taken for are the keys that are held. -/
def NoStaleModifier (qs : List KeySeq) : Prop :=
  ∀ i, (takenAs false qs)[i]? = some none →
    ∀ key, some key ∈ (takenAs false qs).take i ↔ held key (qs.take i) = true

theorem decodeSeqs_event_iff (qs : List KeySeq) (mod : KeyMod) (released extended : Bool)
    (i : Nat) :
    (takenAs extended qs)[i]? = some none ↔
      ∃ k, (decodeSeqs mod released extended qs)[i]? = some (.event k) := by
  induction qs generalizing mod released extended i with
  | nil => simp [takenAs, decodeSeqs]
  | cons q qs ih =>
      cases i with
      | zero =>
          cases hkey : modifierOf (extended || q.ext) q.code <;>
            simp [takenAs, decodeSeqs, hkey]
      | succ i =>
          cases hkey : modifierOf (extended || q.ext) q.code with
          | none => simpa [takenAs, decodeSeqs, hkey] using ih mod false false i
          | some key =>
              simpa [takenAs, decodeSeqs, hkey] using
                ih (mod.set key) (released || q.brk) (extended || q.ext) i

/-- Where an event among the items of `q :: qs` comes from: from `q`, behind the event of `q`,
or behind the modifier that `q` is taken for. -/
theorem decodeSeqs_cons_event {q : KeySeq} {qs : List KeySeq} {mod : KeyMod}
    {released extended : Bool} {i : Nat} {k : KeyEvent}
    (h : (decodeSeqs mod released extended (q :: qs))[i]? = some (.event k)) :
    (i = 0 ∧ k = keyEvent mod (released || q.brk) q.code) ∨
      (∃ j, i = j + 1 ∧ modifierOf (extended || q.ext) q.code = none ∧
        (decodeSeqs mod false false qs)[j]? = some (.event k)) ∨
      ∃ j key, i = j + 1 ∧ modifierOf (extended || q.ext) q.code = some key ∧
        (decodeSeqs (mod.set key) (released || q.brk) (extended || q.ext) qs)[j]? =
          some (.event k) := by
  cases hkey : modifierOf (extended || q.ext) q.code with
  | none =>
      simp only [decodeSeqs, hkey] at h
      cases i with
      | zero =>
          simp only [List.getElem?_cons_zero, Option.some.injEq, KeyItem.event.injEq] at h
          exact .inl ⟨rfl, h.symm⟩
      | succ j => exact .inr (.inl ⟨j, rfl, rfl, h⟩)
  | some key =>
      simp only [decodeSeqs, hkey] at h
      cases i with
      | zero => simp at h
      | succ j => exact .inr (.inr ⟨j, key, rfl, rfl, h⟩)

theorem decodeSeqs_event_eq (qs : List KeySeq) (mod : KeyMod) (released extended : Bool)
    (i : Nat) {k : KeyEvent}
    (h : (decodeSeqs mod released extended qs)[i]? = some (.event k)) :
    ∃ q mod released, qs[i]? = some q ∧ k = keyEvent mod released q.code := by
  induction qs generalizing mod released extended i with
  | nil => simp [decodeSeqs] at h
  | cons q qs ih =>
      obtain ⟨rfl, rfl⟩ | ⟨j, rfl, -, h⟩ | ⟨j, key, rfl, -, h⟩ := decodeSeqs_cons_event h
      · exact ⟨q, mod, _, rfl, rfl⟩
      · exact ih mod false false j h
      · exact ih _ _ _ j h

/-- Bits are only ever set: an event's modifiers are those of the start and all that
sequences before it were taken for. -/
theorem decodeSeqs_bits (qs : List KeySeq) (mod : KeyMod) (released extended : Bool) (i : Nat)
    {k : KeyEvent} (h : (decodeSeqs mod released extended qs)[i]? = some (.event k))
    (key : Modifier) :
    k.modifiers.get key = true ↔
      mod.get key = true ∨ some key ∈ (takenAs extended qs).take i := by
  induction qs generalizing mod released extended i with
  | nil => simp [decodeSeqs] at h
  | cons q qs ih =>
      obtain ⟨rfl, rfl⟩ | ⟨j, rfl, hkey, h⟩ | ⟨j, key', rfl, hkey, h⟩ := decodeSeqs_cons_event h
      · simp [keyEvent]
      · rw [ih mod false false j h]
        simp [takenAs, hkey]
      · rw [ih _ _ _ j h, KeyMod.get_set, Bool.or_eq_true, decide_eq_true_eq]
        simp only [takenAs, hkey, Option.isSome_some, Bool.and_true, List.take_succ_cons,
          List.mem_cons, Option.some.injEq]
        rw [or_left_comm, or_assoc]

theorem digitKeys_shifted {scancode : Byte} {plain shifted : Char}
    (h : digitKeys.lookup scancode = some (plain, shifted)) :
    shifted ≠ Char.ofNat 0 ∧ shifted ≠ plain := by
  have hall : ∀ e ∈ digitKeys, e.2.2 ≠ Char.ofNat 0 ∧ e.2.2 ≠ e.2.1 := by decide
  obtain ⟨before, after, htable, -⟩ := List.lookup_eq_some_iff.mp h
  exact hall (scancode, plain, shifted) (htable ▸ List.mem_append_right before List.mem_cons_self)

theorem keyEvent_shifted {mod : KeyMod} {released : Bool} {scancode : Byte} {plain : Char}
    (h : digitKeys.lookup scancode = some (plain, (keyEvent mod released scancode).ascii)) :
    mod.get .lshift = true ∨ mod.get .rshift = true := by
  obtain ⟨hzero, hplain⟩ := digitKeys_shifted h
  have hascii : (keyEvent mod released scancode).ascii =
      if released then Char.ofNat 0
      else if mod.lshift || mod.rshift then (keyEvent mod released scancode).ascii
      else plain := by
    change (if released then _ else digitAscii scancode (mod.lshift || mod.rshift)) = _
    rw [digitAscii, h]
  rw [hascii] at hzero hplain
  cases released with
  | true => exact absurd rfl hzero
  | false =>
      cases hshift : mod.lshift || mod.rshift with
      | true => simpa [KeyMod.get] using hshift
      | false =>
          rw [hshift] at hplain
          exact absurd rfl hplain

theorem modifiers_tracked_iff (qs : List KeySeq) :
    ModifiersTracked qs ↔ NoStaleModifier qs := by
  constructor
  · intro h i hi key
    obtain ⟨k, hk⟩ := (decodeSeqs_event_iff qs KeyMod.empty false false i).mp hi
    have hbit := h.bits _ (Nat.lt_succ_self _) i k
      (by rw [ps2GetChars_streamOf (Nat.lt_succ_self _)]; exact hk) key
    rw [← hbit, decodeSeqs_bits qs KeyMod.empty false false i hk]
    simp
  · intro h
    have bits (n : Nat) (hn : n > qs.length) (i : Nat) (k : KeyEvent)
        (hk : (ps2GetChars n KeyMod.empty (streamOf qs))[i]? = some (.event k))
        (key : Modifier) : k.modifiers.get key = held key (qs.take i) := by
      rw [ps2GetChars_streamOf hn] at hk
      have hi := (decodeSeqs_event_iff qs KeyMod.empty false false i).mpr ⟨k, hk⟩
      rw [Bool.eq_iff_iff, ← h i hi key, decodeSeqs_bits qs KeyMod.empty false false i hk]
      simp
    refine ⟨bits, ?_⟩
    intro n hn i k hk hdigit
    obtain ⟨plain, hlookup⟩ := hdigit
    rw [← bits n hn i k hk, ← bits n hn i k hk]
    rw [ps2GetChars_streamOf hn] at hk
    obtain ⟨q, mod, released, -, rfl⟩ := decodeSeqs_event_eq qs KeyMod.empty false false i hk
    exact keyEvent_shifted hlookup

/-- Left shift goes down and up; the digit after the next key still comes as `!`. -/
theorem stale_shift :
    ¬ ModifiersTracked
      [makeKey 0x12#8 (by decide), breakKey 0x12#8 (by decide), makeKey 0x1C#8 (by decide),
        makeKey 0x16#8 (by decide)] := by
  intro h
  have hitem : (ps2GetChars 5 KeyMod.empty (streamOf
      [makeKey 0x12#8 (by decide), breakKey 0x12#8 (by decide), makeKey 0x1C#8 (by decide),
        makeKey 0x16#8 (by decide)]))[3]? =
      some (.event (keyEvent (KeyMod.empty.set .lshift) false 0x16#8)) := by
    decide
  have := h.shifted 5 (by decide) 3 _ hitem ⟨'1', by decide⟩
  revert this
  decide

/-! ### Streams in which nothing carries over -/

theorem NoCarryOver.takenAs {qs : List KeySeq} {released extended : Bool}
    (h : NoCarryOver released extended qs) : takenAs extended qs = qs.map KeySeq.key := by
  induction qs generalizing released extended with
  | nil => rfl
  | cons q qs ih =>
      rw [NoCarryOver] at h
      rw [Bros.takenAs, List.map_cons]
      cases hkey : q.key with
      | none =>
          rw [hkey, Option.isSome_none, if_neg Bool.false_ne_true] at h
          rw [q.key_none_extended hkey]
          simpa using ih h.2
      | some key =>
          rw [hkey, Option.isSome_some, if_pos rfl] at h
          have hor : (extended || q.ext) = q.ext := by
            cases extended
            · rfl
            · simpa using (h.1 rfl).symm
          have htaken : modifierOf (extended || q.ext) q.code = some key := by
            rw [hor]
            exact hkey
          rw [htaken]
          simpa using ih h.2

theorem mem_of_held {key : Modifier} {qs : List KeySeq} (h : held key qs = true) :
    some key ∈ qs.map KeySeq.key := by
  induction qs using List.reverseRecOn with
  | nil => cases h
  | append_singleton qs q ih =>
      rw [held, List.foldl_append] at h
      rw [List.map_append, List.mem_append]
      by_cases hq : q.key = some key
      · exact Or.inr (by simp [hq])
      · simp only [List.foldl_cons, List.foldl_nil, hq, if_false] at h
        exact Or.inl (ih h)

/-- There the bits are right exactly when no modifier key is up again at an event. -/
theorem NoCarryOver.noStaleModifier_iff {qs : List KeySeq} (h : NoCarryOver false false qs) :
    NoStaleModifier qs ↔
      ∀ i q, qs[i]? = some q → q.key = none →
        ∀ key, some key ∈ (qs.take i).map KeySeq.key → held key (qs.take i) = true := by
  have hget (i : Nat) : (qs.map KeySeq.key)[i]? = some none ↔
      ∃ q, qs[i]? = some q ∧ q.key = none := by
    rw [List.getElem?_map, Option.map_eq_some_iff]
  rw [NoStaleModifier, h.takenAs]
  simp only [hget, ← List.map_take]
  constructor
  · intro hstale i q hq hkey key
    exact (hstale i ⟨q, hq, hkey⟩ key).mp
  · intro hheld i hi key
    obtain ⟨q, hq, hkey⟩ := hi
    exact ⟨hheld i q hq hkey key, mem_of_held⟩

end Bros
