import Bros.Vmm
import Bros.Lib.LastWriter
import Mathlib.Data.Fintype.Order

/-!
The calls that control paging, in any order.

`VMM_disable_paging` combines the complement of `CR0_PG_MASK` with `or`, as
`VMM_enable_paging` does the mask: it sets the thirty-one other bits and leaves PG alone.
-/

namespace Bros
open LastWriter

inductive PagingCall where
  | enablePaging
  | disablePaging
  | switchPageDirectory (pageDirectory : Paddr)
deriving DecidableEq

def pagingStep (s : VmmState) : PagingCall → VmmState
  | .enablePaging => vmmEnablePaging s
  | .disablePaging => vmmDisablePaging s
  | .switchPageDirectory pageDirectory => (vmmSwitchPageDirectory s pageDirectory).2

def pagingRun (s : VmmState) (calls : List PagingCall) : VmmState := calls.foldl pagingStep s

/-- What a call is to make of PG. -/
def PagingCall.paging : PagingCall → Effect Bool
  | .enablePaging => .replace true
  | .disablePaging => .replace false
  | .switchPageDirectory _ => .keep

def PagingCall.directory : PagingCall → Effect Paddr
  | .switchPageDirectory pageDirectory =>
      if pageDirectory = 0#32 then .keep else .replace pageDirectory
  | _ => .keep

/-- Of CR0 only PG moves, and PG and the directory are those of the last call for them. -/
structure TouchesOnlyPaging (s : VmmState) (calls : List PagingCall) : Prop where
  frame : ∀ i < 31, (pagingRun s calls).cr0.getLsbD i = s.cr0.getLsbD i
  paging : (pagingRun s calls).cr0.getLsbD 31 =
    lastWrite PagingCall.paging (s.cr0.getLsbD 31) calls
  cr3 : (pagingRun s calls).cr3 = lastWrite PagingCall.directory s.cr3 calls
  current : (pagingRun s calls).currentDirectory =
    lastWrite PagingCall.directory s.currentDirectory calls
  null : pagingRun s (calls.filter (· ≠ .switchPageDirectory 0#32)) = pagingRun s calls

/-- What a call makes of one bit of CR0. -/
def PagingCall.cr0Bit (i : Nat) : PagingCall → Effect Bool
  | .enablePaging => .join (cr0PgMask.getLsbD i)
  | .disablePaging => .join ((~~~cr0PgMask).getLsbD i)
  | .switchPageDirectory _ => .keep

theorem vmmSwitchPageDirectory_directory (s : VmmState) (pageDirectory : Paddr) :
    (vmmSwitchPageDirectory s pageDirectory).2.cr3 =
        (PagingCall.switchPageDirectory pageDirectory).directory.value.getD s.cr3 ∧
      (vmmSwitchPageDirectory s pageDirectory).2.currentDirectory =
        (PagingCall.switchPageDirectory pageDirectory).directory.value.getD s.currentDirectory := by
  rw [vmmSwitchPageDirectory, PagingCall.directory]
  split <;> exact ⟨rfl, rfl⟩

theorem vmmSwitchPageDirectory_cr0 (s : VmmState) (pageDirectory : Paddr) :
    (vmmSwitchPageDirectory s pageDirectory).2.cr0 = s.cr0 := by
  rw [vmmSwitchPageDirectory]
  split <;> rfl

theorem pagingStep_cr3 (s : VmmState) (call : PagingCall) :
    (pagingStep s call).cr3 = call.directory.value.getD s.cr3 := by
  cases call with
  | enablePaging => rfl
  | disablePaging => rfl
  | switchPageDirectory pageDirectory => exact (vmmSwitchPageDirectory_directory s _).1

theorem pagingStep_currentDirectory (s : VmmState) (call : PagingCall) :
    (pagingStep s call).currentDirectory = call.directory.value.getD s.currentDirectory := by
  cases call with
  | enablePaging => rfl
  | disablePaging => rfl
  | switchPageDirectory pageDirectory => exact (vmmSwitchPageDirectory_directory s _).2

theorem pagingStep_cr0Bit (i : Nat) (s : VmmState) (call : PagingCall) :
    (pagingStep s call).cr0.getLsbD i = (call.cr0Bit i).apply (s.cr0.getLsbD i) := by
  cases call with
  | enablePaging => exact (BitVec.getLsbD_or ..).trans (Bool.or_comm ..)
  | disablePaging => exact (BitVec.getLsbD_or ..).trans (Bool.or_comm ..)
  | switchPageDirectory pageDirectory =>
      rw [pagingStep, vmmSwitchPageDirectory_cr0]
      rfl

/-- Every bit of CR0 is only ever joined to. -/
theorem pagingRun_cr0Bit (i : Nat) (s : VmmState) (calls : List PagingCall) :
    (pagingRun s calls).cr0.getLsbD i = joined (PagingCall.cr0Bit i) (s.cr0.getLsbD i) calls :=
  foldl_eq_joined (fun s : VmmState => s.cr0.getLsbD i) (pagingStep_cr0Bit i) s calls

theorem mem_since_cr0Bit {i : Nat} {b b' : Bool} {calls : List PagingCall} :
    b' ∈ since (PagingCall.cr0Bit i) b calls ↔ b' = b ∨
      (.enablePaging ∈ calls ∧ cr0PgMask.getLsbD i = b') ∨
        (.disablePaging ∈ calls ∧ (~~~cr0PgMask).getLsbD i = b') := by
  have hjoin (call : PagingCall) (b : Bool) : call.cr0Bit i ≠ .replace b := by
    cases call <;> nofun
  rw [mem_since_of_not_replace fun call _ => hjoin call]
  refine or_congr_right ⟨?_, ?_⟩
  · rintro ⟨call, hmem, hvalue⟩
    cases call with
    | enablePaging => exact .inl ⟨hmem, Option.some_inj.mp hvalue⟩
    | disablePaging => exact .inr ⟨hmem, Option.some_inj.mp hvalue⟩
    | switchPageDirectory _ => cases hvalue
  · rintro (⟨hmem, rfl⟩ | ⟨hmem, rfl⟩)
    · exact ⟨_, hmem, rfl⟩
    · exact ⟨_, hmem, rfl⟩

theorem getLsbD_cr0PgMask {i : Nat} (hi : i < 31) : cr0PgMask.getLsbD i = false := by
  have hall : ∀ i : Fin 31, cr0PgMask.getLsbD i = false := by decide
  exact hall ⟨i, hi⟩

theorem pagingRun_frame_iff {s : VmmState} {calls : List PagingCall} :
    (∀ i < 31, (pagingRun s calls).cr0.getLsbD i = s.cr0.getLsbD i) ↔
      (.disablePaging ∈ calls → ∀ i < 31, s.cr0.getLsbD i = true) := by
  have hbit (i : Nat) (hi : i < 31) : (pagingRun s calls).cr0.getLsbD i = s.cr0.getLsbD i ↔
      (.disablePaging ∈ calls → s.cr0.getLsbD i = true) := by
    have hmask := getLsbD_cr0PgMask hi
    have hcompl : (~~~cr0PgMask).getLsbD i = true := by
      rw [BitVec.getLsbD_not, hmask, decide_eq_true (by omega)]
      rfl
    rw [pagingRun_cr0Bit, joined_eq_iff _ (mem_since_cr0Bit.mpr (.inl rfl))]
    simp only [mem_since_cr0Bit, hmask, hcompl]
    constructor
    · intro hle hmem
      exact hle true (.inr (.inr ⟨hmem, rfl⟩)) rfl
    · rintro hset b (rfl | ⟨-, rfl⟩ | ⟨hmem, rfl⟩)
      · exact le_rfl
      · exact Bool.false_le _
      · rw [hset hmem]
  constructor
  · intro hframe hmem i hi
    exact (hbit i hi).mp (hframe i hi) hmem
  · intro hset i hi
    exact (hbit i hi).mpr fun hmem => hset hmem i hi

theorem lastWrite_paging (b : Bool) (calls : List PagingCall) :
    lastWrite PagingCall.paging b calls = lastWrite (PagingCall.cr0Bit 31) b calls := by
  have hvalue : (fun call : PagingCall => call.paging.value) =
      fun call : PagingCall => (call.cr0Bit 31).value := by
    funext call
    cases call <;> rfl
  rw [lastWrite, lastWrite, hvalue]

/-- PG is what the last call asked for unless that was to clear it and it has ever been set. -/
theorem pagingRun_paging_iff {s : VmmState} {calls : List PagingCall} :
    (pagingRun s calls).cr0.getLsbD 31 =
        lastWrite PagingCall.paging (s.cr0.getLsbD 31) calls ↔
      (lastWrite PagingCall.paging (s.cr0.getLsbD 31) calls = false →
        .enablePaging ∉ calls ∧ s.cr0.getLsbD 31 = false) := by
  rw [pagingRun_cr0Bit, lastWrite_paging, joined_eq_lastWrite_iff]
  simp only [mem_since_cr0Bit]
  constructor
  · intro hle hclear
    rw [hclear] at hle
    refine ⟨fun hmem => ?_, ?_⟩
    · exact absurd (hle true (.inr (.inl ⟨hmem, rfl⟩))) (by decide)
    · exact le_bot_iff.mp (hle _ (.inl rfl))
  · intro hharmless b hb
    cases hlast : lastWrite (PagingCall.cr0Bit 31) (s.cr0.getLsbD 31) calls with
    | true => exact Bool.le_true b
    | false =>
        obtain ⟨hmem, hinit⟩ := hharmless hlast
        obtain rfl | ⟨henable, -⟩ | ⟨-, rfl⟩ := hb
        · exact hinit.le
        · exact absurd henable hmem
        · exact le_rfl

theorem pagingRun_cr3 (s : VmmState) (calls : List PagingCall) :
    (pagingRun s calls).cr3 = lastWrite PagingCall.directory s.cr3 calls :=
  foldl_eq_lastWrite VmmState.cr3 pagingStep_cr3 s calls

theorem pagingRun_currentDirectory (s : VmmState) (calls : List PagingCall) :
    (pagingRun s calls).currentDirectory =
      lastWrite PagingCall.directory s.currentDirectory calls :=
  foldl_eq_lastWrite VmmState.currentDirectory pagingStep_currentDirectory s calls

theorem pagingRun_null (s : VmmState) (calls : List PagingCall) :
    pagingRun s (calls.filter (· ≠ .switchPageDirectory 0#32)) = pagingRun s calls := by
  refine foldl_filter_of_idle (fun s call hnull => ?_) s calls
  obtain rfl : call = .switchPageDirectory 0#32 := by simpa using hnull
  rfl

/-- A run with no harmful disable touches only the paging bit. -/
theorem touchesOnlyPaging_iff (s : VmmState) (calls : List PagingCall) :
    TouchesOnlyPaging s calls ↔
      (.disablePaging ∈ calls → ∀ i < 31, s.cr0.getLsbD i = true) ∧
        (lastWrite PagingCall.paging (s.cr0.getLsbD 31) calls = false →
          .enablePaging ∉ calls ∧ s.cr0.getLsbD 31 = false) := by
  constructor
  · intro h
    exact ⟨pagingRun_frame_iff.mp h.frame, pagingRun_paging_iff.mp h.paging⟩
  · rintro ⟨hframe, hpaging⟩
    exact
      { frame := pagingRun_frame_iff.mpr hframe
        paging := pagingRun_paging_iff.mpr hpaging
        cr3 := pagingRun_cr3 s calls
        current := pagingRun_currentDirectory s calls
        null := pagingRun_null s calls }

/-- The state behind a `VMM_init` whose directory is at `1000`. -/
def pagedState : VmmState :=
  { pmm := ⟨fun _ => 0#8, 0#32, 0#32, 0#32⟩
    isrHandlers := 0x104000
    kernelDirectory := 0x1000#32
    currentDirectory := 0x1000#32
    cr0 := 0x80000011#32
    cr3 := 0x1000#32 }

/-- One call to disable paging makes `FFFFFFFF` of CR0. -/
theorem disable_leaves_paging_on : ¬ TouchesOnlyPaging pagedState [.disablePaging] := by
  intro h
  have hpaging := h.paging
  revert hpaging
  decide

end Bros
