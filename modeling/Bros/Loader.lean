import Bros.RootDir
import Bros.Lib.Programs

/-!
The reads of `filesystems/FAT12.inc`, instruction by instruction.

The registers go from one function to the next as they are, and the stack is the list of
the words pushed since the call. `LBA2CHS` and `DriveReadSectors` are shown to compute what
`lba2chs` and `driveReadSectors` say, and a round of `LoadFile_readClusters` what
`readCluster` says.
-/

namespace Bros
open ByteMemory Loops Programs

structure Regs where
  ax : BitVec 16
  bx : BitVec 16
  cx : BitVec 16
  dx : BitVec 16
  si : BitVec 16
  di : BitVec 16

def lowByte (w : BitVec 16) : Byte := w.setWidth 8

def highByte (w : BitVec 16) : Byte := (w >>> 8).setWidth 8

/-- `div bx`; `none` for the exception. -/
def Regs.divBx (r : Regs) : Option Regs :=
  let dividend : BitVec 32 := r.dx ++ r.ax
  let quotient := dividend / r.bx.setWidth 32
  if r.bx = 0#16 ∨ 0x10000#32 ≤ quotient then none
  else some { r with
    ax := quotient.setWidth 16
    dx := (dividend % r.bx.setWidth 32).setWidth 16 }

/-- `mul dx`. -/
def Regs.mulDx (r : Regs) : Regs :=
  let product := r.ax.setWidth 32 * r.dx.setWidth 32
  { r with ax := product.setWidth 16, dx := (product >>> 16).setWidth 16 }

def Regs.lba2chs (r : Regs) : Option Regs :=
  let r := { r with dx := 0#16, cx := 0#16, bx := secPerTrk }
  r.divBx.bind fun r =>
    let r := { r with dx := r.dx + 1#16 }
    let r := { r with cx := highByte r.cx ++ lowByte r.dx, bx := numHeads, dx := 0#16 }
    r.divBx.map fun r =>
      let r := { r with cx := lowByte r.ax ++ lowByte r.cx }
      { r with dx := lowByte r.dx ++ highByte r.dx }    -- xchg dh, dl

/-- What `int 13h` is asked for. -/
def Regs.request (r : Regs) : ReadRequest :=
  { al := lowByte r.ax
    chs := { ch := highByte r.cx, cl := lowByte r.cx, dh := highByte r.dx, dl := lowByte r.dx }
    bx := r.bx }

/-- The memory, the registers, the stack and the requests issued so far. -/
structure LoaderState where
  mem : Mem
  regs : Regs
  stack : List (BitVec 16)
  reads : List ReadRequest

inductive LoaderStop where
  | divideError
  | stackEmpty
  | walking
  | bootFailure

abbrev LoaderM := EStateM LoaderStop LoaderState

namespace Loader

def onRegs (f : Regs → Regs) : LoaderM Unit := modify fun s => { s with regs := f s.regs }

def push (f : Regs → BitVec 16) : LoaderM Unit :=
  modify fun s => { s with stack := f s.regs :: s.stack }

def pop (f : BitVec 16 → Regs → Regs) : LoaderM Unit := do
  let s ← get
  match s.stack with
  | [] => throw .stackEmpty
  | w :: stack => set { s with regs := f w s.regs, stack }

def lodsw : LoaderM Unit := modify fun s =>
  { s with regs := { s.regs with ax := load16 s.mem s.regs.si.toNat, si := s.regs.si + 2#16 } }

def lba2chs : LoaderM Unit := do
  let s ← get
  match s.regs.lba2chs with
  | none => throw .divideError
  | some regs => set { s with regs }

/-- The sectors that arrive are stored; of `AX` only `AL` is looked at afterwards. -/
def int13h (bios : Bios) : LoaderM Bool := do
  let s ← get
  let reply := bios s.regs.request
  set { s with
    mem := if reply.carry then s.mem
      else write s.mem s.regs.bx.toNat (512 * reply.al.toNat) reply.data
    regs := { s.regs with ax := reply.al.setWidth 16 }
    reads := s.reads ++ [s.regs.request] }
  return reply.carry

def driveReadSectors (bios : Bios) : LoaderM Unit := do
  onRegs fun r => { r with ax := 0x02#8 ++ lowByte r.ax }
  push Regs.ax
  let carry ← int13h bios
  if carry then throw .bootFailure
  else
    pop fun w r => { r with dx := w }
    let s ← get
    if lowByte s.regs.dx ≠ lowByte s.regs.ax then throw .bootFailure
    else return ()

/-- The body that `LoadFAT` and `LoadRootDirectory` share. -/
def loadTable (bios : Bios) (offset sectors seg : BitVec 16) : LoaderM Unit := do
  onRegs fun r => { r with ax := offset }
  lba2chs
  onRegs fun r => { r with ax := highByte r.ax ++ sectors.setWidth 8, bx := seg }
  driveReadSectors bios

def loadFAT (bios : Bios) : LoaderM Unit := loadTable bios fatSecOffset fatTotalSectors fatSeg

def loadRootDirectory (bios : Bios) : LoaderM Unit :=
  loadTable bios rootDirSecOffset rootDirTotalSectors rootDirSeg

/-- One round of `LoadFile_readClusters`, up to the `loop`. -/
def readCluster (bios : Bios) : LoaderM Unit := do
  push Regs.cx
  lodsw
  onRegs fun r => { r with ax := r.ax + (dataSecOffset - 2#16), dx := secPerCluster }
  onRegs Regs.mulDx
  lba2chs
  pop fun w r => { r with ax := w }    -- the loop counter
  pop fun w r => { r with bx := w }    -- the memory offset
  push Regs.ax
  onRegs fun r => { r with ax := highByte r.ax ++ secPerCluster.setWidth 8 }
  driveReadSectors bios
  onRegs fun r => { r with ax := 0#8 ++ lowByte r.ax, dx := bytesPerSec }
  onRegs Regs.mulDx
  onRegs fun r => { r with bx := r.bx + r.ax }
  pop fun w r => { r with cx := w }
  push Regs.bx

/-- `CX` has counted down to 0 after at most `2 ^ 16` rounds. -/
def readClusters (bios : Bios) : Nat → LoaderM Unit
  | 0 => return ()
  | n + 1 => do
      readCluster bios
      onRegs fun r => { r with cx := r.cx - 1#16 }
      let s ← get
      if s.regs.cx ≠ 0#16 then readClusters bios n
      else return ()

/-- The walk leaves `DX` alone; what it leaves in `BX` and `SI` is not read. -/
def loadFile (fuel : Nat) (bios : Bios) : LoaderM Unit := do
  push Regs.bx
  push Regs.di
  let s ← get
  match loadFileWalk fuel s.mem s.regs.ax s.regs.di with
  | none => throw .walking
  | some w =>
      set { s with mem := w.mem, regs := { s.regs with ax := w.ax, cx := w.cx, di := w.di } }
      pop fun w r => { r with si := w }
      readClusters bios (2 ^ 16)
      pop fun w r => { r with bx := w }

end Loader

/-! ### `LBA2CHS` -/

theorem lowByte_append (h l : Byte) : lowByte (h ++ l) = l := BitVec.setWidth_append_eq_right

theorem highByte_append (h l : Byte) : highByte (h ++ l) = h := by
  apply BitVec.eq_of_toNat_eq
  have hlt := h.isLt
  rw [highByte, BitVec.toNat_setWidth, BitVec.toNat_ushiftRight, BitVec.toNat_append,
    ← Nat.shiftLeft_add_eq_or_of_lt l.isLt, Nat.shiftRight_eq_div_pow, Nat.shiftLeft_eq,
    Nat.mul_comm, Nat.mul_add_div (by decide), Nat.div_eq_of_lt l.isLt, Nat.add_zero,
    Nat.mod_eq_of_lt hlt]

/-- With `DX` clear the division is one of 16-bit words. -/
theorem divBx_of_dx {r : Regs} {d : BitVec 16} (hdx : r.dx = 0#16) (hbx : r.bx = d)
    (hd : d ≠ 0#16) : r.divBx = some { r with ax := r.ax / d, dx := r.ax % d } := by
  subst hbx
  have hdividend : (r.dx ++ r.ax : BitVec 32).toNat = r.ax.toNat := by
    rw [hdx, BitVec.toNat_append, BitVec.toNat_zero, Nat.zero_shiftLeft, Nat.zero_or]
  have hdivisor : (r.bx.setWidth 32).toNat = r.bx.toNat := by
    rw [BitVec.toNat_setWidth]
    exact Nat.mod_eq_of_lt (Nat.lt_trans r.bx.isLt (by decide))
  have hquotient : ((r.dx ++ r.ax : BitVec 32) / r.bx.setWidth 32).toNat =
      r.ax.toNat / r.bx.toNat := by
    rw [BitVec.toNat_udiv, hdividend, hdivisor]
  have hremainder : ((r.dx ++ r.ax : BitVec 32) % r.bx.setWidth 32).toNat =
      r.ax.toNat % r.bx.toNat := by
    rw [BitVec.toNat_umod, hdividend, hdivisor]
  have hle : r.ax.toNat / r.bx.toNat < 0x10000 :=
    Nat.lt_of_le_of_lt (Nat.div_le_self _ _) r.ax.isLt
  have hfits : ¬ (r.bx = 0#16 ∨ 0x10000#32 ≤ (r.dx ++ r.ax : BitVec 32) / r.bx.setWidth 32) := by
    rw [BitVec.le_def, hquotient]
    exact not_or.mpr ⟨hd, Nat.not_le.mpr hle⟩
  rw [Regs.divBx, if_neg hfits]
  have hax : ((r.dx ++ r.ax : BitVec 32) / r.bx.setWidth 32).setWidth 16 = r.ax / r.bx := by
    apply BitVec.eq_of_toNat_eq
    rw [BitVec.toNat_setWidth, hquotient, BitVec.toNat_udiv, Nat.mod_eq_of_lt hle]
  have hmod : ((r.dx ++ r.ax : BitVec 32) % r.bx.setWidth 32).setWidth 16 = r.ax % r.bx := by
    apply BitVec.eq_of_toNat_eq
    rw [BitVec.toNat_setWidth, hremainder, BitVec.toNat_umod]
    exact Nat.mod_eq_of_lt (Nat.lt_of_le_of_lt (Nat.mod_le _ _) r.ax.isLt)
  rw [hax, hmod]

/-- The head number fits into `DH`, so its high byte is clear. -/
theorem lba2chs_dl (ax : BitVec 16) : (lba2chs ax).dl = 0#8 := by
  apply BitVec.eq_of_toNat_eq
  have hhead : (ax / secPerTrk % numHeads).toNat < 2 := by
    rw [toNat_mod16]
    exact Nat.mod_lt _ (by decide)
  change ((ax / secPerTrk % numHeads) >>> 8).toNat % 2 ^ 8 = 0
  rw [BitVec.toNat_ushiftRight, Nat.shiftRight_eq_div_pow, Nat.div_eq_of_lt (by omega)]

/-- For any registers, with `DL` as `lba2chs` has it. -/
theorem regs_lba2chs (r : Regs) :
    r.lba2chs = some { r with
      ax := r.ax / secPerTrk / numHeads
      bx := numHeads
      cx := (lba2chs r.ax).ch ++ (lba2chs r.ax).cl
      dx := (lba2chs r.ax).dh ++ (lba2chs r.ax).dl } := by
  rw [Regs.lba2chs]
  simp only []
  rw [divBx_of_dx (d := secPerTrk) rfl rfl (by decide), Option.bind_some,
    divBx_of_dx (d := numHeads) rfl rfl (by decide), Option.map_some, lowByte_append]
  rfl

theorem mulDx_ax (r : Regs) : r.mulDx.ax = r.ax * r.dx := by
  have hax := r.ax.isLt
  have hdx := r.dx.isLt
  apply BitVec.eq_of_toNat_eq
  rw [Regs.mulDx, BitVec.toNat_setWidth, BitVec.toNat_mul, BitVec.toNat_setWidth,
    BitVec.toNat_setWidth, BitVec.toNat_mul, Nat.mod_eq_of_lt (a := r.ax.toNat) (by omega),
    Nat.mod_eq_of_lt (a := r.dx.toNat) (by omega), Nat.mod_mod_of_dvd _ (by decide)]

theorem lowByte_setWidth (b : Byte) : lowByte (b.setWidth 16) = b := by
  apply BitVec.eq_of_toNat_eq
  rw [lowByte, BitVec.toNat_setWidth, BitVec.toNat_setWidth]
  omega

theorem zero_append_byte (b : Byte) : (0#8 ++ b : BitVec 16) = b.setWidth 16 := by
  apply BitVec.eq_of_toNat_eq
  rw [BitVec.toNat_append, BitVec.toNat_zero, Nat.zero_shiftLeft, Nat.zero_or,
    BitVec.toNat_setWidth]
  omega

/-! ### Running the instructions -/

section
variable {s t : LoaderState} {bios : Bios}

theorem onRegs_run (f : Regs → Regs) :
    (Loader.onRegs f).run s = .ok () { s with regs := f s.regs } := rfl

theorem push_run (f : Regs → BitVec 16) :
    (Loader.push f).run s = .ok () { s with stack := f s.regs :: s.stack } := rfl

theorem lodsw_run :
    Loader.lodsw.run s = .ok () { s with
      regs := { s.regs with
        ax := load16 s.mem s.regs.si.toNat
        si := s.regs.si + 2#16 } } := rfl

theorem pop_run (f : BitVec 16 → Regs → Regs) {w : BitVec 16} {stack : List (BitVec 16)}
    (h : s.stack = w :: stack) :
    (Loader.pop f).run s = .ok () { s with regs := f w s.regs, stack } := by
  simp only [Loader.pop, EStateM.run_bind, EStateM.run_get, h, EStateM.run_set]

theorem lba2chs_run :
    Loader.lba2chs.run s = .ok () { s with
      regs := { s.regs with
        ax := s.regs.ax / secPerTrk / numHeads
        bx := numHeads
        cx := (lba2chs s.regs.ax).ch ++ (lba2chs s.regs.ax).cl
        dx := (lba2chs s.regs.ax).dh ++ (lba2chs s.regs.ax).dl } } := by
  simp only [Loader.lba2chs, EStateM.run_bind, EStateM.run_get, regs_lba2chs, EStateM.run_set]

theorem int13h_run (bios : Bios) :
    (Loader.int13h bios).run s = .ok (bios s.regs.request).carry { s with
      mem := if (bios s.regs.request).carry then s.mem
        else write s.mem s.regs.bx.toNat (512 * (bios s.regs.request).al.toNat)
          (bios s.regs.request).data
      regs := { s.regs with ax := (bios s.regs.request).al.setWidth 16 }
      reads := s.reads ++ [s.regs.request] } := rfl

/-- The state after a read that brings in the memory `mem`. -/
def LoaderState.afterRead (s : LoaderState) (mem : Mem) (al : Byte) : LoaderState :=
  { mem
    regs := { s.regs with ax := al.setWidth 16, dx := 0x02#8 ++ lowByte s.regs.ax }
    stack := s.stack
    reads := s.reads ++ [s.regs.request] }

/-- `DriveReadSectors` after the interrupt. -/
theorem driveReadSectors_int13h :
    (Loader.driveReadSectors bios).run s =
      (if (bios s.regs.request).carry then throw .bootFailure
      else do
        Loader.pop fun w r => { r with dx := w }
        let s ← get
        if lowByte s.regs.dx ≠ lowByte s.regs.ax then throw .bootFailure
        else return () : LoaderM Unit).run
        { mem := if (bios s.regs.request).carry then s.mem
            else write s.mem s.regs.bx.toNat (512 * (bios s.regs.request).al.toNat)
              (bios s.regs.request).data
          regs := { s.regs with ax := (bios s.regs.request).al.setWidth 16 }
          stack := (0x02#8 ++ lowByte s.regs.ax) :: s.stack
          reads := s.reads ++ [s.regs.request] } := by
  have hrequest : Regs.request { s.regs with ax := 0x02#8 ++ lowByte s.regs.ax } =
      s.regs.request := by
    rw [Regs.request, lowByte_append, Regs.request]
  rw [Loader.driveReadSectors, run_bind_of_ok (onRegs_run _), run_bind_of_ok (push_run _),
    run_bind_of_ok (int13h_run bios)]
  rw [hrequest]

theorem driveReadSectors_regs :
    driveReadSectors bios s.mem (lowByte s.regs.ax) s.regs.request.chs s.regs.bx =
      if (bios s.regs.request).carry then none
      else if lowByte s.regs.ax ≠ (bios s.regs.request).al then none
      else some (write s.mem s.regs.bx.toNat (512 * (bios s.regs.request).al.toNat)
        (bios s.regs.request).data, (bios s.regs.request).al) := rfl

theorem driveReadSectors_ok {mem : Mem} {al : Byte}
    (h : driveReadSectors bios s.mem (lowByte s.regs.ax) s.regs.request.chs s.regs.bx =
      some (mem, al)) :
    (Loader.driveReadSectors bios).run s = .ok () (s.afterRead mem al) := by
  rw [driveReadSectors_regs] at h
  split at h
  · cases h
  · next hcarry =>
      split at h
      · cases h
      · next hal =>
          injection h with h
          injection h with hmem hal'
          rw [driveReadSectors_int13h, if_neg hcarry, if_neg hcarry, run_bind_of_ok (pop_run _ rfl)]
          have heq : lowByte (0x02#8 ++ lowByte s.regs.ax) =
              lowByte ((bios s.regs.request).al.setWidth 16) := by
            rw [lowByte_append, lowByte_setWidth, not_not.mp hal]
          subst hmem
          subst hal'
          simp only [EStateM.run_bind, EStateM.run_get, heq, ne_eq, not_true, if_false]
          rfl

theorem driveReadSectors_failed
    (h : driveReadSectors bios s.mem (lowByte s.regs.ax) s.regs.request.chs s.regs.bx = none) :
    ∃ t, (Loader.driveReadSectors bios).run s = .error .bootFailure t ∧
      t.reads = s.reads ++ [s.regs.request] := by
  rw [driveReadSectors_regs] at h
  rw [driveReadSectors_int13h]
  split at h
  · next hcarry =>
      rw [if_pos hcarry]
      exact ⟨_, rfl, rfl⟩
  · next hcarry =>
      split at h
      · next hal =>
          have hne : lowByte (0x02#8 ++ lowByte s.regs.ax) ≠
              lowByte ((bios s.regs.request).al.setWidth 16) := by
            rwa [lowByte_append, lowByte_setWidth]
          rw [if_neg hcarry, if_neg hcarry, run_bind_of_ok (pop_run _ rfl)]
          simp only [EStateM.run_bind, EStateM.run_get, if_pos hne]
          exact ⟨_, rfl, rfl⟩
      · cases h

/-! ### The reads -/

theorem request_append (chs : Chs) (h n : Byte) (bx si di : BitVec 16) :
    Regs.request { ax := h ++ n, bx, cx := chs.ch ++ chs.cl, dx := chs.dh ++ chs.dl, si, di } =
      { al := n, chs, bx } := by
  simp only [Regs.request, lowByte_append, highByte_append]

/-- A function that issues the one request and has the effect `read` on the memory. -/
def ReadsOnce (x : LoaderM Unit) (s : LoaderState) (request : ReadRequest) (read : Option Mem) :
    Prop :=
  ∃ t, t.reads = s.reads ++ [request] ∧
    ((∃ m, read = some m ∧ x.run s = .ok () t ∧ t.mem = m) ∨
      (read = none ∧ x.run s = .error .bootFailure t))

theorem driveReadSectors_readsOnce (bios : Bios) {al : Byte} {chs : Chs} {bx : BitVec 16}
    (h : s.regs.request = { al, chs, bx }) :
    ReadsOnce (Loader.driveReadSectors bios) s { al, chs, bx }
      ((driveReadSectors bios s.mem al chs bx).map Prod.fst) := by
  rw [← h]
  have hal : lowByte s.regs.ax = al := congrArg ReadRequest.al h
  have hchs : s.regs.request.chs = chs := congrArg ReadRequest.chs h
  have hbx : s.regs.bx = bx := congrArg ReadRequest.bx h
  cases hread : driveReadSectors bios s.mem al chs bx with
  | some r =>
      obtain ⟨mem, al'⟩ := r
      rw [← hal, ← hchs, ← hbx] at hread
      exact ⟨_, rfl, Or.inl ⟨_, rfl, driveReadSectors_ok hread, rfl⟩⟩
  | none =>
      rw [← hal, ← hchs, ← hbx] at hread
      obtain ⟨t, hrun, ht⟩ := driveReadSectors_failed hread
      exact ⟨t, ht, Or.inr ⟨rfl, hrun⟩⟩

theorem loadTable_readsOnce (bios : Bios) (offset sectors seg : BitVec 16) :
    ReadsOnce (Loader.loadTable bios offset sectors seg) s
      { al := sectors.setWidth 8, chs := lba2chs offset, bx := seg }
      ((driveReadSectors bios s.mem (sectors.setWidth 8) (lba2chs offset) seg).map Prod.fst) := by
  have hread := driveReadSectors_readsOnce bios (s := { s with regs :=
    { ax := highByte (offset / secPerTrk / numHeads) ++ sectors.setWidth 8
      bx := seg
      cx := (lba2chs offset).ch ++ (lba2chs offset).cl
      dx := (lba2chs offset).dh ++ (lba2chs offset).dl
      si := s.regs.si
      di := s.regs.di } }) (request_append (lba2chs offset) _ _ _ _ _)
  rw [ReadsOnce, Loader.loadTable, run_bind_of_ok (onRegs_run _), run_bind_of_ok lba2chs_run,
    run_bind_of_ok (onRegs_run _)]
  exact hread

/-- The request of the round that finds the registers and the memory of `r`. -/
def clusterRequest (r : ReadState) : ReadRequest :=
  { al := secPerCluster.setWidth 8
    chs := lba2chs ((load16 r.mem r.si.toNat + (dataSecOffset - 2#16)) * secPerCluster)
    bx := r.bx }

/-- The machine before a round: the memory offset is on the stack. -/
structure Loads (rest : List (BitVec 16)) (s : LoaderState) (r : ReadState) : Prop where
  mem : s.mem = r.mem
  si : s.regs.si = r.si
  stack : s.stack = r.bx :: rest

theorem readCluster_loads (bios : Bios) {rest : List (BitVec 16)} {r : ReadState}
    (h : Loads rest s r) :
    ∃ t, t.reads = s.reads ++ [clusterRequest r] ∧
      ((∃ r', readCluster bios r = some r' ∧ (Loader.readCluster bios).run s = .ok () t ∧
        Loads rest t r' ∧ t.regs.cx = s.regs.cx) ∨
      (readCluster bios r = none ∧ (Loader.readCluster bios).run s = .error .bootFailure t)) := by
  obtain ⟨m, regs, stack, reads⟩ := s
  obtain ⟨rm, si, bx⟩ := r
  obtain ⟨hmem, hsi, hstack⟩ := h
  simp only at hmem hsi hstack
  subst hmem
  subst hstack
  -- the registers with which `DriveReadSectors` is called
  let lba := (load16 m si.toNat + (dataSecOffset - 2#16)) * secPerCluster
  let called : Regs :=
    { ax := highByte regs.cx ++ secPerCluster.setWidth 8
      bx
      cx := (lba2chs lba).ch ++ (lba2chs lba).cl
      dx := (lba2chs lba).dh ++ (lba2chs lba).dl
      si := si + 2#16
      di := regs.di }
  have hrun : (Loader.readCluster bios).run { mem := m, regs, stack := bx :: rest, reads } =
      (do
        Loader.driveReadSectors bios
        Loader.onRegs fun r => { r with ax := 0#8 ++ lowByte r.ax, dx := bytesPerSec }
        Loader.onRegs Regs.mulDx
        Loader.onRegs fun r => { r with bx := r.bx + r.ax }
        Loader.pop fun w r => { r with cx := w }
        Loader.push Regs.bx : LoaderM Unit).run
        { mem := m, regs := called, stack := regs.cx :: rest, reads } := by
    rw [Loader.readCluster, run_bind_of_ok (push_run _), run_bind_of_ok lodsw_run,
      run_bind_of_ok (onRegs_run _), run_bind_of_ok (onRegs_run _), run_bind_of_ok lba2chs_run,
      run_bind_of_ok (pop_run _ rfl), run_bind_of_ok (pop_run _ rfl),
      run_bind_of_ok (push_run _), run_bind_of_ok (onRegs_run _)]
    simp only [mulDx_ax, hsi]
    rfl
  have hrequest : called.request = clusterRequest { mem := m, si, bx } := request_append _ _ _ _ _ _
  have hal : lowByte called.ax = secPerCluster.setWidth 8 := lowByte_append _ _
  have hchs : called.request.chs = lba2chs lba := congrArg ReadRequest.chs hrequest
  let before : LoaderState := { mem := m, regs := called, stack := regs.cx :: rest, reads }
  cases hread : driveReadSectors bios m (secPerCluster.setWidth 8) (lba2chs lba) bx with
  | some read =>
      obtain ⟨mem, al⟩ := read
      have hstep : readCluster bios { mem := m, si, bx } = some
          { mem, si := si + 2#16, bx := bx + al.setWidth 16 * bytesPerSec } := by
        simp only [readCluster, lba, hread, Option.map_some]
      have hok : (Loader.driveReadSectors bios).run before = .ok () (before.afterRead mem al) := by
        apply driveReadSectors_ok
        change driveReadSectors bios m (lowByte called.ax) called.request.chs bx = _
        rw [hal, hchs, hread]
      have hoffset : (Regs.mulDx { called with
          ax := 0#8 ++ lowByte (al.setWidth 16), dx := bytesPerSec }).ax =
            al.setWidth 16 * bytesPerSec := by
        rw [mulDx_ax, lowByte_setWidth, zero_append_byte]
      rw [hrun, run_bind_of_ok hok, run_bind_of_ok (onRegs_run _), run_bind_of_ok (onRegs_run _),
        run_bind_of_ok (onRegs_run _), run_bind_of_ok (pop_run _ rfl), push_run]
      refine ⟨_, ?_, Or.inl ⟨_, hstep, rfl, ⟨rfl, rfl, ?_⟩, rfl⟩⟩
      · exact congrArg (fun request => reads ++ [request]) hrequest
      · exact congrArg (fun x => (bx + x) :: rest) hoffset
  | none =>
      have hstep : readCluster bios { mem := m, si, bx } = none := by
        simp only [readCluster, lba, hread, Option.map_none]
      have hnone : driveReadSectors bios m (lowByte called.ax) called.request.chs bx = none := by
        rw [hal, hchs, hread]
      obtain ⟨t, hfailed, ht⟩ := driveReadSectors_failed (s := before) hnone
      refine ⟨t, ?_, Or.inr ⟨hstep, ?_⟩⟩
      · rw [ht]
        exact congrArg (fun request => reads ++ [request]) hrequest
      · rw [hrun, run_bind_of_error hfailed]

end

end Bros
