import Bros.Loader

/-!
The drive that the loader reads from.

`DL` comes in as the drive number and `int 13h` takes the drive from `DL`. `LBA2CHS` stands
between the two and leaves the high byte of the head number there, so every read is for
drive 0.
-/

namespace Bros
open ByteMemory Loops Programs

/-- The requests a function issues, whether or not it returns. -/
def LoaderState.requests (s : LoaderState) (x : LoaderM Unit) : List ReadRequest :=
  match x.run { s with reads := [] } with
  | .ok _ t => t.reads
  | .error _ t => t.reads

def HonoursDrive (s : LoaderState) (x : LoaderM Unit) : Prop :=
  ∀ r ∈ s.requests x, r.chs.dl = lowByte s.regs.dx

section
variable {s : LoaderState} {bios : Bios}

/-! ### The loop -/

/-- The rounds left after `loop` has counted one down. -/
theorem loopCount_of_last {cx : BitVec 16} (h : cx - 1#16 = 0#16) : loopCount cx = 1 := by
  have hcx : cx = 1#16 := by
    rw [BitVec.sub_eq_iff_eq_add] at h
    simpa using h
  rw [hcx]
  rfl

theorem loopCount_of_more {cx : BitVec 16} (h : cx - 1#16 ≠ 0#16) :
    loopCount cx = loopCount (cx - 1#16) + 1 := by
  rw [loopCount, loopCount, if_neg h]
  split
  · next hcx =>
      rw [hcx]
      rfl
  · next hcx =>
      have hpos : cx.toNat ≠ 0 := fun hzero => hcx (BitVec.eq_of_toNat_eq hzero)
      have hlt := cx.isLt
      rw [BitVec.toNat_sub, show (1#16).toNat = 1 from rfl]
      omega

/-- Requests for drive 0. -/
structure ForDriveZero (requests : List ReadRequest) : Prop where
  issued : requests ≠ []
  dl : ∀ request ∈ requests, request.chs.dl = 0#8

theorem clusterRequest_forDriveZero (r : ReadState) : ForDriveZero [clusterRequest r] :=
  ⟨List.cons_ne_nil _ _, fun request hrequest => by
    rw [List.mem_singleton.mp hrequest]
    exact lba2chs_dl _⟩

/-- The loop does to the memory what `repeatM` does, whatever `CX` it is entered with. -/
theorem readClusters_loads (bios : Bios) {rest : List (BitVec 16)} {n : Nat} {s : LoaderState}
    {r : ReadState} (h : Loads rest s r) (hn : loopCount s.regs.cx ≤ n) :
    ∃ t requests, t.reads = s.reads ++ requests ∧ ForDriveZero requests ∧
      ((∃ r', repeatM (readCluster bios) (loopCount s.regs.cx) r = some r' ∧
        (Loader.readClusters bios n).run s = .ok () t ∧ Loads rest t r') ∨
      (repeatM (readCluster bios) (loopCount s.regs.cx) r = none ∧
        (Loader.readClusters bios n).run s = .error .bootFailure t)) := by
  induction n generalizing s r with
  | zero =>
      have hpos : 0 < loopCount s.regs.cx := by
        rw [loopCount]
        split
        · decide
        · next hcx => exact Nat.pos_of_ne_zero fun hzero => hcx (BitVec.eq_of_toNat_eq hzero)
      omega
  | succ n ih =>
      obtain ⟨t, hreads, hround⟩ := readCluster_loads bios h
      have hzero := clusterRequest_forDriveZero r
      obtain ⟨k, hk⟩ : ∃ k, loopCount s.regs.cx = k + 1 := by
        by_cases hlast : s.regs.cx - 1#16 = 0#16
        · exact ⟨0, loopCount_of_last hlast⟩
        · exact ⟨_, loopCount_of_more hlast⟩
      cases hround with
      | inl hok =>
          obtain ⟨r', hstep, hrun, hloads, hcx⟩ := hok
          let counted : LoaderState := { t with regs := { t.regs with cx := t.regs.cx - 1#16 } }
          have hloads' : Loads rest counted r' := ⟨hloads.mem, hloads.si, hloads.stack⟩
          have hcounted : counted.regs.cx = s.regs.cx - 1#16 := congrArg (· - 1#16) hcx
          have hnext : (Loader.readClusters bios (n + 1)).run s =
              (if counted.regs.cx ≠ 0#16 then Loader.readClusters bios n
                else return () : LoaderM Unit).run counted := by
            rw [Loader.readClusters, run_bind_of_ok hrun, run_bind_of_ok (onRegs_run _)]
            rfl
          rw [hk, Loops.repeatM, hstep, Option.bind_some, hnext, hcounted]
          by_cases hlast : s.regs.cx - 1#16 = 0#16
          · have hk0 : k = 0 := by
              have := loopCount_of_last hlast
              omega
            rw [hk0, if_neg (not_not.mpr hlast)]
            exact ⟨counted, _, hreads, hzero, Or.inl ⟨r', rfl, rfl, hloads'⟩⟩
          · have hk' : k = loopCount counted.regs.cx := by
              have := loopCount_of_more hlast
              rw [hcounted]
              omega
            rw [hk', if_pos hlast]
            obtain ⟨u, requests, hreads', hzero', hrest⟩ := ih hloads' (by omega)
            refine ⟨u, clusterRequest r :: requests, ?_, ?_, hrest⟩
            · rw [hreads', show counted.reads = t.reads from rfl, hreads, List.append_assoc]
              rfl
            · exact ⟨List.cons_ne_nil _ _, List.forall_mem_cons.mpr
                ⟨lba2chs_dl _, hzero'.dl⟩⟩
      | inr hfailed =>
          obtain ⟨hstep, hrun⟩ := hfailed
          refine ⟨t, _, hreads, hzero, Or.inr ⟨?_, ?_⟩⟩
          · rw [hk, Loops.repeatM, hstep, Option.bind_none]
          · rw [Loader.readClusters, run_bind_of_error hrun]

theorem loopCount_le (cx : BitVec 16) : loopCount cx ≤ 2 ^ 16 := by
  have := cx.isLt
  rw [loopCount]
  split <;> omega

/-- The instructions of `LoadFile`, when the walk ends. -/
theorem loadFile_reads (bios : Bios) {fuel : Nat} {w : WalkState}
    (hwalk : loadFileWalk fuel s.mem s.regs.ax s.regs.di = some w) :
    ∃ t requests, t.reads = s.reads ++ requests ∧ ForDriveZero requests ∧
      ((∃ m, loadFile fuel bios s.mem s.regs.ax s.regs.bx s.regs.di = some m ∧
        (Loader.loadFile fuel bios).run s = .ok () t ∧ t.mem = m) ∨
      (loadFile fuel bios s.mem s.regs.ax s.regs.bx s.regs.di = none ∧
        (Loader.loadFile fuel bios).run s = .error .bootFailure t)) := by
  let r : ReadState := { mem := w.mem, si := s.regs.di, bx := s.regs.bx }
  let walked : LoaderState :=
    { mem := w.mem
      regs := { s.regs with ax := w.ax, cx := w.cx, di := w.di, si := s.regs.di }
      stack := s.regs.bx :: s.stack
      reads := s.reads }
  have hrun : (Loader.loadFile fuel bios).run s =
      (do
        Loader.readClusters bios (2 ^ 16)
        Loader.pop fun w r => { r with bx := w } : LoaderM Unit).run walked := by
    rw [Loader.loadFile, run_bind_of_ok (push_run _), run_bind_of_ok (push_run _),
      run_bind_of_ok (EStateM.run_get _)]
    simp only [hwalk]
    rw [run_bind_of_ok (EStateM.run_set _ _), run_bind_of_ok (pop_run _ rfl)]
  obtain ⟨t, requests, hreads, hzero, hloop⟩ := readClusters_loads bios (s := walked) (r := r)
    ⟨rfl, rfl, rfl⟩ (loopCount_le _)
  have hfile : loadFile fuel bios s.mem s.regs.ax s.regs.bx s.regs.di =
      (repeatM (readCluster bios) (loopCount w.cx) r).map ReadState.mem := by
    rw [loadFile, hwalk]
    rfl
  rw [hfile, hrun]
  cases hloop with
  | inl hok =>
      obtain ⟨r', hrepeat, hrounds, hloads⟩ := hok
      rw [run_bind_of_ok hrounds, pop_run _ hloads.stack]
      refine ⟨{ t with regs := { t.regs with bx := r'.bx }, stack := s.stack }, requests, hreads,
        hzero, Or.inl ⟨r'.mem, ?_, rfl, hloads.mem⟩⟩
      exact congrArg (Option.map ReadState.mem) hrepeat
  | inr hfailed =>
      obtain ⟨hrepeat, hrounds⟩ := hfailed
      rw [run_bind_of_error hrounds]
      exact ⟨t, requests, hreads, hzero, Or.inr ⟨congrArg (Option.map ReadState.mem) hrepeat, rfl⟩⟩

/-- A walk that does not end issues no request. -/
theorem loadFile_walking (bios : Bios) {fuel : Nat}
    (hwalk : loadFileWalk fuel s.mem s.regs.ax s.regs.di = none) :
    ∃ t, t.reads = s.reads ∧ (Loader.loadFile fuel bios).run s = .error .walking t := by
  rw [Loader.loadFile, run_bind_of_ok (push_run _), run_bind_of_ok (push_run _),
    run_bind_of_ok (EStateM.run_get _)]
  simp only [hwalk]
  refine ⟨_, ?_, rfl⟩
  rfl

/-- The instructions and `loadFile` agree on the memory and on failure. -/
theorem loadFile_refines (bios : Bios) (fuel : Nat) (s : LoaderState) :
    (∃ t, (Loader.loadFile fuel bios).run s = .ok () t ∧
        loadFile fuel bios s.mem s.regs.ax s.regs.bx s.regs.di = some t.mem) ∨
      (∃ e t, (Loader.loadFile fuel bios).run s = .error e t) ∧
        loadFile fuel bios s.mem s.regs.ax s.regs.bx s.regs.di = none := by
  cases hwalk : loadFileWalk fuel s.mem s.regs.ax s.regs.di with
  | some w =>
      obtain ⟨t, requests, -, -, hrun⟩ := loadFile_reads bios hwalk
      cases hrun with
      | inl hok =>
          obtain ⟨m, hfile, hrun, hmem⟩ := hok
          exact Or.inl ⟨t, hrun, by rw [hfile, hmem]⟩
      | inr hfailed =>
          obtain ⟨hfile, hrun⟩ := hfailed
          exact Or.inr ⟨⟨_, t, hrun⟩, hfile⟩
  | none =>
      obtain ⟨t, -, hrun⟩ := loadFile_walking bios hwalk
      refine Or.inr ⟨⟨_, t, hrun⟩, ?_⟩
      rw [loadFile, hwalk]
      rfl

/-! ### The drive -/

/-- Loaded or failed, the requests are the reads of the state reached. -/
theorem requests_of_run {x : LoaderM Unit} {t : LoaderState}
    (h : x.run { s with reads := [] } = .ok () t ∨ ∃ e, x.run { s with reads := [] } = .error e t) :
    s.requests x = t.reads := by
  rw [LoaderState.requests]
  cases h with
  | inl hok => rw [hok]
  | inr hfailed =>
      obtain ⟨e, hfailed⟩ := hfailed
      rw [hfailed]

theorem honoursDrive_iff {x : LoaderM Unit} (h : ForDriveZero (s.requests x)) :
    HonoursDrive s x ↔ lowByte s.regs.dx = 0#8 := by
  constructor
  · intro honours
    obtain ⟨request, hrequest⟩ := List.exists_mem_of_ne_nil _ h.issued
    rw [← honours request hrequest, h.dl request hrequest]
  · intro hdrive request hrequest
    rw [hdrive, h.dl request hrequest]

theorem loadTable_forDriveZero (s : LoaderState) (bios : Bios) (offset sectors seg : BitVec 16) :
    ForDriveZero (s.requests (Loader.loadTable bios offset sectors seg)) := by
  obtain ⟨t, hreads, hrun⟩ := loadTable_readsOnce (s := { s with reads := [] }) bios offset
    sectors seg
  have hrequests := requests_of_run (hrun.imp
    (fun ⟨_, _, hok, _⟩ => hok) fun ⟨_, hfailed⟩ => Exists.intro _ hfailed)
  rw [hrequests, hreads]
  exact ⟨List.cons_ne_nil _ _, List.forall_mem_cons.mpr ⟨lba2chs_dl _, List.forall_mem_nil _⟩⟩

theorem loadFile_forDriveZero {fuel : Nat} {w : WalkState}
    (hwalk : loadFileWalk fuel s.mem s.regs.ax s.regs.di = some w) (bios : Bios) :
    ForDriveZero (s.requests (Loader.loadFile fuel bios)) := by
  obtain ⟨t, requests, hreads, hzero, hrun⟩ := loadFile_reads (s := { s with reads := [] })
    bios hwalk
  have hrequests := requests_of_run (hrun.imp
    (fun ⟨_, _, hok, _⟩ => hok) fun ⟨_, hfailed⟩ => Exists.intro _ hfailed)
  rw [hrequests, hreads]
  exact hzero

/-- Every read of the three functions is for the drive in `DL` exactly when that is
drive 0; a walk that does not end has no read. -/
theorem boot_drive_honoured_iff (bios : Bios) (fuel : Nat) (s : LoaderState) :
    (HonoursDrive s (Loader.loadRootDirectory bios) ↔ lowByte s.regs.dx = 0#8) ∧
      (HonoursDrive s (Loader.loadFAT bios) ↔ lowByte s.regs.dx = 0#8) ∧
      (HonoursDrive s (Loader.loadFile fuel bios) ↔
        lowByte s.regs.dx = 0#8 ∨
          loadFileWalk fuel s.mem s.regs.ax s.regs.di = none) := by
  refine ⟨honoursDrive_iff (loadTable_forDriveZero s bios _ _ _),
    honoursDrive_iff (loadTable_forDriveZero s bios _ _ _), ?_⟩
  cases hwalk : loadFileWalk fuel s.mem s.regs.ax s.regs.di with
  | some w =>
      rw [honoursDrive_iff (loadFile_forDriveZero hwalk bios), or_iff_left (Option.some_ne_none w)]
  | none =>
      refine iff_of_true ?_ (Or.inr rfl)
      obtain ⟨t, hreads, hrun⟩ := loadFile_walking (s := { s with reads := [] }) bios hwalk
      rw [HonoursDrive, requests_of_run (Or.inr ⟨_, hrun⟩), hreads]
      exact List.forall_mem_nil _

end

/-- The first hard disk. -/
def hardDiskStart : LoaderState :=
  { mem := fun _ => 0#8
    regs := { ax := 0#16, bx := 0#16, cx := 0#16, dx := 0x80#16, si := 0#16, di := 0#16 }
    stack := []
    reads := [] }

theorem loadFAT_reads_drive_zero : ¬ HonoursDrive hardDiskStart (Loader.loadFAT blankBios) := by
  have hzero := loadTable_forDriveZero hardDiskStart blankBios fatSecOffset fatTotalSectors fatSeg
  exact (honoursDrive_iff hzero).not.mpr (by decide)

end Bros
