import CoralNPU.Lib.Loop
import CoralNPU.Sim.Dispatch

namespace CoralNPU.Sim

open Lib

/-!
# The host's loop over the workgroups

Executables that run on the host are dispatched without a simulator: three loops over the grid
call the kernel for one workgroup after the other.

* `issueGrid` — the loops, for any body.  Their `break` leaves the innermost loop only.
* `InlineDispatch.issueDispatchInline` — the loops with a record of the workgroups they issue.
* `issueDispatchInline_eq` — what they issue: of every row, the workgroups through the first
  that fails.
* `halted_called` — what the loops of the firmware call: of the whole grid, the workgroups
  through the first that fails.
* `StopsAtFirstError`, `FailuresInLastRow` — the host's loops stop at the first error exactly
  when no workgroup outside the last row of the grid fails.
-/

variable {ε σ : Type} {wz : Nat}

/-! ### The loops -/

section Loops

variable {ρ : Type} (issue : Nat × Nat × Nat → ρ → ρ) (isOk : ρ → Bool)

/-- The loop over `x`: `issue` is what stands before its test, and `isOk` the test. -/
def issueRow (cx z y : Nat) : ρ → ρ :=
  loop (fun x run =>
      let run := issue (x, y, z) run
      if !isOk run then .leave run else .next run)
    (List.range cx)

/-- The loop over `y`. -/
def issuePlane (cx cy z : Nat) : ρ → ρ :=
  loop (fun y run => .next (issueRow issue isOk cx z y run)) (List.range cy)

/-- The loop over `z`. -/
def issueGrid (cx cy cz : Nat) : ρ → ρ :=
  loop (fun z run => .next (issuePlane issue isOk cx cy z run)) (List.range cz)

end Loops

/-- `iree_byte_span_t`: the address, which may be null, and the length. -/
structure ByteSpan where
  data : Option UInt64
  dataLength : UInt64
  deriving DecidableEq

/-- `iree_hal_executable_workgroup_state_v0_t`, on the host. -/
structure HostWorkgroupState where
  workgroupIdX : UInt32
  workgroupIdY : UInt32
  workgroupIdZ : UInt16
  processorId : UInt32
  localMemory : Option UInt64
  localMemorySize : UInt64
  deriving DecidableEq

/-- The three coordinates of a workgroup. -/
def HostWorkgroupState.id (w : HostWorkgroupState) : Nat × Nat × Nat :=
  (w.workgroupIdX.toNat, w.workgroupIdY.toNat, w.workgroupIdZ.toNat)

/-- `iree_hal_coralnpu_executable_t`: what the vtable's `issue_call` returns for an ordinal, a
    dispatch, a workgroup and a worker. -/
structure Executable (ε : Type) (wz : Nat) where
  issueCall : UInt64 → HostDispatchState wz → HostWorkgroupState → UInt32 → Except ε Unit

/-- The local `status` of the loops, and the workgroups that have been issued, in order. -/
structure InlineRun (ε : Type) where
  status : Except ε Unit
  issued : List HostWorkgroupState

/-- The arguments of `iree_hal_coralnpu_executable_issue_dispatch_inline`. -/
structure InlineDispatch (ε : Type) (wz : Nat) where
  executable : Executable ε wz
  ordinal : UInt64
  dispatchState : HostDispatchState wz
  processorId : UInt32
  localMemory : ByteSpan

namespace InlineDispatch

variable (d : InlineDispatch ε wz)

/-- `workgroup_state`, when the counters of the loops stand at `c`. -/
def workgroupAt (c : Nat × Nat × Nat) : HostWorkgroupState where
  workgroupIdX := UInt32.ofNat c.1
  workgroupIdY := UInt32.ofNat c.2.1
  workgroupIdZ := UInt16.ofNat c.2.2
  processorId := d.processorId
  localMemory := d.localMemory.data
  localMemorySize := d.localMemory.dataLength

/-- The status that the call for the workgroup `c` returns. -/
def statusAt (c : Nat × Nat × Nat) : Except ε Unit :=
  d.executable.issueCall d.ordinal d.dispatchState (d.workgroupAt c) 0

/-- The statements of the innermost loop before its test. -/
def issue (c : Nat × Nat × Nat) (run : InlineRun ε) : InlineRun ε where
  status := d.statusAt c
  issued := run.issued ++ [d.workgroupAt c]

/-- `iree_hal_coralnpu_executable_issue_dispatch_inline` -/
def issueDispatchInline : InlineRun ε :=
  issueGrid d.issue (fun run => run.status.isOk) d.dispatchState.workgroupCountX.toNat
    d.dispatchState.workgroupCountY.toNat d.dispatchState.workgroupCountZ.toNat ⟨.ok (), []⟩

/-! ### What the loops issue -/

/-- The status of this workgroup is an error. -/
def fails (c : Nat × Nat × Nat) : Bool := !(d.statusAt c).isOk

/-- The workgroups of row `y` of plane `z` through the first that fails. -/
def rowIssued (z y : Nat) : List (Nat × Nat × Nat) :=
  throughFirst d.fails (gridRow y z d.dispatchState.workgroupCountX.toNat)

/-- The workgroups that the first `n` rows of plane `z` issue. -/
def planeIssued (z n : Nat) : List (Nat × Nat × Nat) := (List.range n).flatMap (d.rowIssued z)

/-- The workgroups that the first `n` planes issue. -/
def cellsIssued (n : Nat) : List (Nat × Nat × Nat) :=
  (List.range n).flatMap fun z => d.planeIssued z d.dispatchState.workgroupCountY.toNat

/-- The innermost loop runs through the part of the row that is issued. -/
theorem issueRow_eq (z y : Nat) (run : InlineRun ε) :
    issueRow d.issue (fun run => run.status.isOk) d.dispatchState.workgroupCountX.toNat z y run
      = (d.rowIssued z y).foldl (fun run c => d.issue c run) run := by
  rw [issueRow, rowIssued, gridRow, throughFirst_map, List.foldl_map]
  refine loop_eq_foldl (f := fun x run => d.issue (x, y, z) run) (fun x run => ?_) _ run
  rfl

/-- The middle loop runs through that of the plane. -/
theorem issuePlane_eq (z : Nat) (run : InlineRun ε) :
    issuePlane d.issue (fun run => run.status.isOk) d.dispatchState.workgroupCountX.toNat
        d.dispatchState.workgroupCountY.toNat z run
      = (d.planeIssued z d.dispatchState.workgroupCountY.toNat).foldl
          (fun run c => d.issue c run) run := by
  rw [issuePlane, loop_next, planeIssued, List.foldl_flatMap]
  simp only [issueRow_eq]

/-- A loop over cells issues their workgroups. -/
theorem foldl_issue_issued (cs : List (Nat × Nat × Nat)) (run : InlineRun ε) :
    (cs.foldl (fun run c => d.issue c run) run).issued
      = run.issued ++ cs.map d.workgroupAt := by
  induction cs generalizing run with
  | nil => exact (List.append_nil _).symm
  | cons c cs ih => rw [List.foldl_cons, ih, issue, List.append_assoc, List.map_cons,
      List.singleton_append]

/-- The status is that of the workgroup issued last. -/
theorem foldl_issue_status (cs : List (Nat × Nat × Nat)) (run : InlineRun ε) :
    (cs.foldl (fun run c => d.issue c run) run).status
      = (cs.getLast?.map d.statusAt).getD run.status := by
  induction cs generalizing run with
  | nil => rfl
  | cons c cs ih =>
    rw [List.foldl_cons, ih, List.getLast?_cons]
    cases cs.getLast? <;> rfl

/-- **What the loops issue:** of every row, the workgroups through the first that fails. -/
theorem issueDispatchInline_eq :
    d.issueDispatchInline.issued
        = (d.cellsIssued d.dispatchState.workgroupCountZ.toNat).map d.workgroupAt ∧
      d.issueDispatchInline.status
        = ((d.cellsIssued d.dispatchState.workgroupCountZ.toNat).getLast?.map
            d.statusAt).getD (.ok ()) := by
  have hfold : d.issueDispatchInline
      = (d.cellsIssued d.dispatchState.workgroupCountZ.toNat).foldl
          (fun run c => d.issue c run) ⟨.ok (), []⟩ := by
    rw [issueDispatchInline, issueGrid, loop_next, cellsIssued, List.foldl_flatMap]
    simp only [issuePlane_eq]
  rw [hfold]
  exact ⟨foldl_issue_issued d _ _, foldl_issue_status d _ _⟩

/-! ### Where the failures are -/

/-- No workgroup outside the last row of the grid fails. -/
def FailuresInLastRow : Prop :=
  ∀ c ∈ d.dispatchState.grid, d.fails c = true →
    c.2.1 + 1 = d.dispatchState.workgroupCountY.toNat ∧
      c.2.2 + 1 = d.dispatchState.workgroupCountZ.toNat

/-- A workgroup that does not fail is OK. -/
theorem fails_eq_false_iff {c : Nat × Nat × Nat} : d.fails c = false ↔ d.statusAt c = .ok () := by
  rw [fails]
  cases d.statusAt c with
  | error e => simp [Except.isOk, Except.toBool]
  | ok u => simp [Except.isOk, Except.toBool]

/-- A row without failures is issued as a whole. -/
theorem rowIssued_of_ok {z y : Nat}
    (h : ∀ c ∈ gridRow y z d.dispatchState.workgroupCountX.toNat, d.fails c = false) :
    d.rowIssued z y = gridRow y z d.dispatchState.workgroupCountX.toNat :=
  throughFirst_eq_self h

/-- So is a plane. -/
theorem planeIssued_of_ok {z n : Nat}
    (h : ∀ c ∈ gridPlane d.dispatchState.workgroupCountX.toNat z n, d.fails c = false) :
    d.planeIssued z n = gridPlane d.dispatchState.workgroupCountX.toNat z n := by
  rw [planeIssued, gridPlane]
  refine List.flatMap_congr fun y hy => d.rowIssued_of_ok fun c hc => h c ?_
  exact List.mem_flatMap.mpr ⟨y, hy, hc⟩

/-- So is a grid. -/
theorem cellsIssued_of_ok {n : Nat}
    (h : ∀ c ∈ Lib.grid d.dispatchState.workgroupCountX.toNat
      d.dispatchState.workgroupCountY.toNat n, d.fails c = false) :
    d.cellsIssued n = Lib.grid d.dispatchState.workgroupCountX.toNat
      d.dispatchState.workgroupCountY.toNat n := by
  rw [cellsIssued, Lib.grid]
  refine List.flatMap_congr fun z hz => d.planeIssued_of_ok fun c hc => h c ?_
  exact List.mem_flatMap.mpr ⟨z, hz, hc⟩

/-- A grid that is not empty: what is before its last row, and that row. -/
theorem grid_eq_append (cx m n : Nat) :
    Lib.grid cx (m + 1) (n + 1) = gridBefore cx (m + 1) n m 0 ++ gridRow m n cx := by
  rw [← gridBefore_planes cx (m + 1) (n + 1), ← gridBefore_plane, ← gridBefore_row]
  simp [gridBefore, gridRow]

/-- One more plane, whose last row decides. -/
theorem cellsIssued_succ {m : Nat} (hm : d.dispatchState.workgroupCountY.toNat = m + 1)
    (n : Nat) :
    d.cellsIssued (n + 1) = d.cellsIssued n ++ d.planeIssued n m ++ d.rowIssued n m := by
  simp only [cellsIssued, List.range_succ, List.flatMap_append, List.flatMap_singleton, hm]
  rw [planeIssued, List.range_succ, List.flatMap_append, List.flatMap_singleton, ← planeIssued,
    List.append_assoc]

/-- **Sufficiency.** If every failure is in the last row, the loops issue the workgroups of the
    grid through the first that fails. -/
theorem cellsIssued_eq_throughFirst (h : d.FailuresInLastRow) :
    d.cellsIssued d.dispatchState.workgroupCountZ.toNat
      = throughFirst d.fails d.dispatchState.grid := by
  rw [HostDispatchState.grid]
  rcases hz : d.dispatchState.workgroupCountZ.toNat with _ | n
  · rfl
  rcases hy : d.dispatchState.workgroupCountY.toNat with _ | m
  · -- no plane has a row
    have hplane : ∀ z, d.planeIssued z 0 = [] := fun _ => rfl
    have hgrid : Lib.grid d.dispatchState.workgroupCountX.toNat 0 (n + 1) = [] :=
      List.flatMap_eq_nil_iff.mpr fun _ _ => rfl
    rw [hgrid, cellsIssued, hy]
    exact List.flatMap_eq_nil_iff.mpr fun z _ => hplane z
  have hmem : ∀ c ∈ gridBefore d.dispatchState.workgroupCountX.toNat (m + 1) n m 0,
      d.fails c = false := by
    intro c hc
    by_contra hfails
    have hgrid : c ∈ d.dispatchState.grid := by
      rw [HostDispatchState.grid, hz, hy, grid_eq_append]
      exact List.mem_append_left _ hc
    obtain ⟨hlastY, hlastZ⟩ := h c hgrid ((Bool.not_eq_false _).mp hfails)
    -- a cell before the last row is in an earlier plane, or in an earlier row of the last
    simp only [gridBefore, gridRow, List.range_zero, List.map_nil, List.append_nil,
      List.mem_append, mem_grid, gridPlane, List.mem_flatMap, List.mem_map, List.mem_range] at hc
    rcases hc with ⟨-, -, hlt⟩ | ⟨y, hlt, x, -, rfl⟩
    · omega
    · simp only at hlastY
      omega
  rw [grid_eq_append, throughFirst_append _ hmem, d.cellsIssued_succ hy]
  simp only [gridBefore, gridRow, List.range_zero, List.map_nil, List.append_nil,
    List.mem_append] at hmem
  rw [d.cellsIssued_of_ok (n := n) (by rw [hy]; exact fun c hc => hmem c (Or.inl hc)),
    d.planeIssued_of_ok (fun c hc => hmem c (Or.inr hc)), hy]
  simp [gridBefore, gridRow, rowIssued]

/-- The workgroup of a cell has its coordinates. -/
theorem id_workgroupAt {c : Nat × Nat × Nat} (hc : c ∈ d.dispatchState.grid) :
    (d.workgroupAt c).id = c := by
  obtain ⟨x, y, z⟩ := c
  obtain ⟨hx, hy, hz⟩ := mem_grid.mp hc
  have hx' := d.dispatchState.workgroupCountX.toNat_lt
  have hy' := d.dispatchState.workgroupCountY.toNat_lt
  have hz' := d.dispatchState.workgroupCountZ.toNat_lt
  simp only at hx hy hz
  simp only [workgroupAt, HostWorkgroupState.id, UInt32.toNat_ofNat', UInt16.toNat_ofNat']
  rw [Nat.mod_eq_of_lt (by omega), Nat.mod_eq_of_lt (by omega), Nat.mod_eq_of_lt (by omega)]

/-- **Necessity.** A failure before the last row does not keep the loops from issuing the first
    workgroup of that row. -/
theorem failuresInLastRow_of_issued
    (h : d.issueDispatchInline.issued
      = (throughFirst d.fails d.dispatchState.grid).map d.workgroupAt) :
    d.FailuresInLastRow := by
  intro c hc hfails
  by_contra hlast
  obtain ⟨hx, hy, hz⟩ := mem_grid.mp hc
  obtain ⟨n, hn⟩ := Nat.exists_eq_add_one_of_ne_zero (Nat.ne_zero_of_lt hz)
  obtain ⟨m, hm⟩ := Nat.exists_eq_add_one_of_ne_zero (Nat.ne_zero_of_lt hy)
  obtain ⟨k, hk⟩ := Nat.exists_eq_add_one_of_ne_zero (Nat.ne_zero_of_lt hx)
  have hgrid : d.dispatchState.grid = gridBefore (k + 1) (m + 1) n m 0 ++ gridRow m n (k + 1) := by
    rw [HostDispatchState.grid, hn, hm, hk, grid_eq_append]
  -- the failing workgroup is before the last row
  have hbefore : c ∈ gridBefore (k + 1) (m + 1) n m 0 := by
    rw [hgrid] at hc
    refine (List.mem_append.mp hc).resolve_right fun hrow => hlast ?_
    obtain ⟨x, -, rfl⟩ := List.mem_map.mp hrow
    exact ⟨hm.symm, hn.symm⟩
  -- the loops issue the first workgroup of the last row all the same
  have hfirst : (0, m, n) ∈ gridRow m n (k + 1) :=
    List.mem_map.mpr ⟨0, List.mem_range.mpr k.succ_pos, rfl⟩
  have hissued : (0, m, n) ∈ d.cellsIssued d.dispatchState.workgroupCountZ.toNat := by
    rw [hn, d.cellsIssued_succ hm]
    refine List.mem_append_right _ ?_
    rw [rowIssued, gridRow, hk, List.range_succ_eq_map, List.map_cons, throughFirst]
    split
    · exact List.mem_cons_self
    · exact List.mem_cons_self
  have hmem : d.workgroupAt (0, m, n)
      ∈ (throughFirst d.fails d.dispatchState.grid).map d.workgroupAt := by
    rw [← h, d.issueDispatchInline_eq.1]
    exact List.mem_map_of_mem hissued
  rw [hgrid, throughFirst_append_of_mem _ hbefore hfails] at hmem
  obtain ⟨c', hc', hat⟩ := List.mem_map.mp hmem
  have hc'before := (throughFirst_isPrefix _ _).subset hc'
  have hid := congrArg HostWorkgroupState.id hat
  rw [d.id_workgroupAt (hgrid ▸ List.mem_append_left _ hc'before),
    d.id_workgroupAt (hgrid ▸ List.mem_append_right _ hfirst)] at hid
  -- so it would be in the grid twice
  have hnodup : (gridBefore (k + 1) (m + 1) n m 0 ++ gridRow m n (k + 1)).Nodup := by
    rw [← grid_eq_append]
    exact nodup_grid _ _ _
  exact List.disjoint_of_nodup_append hnodup (hid ▸ hc'before) hfirst

end InlineDispatch

/-! ### The loops of the firmware -/

/-- **What the firmware calls:** the workgroups of the grid through the first that fails; the
    status is ERROR exactly when one fails. -/
theorem halted_called {fw : Firmware σ wz} {a : Nat} {r : Request} {d : Device σ wz}
    (h : Inv fw a r d) (hhalt : d.pc = .halted) (hkernel : (fw.kernel? r.ordinal).isSome)
    {fails : WorkgroupState → Bool}
    (hresults : ∀ (i : Nat) w code, d.called[i]? = some w → d.returned[i]? = some code →
      (fails w = true ↔ code ≠ 0)) :
    d.called = throughFirst fails (workgroups r) ∧
      (d.HasStatus a .error ↔ ∃ w ∈ workgroups r, fails w = true) := by
  obtain ⟨pc, mem, called, returned⟩ := d
  obtain rfl := hhalt
  rcases h with ⟨hstatus, hfailed⟩ | ⟨hcomplete, -, hcalled, hreturned⟩
  · rcases hfailed with ⟨-, hnone⟩ | ⟨k, code, hcode, ⟨rest, hrest⟩, hlen, hret⟩
    · rw [hnone] at hkernel
      cases hkernel
    simp only at hresults hrest hlen hret
    obtain rfl | ⟨init, w, rfl⟩ := List.eq_nil_or_concat' called
    · cases hlen
    have hk : init.length = k := by simpa using hlen
    have hinit : ∀ v ∈ init, fails v = false := by
      intro v hv
      obtain ⟨i, hi, rfl⟩ := List.getElem_of_mem hv
      have hzero : returned[i]? = some 0 := by
        rw [hret, List.getElem?_append_left (by simpa using hk ▸ hi),
          List.getElem?_replicate_of_lt (hk ▸ hi)]
      have hcall : (init ++ [w])[i]? = some init[i] := by
        rw [List.getElem?_append_left hi, List.getElem?_eq_getElem hi]
      exact (Bool.not_eq_true _).mp fun hf => (hresults i _ 0 hcall hzero).mp hf rfl
    have hlast : fails w = true := by
      refine (hresults k w code ?_ ?_).mpr hcode
      · rw [← hk, List.getElem?_append_right (Nat.le_refl _), Nat.sub_self]
        rfl
      · rw [hret, List.getElem?_append_right (by simp)]
        simp
    refine ⟨?_, iff_of_true hstatus ⟨w, hrest ▸ by simp, hlast⟩⟩
    rw [← hrest, List.append_assoc, throughFirst_append _ hinit, List.singleton_append,
      throughFirst, if_pos hlast]
  · simp only at hresults hcalled hreturned
    subst hcalled
    have hok : ∀ w ∈ workgroups r, fails w = false := by
      intro w hw
      obtain ⟨i, hi, rfl⟩ := List.getElem_of_mem hw
      refine (Bool.not_eq_true _).mp fun hf =>
        (hresults i _ 0 (List.getElem?_eq_getElem hi) ?_).mp hf rfl
      rw [hreturned, List.getElem?_replicate_of_lt hi]
    refine ⟨(throughFirst_eq_self hok).symm, iff_of_false (fun herror => ?_) ?_⟩
    · rw [Device.HasStatus, hcomplete] at herror
      exact absurd (show DispatchStatus.complete.toUInt16 = DispatchStatus.error.toUInt16
        from herror) (by decide)
    · rintro ⟨w, hw, hf⟩
      rw [hok w hw] at hf
      cases hf

/-! ### Stopping at the first error -/

namespace InlineDispatch

variable (d : InlineDispatch ε wz)

/-- The request asks for the grid of the dispatch. -/
def SameGrid (r : Request) : Prop :=
  r.workgroupCountX = d.dispatchState.workgroupCountX ∧
    r.workgroupCountY = d.dispatchState.workgroupCountY ∧
    r.workgroupCountZ = d.dispatchState.workgroupCountZ.toUInt32

/-- The kernel of the firmware returned 0 for the workgroups that succeed on the host. -/
def SameResults (device : Device σ wz) : Prop :=
  ∀ (i : Nat) w code, device.called[i]? = some w → device.returned[i]? = some code →
    (d.statusAt w.id = .ok () ↔ code = 0)

/-- **The host's loops stop at the first error and report it**, as those of the firmware do. -/
structure StopsAtFirstError : Prop where
  /-- The status is that of the first workgroup that fails. -/
  status : d.issueDispatchInline.status
    = (d.dispatchState.grid.find? d.fails).elim (.ok ()) d.statusAt
  /-- The workgroups are issued in the order of the grid, and none after the first that
      fails. -/
  issued : d.issueDispatchInline.issued
    = (throughFirst d.fails d.dispatchState.grid).map d.workgroupAt
  ok_iff : d.issueDispatchInline.status = .ok () ↔ ∀ c ∈ d.dispatchState.grid,
    d.issueDispatchInline.issued.count (d.workgroupAt c) = 1 ∧ d.statusAt c = .ok ()
  /-- A run of the firmware on the same grid, with the same results, calls the same workgroups
      and ends in an error in the same cases. -/
  firmware : ∀ {σ : Type} (fw : Firmware σ wz) (a n : Nat) (m : Memory), fw.KeepsRequest a →
    (loadRequest m a).Ready → (loadRequest m a).PointersSet →
    (fw.kernel? (loadRequest m a).ordinal).isSome → d.SameGrid (loadRequest m a) →
    d.SameResults (run fw a n m) → (run fw a n m).pc = .halted →
    (run fw a n m).called.map WorkgroupState.id
        = d.issueDispatchInline.issued.map HostWorkgroupState.id ∧
      ((run fw a n m).HasStatus a .error ↔ d.issueDispatchInline.status ≠ .ok ())

variable {d}

/-- The coordinates of the issued workgroups. -/
theorem map_id_issued (h : d.issueDispatchInline.issued
      = (throughFirst d.fails d.dispatchState.grid).map d.workgroupAt) :
    d.issueDispatchInline.issued.map HostWorkgroupState.id
      = throughFirst d.fails d.dispatchState.grid := by
  rw [h, List.map_map]
  conv_rhs => rw [← List.map_id (throughFirst _ _)]
  exact List.map_congr_left fun c hc =>
    d.id_workgroupAt ((throughFirst_isPrefix _ _).subset hc)

/-- The status is OK exactly when no workgroup of the grid fails. -/
theorem find?_elim_ok_iff :
    (d.dispatchState.grid.find? d.fails).elim (.ok ()) d.statusAt = .ok () ↔
      ∀ c ∈ d.dispatchState.grid, d.fails c = false := by
  cases hfind : d.dispatchState.grid.find? d.fails with
  | none =>
    refine iff_of_true rfl fun c hc => ?_
    exact (Bool.not_eq_true _).mp (List.find?_eq_none.mp hfind c hc)
  | some c =>
    have hc := List.find?_some hfind
    refine iff_of_false (fun hok => ?_) fun hall => ?_
    · rw [d.fails_eq_false_iff.mpr hok] at hc
      cases hc
    · rw [hall c (List.mem_of_find?_eq_some hfind)] at hc
      cases hc

/-- The status is that of the first failure. -/
theorem status_of_failuresInLastRow (h : d.FailuresInLastRow) :
    d.issueDispatchInline.status
      = (d.dispatchState.grid.find? d.fails).elim (.ok ()) d.statusAt := by
  rw [d.issueDispatchInline_eq.2, d.cellsIssued_eq_throughFirst h, getLast?_throughFirst]
  cases hfind : d.dispatchState.grid.find? d.fails with
  | some c => rfl
  | none =>
    -- nothing fails: the last call succeeded, if there was one
    cases hlast : d.dispatchState.grid.getLast? with
    | none => rfl
    | some c =>
      have hc := List.find?_eq_none.mp hfind c (List.mem_of_getLast? hlast)
      exact d.fails_eq_false_iff.mp ((Bool.not_eq_true _).mp hc)

/-- Every workgroup is issued once. -/
theorem count_issued_of_ok (h : d.issueDispatchInline.issued
      = (throughFirst d.fails d.dispatchState.grid).map d.workgroupAt)
    (hok : ∀ c ∈ d.dispatchState.grid, d.fails c = false) {c : Nat × Nat × Nat}
    (hc : c ∈ d.dispatchState.grid) :
    d.issueDispatchInline.issued.count (d.workgroupAt c) = 1 := by
  rw [h, throughFirst_eq_self hok]
  refine List.count_eq_one_of_mem ?_ (List.mem_map_of_mem hc)
  refine (List.nodup_map_iff_inj_on (nodup_grid _ _ _)).mpr fun c₁ h₁ c₂ h₂ hat => ?_
  rw [← d.id_workgroupAt h₁, hat, d.id_workgroupAt h₂]

/-- What the firmware calls on the grid of the dispatch, with the same results. -/
theorem firmware_calls (fw : Firmware σ wz) {a n : Nat} {m : Memory}
    (hkeeps : fw.KeepsRequest a) (hready : (loadRequest m a).Ready)
    (hptrs : (loadRequest m a).PointersSet)
    (hkernel : (fw.kernel? (loadRequest m a).ordinal).isSome)
    (hgrid : d.SameGrid (loadRequest m a)) (hresults : d.SameResults (run fw a n m))
    (hhalt : (run fw a n m).pc = .halted) :
    (run fw a n m).called.map WorkgroupState.id = throughFirst d.fails d.dispatchState.grid ∧
      ((run fw a n m).HasStatus a .error ↔
        ∃ c ∈ d.dispatchState.grid, d.fails c = true) := by
  obtain ⟨hx, hy, hz⟩ := hgrid
  have hz' : (loadRequest m a).workgroupCountZ.toNat = d.dispatchState.workgroupCountZ.toNat := by
    rw [hz, UInt16.toNat_toUInt32]
  have hids : (workgroups (loadRequest m a)).map WorkgroupState.id = d.dispatchState.grid := by
    rw [map_id_workgroups_grid (hz' ▸ d.dispatchState.workgroupCountZ.toNat_lt), hx, hy, hz']
    rfl
  have hfails : ∀ (i : Nat) w code, (run fw a n m).called[i]? = some w →
      (run fw a n m).returned[i]? = some code → (d.fails w.id = true ↔ code ≠ 0) := by
    intro i w code hw hcode
    rw [← not_iff_not, Bool.not_eq_true, d.fails_eq_false_iff, hresults i w code hw hcode, not_not]
  obtain ⟨hcalled, herror⟩ :=
    halted_called (inv_run hkeeps hready hptrs rfl n) hhalt hkernel hfails
  constructor
  · rw [hcalled, ← hids, throughFirst_map]
    rfl
  · rw [herror, ← hids]
    simp

/-- **The host's loops stop at the first error exactly when** no workgroup outside the last row
    of the grid fails: their `break` ends the row, and the next row overwrites the status. -/
theorem stopsAtFirstError_iff (d : InlineDispatch ε wz) :
    d.StopsAtFirstError ↔ d.FailuresInLastRow := by
  refine ⟨fun h => d.failuresInLastRow_of_issued h.issued, fun h => ?_⟩
  have hissued : d.issueDispatchInline.issued
      = (throughFirst d.fails d.dispatchState.grid).map d.workgroupAt := by
    rw [d.issueDispatchInline_eq.1, d.cellsIssued_eq_throughFirst h]
  have hstatus := status_of_failuresInLastRow h
  have hok : d.issueDispatchInline.status = .ok () ↔
      ∀ c ∈ d.dispatchState.grid, d.fails c = false := by
    rw [hstatus, find?_elim_ok_iff]
  refine ⟨hstatus, hissued, ?_, ?_⟩
  · rw [hok]
    refine ⟨fun hall c hc => ?_, fun hall c hc => d.fails_eq_false_iff.mpr (hall c hc).2⟩
    exact ⟨count_issued_of_ok hissued hall hc, d.fails_eq_false_iff.mp (hall c hc)⟩
  · intro σ fw a n m hkeeps hready hptrs hkernel hgrid hresults hhalt
    obtain ⟨hcalled, herror⟩ :=
      firmware_calls fw hkeeps hready hptrs hkernel hgrid hresults hhalt
    refine ⟨by rw [hcalled, map_id_issued hissued], ?_⟩
    rw [herror, ne_eq, hok]
    simp

end InlineDispatch

/-! ### A failure in the first of two rows -/

/-- A grid of two rows of one workgroup each; the first workgroup fails. -/
def twoRows : InlineDispatch Nat 16 where
  executable := { issueCall := fun _ _ w _ => if w.workgroupIdY = 0 then .error 13 else .ok () }
  ordinal := 0
  dispatchState := { singleWorkgroup with workgroupCountY := 2 }
  processorId := 0
  localMemory := ⟨none, 0⟩

/-- The second row is issued after the failure, and the dispatch reports success. -/
theorem twoRows_ok :
    twoRows.issueDispatchInline.issued.map HostWorkgroupState.id = [(0, 0, 0), (0, 1, 0)] ∧
      twoRows.issueDispatchInline.status = .ok () ∧ ¬ twoRows.StopsAtFirstError := by
  refine ⟨by decide, rfl, fun h => ?_⟩
  have hok := (h.ok_iff.mp rfl (0, 0, 0) (by decide)).2
  cases hok

end CoralNPU.Sim
