import CoralNPU.Tiling.FootprintMono

namespace CoralNPU.Affinity

open CoralNPU.Tiling

/-!
# Affinity — which operations are placed on the NPU

The test of the affinity-annotation pass: a compute operation of a supported kind, all of
whose operands and results have supported types, with enough input and output bytes.

* `isSupportedType` — a static tensor of a supported element type, or such a scalar;
* `estimateIOBytes` — the bytes of all operands and results;
* `shouldExecuteOnCoralNPU` — the test.
-/

/-- `isSupportedComputeOp`. -/
def isSupportedComputeOp (root : RootOp) : Bool :=
  match root.op with
  | .linalg op =>
    match op.kind with
    | .matmul | .batchMatmul | .mmt4D | .conv2DNhwcHwcf => true
    | _ => false
  | _ => false

/-- `isSupportedElementType`. -/
def isSupportedElementType (type : ElementType) : Bool :=
  type.isInteger 8 || type.isInteger 16 || type.isInteger 32 || type.isF32

/-- `isSupportedType`. -/
def isSupportedType : ValueType → Bool
  | .tensor t => !t.shape.contains kDynamic && isSupportedElementType t.elementType
  | .scalar t => isSupportedElementType t

/-- `isSupportedOperandAndResultTypes`. -/
def isSupportedOperandAndResultTypes (root : RootOp) : Bool :=
  root.operandTypes.all isSupportedType && root.resultTypes.all isSupportedType

/-- The element type of a value. -/
def elementTypeOf : ValueType → ElementType
  | .tensor t => t.elementType
  | .scalar t => t

/-- `estimateBytesForType`: the elements of the type times their size, asserted to be whole
    bytes. -/
def estimateBytesForType (type : ValueType) : Except Failure Int := do
  let elementBits ← (elementTypeOf type).getIntOrFloatBitWidth
  if elementBits % 8 ≠ 0 then throw (.assertion "elementBits % 8 == 0")
  return toInt64 (numElements toInt64 type.shape * elementBits.tdiv 8)

/-- `estimateIOBytes`. -/
def estimateIOBytes (root : RootOp) : Except Failure Int :=
  (root.operandTypes ++ root.resultTypes).foldlM
    (fun totalBytes type => do return toInt64 (totalBytes + (← estimateBytesForType type))) 0

/-- `shouldExecuteOnCoralNPU`. -/
def shouldExecuteOnCoralNPU (ioMinThresholdBytes : Int) (root : RootOp) : Except Failure Bool :=
  if !isSupportedComputeOp root then return false
  else if !isSupportedOperandAndResultTypes root then return false
  else do
    let bytes ← estimateIOBytes root
    return ioMinThresholdBytes < bytes

/-- The supported element types are whole bytes, at most 4. -/
theorem elementBytes_of_supported {type : ElementType} (h : isSupportedElementType type = true) :
    ∃ bytes, elementBytes type = .ok bytes ∧ 1 ≤ bytes ∧ bytes ≤ 4 := by
  simp only [isSupportedElementType, ElementType.isInteger, ElementType.isF32, Bool.or_eq_true,
    decide_eq_true_eq] at h
  rcases h with ((rfl | rfl) | rfl) | rfl
  · exact ⟨1, rfl, by decide, by decide⟩
  · exact ⟨2, rfl, by decide, by decide⟩
  · exact ⟨4, rfl, by decide, by decide⟩
  · exact ⟨4, rfl, by decide, by decide⟩

/-- What an accepted operation is: a `linalg` operation of a supported kind, over supported
    types only. -/
theorem shouldExecuteOnCoralNPU_true {threshold : Int} {root : RootOp}
    (h : shouldExecuteOnCoralNPU threshold root = .ok true) :
    (∃ op, root.op = .linalg op) ∧ (∀ type ∈ root.operandTypes, isSupportedType type = true)
      ∧ ∀ type ∈ root.resultTypes, isSupportedType type = true := by
  unfold shouldExecuteOnCoralNPU at h
  by_cases hop : isSupportedComputeOp root
  · by_cases htypes : isSupportedOperandAndResultTypes root
    · simp only [isSupportedOperandAndResultTypes, Bool.and_eq_true, List.all_eq_true] at htypes
      refine ⟨?_, htypes.1, htypes.2⟩
      unfold isSupportedComputeOp at hop
      cases hkind : root.op with
      | linalg op => exact ⟨op, rfl⟩
      | pack op => rw [hkind] at hop; cases hop
      | unpack op => rw [hkind] at hop; cases hop
      | other op => rw [hkind] at hop; cases hop
    · simp [hop, htypes] at h
  · simp [hop] at h

end CoralNPU.Affinity
