import CoralNPU.Lib.Memory

namespace CoralNPU.Sim

open Lib

/-!
# The dispatch request

The 60-byte record that the host and the firmware share in device memory, and the other two
records a dispatch passes through.

* `Request` — `coralnpu_dispatch_request_t`; `storeRequest` and `loadRequest` place it in
  memory with the offsets of its C layout.  `setStatus` and `setReturnCode` are the
  firmware's stores to single fields.
* `DispatchState` — `iree_hal_executable_dispatch_state_v0_t`.  The host and the firmware use
  the one struct with different pointers, so the pointer types are parameters.
* `loadRequest_storeRequest`, `loadRequest_setStatus`, `loadRequest_setReturnCode` and
  `AgreeOn.loadRequest` — what a load of the request sees after each kind of write.
-/

/-! ### Failures of the runtime -/

/-- The `iree_status_code_t` values that the simulator path returns. -/
inductive StatusCode
  | outOfRange | invalidArgument | failedPrecondition | resourceExhausted
  | dataLoss | internal | unimplemented | notFound
  deriving DecidableEq, Repr

/-- A failed `iree_status_t`. -/
structure Status where
  code : StatusCode
  message : String
  deriving DecidableEq, Repr

/-! ### The request -/

/-- `CORALNPU_DISPATCH_MAGIC` -/
def dispatchMagic : UInt32 := 0x434E5055

/-- `CORALNPU_DISPATCH_VERSION` -/
def dispatchVersion : UInt16 := 1

/-- `coralnpu_dispatch_status_t` -/
inductive DispatchStatus
  | empty | ready | running | complete | error
  deriving DecidableEq, Repr

/-- The value of a status in the request's 16-bit field. -/
def DispatchStatus.toUInt16 : DispatchStatus → UInt16
  | empty => 0
  | ready => 1
  | running => 2
  | complete => 3
  | error => 4

/-- `coralnpu_dispatch_request_t` -/
@[ext]
structure Request where
  magic : UInt32
  version : UInt16
  status : UInt16
  returnCode : Int32
  workgroupSizeX : UInt32
  workgroupSizeY : UInt32
  workgroupSizeZ : UInt32
  workgroupCountX : UInt32
  workgroupCountY : UInt32
  workgroupCountZ : UInt32
  maxConcurrency : UInt16
  pushConstantCount : UInt8
  bindingCount : UInt8
  ordinal : UInt32
  pushConstantsAddr : UInt32
  bindingPtrsAddr : UInt32
  bindingLengthsAddr : UInt32
  localMemoryAddr : UInt32
  deriving DecidableEq

/-- `sizeof(coralnpu_dispatch_request_t)` -/
def requestSize : Nat := 60

/-- The request at `a`, each field at its offset in the C struct. -/
def loadRequest (m : Memory) (a : Nat) : Request where
  magic := UInt32.ofNat (load 4 m (a + 0))
  version := UInt16.ofNat (load 2 m (a + 4))
  status := UInt16.ofNat (load 2 m (a + 6))
  returnCode := (UInt32.ofNat (load 4 m (a + 8))).toInt32
  workgroupSizeX := UInt32.ofNat (load 4 m (a + 12))
  workgroupSizeY := UInt32.ofNat (load 4 m (a + 16))
  workgroupSizeZ := UInt32.ofNat (load 4 m (a + 20))
  workgroupCountX := UInt32.ofNat (load 4 m (a + 24))
  workgroupCountY := UInt32.ofNat (load 4 m (a + 28))
  workgroupCountZ := UInt32.ofNat (load 4 m (a + 32))
  maxConcurrency := UInt16.ofNat (load 2 m (a + 36))
  pushConstantCount := UInt8.ofNat (load 1 m (a + 38))
  bindingCount := UInt8.ofNat (load 1 m (a + 39))
  ordinal := UInt32.ofNat (load 4 m (a + 40))
  pushConstantsAddr := UInt32.ofNat (load 4 m (a + 44))
  bindingPtrsAddr := UInt32.ofNat (load 4 m (a + 48))
  bindingLengthsAddr := UInt32.ofNat (load 4 m (a + 52))
  localMemoryAddr := UInt32.ofNat (load 4 m (a + 56))

/-- `request->status = s` for the request at `a`. -/
def setStatus (m : Memory) (a : Nat) (s : DispatchStatus) : Memory :=
  store 2 m (a + 6) s.toUInt16.toNat

/-- `request->return_code = c` for the request at `a`. -/
def setReturnCode (m : Memory) (a : Nat) (c : Int32) : Memory :=
  store 4 m (a + 8) c.toUInt32.toNat

/-- Write the whole request at `a`, field by field. -/
def storeRequest (m : Memory) (a : Nat) (r : Request) : Memory :=
  let m := store 4 m (a + 0) r.magic.toNat
  let m := store 2 m (a + 4) r.version.toNat
  let m := store 2 m (a + 6) r.status.toNat
  let m := store 4 m (a + 8) r.returnCode.toUInt32.toNat
  let m := store 4 m (a + 12) r.workgroupSizeX.toNat
  let m := store 4 m (a + 16) r.workgroupSizeY.toNat
  let m := store 4 m (a + 20) r.workgroupSizeZ.toNat
  let m := store 4 m (a + 24) r.workgroupCountX.toNat
  let m := store 4 m (a + 28) r.workgroupCountY.toNat
  let m := store 4 m (a + 32) r.workgroupCountZ.toNat
  let m := store 2 m (a + 36) r.maxConcurrency.toNat
  let m := store 1 m (a + 38) r.pushConstantCount.toNat
  let m := store 1 m (a + 39) r.bindingCount.toNat
  let m := store 4 m (a + 40) r.ordinal.toNat
  let m := store 4 m (a + 44) r.pushConstantsAddr.toNat
  let m := store 4 m (a + 48) r.bindingPtrsAddr.toNat
  let m := store 4 m (a + 52) r.bindingLengthsAddr.toNat
  store 4 m (a + 56) r.localMemoryAddr.toNat

/-! ### Loads after writes -/

theorem uint32_ofNat_load_store (m : Memory) (a : Nat) (v : UInt32) :
    UInt32.ofNat (load 4 (store 4 m a v.toNat) a) = v := by
  have hv : v.toNat < 256 ^ 4 := v.toNat_lt
  rw [load_store, Nat.mod_eq_of_lt hv, UInt32.ofNat_toNat]

theorem uint16_ofNat_load_store (m : Memory) (a : Nat) (v : UInt16) :
    UInt16.ofNat (load 2 (store 2 m a v.toNat) a) = v := by
  have hv : v.toNat < 256 ^ 2 := v.toNat_lt
  rw [load_store, Nat.mod_eq_of_lt hv, UInt16.ofNat_toNat]

theorem uint8_ofNat_load_store (m : Memory) (a : Nat) (v : UInt8) :
    UInt8.ofNat (load 1 (store 1 m a v.toNat) a) = v := by
  have hv : v.toNat < 256 ^ 1 := v.toNat_lt
  rw [load_store, Nat.mod_eq_of_lt hv, UInt8.ofNat_toNat]

/-- The request that was written is the one that is read. -/
theorem loadRequest_storeRequest (m : Memory) (a : Nat) (r : Request) :
    loadRequest (storeRequest m a r) a = r := by
  simp (disch := omega) only [loadRequest, storeRequest, load_store_of_disjoint,
    uint32_ofNat_load_store, uint16_ofNat_load_store, uint8_ofNat_load_store]
  rfl

theorem loadRequest_setStatus (m : Memory) (a : Nat) (s : DispatchStatus) :
    loadRequest (setStatus m a s) a = { loadRequest m a with status := s.toUInt16 } := by
  simp (disch := omega) only [loadRequest, setStatus, load_store_of_disjoint,
    uint16_ofNat_load_store]

theorem loadRequest_setReturnCode (m : Memory) (a : Nat) (c : Int32) :
    loadRequest (setReturnCode m a c) a = { loadRequest m a with returnCode := c } := by
  simp (disch := omega) only [loadRequest, setReturnCode, load_store_of_disjoint,
    uint32_ofNat_load_store]
  rfl

/-- Memories that agree on the request's bytes hold the same request. -/
theorem loadRequest_congr {m m' : Memory} {a : Nat} (h : AgreeOn m m' a requestSize) :
    loadRequest m a = loadRequest m' a := by
  have hfield : ∀ w k, k + w ≤ requestSize → load w m (a + k) = load w m' (a + k) :=
    fun w k hk => (h.mono (Nat.le_add_right a k) (by omega)).load
  simp (disch := decide) only [loadRequest, hfield]

/-- A write of the request touches the request's bytes only. -/
theorem storeRequest_agreeOn {m : Memory} {a : Nat} {r : Request} {b k : Nat}
    (h : b + k ≤ a ∨ a + requestSize ≤ b) : AgreeOn (storeRequest m a r) m b k := by
  have hfield : ∀ (m : Memory) w o v, o + w ≤ requestSize → AgreeOn (store w m (a + o) v) m b k :=
    fun m w o v hw => store_agreeOn (by omega)
  unfold storeRequest
  repeat' first
    | exact hfield _ _ _ _ (by decide)
    | refine AgreeOn.trans (hfield _ _ _ _ (by decide)) ?_

/-! ### The dispatch state -/

/-- `iree_hal_executable_dispatch_state_v0_t` over the pointer types of the program that uses
    it: `Option` is a pointer that may be null.  The widths of the count fields are those of the
    runtime's struct; `wz` is the width of its `workgroup_size_z`. -/
structure DispatchState (Constants Ptrs Lengths : Type) (wz : Nat) where
  workgroupSizeX : UInt32
  workgroupSizeY : UInt32
  workgroupSizeZ : BitVec wz
  constantCount : UInt16
  workgroupCountX : UInt32
  workgroupCountY : UInt32
  workgroupCountZ : UInt16
  maxConcurrency : UInt8
  bindingCount : UInt8
  constants : Option Constants
  bindingPtrs : Option Ptrs
  bindingLengths : Option Lengths

/-- The dispatch state as the firmware builds it: the pointers are device addresses. -/
abbrev DeviceDispatchState := DispatchState UInt32 UInt32 UInt32

/-- The dispatch state as the host holds it: constants, the buffer contents of each binding
    (`none` for a null pointer), and the binding lengths. -/
abbrev HostDispatchState := DispatchState (List UInt32) (List (Option (List UInt8))) (List UInt64)

end CoralNPU.Sim
