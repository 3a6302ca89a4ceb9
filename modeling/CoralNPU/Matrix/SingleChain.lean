import CoralNPU.Matrix.LoopPass
import CoralNPU.Matrix.Splice

namespace CoralNPU.Matrix

open Lib

/-!
# Matrix — functions with a single chain

* `SingleChain` — the functions: one chain, of outer products, whose accumulators are used by the
  next link only, with at most one loop, which carries the accumulator.
* `KeepsMemory` — the rewritten function leaves the memory that the function leaves.
* `runOnOperation_single` — what the pass makes of such a function.
-/

/-! ### The functions -/

/-- The value is an accumulator of the chain: what it writes, or what an update adds to. -/
def AccumulatorChain.HasAccumulator (f : Function) (chain : AccumulatorChain)
    (vector v : ValueId) : Prop :=
  v = vector ∨ ∃ r ∈ chain.updates, ∃ c lhs rhs,
    findDef f.body r = some (.leaf (.contract r c lhs rhs v))

/-- The function uses the value once. -/
def Function.UsesOnce (f : Function) (v : ValueId) : Prop := (usesOps f.body).count v = 1

/-- It can be decided whether a value is used once. -/
instance Function.usesOnceDecidable (f : Function) (v : ValueId) : Decidable (f.UsesOnce v) :=
  inferInstanceAs (Decidable (_ = 1))

/-- **A function with a single accumulator chain**, which writes `vector`. -/
structure SingleChain (f : Function) (chain : AccumulatorChain) (vector : ValueId) : Prop where
  zvt : hasZvtFeature f = true
  source : f.Source
  ssa : SSA f.arguments f.body
  chains : collectChains f = .ok [chain]
  /-- The transfer write is an in-bounds minor identity, on a memref of rank 2 or more. -/
  write : ∃ access, .transferWrite chain.writeback .minorIdentity access vector ∈ leavesOps f.body ∧
    2 ≤ access.indices.length
  types : ∀ v ∈ vector :: chain.updates, f.types v = .vector accumulatorType
  products : ∀ r ∈ chain.updates, ∀ c lhs rhs acc,
    findDef f.body r = some (.leaf (.contract r c lhs rhs acc)) → c.IsOuterProduct
  /-- The initial value is a zero, of either sign, or a transfer read. -/
  init : (∃ negative, findDef f.body chain.initVal =
      some (.leaf (.constant chain.initVal (.splat (.floatZero negative) 16)))) ∨
    ∃ access, findDef f.body chain.initVal =
      some (.leaf (.transferRead chain.initVal .minorIdentity access accumulatorType)) ∧
      2 ≤ access.indices.length
  /-- Every accumulator is used by the next link only. -/
  links : ∀ r ∈ chain.updates, f.UsesOnce r
  /-- There is no loop but one that carries the accumulator. -/
  shape : Straight f.body ∨ ∃ pre h body post init arg yielded result,
    Looped f.body pre h body post init arg yielded result ∧
      chain.HasAccumulator f vector result ∧ f.UsesOnce arg ∧ f.UsesOnce result

/-- The multiply instruction of a chain: the pass takes the updates for ones on `f32` or on `bf16`
    operands, as the traced type of the first one is. -/
def AccumulatorChain.intrinsic (chain : AccumulatorChain) : Intrinsic :=
  if chain.inputElTy = .bf16 then .vtfmmAlt else .vtfmm

/-- A chain has one of two intrinsics. -/
theorem AccumulatorChain.intrinsic_cases (chain : AccumulatorChain) :
    chain.intrinsic = .vtfmm ∨ chain.intrinsic = .vtfmmAlt := by
  unfold AccumulatorChain.intrinsic
  split
  · exact .inr rfl
  · exact .inl rfl

/-! ### The property -/

/-- The accesses of a chain: where its initial value is read, and where it writes. -/
def AccumulatorChain.Touches (f : Function) (chain : AccumulatorChain) (access : Access) : Prop :=
  readOp (findDef f.body chain.initVal) = some access ∨
    ∃ kind vector, .transferWrite chain.writeback kind access vector ∈ leavesOps f.body

/-- In an execution that ends with the values `final`, nothing but the transfer write of the chain
    writes the memory that the chain touches. -/
def Undisturbed {Val Mem : Type} (I : Interp Val Mem) (f : Function) (chain : AccumulatorChain)
    (env : Env Val) (st : State Val Mem) (final : Env Val) : Prop :=
  ∀ access, chain.Touches f access → ∀ base indices, final access.base = some base →
    access.indices.mapM final = some indices → ∀ l vals st', Executed I f.body env st l vals st' →
    (∀ kind access vector, l ≠ .transferWrite chain.writeback kind access vector) →
    I.transferRead .minorIdentity accumulatorType base indices (I.effect l vals st').mem
      = I.transferRead .minorIdentity accumulatorType base indices st'.mem

/-- The block `ops` leaves the memory that the function leaves, on every matrix unit. -/
def LeavesMemory (f : Function) (chain : AccumulatorChain) (ops : List Op) : Prop :=
  ∀ (Val Mem : Type) (I : Interp Val Mem), I.MatrixUnit →
    ∀ (env env₁ : Env Val) (st st₁ : State Val Mem), (∀ v ∈ f.arguments, (env v).isSome) →
      evalOps I f.body env st = some (env₁, st₁) → Undisturbed I f chain env st env₁ →
      ∃ env₁' st₁', evalOps I ops env st = some (env₁', st₁') ∧ st₁'.mem = st₁.mem

/-- **The rewritten function leaves the memory that the function leaves.** -/
def KeepsMemory (f : Function) (chain : AccumulatorChain) : Prop :=
  ∃ f', runOnOperation f = .ok f' ∧ LeavesMemory f chain f'.body

/-! ### The analysis -/

/-- The first update sets the input type of the chain, which the matrix unit supports. -/
theorem firstUpdate_of_analyzeChain {f : Function} {writeback : Nat} {vector : ValueId}
    {chain : AccumulatorChain} (h : analyzeChain f writeback vector = .ok (some chain)) :
    ∃ r us op lhs rhs acc, chain.updates = r :: us ∧
      findDef f.body r = some (.leaf (.contract r op lhs rhs acc)) ∧
      isSupportedMatrixContraction op chain.inputElTy = true := by
  rw [analyzeChain] at h
  split at h
  · split at h
    · cases h
    next initVal updates inputElTy hend =>
      obtain rfl := Option.some.inj (Except.ok.inj h)
      obtain ⟨t, ht, hexit⟩ := iterate_exit
        (fun t : Trace => t.inputElTy = none ∨ ∃ r us op lhs rhs acc inputElTy,
          t.updates = r :: us ∧ t.inputElTy = some inputElTy ∧
          findDef f.body r = some (.leaf (.contract r op lhs rhs acc)) ∧
          isSupportedMatrixContraction op inputElTy = true)
        (fun t t' ht hstep => by
          unfold analyzeStep at hstep
          split at hstep
          · cases hstep
          · split at hstep
            · split at hstep
              · split at hstep
                · obtain rfl := Sum.inl.inj hstep
                  exact ht
                · cases hstep
              · cases hstep
            · cases hstep
          · split at hstep
            · obtain rfl := Sum.inl.inj hstep
              exact ht
            · cases hstep
          next result op lhs rhs acc hdef =>
            -- an update
            obtain rfl := findDef_contract hdef
            split at hstep
            · cases hstep
            split at hstep
            next => cases hstep
            next inputElTy _ =>
              split at hstep
              next hsupported =>
                obtain rfl := Sum.inl.inj hstep
                exact .inr ⟨_, _, op, lhs, rhs, acc, inputElTy, rfl, rfl, hdef, hsupported⟩
              next => cases hstep
          · cases hstep
          · cases hstep
          · cases hstep) _ _ _ (.inl rfl) hend
      have hstop := stop_of_analyzeStep hexit
      rw [Trace.stop] at hstop
      obtain ⟨-, hupdates, hinput⟩ := TraceEnd.stop.inj hstop
      rcases ht with hnone | ⟨r, us, op, lhs, rhs, acc, inputElTy', hus, hty, hdef, hsupported⟩
      · rw [hnone] at hinput
        cases hinput
      · obtain rfl := Option.some.inj (hty.symm.trans hinput)
        exact ⟨r, us, op, lhs, rhs, acc, hupdates.symm.trans hus, hdef, hsupported⟩
    · cases h
  · cases h

namespace SingleChain

variable {f : Function} {chain : AccumulatorChain} {vector : ValueId}

/-- The write is in the block. -/
theorem mem_transferWrites (hs : SingleChain f chain vector) :
    (chain.writeback, vector) ∈ transferWrites f.body := by
  obtain ⟨access, hmem, -⟩ := hs.write
  exact Matrix.mem_transferWrites.mpr ⟨_, access, hmem⟩

/-- It writes the vector. -/
theorem writtenValue (hs : SingleChain f chain vector) :
    writtenValue f.body chain.writeback = some vector :=
  lookup_of_mem hs.source.writes hs.mem_transferWrites

/-- So the analysis finds the chain. -/
theorem analyze (hs : SingleChain f chain vector) :
    analyzeChain f chain.writeback vector = .ok (some chain) := by
  obtain ⟨w, hw, hanalyze⟩ := analyzeChain_of_collectChains hs.chains (List.mem_singleton_self _)
  have hid := writeback_of_analyzeChain hanalyze
  have hwritten := lookup_of_mem hs.source.writes hw
  rw [← hid] at hwritten hanalyze
  obtain rfl := Option.some.inj (hwritten.symm.trans hs.writtenValue)
  exact hanalyze

/-- The chain is traced from the written vector to its initial value. -/
theorem trail (hs : SingleChain f chain vector) :
    Trail f vector none chain.initVal chain.updates :=
  trail_of_analyzeChain hs.analyze

/-- All its updates are accepted. -/
theorem supported (hs : SingleChain f chain vector) : chain.Supported f := by
  rw [AccumulatorChain.Supported]
  rcases hs.init with ⟨negative, hdef⟩ | ⟨access, hdef, -⟩
  · rw [hdef]
    rfl
  · rw [hdef]
    rfl

/-- The links do not go on beyond the initial value. -/
theorem init_ne_contract (hs : SingleChain f chain vector) (op : ContractionOp)
    (lhs rhs acc : ValueId) :
    findDef f.body chain.initVal ≠ some (.leaf (.contract chain.initVal op lhs rhs acc)) := by
  intro hdef'
  rcases hs.init with ⟨negative, hdef⟩ | ⟨access, hdef, -⟩
  · cases hdef.symm.trans hdef'
  · cases hdef.symm.trans hdef'

/-- Its initial value is defined in the block. -/
theorem init_defined (hs : SingleChain f chain vector) : chain.initVal ∈ definedIds f.body := by
  rcases hs.init with ⟨negative, hdef⟩ | ⟨access, hdef, -⟩
  · exact List.mem_map_of_mem (mem_of_lookup hdef)
  · exact List.mem_map_of_mem (mem_of_lookup hdef)

/-- Its read has an accepted rank. -/
theorem checkReadRank (hs : SingleChain f chain vector) :
    checkReadRank (readOp (findDef f.body chain.initVal)) = .ok () := by
  rcases hs.init with ⟨negative, hdef⟩ | ⟨access, hdef, hrank⟩
  · rw [hdef]
    rfl
  · rw [hdef]
    exact if_pos hrank

/-- The pass takes the chain for one on `f32` or on `bf16` operands. -/
theorem inputElTy_cases (hs : SingleChain f chain vector) :
    chain.inputElTy = .f32 ∨ chain.inputElTy = .bf16 := by
  obtain ⟨r, us, op, lhs, rhs, acc, hupdates, hdef, hsupported⟩ :=
    firstUpdate_of_analyzeChain hs.analyze
  obtain ⟨-, -, -, hacc, -⟩ := hs.products r (hupdates ▸ List.mem_cons_self) op lhs rhs acc hdef
  obtain ⟨htypes, -⟩ := isSupportedMatrixContraction_true hsupported
  rw [hacc] at htypes
  cases hty : chain.inputElTy <;> rw [hty] at htypes <;>
    simp [isSupportedElementTypes, ElementType.isF32, ElementType.isBF16, ElementType.isInteger]
      at htypes ⊢

/-- **What the pass makes of the function**: its chain is rewritten, on tile 0, and configured. -/
theorem runOnOperation_eq (hs : SingleChain f chain vector) :
    runOnOperation f = (do
      let ops ← rewriteChain f f.body chain ⟨0, 4, 4, chain.intrinsic⟩ vector
      insertMatrixConfiguration { f with body := ops } 4 4 chain.inputElTy) := by
  have hintrinsic : intrinsicFor chain.inputElTy = .ok chain.intrinsic := by
    unfold AccumulatorChain.intrinsic
    rcases hs.inputElTy_cases with hty | hty
    · rw [hty]
      rfl
    · rw [hty]
      rfl
  have htype : castVectorType (f.types vector) = .ok accumulatorType := by
    rw [hs.types vector List.mem_cons_self]
    rfl
  have herased : isErased f f.body chain.initVal = false := by
    simp [isErased]
  have hsupported : isSupportedInit (findDef f.body chain.initVal) = true := hs.supported
  have hrows : accumulatorType.getDimSize 0 = 4 := rfl
  have hcolumns : accumulatorType.getDimSize 1 = 4 := rfl
  rw [runOnOperation, if_pos hs.zvt, hs.chains, ok_bind, List.foldlM_cons, processChain]
  simp only [PassState.init, hs.writtenValue, htype, ok_bind, herased, hrows, hcolumns]
  rw [if_neg (by decide), if_neg (by decide), if_pos hsupported, hintrinsic, ok_bind]
  cases rewriteChain f f.body chain ⟨0, 4, 4, chain.intrinsic⟩ vector with
  | error e => rfl
  | ok ops => rfl

/-- The configuration of the matrix unit does not matter to the memory. -/
theorem evalOps_insertMatrixConfiguration {Val Mem : Type} (I : Interp Val Mem) {g f' : Function}
    {M N : Int} {inputElTy : ElementType}
    (h : insertMatrixConfiguration g M N inputElTy = .ok f') (env : Env Val) (st : State Val Mem) :
    evalOps I f'.body env st = evalOps I g.body env st := by
  rcases insertMatrixConfiguration_eq_ok h with ⟨-, config, -, hbody⟩ | ⟨-, hbody⟩
  · have hconfigure : evalOp I (.leaf (.configure config)) env st = some (env, st) :=
      evalOp_leaf.mpr ⟨[], rfl, rfl⟩
    rw [hbody, evalOps, hconfigure]
    rfl
  · rw [hbody]

/-- **The property is one of the rewritten chain.** -/
theorem keepsMemory_iff_rewriteChain (hs : SingleChain f chain vector) :
    KeepsMemory f chain ↔
      ∃ ops, rewriteChain f f.body chain ⟨0, 4, 4, chain.intrinsic⟩ vector = .ok ops ∧
        LeavesMemory f chain ops := by
  rw [KeepsMemory, hs.runOnOperation_eq]
  constructor
  · rintro ⟨f', hrun, hkeeps⟩
    obtain ⟨ops, hops, hinsert⟩ := bind_eq_ok.mp hrun
    refine ⟨ops, hops, fun Val Mem I hI env env₁ st st₁ hargs h hund => ?_⟩
    obtain ⟨env₁', st₁', h', hmem⟩ := hkeeps Val Mem I hI env env₁ st st₁ hargs h hund
    rw [evalOps_insertMatrixConfiguration I hinsert] at h'
    exact ⟨env₁', st₁', h', hmem⟩
  · rintro ⟨ops, hops, hkeeps⟩
    obtain ⟨f', hinsert⟩ : ∃ f', insertMatrixConfiguration { f with body := ops } 4 4 chain.inputElTy
        = .ok f' := by
      rw [insertMatrixConfiguration]
      split
      · rcases hs.inputElTy_cases with hty | hty
        · rw [hty]
          exact ⟨_, rfl⟩
        · rw [hty]
          exact ⟨_, rfl⟩
      · exact ⟨_, rfl⟩
    refine ⟨f', by rw [hops, ok_bind, hinsert], fun Val Mem I hI env env₁ st st₁ hargs h hund => ?_⟩
    obtain ⟨env₁', st₁', h', hmem⟩ := hkeeps Val Mem I hI env env₁ st st₁ hargs h hund
    exact ⟨env₁', st₁', (evalOps_insertMatrixConfiguration I hinsert env st).trans h', hmem⟩

end SingleChain

end CoralNPU.Matrix
