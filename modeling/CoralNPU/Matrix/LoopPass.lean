import CoralNPU.Matrix.Configuration
import CoralNPU.Matrix.LoopFrame

namespace CoralNPU.Matrix

open Lib

/-!
# Matrix — the loops that the pass rewrites

* `loopAt_rewriteOps` — the loops of an edited block, and that they have all in scope that they had.
* `ScopesKept` — that, over the chains processed so far; `processChain_scopesKept` is one round.
* `loopFrame_iff` — which loops the pass rewrites without touching anything but the accumulator.

A loop with two accumulators is rewritten into one that yields a value of the loop that is gone.
-/

/-! ### Uses -/

mutual

/-- The operands of an operation are in use in the loop around it. -/
theorem mem_usesOp_of_leaf {l : Leaf} {v : ValueId} (hv : v ∈ l.operands) :
    ∀ op : Op, l ∈ leavesOp op → v ∈ usesOp op
  | .leaf op, hl => by
    rw [leavesOp_leaf, List.mem_singleton] at hl
    rw [usesOp, ← hl]
    exact hv
  | .loop header body, hl => by
    rw [leavesOp_loop] at hl
    rw [usesOp]
    exact List.mem_append_left _ (List.mem_append_right _ (mem_usesOps_of_leaf hv body hl))

/-- The operands of an operation are operands of the block it is in. -/
theorem mem_usesOps_of_leaf {l : Leaf} {v : ValueId} (hv : v ∈ l.operands) :
    ∀ ops : List Op, l ∈ leavesOps ops → v ∈ usesOps ops
  | [], hl => by
    rw [leavesOps_nil] at hl
    cases hl
  | op :: ops, hl => by
    rw [leavesOps_cons, List.mem_append] at hl
    rw [usesOps, List.mem_append]
    exact hl.imp (mem_usesOp_of_leaf hv op) (mem_usesOps_of_leaf hv ops)

end

/-- The values in use in two blocks, one after the other. -/
theorem usesOps_append (ops ops' : List Op) :
    usesOps (ops ++ ops') = usesOps ops ++ usesOps ops' := by
  induction ops with
  | nil => rw [usesOps, List.nil_append, List.nil_append]
  | cons op ops ih => rw [List.cons_append, usesOps, usesOps, ih, List.append_assoc]

/-- The values of a block are below the offset of the clones. -/
theorem lt_freshOffset_of_mem {ops : List Op} {v : ValueId}
    (hv : v ∈ usesOps ops ∨ v ∈ definedIds ops) : v < freshOffset ops := by
  apply Nat.lt_succ_of_le
  apply (le_foldl_max _ 0).2
  apply List.mem_append_left
  rw [List.mem_append]
  exact hv.symm

/-! ### Edits -/

/-- The edit keeps the results of the operations that it replaces, and brings a loop with result
    `v` in only for such a loop, with all in scope that is in scope there. -/
def KeepsLoops (v : ValueId) (edit : Op → Option (List Op)) : Prop :=
  ∀ op new, edit op = some new → (∀ u ∈ opResults op, u ∈ blockResults new) ∧
    ∀ scope inner h body, LoopAt scope new inner h body → v ∈ h.results →
      (∃ h₀ body₀, op = .loop h₀ body₀ ∧ v ∈ h₀.results) ∧ ∀ u ∈ scope, u ∈ inner

section Edit

variable {edit : Op → Option (List Op)} {v : ValueId}

/-- Rewriting keeps the results of an operation. -/
theorem opResults_subset_rewriteOp (hedit : KeepsLoops v edit) (op : Op) :
    ∀ u ∈ opResults op, u ∈ blockResults (rewriteOp edit op) := by
  intro u hu
  cases op with
  | leaf op =>
    rw [rewriteOp]
    cases hnew : edit (.leaf op) with
    | none => simpa using hu
    | some new => exact (hedit _ new hnew).1 u hu
  | loop header body =>
    rw [rewriteOp]
    split
    next new hnew => exact (hedit _ new hnew).1 u hu
    next =>
      rw [blockResults_cons, blockResults_nil, List.append_nil]
      exact hu

mutual

/-- **A loop after rewriting was a loop before**, with the results in question. -/
theorem loopAt_rewriteOp (hedit : KeepsLoops v edit) :
    ∀ (op : Op) {ops : List Op} {scope scope' inner : List ValueId} {h : LoopHeader}
      {body : List Op}, (∀ u ∈ scope, u ∈ scope') →
      LoopAt scope' (rewriteOp edit op) inner h body → v ∈ h.results →
      ∃ inner₀ h₀ body₀, LoopAt scope (op :: ops) inner₀ h₀ body₀ ∧ v ∈ h₀.results ∧
        ∀ u ∈ inner₀, u ∈ inner
  | .leaf op, _, scope, _, _, _, _, hsub, hat, hv => by
    rw [rewriteOp] at hat
    cases hnew : edit (.leaf op) with
    | none =>
      rw [hnew, Option.getD_none] at hat
      exact absurd hat LoopAt.not_leaf
    | some new =>
      rw [hnew, Option.getD_some] at hat
      obtain ⟨⟨_, _, hloop, -⟩, -⟩ := (hedit _ new hnew).2 _ _ _ _ hat hv
      cases hloop
  | .loop header body₁, _, scope, _, _, _, _, hsub, hat, hv => by
    rw [rewriteOp] at hat
    split at hat
    next new hnew =>
      obtain ⟨⟨_, _, hloop, hv₀⟩, hinner⟩ := (hedit _ new hnew).2 _ _ _ _ hat hv
      obtain ⟨rfl, rfl⟩ := Op.loop.inj hloop
      exact ⟨scope, header, body₁, .here, hv₀, fun u hu => hinner u (hsub u hu)⟩
    next =>
      cases hat with
      | here => exact ⟨scope, header, body₁, .here, hv, hsub⟩
      | inside hat =>
        obtain ⟨inner₀, h₀, body₀, hat₀, hv₀, hinner⟩ := loopAt_rewriteOps hedit body₁ (by
          intro u hu
          rw [List.mem_append] at hu ⊢
          exact hu.imp_right (hsub u)) hat hv
        exact ⟨inner₀, h₀, body₀, .inside hat₀, hv₀, hinner⟩
      | after hat => cases hat

/-- **The loops of an edited block** are those that were there, and have all in scope that they
    had. -/
theorem loopAt_rewriteOps (hedit : KeepsLoops v edit) :
    ∀ (ops : List Op) {scope scope' inner : List ValueId} {h : LoopHeader} {body : List Op},
      (∀ u ∈ scope, u ∈ scope') → LoopAt scope' (rewriteOps edit ops) inner h body →
      v ∈ h.results →
      ∃ inner₀ h₀ body₀, LoopAt scope ops inner₀ h₀ body₀ ∧ v ∈ h₀.results ∧
        ∀ u ∈ inner₀, u ∈ inner
  | [], _, _, _, _, _, _, hat, _ => by
    rw [rewriteOps] at hat
    cases hat
  | op :: ops, _, _, _, _, _, hsub, hat, hv => by
    rw [rewriteOps] at hat
    rcases hat.of_append with hat | ⟨scope'', hscope'', hat⟩
    · exact loopAt_rewriteOp hedit op hsub hat hv
    · obtain ⟨inner₀, h₀, body₀, hat₀, hv₀, hinner⟩ := loopAt_rewriteOps hedit ops (by
        intro u hu
        rw [hscope'']
        rw [List.mem_append] at hu
        exact hu.imp (opResults_subset_rewriteOp hedit op u) (hsub u)) hat hv
      exact ⟨inner₀, h₀, body₀, .after hat₀, hv₀, hinner⟩

end

end Edit

/-! ### The edits of the pass -/

section Edits

variable {ops : List Op} {chain : AccumulatorChain} {ctx : TileContext} {off : Nat}
  {read : Option Access} {zero : ConstAttr} {v : ValueId}

/-- The initialization of a tile has no results. -/
theorem opResults_initOp : opResults (initOp ctx read) = [] := by
  cases read <;> rfl

/-- The initialization of a tile is no loop. -/
theorem LoopAt.not_initOp {scope inner : List ValueId} {ops body : List Op} {h : LoopHeader}
    (hat : LoopAt scope (initOp ctx read :: ops) inner h body) : LoopAt scope ops inner h body := by
  cases hread : read with
  | none =>
    rw [hread] at hat
    cases hat with
    | after hat => exact hat
  | some access =>
    rw [hread] at hat
    cases hat with
    | after hat => exact hat

/-- Rewriting a loop keeps the loops with older results. -/
theorem keepsLoops_replaceLoop {vector : ValueId} (hv : v < off) :
    KeepsLoops v (replaceLoop vector (rewriteLoop ops chain ctx off read zero)) := by
  intro op new hnew
  obtain ⟨header, body₁, rfl, -, rfl⟩ := replaceLoop_eq_some hnew
  refine ⟨fun u hu => ?_, fun scope inner h body hat hmem => ?_⟩
  · rw [rewriteLoop, blockResults_cons, blockResults_cons, blockResults_cons, opResults_initOp,
      List.nil_append, List.mem_append]
    exact (mem_eraseIdx_or hu _ 0).imp_right fun heq => by simp [heq, opResults, Leaf.results]
  · rw [rewriteLoop] at hat
    cases hat.not_initOp with
    | here => exact ⟨⟨header, body₁, rfl, List.mem_of_mem_eraseIdx hmem⟩, fun _ hu => hu⟩
    | inside hat =>
      -- the loops of the new body have new names
      exact absurd (le_of_mem_definedIds_cloneBody (hat.mem_results v hmem)) (Nat.not_le.mpr hv)
    | after hat => exact absurd hat LoopAt.not_leaf

/-- Rewriting a contraction keeps all loops. -/
theorem keepsLoops_replaceContract {result : ValueId} :
    KeepsLoops v (replaceContract result (rewriteContract ctx read zero result)) := by
  intro op new hnew
  obtain ⟨c, lhs, rhs, acc, rfl, rfl⟩ := replaceContract_eq_some hnew
  refine ⟨fun u hu => ?_, fun scope inner h body hat _ => ?_⟩
  · rw [rewriteContract, blockResults_cons, opResults_initOp]
    exact hu
  · rw [rewriteContract] at hat
    cases hat.not_initOp with
    | after hat => exact absurd hat LoopAt.not_leaf

/-- So does rewriting a write. -/
theorem keepsLoops_replaceWrite {writeback : Nat} : KeepsLoops v (replaceWrite writeback ctx) := by
  intro op new hnew
  obtain ⟨kind, access, v, rfl, rfl⟩ := replaceWrite_eq_some hnew
  exact ⟨fun u hu => hu, fun scope inner h body hat _ => absurd hat LoopAt.not_leaf⟩

/-- The loops of a block after a chain was rewritten. -/
theorem loopAt_rewriteChain {f : Function} {vector : ValueId} {ops' : List Op}
    (h : rewriteChain f ops chain ctx vector = .ok ops') (hv : v ∈ usesOps f.body)
    {scope inner : List ValueId} {header : LoopHeader} {body : List Op}
    (hat : LoopAt scope ops' inner header body) (hmem : v ∈ header.results) :
    ∃ inner₀ h₀ body₀, LoopAt scope ops inner₀ h₀ body₀ ∧ v ∈ h₀.results ∧
      ∀ u ∈ inner₀, u ∈ inner := by
  have hlt : v < freshOffset (f.body ++ ops) := by
    apply lt_freshOffset_of_mem
    rw [usesOps_append]
    exact .inl (List.mem_append_left _ hv)
  obtain ⟨ops₁, hupdates, h⟩ := bind_eq_ok.mp h
  obtain ⟨access, -, rfl⟩ := rewriteWriteback_eq_ok h
  obtain ⟨inner₁, h₁, body₁, hat₁, hmem₁, hinner₁⟩ :=
    loopAt_rewriteOps keepsLoops_replaceWrite ops₁ (fun _ hu => hu) hat hmem
  rcases rewriteUpdates_eq_ok hupdates with ⟨_, _, zero, -, -, rfl⟩ | ⟨_, _, _, _, _, zero, -, -, -, rfl⟩
  · obtain ⟨inner₀, h₀, body₀, hat₀, hmem₀, hinner₀⟩ :=
      loopAt_rewriteOps (keepsLoops_replaceLoop hlt) ops (fun _ hu => hu) hat₁ hmem₁
    exact ⟨inner₀, h₀, body₀, hat₀, hmem₀, fun u hu => hinner₁ u (hinner₀ u hu)⟩
  · obtain ⟨inner₀, h₀, body₀, hat₀, hmem₀, hinner₀⟩ :=
      loopAt_rewriteOps keepsLoops_replaceContract ops (fun _ hu => hu) hat₁ hmem₁
    exact ⟨inner₀, h₀, body₀, hat₀, hmem₀, fun u hu => hinner₁ u (hinner₀ u hu)⟩

end Edits

/-! ### The loop over the chains -/

/-- **Every loop has in scope what it had**, if it has a result that the function uses. -/
def ScopesKept (f : Function) (s : PassState) : Prop :=
  ∀ v ∈ usesOps f.body, ∀ inner header body, LoopAt f.arguments s.ops inner header body →
    v ∈ header.results → ∃ inner₀ h₀ body₀, LoopAt f.arguments f.body inner₀ h₀ body₀ ∧
      v ∈ h₀.results ∧ ∀ u ∈ inner₀, u ∈ inner

/-- One round keeps the scopes. -/
theorem processChain_scopesKept {f : Function} {s s' : PassState} {chain : AccumulatorChain}
    (hkept : ScopesKept f s) (h : processChain f s chain = .ok s') : ScopesKept f s' := by
  obtain ⟨vector, _, -, -, -, -, -, -, hops⟩ := processChain_eq_ok h
  intro v hv inner header body hat hmem
  rcases hops with ⟨-, hops, -⟩ | ⟨-, -, ctx, -, hchain⟩
  · exact hkept v hv inner header body (hops ▸ hat) hmem
  · obtain ⟨inner₁, h₁, body₁, hat₁, hmem₁, hinner₁⟩ := loopAt_rewriteChain hchain hv hat hmem
    obtain ⟨inner₀, h₀, body₀, hat₀, hmem₀, hinner₀⟩ := hkept v hv inner₁ h₁ body₁ hat₁ hmem₁
    exact ⟨inner₀, h₀, body₀, hat₀, hmem₀, fun u hu => hinner₁ u (hinner₀ u hu)⟩

/-- The invariants of a run over some of the chains. -/
theorem reached {f : Function} (hsource : f.Source) {chains done : List AccumulatorChain}
    (hchains : collectChains f = .ok chains) (hsub : ∀ chain ∈ done, chain ∈ chains) {s : PassState}
    (hs : done.foldlM (processChain f) (PassState.init f) = .ok s) :
    Progress f done s ∧ ScopesKept f s := by
  rw [← List.nil_append done]
  apply foldlM_prefix (fun done s => Progress f done s ∧ ScopesKept f s) _
    ⟨progress_init hsource, fun v _ inner header body hat hmem =>
      ⟨inner, header, body, hat, hmem, fun _ hu => hu⟩⟩ hs
  intro done s s' chain hmem hinv hstep
  exact ⟨processChain_progress hsource (writeback_of_collectChains hchains (hsub chain hmem)) hinv.1
    hstep, processChain_scopesKept hinv.2 hstep⟩

/-! ### Which loops are rewritten as they should be -/

/-- What a chain reads its initial value from is in scope at its loop, however much has been
    rewritten. -/
theorem read_inScope {f : Function} (hssa : SSA f.arguments f.body) {s : PassState}
    (hkept : ScopesKept f s) {chain : AccumulatorChain} {writeback : Nat} {vector : ValueId}
    (hanalyze : analyzeChain f writeback vector = .ok (some chain)) (hsupported : chain.Supported f)
    (hvector : vector ∈ usesOps f.body) {scope : List ValueId} {h : LoopHeader} {body : List Op}
    (hat : LoopAt f.arguments s.ops scope h body) (hmem : vector ∈ h.results) {access : Access}
    (hread : readOp (findDef f.body chain.initVal) = some access) :
    ∀ v ∈ access.base :: access.indices, v ∈ scope := by
  obtain ⟨scope₀, h₀, body₀, hat₀, hmem₀, hsub⟩ := hkept vector hvector scope h body hat hmem
  have site := hat₀.site hssa.site
  have hscoped := site.scopedOp
  rw [ScopedOp] at hscoped
  have hdef : findDef f.body vector = some (.loopResult h₀ (h₀.results.idxOf vector)) :=
    findDef_of_mem hssa.nodup (site.defs _ (mem_defs_result hmem₀))
  have hinit := (trail_of_analyzeChain hanalyze).initVal_mem hdef hscoped.1 site.closed hsupported
  intro v hv
  unfold readOp at hread
  split at hread
  next r kind access' type hfind =>
    obtain rfl := Option.some.inj hread
    exact hsub v (site.closed _ hinit _ hfind v hv)
  next => cases hread

/-- A chain whose written value is the result of a loop replaces that loop, and its transfer
    write. -/
theorem processChain_replaceLoop {f : Function} {s s' : PassState} {chain : AccumulatorChain}
    (hstep : processChain f s chain = .ok s') (hsupported : chain.Supported f) {vector : ValueId}
    (hvector : writtenValue s.ops chain.writeback = some vector) {h : LoopHeader} {body : List Op}
    (hloop : findLoop vector s.ops = some (h, body)) :
    ∃ (ctx : TileContext) (zero : ConstAttr), ctx.tile = s.nextTileId ∧
      s'.ops = rewriteOps (replaceWrite chain.writeback ctx) (rewriteOps (replaceLoop vector
        (rewriteLoop s.ops chain ctx (freshOffset (f.body ++ s.ops))
          (readOp (findDef f.body chain.initVal)) zero)) s.ops) := by
  obtain ⟨vector', _, hvector', -, -, -, -, -, hops⟩ := processChain_eq_ok hstep
  obtain rfl := Option.some.inj (hvector.symm.trans hvector')
  rcases hops with ⟨hskipped, -, -⟩ | ⟨-, -, ctx, htile, hchain⟩
  · exact absurd hsupported hskipped
  obtain ⟨ops₁, hupdates, hwrite⟩ := bind_eq_ok.mp hchain
  obtain ⟨access, -, hops⟩ := rewriteWriteback_eq_ok hwrite
  rcases rewriteUpdates_eq_ok hupdates with
    ⟨_, _, zero, -, -, rfl⟩ | ⟨_, _, _, _, _, zero, hnone, -, -, -⟩
  · exact ⟨ctx, zero, htile, hops⟩
  · rw [hloop] at hnone
    cases hnone

/-- **Which loops the pass rewrites without touching anything but their accumulator.** When a chain
    is processed whose written value is result `j` of a loop, the new loop keeps everything but the
    accumulator exactly when the loop is separable. -/
theorem loopFrame_iff {f : Function} (hsource : f.Source) (hssa : SSA f.arguments f.body)
    {done rest : List AccumulatorChain} {chain : AccumulatorChain}
    (hchains : collectChains f = .ok (done ++ chain :: rest)) {s s' : PassState}
    (hdone : done.foldlM (processChain f) (PassState.init f) = .ok s)
    (hs : SSA f.arguments s.ops) (hstep : processChain f s chain = .ok s')
    (hsupported : chain.Supported f) {vector : ValueId}
    (hvector : writtenValue s.ops chain.writeback = some vector) {scope : List ValueId}
    {h : LoopHeader} {body : List Op} (hloop : findLoop vector s.ops = some (h, body))
    (hat : LoopAt f.arguments s.ops scope h body) {j : Nat} (hj : h.results[j]? = some vector) :
    ∃ (ctx : TileContext) (new : LoopHeader → List Op → List Op),
      s'.ops = rewriteOps (replaceWrite chain.writeback ctx)
        (rewriteOps (replaceLoop vector new) s.ops) ∧
      (LoopFrame s.ops chain ctx scope h body j (new h body) ↔
        Separable s.ops chain ctx h body j) := by
  have hmem : chain ∈ done ++ chain :: rest := by simp
  obtain ⟨hprogress, hkept⟩ := reached hsource hchains (fun c hc => List.mem_append_left _ hc) hdone
  obtain ⟨ctx, zero, htile, hops⟩ := processChain_replaceLoop hstep hsupported hvector hloop
  refine ⟨ctx, _, hops, ?_⟩
  -- the analysis ran on what is written now
  obtain ⟨w, hw, hanalyze⟩ := analyzeChain_of_collectChains hchains hmem
  have hwritten := writtenValue_eq hsource hprogress (writeback_of_collectChains hchains hmem)
    hvector
  rw [writeback_of_analyzeChain hanalyze] at hwritten
  obtain rfl := Option.some.inj (hwritten.symm.trans (lookup_of_mem hsource.writes hw))
  have huse : w.2 ∈ usesOps f.body := by
    obtain ⟨kind, access, hl⟩ := mem_transferWrites.mp hw
    exact mem_usesOps_of_leaf List.mem_cons_self f.body hl
  have hoff : ∀ v, v ∈ usesOps f.body ∨ v ∈ definedIds s.ops →
      v < freshOffset (f.body ++ s.ops) := by
    intro v hv
    apply lt_freshOffset_of_mem
    rw [usesOps_append, definedIds_append]
    simp only [List.mem_append]
    tauto
  apply loopFrame_iff_separable (hat.site hs.site) (List.getElem?_eq_some_iff.mp hj).1
  · intro v hv
    exact hoff v ((hat.mem_scope v hv).imp_left fun hv => (List.mem_filter.mp hv).1)
  · exact fun v hv => hoff v (.inr hv)
  · -- the tile of the chain is new
    intro l hl htile'
    obtain ⟨_, hget, -⟩ := (hprogress.leaves l hl).tile _ htile'
    have hlt := (List.getElem?_eq_some_iff.mp hget).1
    rw [htile, hprogress.nextTileId] at hlt
    exact Nat.lt_irrefl _ hlt
  · intro access hread
    exact read_inScope hssa hkept hanalyze hsupported huse hat (List.mem_of_getElem? hj) hread

/-! ### One accumulator, and two -/

/-- A loop over products: with the accumulators `args` from `inits` on. -/
def productLoop (results inits args yields : List ValueId) : LoopHeader where
  results
  lowerBound := 3
  upperBound := 4
  step := 5
  inits
  iv := 10
  args
  yields

/-- A product of the two operands that is added to `acc`. -/
def product (result acc : ValueId) : Op :=
  .leaf (.contract result (outerContraction .f32 .f32) 1 2 acc)

/-- The types of the values: two operands and accumulators. -/
def productTypes (v : ValueId) : ValueType :=
  if v = 1 then .vector ⟨[4, 1], .f32⟩
  else if v = 2 then .vector ⟨[1, 4], .f32⟩
  else .vector ⟨[4, 4], .f32⟩

/-- A product that is accumulated from zero and written. -/
def oneAccumulator : Function where
  isFuncOp := true
  cpuFeatures := some "+zvtbase".toList
  types := productTypes
  body := [.leaf (.constant 0 (.splat (.floatZero false) 16)), .leaf (.other 0 [1, 2, 3, 4, 5] []),
    .loop (productLoop [20] [0] [11] [13]) [product 13 11],
    .leaf (.transferWrite 0 .minorIdentity ⟨100, [101, 101]⟩ 20)]

/-- The same beside a constant that the loop yields again and again. -/
def accumulatorAndConstant : Function where
  isFuncOp := true
  cpuFeatures := some "+zvtbase".toList
  types := productTypes
  body := [.leaf (.constant 0 (.splat (.floatZero false) 16)),
    .leaf (.constant 6 (.splat (.floatZero false) 16)), .leaf (.other 0 [1, 2, 3, 4, 5] []),
    .loop (productLoop [20, 21] [0, 6] [11, 12] [13, 6]) [product 13 11],
    .leaf (.transferWrite 0 .minorIdentity ⟨100, [101, 101]⟩ 20), .leaf (.other 1 [] [21])]

/-- Two products that are accumulated by one loop. -/
def twoAccumulators : Function where
  isFuncOp := true
  cpuFeatures := some "+zvtbase".toList
  types := productTypes
  body := [.leaf (.constant 0 (.splat (.floatZero false) 16)),
    .leaf (.constant 6 (.splat (.floatZero false) 16)), .leaf (.other 0 [1, 2, 3, 4, 5] []),
    .loop (productLoop [20, 21] [0, 6] [11, 12] [13, 14]) [product 13 11, product 14 12],
    .leaf (.transferWrite 0 .minorIdentity ⟨100, [101, 101]⟩ 20),
    .leaf (.transferWrite 1 .minorIdentity ⟨102, [101, 101]⟩ 21)]

/-- The block with one accumulator is in SSA form. -/
theorem oneAccumulator_ssa : SSA oneAccumulator.arguments oneAccumulator.body := by
  refine ⟨?_, ?_, by decide, by decide⟩
  · simp only [oneAccumulator, product, ScopedOps, ScopedOp]
    decide
  · simp only [oneAccumulator, product, ArityOps, ArityOp]
    decide

/-- It is a block before the pass. -/
theorem oneAccumulator_source : oneAccumulator.Source := by
  refine ⟨by decide, fun config hl => ?_, by decide⟩
  simp [oneAccumulator, product] at hl

/-- So is the one with two accumulators in SSA form. -/
theorem twoAccumulators_ssa : SSA twoAccumulators.arguments twoAccumulators.body := by
  refine ⟨?_, ?_, by decide, by decide⟩
  · simp only [twoAccumulators, product, ScopedOps, ScopedOp]
    decide
  · simp only [twoAccumulators, product, ArityOps, ArityOp]
    decide

/-- And the one whose second value is yielded from outside. -/
theorem accumulatorAndConstant_ssa :
    SSA accumulatorAndConstant.arguments accumulatorAndConstant.body := by
  refine ⟨?_, ?_, by decide, by decide⟩
  · simp only [accumulatorAndConstant, product, ScopedOps, ScopedOp]
    decide
  · simp only [accumulatorAndConstant, product, ArityOps, ArityOp]
    decide

/-- It is a block before the pass, too. -/
theorem accumulatorAndConstant_source : accumulatorAndConstant.Source := by
  refine ⟨by decide, fun config hl => ?_, by decide⟩
  simp [accumulatorAndConstant, product] at hl

/-- A loop with an accumulator and a value that it yields from outside keeps everything else. -/
theorem loopFrame_iff_accumulatorAndConstant :
    ∃ s' ctx scope new,
      processChain accumulatorAndConstant (PassState.init accumulatorAndConstant)
        ⟨0, [13], 0, .f32⟩ = .ok s' ∧
      s'.ops = rewriteOps (replaceWrite 0 ctx)
        (rewriteOps (replaceLoop 20 new) accumulatorAndConstant.body) ∧
      LoopFrame accumulatorAndConstant.body ⟨0, [13], 0, .f32⟩ ctx scope
        (productLoop [20, 21] [0, 6] [11, 12] [13, 6]) [product 13 11] 0
        (new (productLoop [20, 21] [0, 6] [11, 12] [13, 6]) [product 13 11]) := by
  have hchains : collectChains accumulatorAndConstant = .ok ([] ++ ⟨0, [13], 0, .f32⟩ :: []) :=
    eq_ok_of_toOption (by decide +kernel)
  have hok : (processChain accumulatorAndConstant (PassState.init accumulatorAndConstant)
      ⟨0, [13], 0, .f32⟩).isOk = true := by decide +kernel
  cases hstep : processChain accumulatorAndConstant (PassState.init accumulatorAndConstant)
      ⟨0, [13], 0, .f32⟩ with
  | error failure =>
    rw [hstep] at hok
    cases hok
  | ok s' =>
    have hj : (productLoop [20, 21] [0, 6] [11, 12] [13, 6]).results[0]? = some 20 := rfl
    obtain ⟨ctx, new, hops, hiff⟩ := loopFrame_iff accumulatorAndConstant_source
      accumulatorAndConstant_ssa hchains rfl accumulatorAndConstant_ssa hstep
      (by unfold AccumulatorChain.Supported; decide) rfl rfl (.after (.after (.after .here))) hj
    refine ⟨s', ctx, _, new, rfl, hops, hiff.mpr ⟨.inl (by decide), fun i v hi hv => ?_, ?_, ?_, ?_⟩⟩
    · -- the value beside the accumulator is the constant
      match i with
      | 0 => exact absurd rfl hi
      | 1 =>
        obtain rfl := Option.some.inj hv
        decide
      | i + 2 => cases hv
    · intro op hop hnone
      obtain rfl := List.mem_singleton.mp hop
      cases hnone
    · intro op hop lhs rhs hupdate
      obtain rfl := List.mem_singleton.mp hop
      obtain ⟨rfl, rfl⟩ := Prod.mk.inj (Option.some.inj hupdate)
      decide +kernel
    · intro v hv
      obtain rfl := Option.some.inj hv
      show 20 ∉ [3, 4, 5, 0, 6, 1, 2, 11, 13, 6, 100, 101, 101, 21]
      decide

/-- A loop with two accumulators does not: the new loop yields the other one from the body of the
    loop that is gone. -/
theorem twoAccumulators_not_loopFrame :
    collectChains twoAccumulators = .ok [⟨0, [13], 0, .f32⟩, ⟨6, [14], 1, .f32⟩] ∧
    ∃ s' ctx scope new,
      processChain twoAccumulators (PassState.init twoAccumulators) ⟨0, [13], 0, .f32⟩ = .ok s' ∧
      LoopAt twoAccumulators.arguments twoAccumulators.body scope
        (productLoop [20, 21] [0, 6] [11, 12] [13, 14]) [product 13 11, product 14 12] ∧
      s'.ops = rewriteOps (replaceWrite 0 ctx) (rewriteOps (replaceLoop 20 new) twoAccumulators.body) ∧
      ¬ LoopFrame twoAccumulators.body ⟨0, [13], 0, .f32⟩ ctx scope
        (productLoop [20, 21] [0, 6] [11, 12] [13, 14]) [product 13 11, product 14 12] 0
        (new (productLoop [20, 21] [0, 6] [11, 12] [13, 14]) [product 13 11, product 14 12]) := by
  refine ⟨eq_ok_of_toOption (by decide +kernel), ?_⟩
  have hok : (processChain twoAccumulators (PassState.init twoAccumulators)
      ⟨0, [13], 0, .f32⟩).isOk = true := by decide +kernel
  cases hstep : processChain twoAccumulators (PassState.init twoAccumulators) ⟨0, [13], 0, .f32⟩ with
  | error failure =>
    rw [hstep] at hok
    cases hok
  | ok s' =>
    obtain ⟨ctx, zero, htile, hops⟩ := processChain_replaceLoop hstep
      (by unfold AccumulatorChain.Supported; decide) rfl rfl
    have hat : LoopAt twoAccumulators.arguments twoAccumulators.body _
        (productLoop [20, 21] [0, 6] [11, 12] [13, 14]) [product 13 11, product 14 12] :=
      .after (.after (.after .here))
    refine ⟨s', ctx, _, _, rfl, hat, hops, fun hframe => ?_⟩
    have hsep := (loopFrame_iff_separable (hat.site twoAccumulators_ssa.site) (by decide)
      (by decide +kernel) (by decide +kernel) (fun l hl htile => ?_)
      fun access hread => ?_).mp hframe
    · exact hsep.yields 1 14 (by decide) rfl (by decide)
    · -- there is no instruction of the matrix unit yet
      have hnone : ∀ l ∈ leavesOps twoAccumulators.body, l.tile? = none := by decide
      rw [hnone l hl] at htile
      cases htile
    · -- the chain starts from a constant
      have hnone : readOp (findDef twoAccumulators.body 0) = none := by decide
      cases hnone.symm.trans hread

end CoralNPU.Matrix
