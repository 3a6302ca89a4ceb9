import CoralNPU.Lib.Assoc
import CoralNPU.Matrix.Leaves

namespace CoralNPU.Matrix

open Lib

/-!
# Matrix — the configuration of the matrix unit

Under which configuration the matrix instructions of a rewritten function execute.

* `Runs` — the executions of a block, by the instructions they execute and the configuration
  that is active at each.  A loop runs any number of times.
* `prescribedConfig` — the configuration that `insertMatrixConfiguration` sets for a chain.
* `Configured` — every instruction of a chain executes under the configuration of the chain.
* `Progress` — the invariant of the loop over the chains; `processChain_progress` is one round.
* `configured_iff` — the functions that end up configured.

The one configuration of a function is that of the last chain that was collected, so all chains
that are rewritten have to agree with it.
-/

/-! ### Executions -/

/-- The tile of a matrix instruction, with the configuration that is active when it executes. -/
abbrev MatrixEvent := Nat × Option MatrixConfig

/-- The executions of a block: from the active configuration to the one it leaves, with the
    matrix instructions on the way. -/
inductive Runs : List Op → Option MatrixConfig → List MatrixEvent → Option MatrixConfig → Prop
  | nil (c : Option MatrixConfig) : Runs [] c [] c
  | configure {ops : List Op} {c c' : Option MatrixConfig} {es : List MatrixEvent}
      (config : MatrixConfig) (h : Runs ops (some config) es c') :
      Runs (.leaf (.configure config) :: ops) c es c'
  | leaf {ops : List Op} {c c' : Option MatrixConfig} {es : List MatrixEvent} (op : Leaf)
      (hop : ∀ config, op ≠ .configure config) (h : Runs ops c es c') :
      Runs (.leaf op :: ops) c (op.tile?.toList.map (·, c) ++ es) c'
  /-- A loop is left. -/
  | exit {ops : List Op} {c c' : Option MatrixConfig} {es : List MatrixEvent} (header : LoopHeader)
      (body : List Op) (h : Runs ops c es c') : Runs (.loop header body :: ops) c es c'
  /-- The body of a loop is executed, and then the loop again. -/
  | iterate {ops body : List Op} {c c₁ c' : Option MatrixConfig} {es es' : List MatrixEvent}
      (header : LoopHeader) (hbody : Runs body c es c₁)
      (h : Runs (.loop header body :: ops) c₁ es' c') :
      Runs (.loop header body :: ops) c (es ++ es') c'

/-- The block changes no configuration. -/
def NoConfigure (ops : List Op) : Prop := ∀ config, .configure config ∉ leavesOps ops

theorem NoConfigure.of_cons {op : Op} {ops : List Op} (h : NoConfigure (op :: ops)) :
    NoConfigure [op] ∧ NoConfigure ops := by
  refine ⟨fun config hmem => h config ?_, fun config hmem => h config ?_⟩
  · rw [leavesOps_cons] at hmem ⊢
    exact List.mem_append_left _ (by simpa using hmem)
  · rw [leavesOps_cons]
    exact List.mem_append_right _ hmem

theorem noConfigure_loop {header : LoopHeader} {body : List Op} :
    NoConfigure [.loop header body] ↔ NoConfigure body := by
  simp [NoConfigure]

/-- **A block without configurations** executes all of its instructions under the one that is
    active before. -/
theorem Runs.active {ops : List Op} {c c' : Option MatrixConfig} {es : List MatrixEvent}
    (h : Runs ops c es c') (hno : NoConfigure ops) :
    c' = c ∧ ∀ e ∈ es, e.2 = c ∧ HasTile ops e.1 := by
  induction h with
  | nil c => simp
  | configure config _ _ => exact absurd (by simp) (hno config)
  | @leaf ops c c' es op _ _ ih =>
    obtain ⟨hc, hes⟩ := ih hno.of_cons.2
    refine ⟨hc, fun e he => ?_⟩
    rw [hasTile_cons]
    rcases List.mem_append.mp he with he | he
    · obtain ⟨tile, htile, rfl⟩ := List.mem_map.mp he
      exact ⟨rfl, .inl (hasTile_leaf.mpr (Option.mem_toList.mp htile))⟩
    · exact ⟨(hes e he).1, .inr (hes e he).2⟩
  | exit header body _ ih =>
    obtain ⟨hc, hes⟩ := ih hno.of_cons.2
    exact ⟨hc, fun e he => ⟨(hes e he).1, hasTile_cons.mpr (.inr (hes e he).2)⟩⟩
  | iterate header _ _ ihbody ih =>
    obtain ⟨hc₁, hbody⟩ := ihbody (noConfigure_loop.mp hno.of_cons.1)
    obtain ⟨hc, hes⟩ := ih hno
    rw [hc₁] at hc hes
    refine ⟨hc, fun e he => ?_⟩
    rcases List.mem_append.mp he with he | he
    · exact ⟨(hbody e he).1, hasTile_cons.mpr (.inl (hasTile_loop.mpr (hbody e he).2))⟩
    · exact hes e he

/-- A block without configurations can be executed, loops being left at once. -/
theorem exists_runs {ops : List Op} (hno : NoConfigure ops) (c : Option MatrixConfig) :
    ∃ es, Runs ops c es c := by
  induction ops with
  | nil => exact ⟨[], .nil c⟩
  | cons op ops ih =>
    obtain ⟨es, hes⟩ := ih hno.of_cons.2
    cases op with
    | leaf op =>
      refine ⟨_, .leaf op (fun config h => ?_) hes⟩
      exact hno config (by simp [h])
    | loop header body => exact ⟨es, .exit header body hes⟩

mutual

theorem exists_runs_op {tile : Nat} (c : Option MatrixConfig) {ops : List Op}
    (hops : NoConfigure ops) :
    ∀ op : Op, NoConfigure [op] → HasTile [op] tile →
      ∃ es, Runs (op :: ops) c es c ∧ (tile, c) ∈ es
  | .leaf op, hno, htile => by
    obtain ⟨es, hes⟩ := exists_runs hops c
    refine ⟨_, .leaf op (fun config h => hno config (by simp [h])) hes, ?_⟩
    rw [hasTile_leaf] at htile
    simp [htile]
  | .loop header body, hno, htile => by
    obtain ⟨es, hes, hmem⟩ := exists_runs_tile c body (noConfigure_loop.mp hno)
      (hasTile_loop.mp htile)
    obtain ⟨es', hes'⟩ := exists_runs hops c
    exact ⟨es ++ es', .iterate header hes (.exit header body hes'), List.mem_append_left _ hmem⟩

/-- **Every instruction of a block is executed** by one of its executions. -/
theorem exists_runs_tile {tile : Nat} (c : Option MatrixConfig) :
    ∀ ops : List Op, NoConfigure ops → HasTile ops tile →
      ∃ es, Runs ops c es c ∧ (tile, c) ∈ es
  | [], _, htile => absurd htile (hasTile_nil tile)
  | op :: ops, hno, htile => by
    rcases hasTile_cons.mp htile with htile | htile
    · exact exists_runs_op c hno.of_cons.2 op hno.of_cons.1 htile
    · obtain ⟨es, hes, hmem⟩ := exists_runs_tile c ops hno.of_cons.2 htile
      cases op with
      | leaf op =>
        refine ⟨_, .leaf op (fun config h => ?_) hes, List.mem_append_right _ hmem⟩
        exact hno config (by simp [h])
      | loop header body => exact ⟨es, .exit header body hes, hmem⟩

end

/-! ### What is prescribed -/

/-- The configuration that `insertMatrixConfiguration` sets for the shape that a chain writes and
    for its input type. -/
def prescribedConfig (f : Function) (chain : AccumulatorChain) : Except Failure MatrixConfig :=
  match writtenValue f.body chain.writeback with
  | none => .error useAfterErase
  | some vector => do
    let vecType ← castVectorType (f.types vector)
    matrixConfig (vecType.getDimSize 0) (vecType.getDimSize 1) chain.inputElTy

/-- The chain is rewritten, not skipped. -/
def AccumulatorChain.Supported (f : Function) (chain : AccumulatorChain) : Prop :=
  isSupportedInit (findDef f.body chain.initVal) = true

/-- What the functions that the pass runs on have in common: no instruction of the matrix unit,
    which the pass introduces, and different names for different transfer writes. -/
structure Function.Source (f : Function) : Prop where
  tiles : ∀ l ∈ leavesOps f.body, l.tile? = none
  noConfigure : NoConfigure f.body
  writes : ((transferWrites f.body).map Prod.fst).Nodup

/-- **Every matrix instruction executes under its own configuration.** The instructions of chain
    `k` are those on tile `k`.  In every execution of `f'` each of them is executed under the
    configuration that is prescribed for the chain; and a configuration in `f'` is that of a
    chain that is rewritten. -/
structure Configured (f : Function) (chains : List AccumulatorChain) (f' : Function) : Prop where
  own : ∀ c₀ es c, Runs f'.body c₀ es c → ∀ k active, (k, active) ∈ es →
    ∀ chain, chains[k]? = some chain →
      ∃ config, active = some config ∧ prescribedConfig f chain = .ok config
  skipped : ∀ config, .configure config ∈ leavesOps f'.body →
    ∃ chain ∈ chains, chain.Supported f ∧ prescribedConfig f chain = .ok config

/-! ### Transfer writes -/

theorem mem_transferWrites {ops : List Op} {w : Nat × ValueId} :
    w ∈ transferWrites ops ↔ ∃ kind access, .transferWrite w.1 kind access w.2 ∈ leavesOps ops := by
  rw [transferWrites, List.mem_filterMap]
  constructor
  · rintro ⟨l, hl, hw⟩
    split at hw
    next id kind access vector =>
      obtain rfl := Option.some.inj hw
      exact ⟨kind, access, hl⟩
    next => cases hw
  · rintro ⟨kind, access, hl⟩
    exact ⟨_, hl, rfl⟩

/-- Every transfer write has a name below the offset of the clones. -/
theorem lt_freshOffset {ops : List Op} {w : Nat × ValueId} (h : w ∈ transferWrites ops) :
    w.1 < freshOffset ops := by
  apply Nat.lt_succ_of_le
  apply (le_foldl_max _ 0).2
  exact List.mem_append_right _ (List.mem_map_of_mem h)

theorem transferWrites_append (ops ops' : List Op) :
    transferWrites (ops ++ ops') = transferWrites ops ++ transferWrites ops' := by
  rw [transferWrites, leavesOps_append, List.filterMap_append]
  rfl

/-! ### The operations of a function that is being rewritten -/

/-- What an operation is once the chains of `done` have been processed: no configuration; an
    instruction on the tile of a chain that was rewritten; and where it is a transfer write, one of
    the function, or a clone under a new name. -/
structure LeafOk (f : Function) (done : List AccumulatorChain) (l : Leaf) : Prop where
  noConfigure : ∀ config, l ≠ .configure config
  tile : ∀ k, l.tile? = some k → ∃ chain, done[k]? = some chain ∧ chain.Supported f
  write : ∀ id kind access vector, l = .transferWrite id kind access vector →
    (id, vector) ∈ transferWrites f.body ∨ ∀ w ∈ transferWrites f.body, w.1 < id

section Leaves

variable {f : Function} {done : List AccumulatorChain} {chain : AccumulatorChain} {l : Leaf}

/-- More chains are processed. -/
theorem LeafOk.concat (h : LeafOk f done l) (chain : AccumulatorChain) :
    LeafOk f (done ++ [chain]) l := by
  refine ⟨h.noConfigure, fun k hk => ?_, h.write⟩
  obtain ⟨chain', hget, hsupported⟩ := h.tile k hk
  exact ⟨chain', by rw [List.getElem?_append_left (List.getElem?_eq_some_iff.mp hget).1, hget],
    hsupported⟩

/-- A clone under a name that is not in the function. -/
theorem LeafOk.clone {off : Nat} (hoff : ∀ w ∈ transferWrites f.body, w.1 < off)
    (ρ : ValueId → ValueId) (h : LeafOk f done l) : LeafOk f done (l.clone off ρ) := by
  refine ⟨fun config hc => ?_, fun k hk => h.tile k (by rwa [Leaf.tile?_clone] at hk),
    fun id kind access vector hw => ?_⟩
  · cases l with
    | configure config' => exact h.noConfigure config' rfl
    | _ => cases hc
  · cases l with
    | transferWrite id' kind' access' vector' =>
      cases hw
      exact .inr fun w hmem => Nat.lt_of_lt_of_le (hoff w hmem) (Nat.le_add_left _ _)
    | _ => cases hw

/-- An instruction on the tile of the chain that is being rewritten. -/
theorem leafOk_of_tile (hsupported : chain.Supported f) (hl : l.tile? = some done.length) :
    LeafOk f (done ++ [chain]) l := by
  refine ⟨fun config hc => ?_, fun k hk => ?_, fun id kind access vector hw => ?_⟩
  · rw [hc] at hl
    cases hl
  · obtain rfl := Option.some.inj (hl.symm.trans hk)
    exact ⟨chain, by simp, hsupported⟩
  · rw [hw] at hl
    cases hl

theorem leafOk_constant (result : ValueId) (value : ConstAttr) :
    LeafOk f done (.constant result value) := by
  refine ⟨fun _ h => ?_, fun _ h => ?_, fun _ _ _ _ h => ?_⟩
  · cases h
  · cases h
  · cases h

/-- The initialization of a tile works on it. -/
theorem leavesOp_initOp {ctx : TileContext} {read : Option Access} :
    ∀ l ∈ leavesOp (initOp ctx read), l.tile? = some ctx.tile := by
  intro l hl
  cases read with
  | none =>
    rw [initOp, leavesOp_leaf, List.mem_singleton] at hl
    rw [hl]
    rfl
  | some access =>
    rw [initOp, leavesOp_leaf, List.mem_singleton] at hl
    rw [hl]
    rfl

section Rewritten

variable {ops : List Op} {ctx : TileContext} {off : Nat} {read : Option Access} {zero : ConstAttr}

/-- What stands in the place of a loop. -/
theorem leafOk_rewriteLoop (hsupported : chain.Supported f) (htile : ctx.tile = done.length)
    (hoff : ∀ w ∈ transferWrites f.body, w.1 < off) {h : LoopHeader} {body : List Op}
    (hbody : ∀ l ∈ leavesOps body, LeafOk f done l) :
    ∀ l ∈ leavesOps (rewriteLoop ops chain ctx off read zero h body),
      LeafOk f (done ++ [chain]) l := by
  intro l hl
  simp only [rewriteLoop, leavesOps_cons, leavesOp_loop, leavesOp_leaf, leavesOps_nil,
    List.append_nil, List.mem_append, List.mem_singleton] at hl
  rcases hl with hl | hl | rfl
  · exact leafOk_of_tile hsupported (htile ▸ leavesOp_initOp l hl)
  · rcases leavesOps_cloneBody hl with ⟨lhs, rhs, rfl⟩ | ⟨ρ, l', hl', rfl⟩
    · exact leafOk_of_tile hsupported (congrArg some htile)
    · exact ((hbody l' hl').concat chain).clone hoff ρ
  · exact leafOk_constant _ _

/-- What stands in the place of a contraction. -/
theorem leafOk_rewriteContract (hsupported : chain.Supported f) (htile : ctx.tile = done.length)
    {result lhs rhs : ValueId} :
    ∀ l ∈ leavesOps (rewriteContract ctx read zero result lhs rhs),
      LeafOk f (done ++ [chain]) l := by
  intro l hl
  simp only [rewriteContract, leavesOps_cons, leavesOp_leaf, leavesOps_nil, List.append_nil,
    List.mem_append, List.mem_singleton] at hl
  rcases hl with hl | rfl | rfl
  · exact leafOk_of_tile hsupported (htile ▸ leavesOp_initOp l hl)
  · exact leafOk_of_tile hsupported (congrArg some htile)
  · exact leafOk_constant _ _

/-- The operations after the updates of a chain were rewritten. -/
theorem leafOk_rewriteUpdates (hsupported : chain.Supported f) (htile : ctx.tile = done.length)
    {vector : ValueId} {ops' : List Op} (hops : ∀ l ∈ leavesOps ops, LeafOk f done l)
    (h : rewriteUpdates f ops chain ctx vector = .ok ops') :
    ∀ l ∈ leavesOps ops', LeafOk f (done ++ [chain]) l := by
  rcases rewriteUpdates_eq_ok h with ⟨_, _, zero, -, -, rfl⟩ | ⟨_, _, _, _, _, zero, -, -, -, rfl⟩
  · apply leavesOps_rewriteOps (P := LeafOk f done) _ (fun l hl => hl.concat chain) ops hops
    intro op new hop hedit
    obtain ⟨header, body, rfl, -, rfl⟩ := replaceLoop_eq_some hedit
    apply leafOk_rewriteLoop hsupported htile
    · intro w hw
      apply lt_freshOffset
      rw [transferWrites_append]
      exact List.mem_append_left _ hw
    · rwa [leavesOp_loop] at hop
  · apply leavesOps_rewriteOps (P := LeafOk f done) _ (fun l hl => hl.concat chain) ops hops
    intro op new _ hedit
    obtain ⟨c, lhs, rhs, acc, rfl, rfl⟩ := replaceContract_eq_some hedit
    exact leafOk_rewriteContract hsupported htile

/-- The operations after a chain was rewritten. -/
theorem leafOk_rewriteChain (hsupported : chain.Supported f) (htile : ctx.tile = done.length)
    {vector : ValueId} {ops' : List Op} (hops : ∀ l ∈ leavesOps ops, LeafOk f done l)
    (h : rewriteChain f ops chain ctx vector = .ok ops') :
    ∀ l ∈ leavesOps ops', LeafOk f (done ++ [chain]) l := by
  obtain ⟨ops₁, hupdates, h⟩ := bind_eq_ok.mp h
  have hops₁ := leafOk_rewriteUpdates hsupported htile hops hupdates
  obtain ⟨access, -, rfl⟩ := rewriteWriteback_eq_ok h
  apply leavesOps_rewriteOps (P := LeafOk f (done ++ [chain])) _ (fun l hl => hl) ops₁ hops₁
  intro op new _ hedit l hl
  obtain ⟨kind, access, v, rfl, rfl⟩ := replaceWrite_eq_some hedit
  rw [leavesOps_cons, leavesOp_leaf, leavesOps_nil, List.append_nil, List.mem_singleton] at hl
  rw [hl]
  exact leafOk_of_tile hsupported (congrArg some htile)

/-- The instructions on other tiles stay. -/
theorem hasTile_rewriteUpdates {vector : ValueId} {ops' : List Op} {tile : Nat}
    (h : rewriteUpdates f ops chain ctx vector = .ok ops') (htile : HasTile ops tile) :
    HasTile ops' tile := by
  rcases rewriteUpdates_eq_ok h with ⟨_, _, zero, -, -, rfl⟩ | ⟨_, _, _, _, _, zero, -, -, -, rfl⟩
  · apply hasTile_rewriteOps _ _ htile
    intro op new hedit hop
    obtain ⟨header, body, rfl, -, rfl⟩ := replaceLoop_eq_some hedit
    rw [rewriteLoop, hasTile_cons]
    apply Or.inr
    rw [hasTile_cons, hasTile_loop]
    exact .inl (hasTile_cloneBody (hasTile_loop.mp hop))
  · apply hasTile_rewriteOps _ _ htile
    intro op new hedit hop
    obtain ⟨c, lhs, rhs, acc, rfl, -⟩ := replaceContract_eq_some hedit
    -- a contraction works on no tile
    rw [hasTile_leaf] at hop
    cases hop

/-- A writeback takes the place of a transfer write, which works on no tile. -/
theorem hasTile_replaceWrite {tile : Nat} {op : Op} {new : List Op}
    (hedit : replaceWrite chain.writeback ctx op = some new) (hop : HasTile [op] tile) :
    HasTile new tile := by
  obtain ⟨kind, access, v, rfl, -⟩ := replaceWrite_eq_some hedit
  rw [hasTile_leaf] at hop
  cases hop

/-- The operations after a chain was rewritten have its tile, and every one that was there. -/
theorem hasTile_rewriteChain {vector : ValueId} {ops' : List Op}
    (h : rewriteChain f ops chain ctx vector = .ok ops') :
    HasTile ops' ctx.tile ∧ ∀ tile, HasTile ops tile → HasTile ops' tile := by
  obtain ⟨ops₁, hupdates, h⟩ := bind_eq_ok.mp h
  obtain ⟨access, haccess, rfl⟩ := rewriteWriteback_eq_ok h
  refine ⟨?_, fun tile htile =>
    hasTile_rewriteOps (fun op new => hasTile_replaceWrite) _ (hasTile_rewriteUpdates hupdates htile)⟩
  obtain ⟨l, hl, hwrite⟩ := List.exists_of_findSome?_eq_some haccess
  split at hwrite
  next id kind access' vector' =>
    split at hwrite
    next hid =>
      have hedit : replaceWrite chain.writeback ctx
          (.leaf (.transferWrite id kind access' vector')) =
            some [.leaf (.writeback ctx.tile access' ctx.rows ctx.columns)] := if_pos hid
      apply hasTile_rewriteOps_of_mem _ _ _ ops₁ hl
      · exact fun _ _ => rfl
      · intro new hnew
        obtain rfl := Option.some.inj (hedit.symm.trans hnew)
        rw [hasTile_leaf]
        rfl
      · rw [hedit]
        rfl
    next => cases hwrite
  next => cases hwrite

end Rewritten

end Leaves

/-! ### The loop over the chains -/

/-- **One round of the loop over the chains**: the type of the written vector gives the shape of
    the configuration, and a chain with a supported initial value is rewritten. -/
theorem processChain_eq_ok {f : Function} {s s' : PassState} {chain : AccumulatorChain}
    (h : processChain f s chain = .ok s') :
    ∃ vector vecType, writtenValue s.ops chain.writeback = some vector ∧
      castVectorType (f.types vector) = .ok vecType ∧ s'.nextTileId = s.nextTileId + 1 ∧
      s'.configM = vecType.getDimSize 0 ∧ s'.configN = vecType.getDimSize 1 ∧
      s'.inputElTy = some chain.inputElTy ∧
      ((¬ chain.Supported f ∧ s'.ops = s.ops ∧ s'.rewritten = s.rewritten) ∨
        (chain.Supported f ∧ s'.rewritten = true ∧ ∃ ctx : TileContext, ctx.tile = s.nextTileId ∧
          rewriteChain f s.ops chain ctx vector = .ok s'.ops)) := by
  rw [processChain] at h
  split at h
  · cases h
  next vector hvector =>
  obtain ⟨vecType, htype, h⟩ := bind_eq_ok.mp h
  simp only at h
  split at h
  · cases h
  split at h
  · cases h
  refine ⟨vector, vecType, hvector, htype, ?_⟩
  split at h
  next hsupported =>
    obtain ⟨intrinsic, -, h⟩ := bind_eq_ok.mp h
    obtain ⟨ops, hops, h⟩ := bind_eq_ok.mp h
    obtain rfl := Except.ok.inj h
    exact ⟨rfl, rfl, rfl, rfl, .inr ⟨hsupported, rfl, _, rfl, hops⟩⟩
  next hsupported =>
    obtain rfl := Except.ok.inj h
    exact ⟨rfl, rfl, rfl, rfl, .inl ⟨hsupported, rfl, rfl⟩⟩

/-- **The invariant of the loop over the chains**, when the chains of `done` have been processed:
    the tiles in use are those of the chains that were rewritten, and the configuration is that of
    the last chain, rewritten or not. -/
structure Progress (f : Function) (done : List AccumulatorChain) (s : PassState) : Prop where
  nextTileId : s.nextTileId = done.length
  leaves : ∀ l ∈ leavesOps s.ops, LeafOk f done l
  used : ∀ k chain, done[k]? = some chain → chain.Supported f → HasTile s.ops k
  rewritten : s.rewritten = true ↔ ∃ chain ∈ done, chain.Supported f
  config : ∀ last, done.getLast? = some last →
    s.inputElTy = some last.inputElTy ∧
      prescribedConfig f last = matrixConfig s.configM s.configN last.inputElTy

theorem progress_init {f : Function} (hsource : f.Source) : Progress f [] (PassState.init f) := by
  refine ⟨rfl, fun l hl => ⟨?_, fun k hk => ?_, fun id kind access vector hw => ?_⟩, by simp,
    by simp [PassState.init], by simp⟩
  · rintro config rfl
    exact hsource.noConfigure config hl
  · rw [hsource.tiles l hl] at hk
    cases hk
  · exact .inl (mem_transferWrites.mpr ⟨kind, access, hw ▸ hl⟩)

/-- What a chain of the function writes has not changed when the chain is processed. -/
theorem writtenValue_eq {f : Function} {done : List AccumulatorChain} {s : PassState}
    (hsource : f.Source) (hprogress : Progress f done s) {writeback : Nat} {vector : ValueId}
    (hmem : writeback ∈ (transferWrites f.body).map Prod.fst)
    (h : writtenValue s.ops writeback = some vector) :
    writtenValue f.body writeback = some vector := by
  obtain ⟨kind, access, hl⟩ := mem_transferWrites.mp (mem_of_lookup h)
  rcases (hprogress.leaves _ hl).write _ _ _ _ rfl with hw | hfresh
  · exact lookup_of_mem hsource.writes hw
  · -- a clone has another name
    obtain ⟨w, hw, rfl⟩ := List.mem_map.mp hmem
    exact absurd (hfresh w hw) (Nat.lt_irrefl _)

/-- **One round keeps the invariant.** -/
theorem processChain_progress {f : Function} (hsource : f.Source) {done : List AccumulatorChain}
    {s s' : PassState} {chain : AccumulatorChain}
    (hmem : chain.writeback ∈ (transferWrites f.body).map Prod.fst)
    (hprogress : Progress f done s) (h : processChain f s chain = .ok s') :
    Progress f (done ++ [chain]) s' := by
  obtain ⟨vector, vecType, hvector, htype, hnext, hM, hN, hinput, hops⟩ := processChain_eq_ok h
  have hconfig : ∀ last, (done ++ [chain]).getLast? = some last →
      s'.inputElTy = some last.inputElTy ∧
        prescribedConfig f last = matrixConfig s'.configM s'.configN last.inputElTy := by
    intro last hlast
    rw [List.getLast?_concat] at hlast
    obtain rfl := Option.some.inj hlast
    refine ⟨hinput, ?_⟩
    rw [prescribedConfig, writtenValue_eq hsource hprogress hmem hvector, hM, hN]
    simp only [htype, ok_bind]
  have hnext' : s'.nextTileId = (done ++ [chain]).length := by
    rw [hnext, hprogress.nextTileId, List.length_append, List.length_singleton]
  rcases hops with ⟨hskipped, hops, hrewritten⟩ | ⟨hsupported, hrewritten, ctx, htile, hchain⟩
  · refine ⟨hnext', fun l hl => ?_, fun k chain' hk hsupported => ?_, ?_, hconfig⟩
    · exact (hprogress.leaves l (hops ▸ hl)).concat chain
    · rw [hops]
      rcases getElem?_concat_cases hk with hk | ⟨rfl, rfl⟩
      · exact hprogress.used k chain' hk hsupported
      · exact absurd hsupported hskipped
    · rw [hrewritten, hprogress.rewritten]
      simp [hskipped]
  · rw [hprogress.nextTileId] at htile
    obtain ⟨hown, hothers⟩ := hasTile_rewriteChain hchain
    refine ⟨hnext', leafOk_rewriteChain hsupported htile hprogress.leaves hchain,
      fun k chain' hk hsupported' => ?_, ?_, hconfig⟩
    · rcases getElem?_concat_cases hk with hk | ⟨rfl, rfl⟩
      · exact hothers k (hprogress.used k chain' hk hsupported')
      · rwa [htile] at hown
    · exact ⟨fun _ => ⟨chain, by simp, hsupported⟩, fun _ => hrewritten⟩

/-- A chain that was collected is that of a transfer write of the function. -/
theorem analyzeChain_of_collectChains {f : Function} {chains : List AccumulatorChain}
    (h : collectChains f = .ok chains) {chain : AccumulatorChain} (hmem : chain ∈ chains) :
    ∃ w ∈ transferWrites f.body, analyzeChain f w.1 w.2 = .ok (some chain) := by
  obtain ⟨found, hfound, h⟩ := bind_eq_ok.mp h
  obtain rfl := Except.ok.inj h
  rw [List.mem_filterMap] at hmem
  obtain ⟨_, hmem, rfl⟩ := hmem
  exact exists_of_mem_mapM hfound _ hmem

theorem writeback_of_analyzeChain {f : Function} {writeback : Nat} {vector : ValueId}
    {chain : AccumulatorChain} (h : analyzeChain f writeback vector = .ok (some chain)) :
    chain.writeback = writeback := by
  rw [analyzeChain] at h
  split at h
  · split at h
    · cases h
    · obtain rfl := Option.some.inj (Except.ok.inj h)
      rfl
    · cases h
  · cases h

/-- A chain that was collected ends at a transfer write of the function. -/
theorem writeback_of_collectChains {f : Function} {chains : List AccumulatorChain}
    (h : collectChains f = .ok chains) {chain : AccumulatorChain} (hmem : chain ∈ chains) :
    chain.writeback ∈ (transferWrites f.body).map Prod.fst := by
  obtain ⟨w, hw, hanalyze⟩ := analyzeChain_of_collectChains h hmem
  rw [writeback_of_analyzeChain hanalyze]
  exact List.mem_map_of_mem hw

/-- The state in which the loop over the chains ends, and the function that is made of it. -/
theorem runOnOperation_eq_ok {f f' : Function} {chains : List AccumulatorChain}
    (hsource : f.Source) (hzvt : hasZvtFeature f = true) (hchains : collectChains f = .ok chains)
    (hrun : runOnOperation f = .ok f') :
    ∃ s, Progress f chains s ∧
      ((s.rewritten = false ∧ f'.body = s.ops) ∨
        (s.rewritten = true ∧ ∃ inputElTy, s.inputElTy = some inputElTy ∧
          insertMatrixConfiguration { f with body := s.ops } s.configM s.configN inputElTy
            = .ok f')) := by
  rw [runOnOperation, if_pos hzvt, hchains, ok_bind] at hrun
  obtain ⟨s, hs, hrun⟩ := bind_eq_ok.mp hrun
  refine ⟨s, ?_, ?_⟩
  · rw [← List.nil_append chains]
    apply foldlM_prefix (Progress f) _ (progress_init hsource) hs
    intro done s s' chain hmem
    exact processChain_progress hsource (writeback_of_collectChains hchains hmem)
  · split at hrun
    next hrewritten =>
      split at hrun
      · cases hrun
      next inputElTy hinput => exact .inr ⟨hrewritten, inputElTy, hinput, hrun⟩
    next hrewritten =>
      obtain rfl := Except.ok.inj hrun
      exact .inl ⟨by simpa using hrewritten, rfl⟩

/-- Only a `func.func` gets a configuration. -/
theorem insertMatrixConfiguration_eq_ok {f f' : Function} {M N : Int} {inputElTy : ElementType}
    (h : insertMatrixConfiguration f M N inputElTy = .ok f') :
    (f.isFuncOp = true ∧ ∃ config, matrixConfig M N inputElTy = .ok config ∧
        f'.body = .leaf (.configure config) :: f.body) ∨
      (f.isFuncOp = false ∧ f'.body = f.body) := by
  rw [insertMatrixConfiguration] at h
  split at h
  next hfunc =>
    obtain ⟨config, hconfig, h⟩ := bind_eq_ok.mp h
    obtain rfl := Except.ok.inj h
    exact .inl ⟨hfunc, config, hconfig, rfl⟩
  next hfunc =>
    obtain rfl := Except.ok.inj h
    exact .inr ⟨by simpa using hfunc, rfl⟩

/-! ### Which functions are configured -/

/-- **The configuration of a rewritten function**: that of the last chain, at its entry, if a chain
    was rewritten and the function is a `func.func`; and otherwise none. -/
theorem rewritten_body {f f' : Function} {chains : List AccumulatorChain}
    (hsource : f.Source) (hzvt : hasZvtFeature f = true) (hchains : collectChains f = .ok chains)
    (hrun : runOnOperation f = .ok f') :
    ∃ ops, NoConfigure ops ∧
      (∀ k, HasTile ops k ↔ ∃ chain, chains[k]? = some chain ∧ chain.Supported f) ∧
      ((f'.body = ops ∧ (f.isFuncOp = false ∨ ∀ chain ∈ chains, ¬ chain.Supported f)) ∨
        (f.isFuncOp = true ∧ (∃ chain ∈ chains, chain.Supported f) ∧
          ∃ last config, chains.getLast? = some last ∧ prescribedConfig f last = .ok config ∧
            f'.body = .leaf (.configure config) :: ops)) := by
  obtain ⟨s, hprogress, hend⟩ := runOnOperation_eq_ok hsource hzvt hchains hrun
  refine ⟨s.ops, fun config hl => (hprogress.leaves _ hl).noConfigure config rfl, fun k => ?_, ?_⟩
  · constructor
    · rintro ⟨l, hl, htile⟩
      exact (hprogress.leaves l hl).tile k htile
    · rintro ⟨chain, hk, hsupported⟩
      exact hprogress.used k chain hk hsupported
  · rcases hend with ⟨hrewritten, hbody⟩ | ⟨hrewritten, inputElTy, hinput, hinsert⟩
    · refine .inl ⟨hbody, .inr fun chain hmem hsupported => ?_⟩
      rw [hprogress.rewritten.mpr ⟨chain, hmem, hsupported⟩] at hrewritten
      cases hrewritten
    · rcases insertMatrixConfiguration_eq_ok hinsert with ⟨hfunc, config, hconfig, hbody⟩ | ⟨hfunc, hbody⟩
      · obtain ⟨chain, hmem, hsupported⟩ := hprogress.rewritten.mp hrewritten
        obtain ⟨last, hlast⟩ := Option.ne_none_iff_exists'.mp
          (List.getLast?_eq_none_iff.not.mpr (List.ne_nil_of_mem hmem))
        obtain ⟨hinput', hprescribed⟩ := hprogress.config last hlast
        obtain rfl := Option.some.inj (hinput.symm.trans hinput')
        exact .inr ⟨hfunc, ⟨chain, hmem, hsupported⟩, last, config, hlast,
          hprescribed.trans hconfig, hbody⟩
      · exact .inl ⟨hbody, .inl hfunc⟩

/-- Chains that are rewritten in a configured function have the configuration of the last chain. -/
theorem Configured.agrees {f f' : Function} {chains : List AccumulatorChain}
    (hconfigured : Configured f chains f') (hsource : f.Source) (hzvt : hasZvtFeature f = true)
    (hchains : collectChains f = .ok chains) (hrun : runOnOperation f = .ok f') :
    ∀ chain ∈ chains, chain.Supported f →
      f.isFuncOp = true ∧ ∃ last, chains.getLast? = some last ∧
        prescribedConfig f chain = prescribedConfig f last := by
  obtain ⟨ops, hno, htiles, hbody⟩ := rewritten_body hsource hzvt hchains hrun
  intro chain hmem hsupported
  obtain ⟨k, hk⟩ := List.getElem?_of_mem hmem
  have htile : HasTile ops k := (htiles k).mpr ⟨chain, hk, hsupported⟩
  rcases hbody with ⟨hbody, hnone⟩ | ⟨hfunc, -, last, config, hlast, hprescribed, hbody⟩
  · -- the instruction executes without a configuration
    obtain ⟨es, hruns, hevent⟩ := exists_runs_tile none ops hno htile
    obtain ⟨config, hactive, -⟩ :=
      hconfigured.own none es none (hbody ▸ hruns) k none hevent chain hk
    cases hactive
  · obtain ⟨es, hruns, hevent⟩ := exists_runs_tile (some config) ops hno htile
    obtain ⟨config', hactive, hprescribed'⟩ :=
      hconfigured.own none es (some config) (hbody ▸ .configure config hruns) k _ hevent chain hk
    obtain rfl := Option.some.inj hactive
    exact ⟨hfunc, last, hlast, hprescribed'.trans hprescribed.symm⟩

/-- **Which functions are configured.** Every matrix instruction of the rewritten function executes
    under the configuration of its chain exactly when the function is a `func.func` and all chains
    that are rewritten have the configuration of the last chain, which may be one that is
    skipped. -/
theorem configured_iff {f f' : Function} {chains : List AccumulatorChain} (hsource : f.Source)
    (hchains : collectChains f = .ok chains) (hrun : runOnOperation f = .ok f') :
    Configured f chains f' ↔
      (hasZvtFeature f = true → ∀ chain ∈ chains, chain.Supported f →
        f.isFuncOp = true ∧ ∃ last, chains.getLast? = some last ∧
          prescribedConfig f chain = prescribedConfig f last) := by
  cases hzvt : hasZvtFeature f with
  | false =>
    -- the pass does nothing
    rw [runOnOperation, hzvt] at hrun
    obtain rfl := Except.ok.inj hrun
    simp only [Bool.false_eq_true, false_implies, iff_true]
    refine ⟨fun c₀ es c hruns k active hmem => ?_, fun config hl =>
      absurd hl (hsource.noConfigure config)⟩
    obtain ⟨l, hl, htile⟩ := ((hruns.active hsource.noConfigure).2 _ hmem).2
    rw [hsource.tiles l hl] at htile
    cases htile
  | true =>
    obtain ⟨ops, hno, htiles, hbody⟩ := rewritten_body hsource hzvt hchains hrun
    rw [forall_prop_of_true rfl]
    constructor
    · exact fun hconfigured => hconfigured.agrees hsource hzvt hchains hrun
    · intro hall
      rcases hbody with ⟨hbody, hnone⟩ | ⟨hfunc, hex, last, config, hlast, hprescribed, hbody⟩
      · -- no chain is rewritten
        have hskipped : ∀ chain ∈ chains, ¬ chain.Supported f := by
          rcases hnone with hfunc | hskipped
          · intro chain hmem hsupported
            rw [(hall chain hmem hsupported).1] at hfunc
            cases hfunc
          · exact hskipped
        rw [← hbody] at hno htiles
        refine ⟨fun c₀ es c hruns k active hmem => ?_, fun config hl => absurd hl (hno config)⟩
        obtain ⟨chain, hk, hsupported⟩ := (htiles k).mp ((hruns.active hno).2 _ hmem).2
        exact absurd hsupported (hskipped chain (List.mem_of_getElem? hk))
      · have hown : ∀ chain ∈ chains, chain.Supported f → prescribedConfig f chain = .ok config := by
          intro chain hmem hsupported
          obtain ⟨-, last', hlast', heq⟩ := hall chain hmem hsupported
          obtain rfl := Option.some.inj (hlast.symm.trans hlast')
          exact heq.trans hprescribed
        refine ⟨fun c₀ es c hruns k active hmem chain hk => ?_, fun config' hl => ?_⟩
        · rw [hbody] at hruns
          cases hruns with
          | configure _ hruns =>
            obtain ⟨hactive, htile⟩ := (hruns.active hno).2 _ hmem
            obtain ⟨chain', hk', hsupported⟩ := (htiles k).mp htile
            obtain rfl := Option.some.inj (hk.symm.trans hk')
            exact ⟨config, hactive, hown chain (List.mem_of_getElem? hk) hsupported⟩
          | leaf _ hop _ => exact absurd rfl (hop config)
        · rw [hbody, leavesOps_cons, leavesOp_leaf, List.mem_append, List.mem_singleton] at hl
          rcases hl with hl | hl
          · obtain rfl := Leaf.configure.inj hl
            obtain ⟨chain, hmem, hsupported⟩ := hex
            exact ⟨chain, hmem, hsupported, hown chain hmem hsupported⟩
          · exact absurd hl (hno config')

/-! ### Two chains -/

/-- A matrix product of a 4x1 and a 1x4 operand into a 4x4 accumulator. -/
def outerContraction (inputElTy accElTy : ElementType) : ContractionOp where
  iteratorTypes := [.parallel, .parallel, .reduction]
  lhsMap := [.dim 0, .dim 2]
  rhsMap := [.dim 2, .dim 1]
  accMap := [.dim 0, .dim 1]
  lhsType := ⟨[4, 1], inputElTy⟩
  rhsType := ⟨[1, 4], inputElTy⟩
  accType := ⟨[4, 4], accElTy⟩

/-- A chain with one update that starts from zero.  Its values are `10 * n` to `10 * n + 3`. -/
def zeroChain (n : Nat) (inputElTy accElTy : ElementType) : List Op :=
  [.leaf (.constant (10 * n) (.splat (.floatZero false) 16)),
    .leaf (.other n [10 * n + 1, 10 * n + 2] []),
    .leaf (.contract (10 * n + 3) (outerContraction inputElTy accElTy) (10 * n + 1) (10 * n + 2)
      (10 * n)),
    .leaf (.transferWrite n .minorIdentity ⟨100, [101, 101]⟩ (10 * n + 3))]

/-- The types of the values of two chains. -/
def chainTypes (inputElTy accElTy : Nat → ElementType) (v : ValueId) : ValueType :=
  if v % 10 = 1 then .vector ⟨[4, 1], inputElTy (v / 10)⟩
  else if v % 10 = 2 then .vector ⟨[1, 4], inputElTy (v / 10)⟩
  else .vector ⟨[4, 4], accElTy (v / 10)⟩

/-- A function of a chain on `f32` inputs and of a chain on `input` inputs. -/
def twoChains (input acc : ElementType) : Function where
  isFuncOp := true
  cpuFeatures := some "+zvtbase".toList
  types := chainTypes (fun n => if n = 0 then .f32 else input) (fun n => if n = 0 then .f32 else acc)
  body := zeroChain 0 .f32 .f32 ++ zeroChain 1 input acc

/-- The chains of such a function. -/
def collected (input : ElementType) : List AccumulatorChain :=
  [⟨0, [3], 0, .f32⟩, ⟨10, [13], 1, input⟩]

theorem twoChains_source (input acc : ElementType) : (twoChains input acc).Source := by
  refine ⟨fun l hl => ?_, fun config hl => ?_, ?_⟩
  · simp only [twoChains, zeroChain, List.cons_append, List.nil_append, leavesOps_cons,
      leavesOp_leaf, leavesOps_nil, List.mem_cons, List.not_mem_nil, or_false] at hl
    rcases hl with rfl | rfl | rfl | rfl | rfl | rfl | rfl | rfl <;> rfl
  · simp [twoChains, zeroChain] at hl
  · have hnames : (transferWrites (twoChains input acc).body).map Prod.fst = [0, 1] := rfl
    rw [hnames]
    decide

/-- Two chains on `f32` inputs are configured. -/
theorem configured_iff_twoChains :
    ∃ f', runOnOperation (twoChains .f32 .f32) = .ok f' ∧
      Configured (twoChains .f32 .f32) (collected .f32) f' := by
  have hok : (runOnOperation (twoChains .f32 .f32)).isOk = true := by decide +kernel
  have hchains : collectChains (twoChains .f32 .f32) = .ok (collected .f32) :=
    eq_ok_of_toOption (by decide +kernel)
  cases hrun : runOnOperation (twoChains .f32 .f32) with
  | error failure =>
    rw [hrun] at hok
    cases hok
  | ok f' =>
    refine ⟨f', rfl, (configured_iff (twoChains_source _ _) hchains hrun).mpr ?_⟩
    intro _ chain hmem _
    refine ⟨rfl, ⟨10, [13], 1, .f32⟩, rfl, ?_⟩
    rcases List.mem_cons.mp hmem with rfl | hmem
    · rfl
    · rw [List.mem_singleton.mp hmem]

/-- A chain on `f32` inputs before a chain on 8-bit inputs executes under the configuration of the
    latter. -/
theorem twoChains_not_configured :
    ∃ f', runOnOperation (twoChains (.integer 8) (.integer 32)) = .ok f' ∧
      ¬ Configured (twoChains (.integer 8) (.integer 32)) (collected (.integer 8)) f' := by
  have hok : (runOnOperation (twoChains (.integer 8) (.integer 32))).isOk = true := by
    decide +kernel
  have hchains : collectChains (twoChains (.integer 8) (.integer 32))
      = .ok (collected (.integer 8)) := eq_ok_of_toOption (by decide +kernel)
  cases hrun : runOnOperation (twoChains (.integer 8) (.integer 32)) with
  | error failure =>
    rw [hrun] at hok
    cases hok
  | ok f' =>
    refine ⟨f', rfl, fun hconfigured => ?_⟩
    obtain ⟨-, last, hlast, heq⟩ := hconfigured.agrees (twoChains_source _ _) (by decide +kernel)
      hchains hrun ⟨0, [3], 0, .f32⟩ List.mem_cons_self (by unfold AccumulatorChain.Supported; decide)
    obtain rfl : ⟨10, [13], 1, .integer 8⟩ = last := Option.some.inj hlast
    have hne : (prescribedConfig (twoChains (.integer 8) (.integer 32)) ⟨0, [3], 0, .f32⟩).toOption
        ≠ (prescribedConfig (twoChains (.integer 8) (.integer 32))
            ⟨10, [13], 1, .integer 8⟩).toOption := by decide +kernel
    exact hne (congrArg _ heq)

end CoralNPU.Matrix
