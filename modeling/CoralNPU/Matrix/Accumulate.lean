import CoralNPU.Matrix.Values

namespace CoralNPU.Matrix

open Lib

/-!
# Matrix — the tile accumulates what the chain does

* `MatrixUnit` — what the pass relies on of the matrix instructions.
* `Casts` — what the casts between an operand and its source do to the elements; casts that keep
  them (`Casts.sameLanes`) and one extension (`Casts.widened`), as the matrix unit takes them.
* `update_multiply` — an update does to the accumulator what the instruction does to the tile.
* `AccumulatorLoop.evalOps_rewriteLoop` — the tile after the new loop against the accumulator after
  the old one.
-/

variable {Val Mem : Type} {I : Interp Val Mem}

/-! ### The matrix unit -/

/-- The contraction adds the product of `lhs[m]` and `rhs[n]` to `acc[m][n]`, for 4 rows and 4
    columns of `f32`. -/
def ContractionOp.IsOuterProduct (c : ContractionOp) : Prop :=
  getMatrixSizes c = some (4, 4, 1) ∧
    c.lhsType.elementType = .f32 ∧ c.rhsType.elementType = .f32 ∧ c.accType.elementType = .f32 ∧
    ∃ m n k, c.iteratorTypes[m]? = some .parallel ∧ c.iteratorTypes[n]? = some .parallel ∧
      c.iteratorTypes[k]? = some .reduction ∧ c.iteratorTypes.length = 3 ∧ m ≠ n ∧
      (c.lhsMap = [.dim m, .dim k] ∨ c.lhsMap = [.dim k, .dim m]) ∧
      (c.rhsMap = [.dim k, .dim n] ∨ c.rhsMap = [.dim n, .dim k]) ∧
      c.accMap = [.dim m, .dim n]

/-- The cast keeps the elements in their order. -/
def CastKind.isFlat (kind : CastKind) (srcType type : VectorType) : Bool :=
  match kind with
  | .shapeCast => true
  | .broadcast => srcType.getNumElements = type.getNumElements
  | .extF | .extSI | .extUI => false

/-- The cast extends elements of `bf16` to `f32`. -/
def CastKind.isWidening (kind : CastKind) (srcType type : VectorType) : Bool :=
  kind = .extF && srcType.elementType = .bf16 && type.elementType = .f32

/-- The type of a 4x4 accumulator. -/
def accumulatorType : VectorType := ⟨[4, 4], .f32⟩

/-- **The matrix instructions**, on 4x4 tiles of `f32`: `vtzero` makes a tile of zeros, `load` reads
    a tile and `writeback` writes it as the transfers do, and `vtfmm` adds an outer product, which
    it computes from the flattened operands.  `vtfmm.alt` does so for elements of `bf16`, which it
    extends. -/
structure Interp.MatrixUnit (I : Interp Val Mem) : Prop where
  zero : I.vtzero = I.constant (.splat (.floatZero false) 16)
  load : ∀ base indices m,
    I.load 4 4 base indices m = I.transferRead .minorIdentity accumulatorType base indices m
  writeback : ∀ tile base indices m,
    I.writeback 4 4 tile base indices m = I.transferWrite .minorIdentity tile base indices m
  multiply : ∀ c x y acc, c.IsOuterProduct → I.contract c x y acc = I.multiply .vtfmm x y acc
  widen : ∀ kind srcType type kind' srcType' type' x y acc, kind.isWidening srcType type = true →
    kind'.isWidening srcType' type' = true →
    I.multiply .vtfmm (I.cast kind srcType type x) (I.cast kind' srcType' type' y) acc
      = I.multiply .vtfmmAlt x y acc
  flat_left : ∀ intrinsic kind srcType type x y acc, kind.isFlat srcType type = true →
    I.multiply intrinsic (I.cast kind srcType type x) y acc = I.multiply intrinsic x y acc
  flat_right : ∀ intrinsic kind srcType type x y acc, kind.isFlat srcType type = true →
    I.multiply intrinsic x (I.cast kind srcType type y) acc = I.multiply intrinsic x y acc

/-! ### The casts of an operand -/

/-- What a cast does to the elements of a vector, other than to keep them. -/
inductive CastMark
  | widen | other
  deriving DecidableEq

/-- What a cast does to the elements: nothing, if it keeps them in their order. -/
def CastKind.marks (kind : CastKind) (srcType type : VectorType) : List CastMark :=
  if kind.isFlat srcType type then []
  else if kind.isWidening srcType type then [.widen]
  else [.other]

/-- What has to be done to the elements that the instruction reads to make them those of an `f32`
    operand. -/
def Intrinsic.marks : Intrinsic → List CastMark
  | .vtfmmAlt => [.widen]
  | .vtfmm | .vtmms => []

/-- The first value is made from the second one by casts that do `marks` to the elements. -/
inductive Casts (ops : List Op) : ValueId → List CastMark → ValueId → Prop
  | refl (v : ValueId) : Casts ops v [] v
  | cast {v r src w : ValueId} {kind : CastKind} {srcType type : VectorType} {marks : List CastMark}
      (hdef : findDef ops v = some (.leaf (.cast r kind src srcType type)))
      (h : Casts ops src marks w) : Casts ops v (kind.marks srcType type ++ marks) w

namespace Casts

variable {ops : List Op} {env : Env Val} {scope : List ValueId} {v w : ValueId}
  {marks : List CastMark}

/-- One more cast. -/
theorem concat {r src : ValueId} {kind : CastKind} {srcType type : VectorType}
    (h : Casts ops v marks w)
    (hdef : findDef ops w = some (.leaf (.cast r kind src srcType type))) :
    Casts ops v (marks ++ kind.marks srcType type) src := by
  induction h with
  | refl v =>
    rw [List.nil_append, ← List.append_nil (kind.marks srcType type)]
    exact .cast hdef (.refl src)
  | cast hdef' _ ih =>
    rw [List.append_assoc]
    exact .cast hdef' (ih hdef)

/-- An operand is made from its source by casts. -/
theorem trace (ops : List Op) (v : ValueId) : ∃ marks, Casts ops v marks (traceToSourceValue ops v) := by
  unfold traceToSourceValue
  cases htrace : iterate (traceStep ops) (traceFuel ops) v with
  | none => exact ⟨[], .refl v⟩
  | some source =>
    obtain ⟨w, ⟨marks, hw⟩, hexit⟩ := iterate_exit (fun w => ∃ marks, Casts ops v marks w)
      (fun w w' hw hstep => by
        obtain ⟨marks, hw⟩ := hw
        unfold traceStep at hstep
        split at hstep
        next r kind src srcType type hdef =>
          obtain rfl := Sum.inl.inj hstep
          exact ⟨_, hw.concat hdef⟩
        next => cases hstep) _ _ _ ⟨[], .refl v⟩ htrace
    unfold traceStep at hexit
    split at hexit
    next => cases hexit
    next =>
      obtain rfl := Sum.inr.inj hexit
      exact ⟨marks, hw⟩

end Casts

/-- The instruction makes the same of two operands. -/
def SameLanes (I : Interp Val Mem) (intrinsic : Intrinsic) (x x' : Val) : Prop :=
  ∀ y acc, I.multiply intrinsic x y acc = I.multiply intrinsic x' y acc ∧
    I.multiply intrinsic y x acc = I.multiply intrinsic y x' acc

theorem SameLanes.trans {intrinsic : Intrinsic} {x x' x'' : Val} (h : SameLanes I intrinsic x x')
    (h' : SameLanes I intrinsic x' x'') : SameLanes I intrinsic x x'' :=
  fun y acc => ⟨(h y acc).1.trans (h' y acc).1, (h y acc).2.trans (h' y acc).2⟩

/-- A cast that keeps the elements does not matter. -/
theorem SameLanes.flat (hI : I.MatrixUnit) (intrinsic : Intrinsic) {kind : CastKind}
    {srcType type : VectorType} (hflat : kind.isFlat srcType type = true) (x : Val) :
    SameLanes I intrinsic (I.cast kind srcType type x) x :=
  fun y acc => ⟨hI.flat_left intrinsic kind srcType type x y acc hflat,
    hI.flat_right intrinsic kind srcType type y x acc hflat⟩

/-- `vtfmm` makes of the first operand what `vtfmm.alt` makes of the second one. -/
def Widened (I : Interp Val Mem) (x x' : Val) : Prop :=
  ∃ kind srcType type x₀, CastKind.isWidening kind srcType type = true ∧
    SameLanes I .vtfmm x (I.cast kind srcType type x₀) ∧ SameLanes I .vtfmmAlt x₀ x'

namespace Casts

variable {ops : List Op} {env : Env Val} {scope : List ValueId} {v w : ValueId}

/-- **Casts that keep the elements** do not matter to the matrix unit. -/
theorem sameLanes (hI : I.MatrixUnit) (hclosed : Closed ops scope) (hholds : Holds I ops env scope)
    {marks : List CastMark} (h : Casts ops v marks w) : marks = [] → v ∈ scope → ∀ {x}, env v = some x →
      ∃ x', env w = some x' ∧ ∀ intrinsic, SameLanes I intrinsic x x' := by
  induction h with
  | refl v => exact fun _ _ x hx => ⟨x, hx, fun _ _ _ => ⟨rfl, rfl⟩⟩
  | @cast v r src w kind srcType type marks hdef _ ih =>
    intro hnil hv x hx
    obtain ⟨hkind, hmarks⟩ := List.append_eq_nil_iff.mp hnil
    obtain ⟨hsrc, x₀, hx₀, hval⟩ := hholds.cast hclosed hv hdef
    obtain ⟨x', hx', hlanes⟩ := ih hmarks hsrc hx₀
    obtain rfl : x = I.cast kind srcType type x₀ := Option.some.inj (hx.symm.trans hval)
    unfold CastKind.marks at hkind
    split at hkind
    next hflat => exact ⟨x', hx', fun intrinsic => (SameLanes.flat hI intrinsic hflat x₀).trans (hlanes _)⟩
    next => split at hkind <;> cases hkind

/-- **One extension from `bf16`**, and else casts that keep the elements. -/
theorem widened (hI : I.MatrixUnit) (hclosed : Closed ops scope) (hholds : Holds I ops env scope)
    {marks : List CastMark} (h : Casts ops v marks w) : marks = [.widen] → v ∈ scope → ∀ {x},
      env v = some x → ∃ x', env w = some x' ∧ Widened I x x' := by
  induction h with
  | refl v => exact fun hmarks => absurd hmarks (by simp)
  | @cast v r src w kind srcType type marks hdef hcasts ih =>
    intro hwiden hv x hx
    obtain ⟨hsrc, x₀, hx₀, hval⟩ := hholds.cast hclosed hv hdef
    obtain rfl : x = I.cast kind srcType type x₀ := Option.some.inj (hx.symm.trans hval)
    unfold CastKind.marks at hwiden
    split at hwiden
    next hflat =>
      obtain ⟨x', hx', kind', srcType', type', x₁, hkind', hlanes, hlanes'⟩ := ih hwiden hsrc hx₀
      exact ⟨x', hx', kind', srcType', type', x₁, hkind',
        (SameLanes.flat hI .vtfmm hflat x₀).trans hlanes, hlanes'⟩
    next =>
      split at hwiden
      next hkind =>
        -- this is the extension
        obtain ⟨x', hx', hlanes⟩ := hcasts.sameLanes hI hclosed hholds (List.cons.inj hwiden).2 hsrc hx₀
        exact ⟨x', hx', kind, srcType, type, x₀, hkind, fun _ _ => ⟨rfl, rfl⟩, hlanes _⟩
      next => cases (List.cons.inj hwiden).1

end Casts

/-- **An update of the chain** does to the accumulator what the multiply instruction does to the
    tile. -/
theorem update_multiply (hI : I.MatrixUnit) {ops : List Op} {env : Env Val} {scope : List ValueId}
    (hclosed : Closed ops scope) (hholds : Holds I ops env scope) {r lhs rhs acc : ValueId}
    {c : ContractionOp} (hr : r ∈ scope)
    (hdef : findDef ops r = some (.leaf (.contract r c lhs rhs acc))) (hc : c.IsOuterProduct)
    {intrinsic : Intrinsic} (hfloat : intrinsic = .vtfmm ∨ intrinsic = .vtfmmAlt)
    (hlhs : Casts ops lhs intrinsic.marks (traceToSourceValue ops lhs))
    (hrhs : Casts ops rhs intrinsic.marks (traceToSourceValue ops rhs)) {va : Val}
    (hacc : env acc = some va) :
    ∃ x y, env (traceToSourceValue ops lhs) = some x ∧ env (traceToSourceValue ops rhs) = some y ∧
      env r = some (I.multiply intrinsic x y va) := by
  obtain ⟨⟨hmeml, hmemr, -⟩, x₀, y₀, va', hx₀, hy₀, hva', hval⟩ := hholds.contract hclosed hr hdef
  obtain rfl := Option.some.inj (hacc.symm.trans hva')
  rcases hfloat with rfl | rfl
  · obtain ⟨x, hx, hlanesx⟩ := hlhs.sameLanes hI hclosed hholds rfl hmeml hx₀
    obtain ⟨y, hy, hlanesy⟩ := hrhs.sameLanes hI hclosed hholds rfl hmemr hy₀
    refine ⟨x, y, hx, hy, ?_⟩
    rw [hval]
    calc some (I.contract c x₀ y₀ va) = some (I.multiply .vtfmm x₀ y₀ va) := by
          rw [hI.multiply c x₀ y₀ va hc]
      _ = some (I.multiply .vtfmm x y₀ va) := by rw [(hlanesx _ y₀ va).1]
      _ = some (I.multiply .vtfmm x y va) := by rw [(hlanesy _ x va).2]
  · obtain ⟨x, hx, kind, srcType, type, x₁, hkind, hlanesx, hlanesx'⟩ :=
      hlhs.widened hI hclosed hholds rfl hmeml hx₀
    obtain ⟨y, hy, kind', srcType', type', y₁, hkind', hlanesy, hlanesy'⟩ :=
      hrhs.widened hI hclosed hholds rfl hmemr hy₀
    refine ⟨x, y, hx, hy, ?_⟩
    rw [hval]
    calc some (I.contract c x₀ y₀ va) = some (I.multiply .vtfmm x₀ y₀ va) := by
          rw [hI.multiply c x₀ y₀ va hc]
      _ = some (I.multiply .vtfmm (I.cast kind srcType type x₁) (I.cast kind' srcType' type' y₁) va) := by
          rw [(hlanesx y₀ va).1, (hlanesy _ va).2]
      _ = some (I.multiply .vtfmmAlt x₁ y₁ va) := by
          rw [hI.widen kind srcType type kind' srcType' type' x₁ y₁ va hkind hkind']
      _ = some (I.multiply .vtfmmAlt x y va) := by rw [(hlanesx' y₁ va).1, (hlanesy' x va).2]

/-! ### The loop -/

/-- The accumulator in an iteration of a loop that carries nothing else. -/
theorem evalOps_arg {ops : List Op} {scope : List ValueId} {h : LoopHeader} {body : List Op}
    {arg : ValueId} (site : Site ops scope [.loop h body]) (hargs : h.args = [arg])
    {env env₁ : Env Val} {iv va : Val} {st st₁ : State Val Mem}
    (heval : evalOps I body (h.bindArgs env iv [va]) st = some (env₁, st₁)) :
    env₁ arg = some va := by
  have hmem : arg ∈ h.blockArgs := by simp [LoopHeader.blockArgs, hargs]
  rw [evalOps_frame heval fun hres =>
    site.body.fresh arg (mem_definedIds_of_blockResults hres) (List.mem_append_left _ hmem)]
  have hget : h.blockArgs[1]? = some arg := by rw [LoopHeader.blockArgs, hargs]; rfl
  exact Env.bind_getElem (List.nodup_append.mp site.loop_nodup).1 hget

/-- A loop that carries one value, the accumulator, and has the updates `us` in an iteration.  `off`
    leads above all identifiers. -/
structure AccumulatorLoop (ops : List Op) (chain : AccumulatorChain) (ctx : TileContext) (off : Nat)
    (scope us : List ValueId) (h : LoopHeader) (body : List Op) (init arg yielded result : ValueId) :
    Prop where
  site : Site ops scope [.loop h body]
  inits : h.inits = [init]
  args : h.args = [arg]
  yields : h.yields = [yielded]
  results : h.results = [result]
  straight : Straight body
  separable : Separable ops chain ctx h body 0
  scope_lt : ∀ v ∈ scope, v < off
  ids_lt : ∀ v ∈ definedIds ops, v < off
  tiles : ∀ l ∈ leavesOps ops, l.tile? ≠ some ctx.tile
  updates : UpdatesOf ops chain (h.blockArgs ++ scope) arg us yielded body

namespace AccumulatorLoop

variable {ops : List Op} {chain : AccumulatorChain} {ctx : TileContext} {off : Nat}
  {scope us : List ValueId} {h : LoopHeader} {body : List Op} {init arg yielded result : ValueId}

/-- What an update keeps between the accumulator and the tile.  `T us` is what holds in an iteration
    when the updates `us` are to come. -/
def StepKeeps (I : Interp Val Mem) (ops : List Op) (chain : AccumulatorChain) (intrinsic : Intrinsic)
    (scope : List ValueId) (body : List Op) (T : List ValueId → Val → Val → Prop) : Prop :=
  ∀ env, Holds I ops env scope → ∀ r c lhs rhs acc, .leaf (.contract r c lhs rhs acc) ∈ body →
    r ∈ chain.updates → ∀ us va t, env acc = some va → T (r :: us) va t → ∃ x y va',
      env (traceToSourceValue ops lhs) = some x ∧ env (traceToSourceValue ops rhs) = some y ∧
      env r = some va' ∧ T us va' (I.multiply intrinsic x y t)

/-- **One iteration** of the new loop against one of the old loop. -/
theorem iteration (al : AccumulatorLoop ops chain ctx off scope us h body init arg yielded result)
    {T : List ValueId → Val → Val → Prop}
    (hstep : StepKeeps I ops chain ctx.intrinsic (blockResults body ++ (h.blockArgs ++ scope)) body T)
    {env env₁ : Env Val} (henv : ∀ v ∈ scope, (env v).isSome) (hholds : Holds I ops env scope)
    {iv va : Val} {vals₁ : List Val} {st st' st₁ : State Val Mem} (hst : AgreeExcept ctx.tile st st')
    (hT : T us va (st'.tiles ctx.tile))
    (heval : evalOps I body (h.bindArgs env iv [va]) st = some (env₁, st₁))
    (hyields : h.yields.mapM env₁ = some vals₁) :
    ∃ env₁' st₁' va', evalOps I (cloneBody ops chain ctx off (h.blockArgs.eraseIdx 1) body)
        ((h.without off 0).bindArgs env iv []) st' = some (env₁', st₁') ∧
      (h.without off 0).yields.mapM env₁' = some [] ∧ vals₁ = [va'] ∧
      AgreeExcept ctx.tile st₁ st₁' ∧ T [] va' (st₁'.tiles ctx.tile) := by
  have hlength : [va].length = h.args.length := by rw [al.args]; rfl
  obtain ⟨env₁', st₁', heval', hyields', hst₁, htile⟩ := evalOps_iteration al.site al.separable
    al.scope_lt al.ids_lt al.tiles henv hlength hst heval hyields
  have harg : env₁ arg = some va := evalOps_arg al.site al.args heval
  have hholds₁ := evalOps_holds al.site.body (hholds.bindArgs al.site iv [va]) heval
  obtain ⟨vy, t, hall, hvy, hTt⟩ := multiplyAll_links T body al.site.body al.straight al.updates
    (hstep env₁ hholds₁) harg hT
  obtain rfl := Option.some.inj (hall.symm.trans htile)
  rw [al.yields, List.mapM_cons, hvy] at hyields
  obtain rfl : vals₁ = [vy] := (Option.some.inj hyields).symm
  exact ⟨env₁', st₁', vy, heval', hyields', rfl, hst₁, hTt⟩

/-- **All iterations**, with what holds after the last one if there is one. -/
theorem iterations (al : AccumulatorLoop ops chain ctx off scope us h body init arg yielded result)
    {T : List ValueId → Val → Val → Prop} (hback : ∀ va t, T [] va t → T us va t)
    (hstep : StepKeeps I ops chain ctx.intrinsic (blockResults body ++ (h.blockArgs ++ scope)) body T)
    {env : Env Val} (henv : ∀ v ∈ scope, (env v).isSome) (hholds : Holds I ops env scope)
    {iv : Nat → Val} {n : Nat} {va : Val} {vals₁ : List Val} {st st' st₁ : State Val Mem}
    (hst : AgreeExcept ctx.tile st st') (hT : T us va (st'.tiles ctx.tile))
    (hloop : evalLoop (evalOps I body) h env iv n 0 [va] st = some (vals₁, st₁)) :
    ∃ st₁' va', evalLoop (evalOps I (cloneBody ops chain ctx off (h.blockArgs.eraseIdx 1) body))
        (h.without off 0) env iv n 0 [] st' = some ([], st₁') ∧
      vals₁ = [va'] ∧ AgreeExcept ctx.tile st₁ st₁' ∧ T us va' (st₁'.tiles ctx.tile) ∧
      (0 < n → T [] va' (st₁'.tiles ctx.tile)) := by
  cases n with
  | zero =>
    obtain ⟨rfl, rfl⟩ := Prod.mk.inj (Option.some.inj hloop)
    exact ⟨st', va, rfl, rfl, hst, hT, fun hn => absurd hn (Nat.lt_irrefl 0)⟩
  | succ n =>
    -- after the first iteration, no update is to come in between
    obtain ⟨env₂, st₂, vals₂, hbody₂, hyields₂, hrest⟩ := evalLoop_succ.mp hloop
    obtain ⟨env₂', st₂', va₂, hbody₂', hyields₂', rfl, hst₂, hT₂⟩ :=
      al.iteration hstep henv hholds hst hT hbody₂ hyields₂
    obtain ⟨vals₁', st₁', hloop', va', rfl, rfl, hst₁, hT₁⟩ := evalLoop_sim
      (fun vals st vals' st' => ∃ va, vals = [va] ∧ vals' = [] ∧ AgreeExcept ctx.tile st st' ∧
        T [] va (st'.tiles ctx.tile))
      (by
        rintro iv _ st _ st' env₁ st₁ vals₁ ⟨va, rfl, rfl, hst, hT⟩ hbody hyields
        obtain ⟨env₁', st₁', va', hbody', hyields', rfl, hst₁, hT₁⟩ :=
          al.iteration hstep henv hholds hst (hback va _ hT) hbody hyields
        exact ⟨env₁', st₁', [], hbody', hyields', va', rfl, rfl, hst₁, hT₁⟩)
      ⟨va₂, rfl, rfl, hst₂, hT₂⟩ hrest
    exact ⟨st₁', va', evalLoop_succ.mpr ⟨env₂', st₂', [], hbody₂', hyields₂', hloop'⟩, rfl, hst₁,
      hback _ _ hT₁, fun _ => hT₁⟩

/-- **The tile after the new loop** against the accumulator after the old one: a relation that the
    updates of an iteration keep holds between them, if it holds between the initial value and the
    initialized tile. -/
theorem evalOps_rewriteLoop
    (al : AccumulatorLoop ops chain ctx off scope us h body init arg yielded result)
    {read : Option Access} {zero : ConstAttr} {T : List ValueId → Val → Val → Prop}
    (hback : ∀ va t, T [] va t → T us va t)
    (hstep : StepKeeps I ops chain ctx.intrinsic (blockResults body ++ (h.blockArgs ++ scope)) body T)
    {env env₁ : Env Val} {st st₁ : State Val Mem} (henv : ∀ v ∈ scope, (env v).isSome)
    (hholds : Holds I ops env scope) {va tile : Val} (hinit : env init = some va)
    (hread : evalOp I (initOp ctx read) env st = some (env, st.setTile ctx.tile tile))
    (hT : T us va tile) (heval : evalOp I (.loop h body) env st = some (env₁, st₁)) :
    ∃ env₁' st₁', evalOps I (rewriteLoop ops chain ctx off read zero h body) env st
        = some (env₁', st₁') ∧ AgreeExcept ctx.tile st₁ st₁' ∧
      (∀ v, v ≠ result → env₁' v = env₁ v) ∧
      ∃ va', env₁ result = some va' ∧ T us va' (st₁'.tiles ctx.tile) ∧
        ((∀ lb ub step, 0 < I.tripCount lb ub step) → T [] va' (st₁'.tiles ctx.tile)) := by
  have hidx : accIdx h chain.initVal = 0 := accIdx_eq_iff.mpr al.separable.first
  obtain ⟨lb, ub, step, vals, vals₁, st₂, hlb, hub, hstepEnv, hvals, hloop, heq⟩ :=
    evalOp_loop.mp heval
  obtain ⟨rfl, rfl⟩ := Prod.mk.inj heq
  rw [al.inits, List.mapM_cons, hinit] at hvals
  obtain rfl : vals = [va] := (Option.some.inj hvals).symm
  have hT' : T us va ((st.setTile ctx.tile tile).tiles ctx.tile) := by
    rwa [State.setTile_tiles_self]
  obtain ⟨st₁', va', hloop', rfl, hst₁, hT₁, hT₂⟩ := al.iterations hback hstep henv hholds
    ((AgreeExcept.refl _ st).setTile tile) hT' hloop
  have hnone : (h.inits.eraseIdx 0).mapM env = some [] := by rw [al.inits]; rfl
  rw [rewriteLoop, hidx]
  refine ⟨_, st₁', evalOps_cons.mpr ⟨_, _, hread, evalOps_cons.mpr ⟨_, _, evalOp_loop.mpr
    ⟨lb, ub, step, _, _, _, hlb, hub, hstepEnv, hnone, hloop', rfl⟩, evalOps_cons.mpr
      ⟨_, _, evalOp_leaf.mpr ⟨[], rfl, rfl⟩, evalOps_nil⟩⟩⟩, hst₁, fun v hv => ?_, va', ?_, hT₁,
    fun htrips => hT₂ (htrips lb ub step)⟩
  · -- no other value is bound
    have hne : v ∉ [h.results.getD 0 0] := by
      rw [al.results, List.mem_singleton]
      exact hv
    have hout : v ∉ h.results := by
      rw [al.results, List.mem_singleton]
      exact hv
    have herase : v ∉ (h.without off 0).results := fun hmem => hout (List.mem_of_mem_eraseIdx hmem)
    rw [Env.bind_of_not_mem hout]
    exact (Env.bind_of_not_mem hne).trans (Env.bind_of_not_mem herase)
  · rw [al.results]
    exact Env.bind_getElem (List.nodup_singleton _) (k := 0) rfl

end AccumulatorLoop

end CoralNPU.Matrix
