import CoralNPU.Matrix.CloneSim
import CoralNPU.Matrix.Site

namespace CoralNPU.Matrix

open Lib

/-!
# Matrix — what the rewriting of a loop touches

A loop is replaced by one that does not carry the accumulator.

* `LoopFrame` — only the accumulator is gone: the other results have the values that they had, and
  the one that is gone has no user left.
* `Separable` — when that is so: the accumulator is the first value that starts from the initial
  value, every other value is yielded from outside of the loop, and nothing else in the loop reads
  the accumulation.
* `evalOp_rewriteLoop` — such a loop keeps its other results; `separable_of_others` — no other
  loop does; `loopFrame_iff_separable`.
-/

/-! ### The property -/

/-- What is left of a loop in `scope` when `new` takes its place and result `j` is the accumulator. -/
structure LoopFrame (ops : List Op) (chain : AccumulatorChain) (ctx : TileContext)
    (scope : List ValueId) (h : LoopHeader) (body : List Op) (j : Nat) (new : List Op) : Prop where
  /-- The result that is removed is the accumulator. -/
  removed : ∀ header inner, .loop header inner ∈ new → header.results = h.results.eraseIdx j
  /-- Every other result is what it was, and so is everything but the tile. -/
  others : ∀ (Val Mem : Type) (I : Interp Val Mem) (env : Env Val) (st : State Val Mem)
    (env₁ : Env Val) (st₁ : State Val Mem), (∀ v ∈ scope, (env v).isSome) →
    evalOp I (.loop h body) env st = some (env₁, st₁) →
    ∃ env₁' st₁', evalOps I new env st = some (env₁', st₁') ∧ AgreeExcept ctx.tile st₁ st₁' ∧
      ∀ v ∈ h.results.eraseIdx j, env₁' v = env₁ v
  /-- A use of the accumulator besides the transfer write sees what it saw. -/
  accumulated : ∀ v, h.results[j]? = some v →
    v ∈ usesOps (rewriteOps (replaceWrite chain.writeback ctx) ops) →
    ∀ (Val Mem : Type) (I : Interp Val Mem) (env : Env Val) (st : State Val Mem)
      (env₁ : Env Val) (st₁ : State Val Mem), (∀ v ∈ scope, (env v).isSome) →
      evalOp I (.loop h body) env st = some (env₁, st₁) →
      ∃ env₁' st₁', evalOps I new env st = some (env₁', st₁') ∧ env₁' v = env₁ v

/-- The values of the body that the new loop does not have: the accumulator, and the results of the
    updates. -/
def removedValues (chain : AccumulatorChain) (h : LoopHeader) (body : List Op) (j : Nat) :
    List ValueId :=
  h.args[j]?.toList ++ blockResults (body.filter fun op => (updateOperands chain op).isSome)

/-- The loops that can do without their accumulator, result `j`. -/
structure Separable (ops : List Op) (chain : AccumulatorChain) (ctx : TileContext) (h : LoopHeader)
    (body : List Op) (j : Nat) : Prop where
  /-- It is the first value that starts from the initial value of the chain; or there is none, and
      it is the first value. -/
  first : h.inits.findIdx? (· = chain.initVal) = some j ∨ (chain.initVal ∉ h.inits ∧ j = 0)
  /-- Every other value is yielded from outside of the loop. -/
  yields : ∀ i v, i ≠ j → h.yields[i]? = some v → v ∉ definedIds [.loop h body]
  /-- Only the updates read it in the loop. -/
  others : ∀ op ∈ body, updateOperands chain op = none →
    ∀ v ∈ usesOp op, v ∉ removedValues chain h body j
  /-- No update multiplies it. -/
  updates : ∀ op ∈ body, ∀ lhs rhs, updateOperands chain op = some (lhs, rhs) →
    traceToSourceValue ops lhs ∉ removedValues chain h body j ∧
      traceToSourceValue ops rhs ∉ removedValues chain h body j
  /-- Only the transfer write reads it after the loop. -/
  users : ∀ v, h.results[j]? = some v →
    v ∉ usesOps (rewriteOps (replaceWrite chain.writeback ctx) ops)

/-! ### Environments without a name -/

namespace Env

variable {Val : Type}

/-- The value of a name among different ones. -/
theorem bind_getElem {env : Env Val} {names : List ValueId} (hnodup : names.Nodup)
    {vals : Nat → Option Val} {k : Nat} {v : ValueId} (h : names[k]? = some v) :
    env.bind names vals v = vals k := by
  obtain ⟨hk, rfl⟩ := List.getElem?_eq_some_iff.mp h
  have hidx : names.idxOf? names[k] = some k := by
    rw [List.idxOf?_eq_some_iff]
    refine ⟨hk, rfl, fun i hi heq => ?_⟩
    exact absurd (hnodup.getElem_inj_iff.mp heq) (Nat.ne_of_lt hi)
  rw [bind, hidx]

/-- The other names have their values without one of them. -/
theorem bind_eraseIdx {env env' : Env Val} {names : List ValueId} (hnodup : names.Nodup)
    (vals : List Val) {j : Nat} {v : ValueId} (hv : v ∈ names.eraseIdx j) :
    env'.bind (names.eraseIdx j) (fun k => (vals.eraseIdx j)[k]?) v
      = env.bind names (fun k => vals[k]?) v := by
  obtain ⟨k, hk⟩ := List.getElem?_of_mem hv
  rw [bind_getElem (hnodup.eraseIdx j) hk, List.getElem?_eraseIdx]
  rw [List.getElem?_eraseIdx] at hk
  split at hk
  next hlt => rw [if_pos hlt, bind_getElem hnodup hk]
  next hlt => rw [if_neg hlt, bind_getElem hnodup hk]

end Env

/-! ### A loop that is separable -/

section Separable

variable {ops : List Op} {chain : AccumulatorChain} {ctx : TileContext} {scope : List ValueId}
  {h : LoopHeader} {body : List Op} {j off : Nat} {read : Option Access} {zero : ConstAttr}

/-- The source of a value in scope is in scope. -/
theorem Closed.traceToSourceValue_mem (hclosed : Closed ops scope) {v : ValueId} (hv : v ∈ scope) :
    traceToSourceValue ops v ∈ scope := by
  unfold traceToSourceValue
  cases htrace : iterate (traceStep ops) (traceFuel ops) v with
  | none => exact hv
  | some source =>
    obtain ⟨w, hw, hexit⟩ := iterate_exit (· ∈ scope) (fun w w' hw hstep => by
      unfold traceStep at hstep
      split at hstep
      next hdef =>
        obtain rfl := Sum.inl.inj hstep
        exact hclosed w hw _ hdef _ (by simp [Def.operands, Leaf.operands])
      next => cases hstep) _ _ _ hv htrace
    unfold traceStep at hexit
    split at hexit
    next => cases hexit
    next =>
      obtain rfl := Sum.inr.inj hexit
      exact hw

/-- What the new body reads is in scope without the removed values, if nothing but the updates
    reads them. -/
theorem clonableBody_of_site {removed : List ValueId} :
    ∀ (body : List Op) {scope kept : List ValueId}, Site ops scope body →
      (∀ v ∈ scope, v ∉ removed → v ∈ kept) →
      (∀ op ∈ body, updateOperands chain op = none → ∀ v ∈ usesOp op, v ∉ removed) →
      (∀ op ∈ body, ∀ lhs rhs, updateOperands chain op = some (lhs, rhs) →
        (∀ v ∈ opResults op, v ∈ removed) ∧
          traceToSourceValue ops lhs ∉ removed ∧ traceToSourceValue ops rhs ∉ removed) →
      ClonableBody ops chain kept body := by
  intro body
  induction body with
  | nil =>
    intro scope kept _ _ _ _
    rw [ClonableBody]
    trivial
  | cons op rest ih =>
    intro scope kept site hkept hothers hupdates
    have hothers' := fun op' hop' => hothers op' (List.mem_cons_of_mem _ hop')
    have hupdates' := fun op' hop' => hupdates op' (List.mem_cons_of_mem _ hop')
    rcases hupdate : updateOperands chain op with _ | ⟨lhs, rhs⟩
    · rw [clonableBody_other hupdate]
      refine ⟨site.scopedOp.of_uses op fun v hv hmem => hkept v hmem ?_, ih site.tail ?_ hothers'
        hupdates'⟩
      · exact hothers op List.mem_cons_self hupdate v hv
      · intro v hv hnot
        rw [List.mem_append] at hv ⊢
        exact hv.imp_right fun hv => hkept v hv hnot
    · rw [clonableBody_update hupdate]
      obtain ⟨hresults, hlhs, hrhs⟩ := hupdates op List.mem_cons_self lhs rhs hupdate
      have hscoped := site.scopedOp
      obtain ⟨r, c, acc, rfl, -⟩ := updateOperands_eq_some hupdate
      rw [ScopedOp] at hscoped
      refine ⟨hkept _ ?_ hlhs, hkept _ ?_ hrhs, ih site.tail ?_ hothers' hupdates'⟩
      · exact site.closed.traceToSourceValue_mem (hscoped lhs (by simp [Leaf.operands]))
      · exact site.closed.traceToSourceValue_mem (hscoped rhs (by simp [Leaf.operands]))
      · intro v hv hnot
        rcases List.mem_append.mp hv with hv | hv
        · exact absurd (hresults v hv) hnot
        · exact hkept v hv hnot

/-- The block arguments of the new loop. -/
theorem LoopHeader.blockArgs_without (h : LoopHeader) (off j : Nat) :
    (h.without off j).blockArgs = (h.blockArgs.eraseIdx (j + 1)).map (· + off) := rfl

theorem mem_removedValues_of_update {op : Op} {operands : ValueId × ValueId} (hop : op ∈ body)
    (hupdate : updateOperands chain op = some operands) :
    ∀ v ∈ opResults op, v ∈ removedValues chain h body j := by
  intro v hv
  rw [removedValues, List.mem_append]
  apply Or.inr
  rw [blockResults, List.mem_flatMap]
  exact ⟨op, List.mem_filter.mpr ⟨hop, by rw [hupdate]; rfl⟩, hv⟩

/-- The block arguments that are not removed. -/
theorem mem_eraseIdx_blockArgs {v : ValueId} (hv : v ∈ h.blockArgs)
    (hnot : v ∉ removedValues chain h body j) : v ∈ h.blockArgs.eraseIdx (j + 1) := by
  rw [LoopHeader.blockArgs, List.eraseIdx_cons_succ, List.mem_cons]
  rcases List.mem_cons.mp hv with rfl | hv
  · exact .inl rfl
  · apply Or.inr
    obtain ⟨i, hi⟩ := List.getElem?_of_mem hv
    rw [List.mem_eraseIdx_iff_getElem?]
    refine ⟨i, ?_, hi⟩
    rintro rfl
    apply hnot
    rw [removedValues, hi]
    exact List.mem_append_left _ (List.mem_singleton_self v)

/-- The initialization of a tile has an execution where its operands are in scope, and only sets the
    tile. -/
theorem evalOp_initOp {Val Mem : Type} {I : Interp Val Mem} {env : Env Val}
    (hread : ∀ access, read = some access → ∀ v ∈ access.base :: access.indices, v ∈ scope)
    (henv : ∀ v ∈ scope, (env v).isSome) (ctx : TileContext) (st : State Val Mem) :
    ∃ val, evalOp I (initOp ctx read) env st = some (env, st.setTile ctx.tile val) := by
  cases read with
  | none => exact ⟨_, evalOp_leaf.mpr ⟨[], rfl, rfl⟩⟩
  | some access =>
    obtain ⟨vals, hvals⟩ := exists_mapM_eq_some fun v hv => henv v (hread access rfl v hv)
    exact ⟨_, evalOp_leaf.mpr ⟨vals, hvals, rfl⟩⟩

/-- The values that are mapped are block arguments or defined in the body. -/
theorem mem_mappedBy {mapped : List ValueId} {v : ValueId} (hv : v ∈ mappedBy chain mapped body) :
    v ∈ mapped ∨ v ∈ definedIds body := by
  rw [mappedBy, List.mem_append] at hv
  refine hv.imp_right fun hcloned => ?_
  obtain ⟨op, hop, hcloned⟩ := List.mem_flatMap.mp hcloned
  obtain ⟨before, after, hbody⟩ := List.append_of_mem (List.mem_filter.mp hop).1
  rw [hbody, definedIds_append, definedIds_cons]
  exact List.mem_append_right _ (List.mem_append_left _ hcloned)

/-- The block arguments of the new loop have the values that they had. -/
theorem bindArgs_without (hoff : ∀ v ∈ h.blockArgs ++ scope, v < off) (hnodup : h.blockArgs.Nodup)
    (hfresh : ∀ v ∈ h.blockArgs, v ∉ scope) {Val : Type} {env : Env Val} {iv : Val}
    {vals : List Val} :
    ∀ v ∈ h.blockArgs.eraseIdx (j + 1) ++ scope,
      (h.without off j).bindArgs env iv (vals.eraseIdx j)
          (lookupOrDefault off (h.blockArgs.eraseIdx (j + 1)) v)
        = h.bindArgs env iv vals v := by
  intro v hv
  have hsub : ∀ v ∈ h.blockArgs.eraseIdx (j + 1), v ∈ h.blockArgs :=
    fun v hv => List.mem_of_mem_eraseIdx hv
  have hnames : (h.without off j).blockArgs
      = (h.blockArgs.eraseIdx (j + 1)).map
          (lookupOrDefault off (h.blockArgs.eraseIdx (j + 1))) := by
    rw [LoopHeader.blockArgs_without]
    apply List.map_congr_left
    intro v hv
    rw [lookupOrDefault, if_pos hv]
  rw [LoopHeader.bindArgs, LoopHeader.bindArgs, hnames]
  have hv' : v ∈ h.blockArgs ++ scope := by
    rw [List.mem_append] at hv ⊢
    exact hv.imp_left (hsub v)
  have houtside : v ∉ h.blockArgs.eraseIdx (j + 1) →
      env (lookupOrDefault off (h.blockArgs.eraseIdx (j + 1)) v) = env v := by
    intro hnot
    rw [lookupOrDefault, if_neg hnot]
  rw [Env.bind_map (renaming_lookupOrDefault off (h.blockArgs.eraseIdx (j + 1))) (hoff v hv')
    (fun n hn => hoff n (List.mem_append_left _ (hsub n hn))) houtside]
  by_cases hmem : v ∈ h.blockArgs.eraseIdx (j + 1)
  · exact Env.bind_eraseIdx hnodup (iv :: vals) hmem
  · -- a value from outside of the loop
    have hscope : v ∈ scope := (List.mem_append.mp hv).resolve_left hmem
    rw [Env.bind_of_not_mem hmem, Env.bind_of_not_mem fun hmem => hfresh v hmem hscope]

/-- **One iteration** of the new loop: it yields the other values that the old loop does, and
    multiplies the updates into the tile. -/
theorem evalOps_iteration (site : Site ops scope [.loop h body])
    (hsep : Separable ops chain ctx h body j) (hoff : ∀ v ∈ scope, v < off)
    (hids : ∀ v ∈ definedIds ops, v < off) (htiles : ∀ l ∈ leavesOps ops, l.tile? ≠ some ctx.tile)
    {Val Mem : Type} {I : Interp Val Mem} {env : Env Val} (henv : ∀ v ∈ scope, (env v).isSome)
    {iv : Val} {vals vals₁ : List Val} {st st' st₁ : State Val Mem} {env₁ : Env Val}
    (hlength : vals.length = h.args.length) (hst : AgreeExcept ctx.tile st st')
    (hbody : evalOps I body (h.bindArgs env iv vals) st = some (env₁, st₁))
    (hyields : h.yields.mapM env₁ = some vals₁) :
    ∃ env₁' st₁', evalOps I (cloneBody ops chain ctx off (h.blockArgs.eraseIdx (j + 1)) body)
        ((h.without off j).bindArgs env iv (vals.eraseIdx j)) st' = some (env₁', st₁') ∧
      (h.without off j).yields.mapM env₁' = some (vals₁.eraseIdx j) ∧
      AgreeExcept ctx.tile st₁ st₁' ∧
      multiplyAll I ctx.intrinsic env₁ (updatePairs ops chain body) (st'.tiles ctx.tile)
        = some (st₁'.tiles ctx.tile) := by
  have hsub : ∀ v ∈ h.blockArgs.eraseIdx (j + 1) ++ scope, v ∈ h.blockArgs ++ scope := by
    intro v hv
    rw [List.mem_append] at hv ⊢
    exact hv.imp_left List.mem_of_mem_eraseIdx
  have hargs : ∀ v ∈ h.blockArgs ++ scope, v < off := by
    intro v hv
    rcases List.mem_append.mp hv with hv | hv
    · apply hids v (site.ids v _)
      rw [definedIds_loop]
      exact List.mem_append_left _ hv
    · exact hoff v hv
  have hclonable : ClonableBody ops chain (h.blockArgs.eraseIdx (j + 1) ++ scope) body := by
    apply clonableBody_of_site body site.body _ hsep.others
    · exact fun op hop lhs rhs hupdate => ⟨mem_removedValues_of_update hop hupdate,
        hsep.updates op hop lhs rhs hupdate⟩
    · intro v hv hnot
      rw [List.mem_append] at hv ⊢
      exact hv.imp_left fun hv => mem_eraseIdx_blockArgs hv hnot
  obtain ⟨hnodup, -, hdisjoint⟩ := List.nodup_append.mp site.loop_nodup
  have hfresh : ∀ v ∈ h.blockArgs, v ∉ scope := by
    intro v hv
    apply site.fresh
    rw [definedIds_loop]
    exact List.mem_append_left _ hv
  obtain ⟨env₁', st₁', hbody', hrel, hst₁, htile⟩ := evalOps_cloneBody hclonable
    (fun v hv => hargs v (hsub v hv)) (fun v hv => hids v (site.body.ids v hv)) site.body.nodup
    (fun v hv hmem => site.body.fresh v hv (hsub v hmem))
    (fun l hl => htiles l (site.body.leaves l hl)) site.body.arity
    (bindArgs_without hargs hnodup hfresh)
    (fun v hv => bindArgs_isSome iv hlength henv v (hsub v hv)) hst hbody
  refine ⟨env₁', st₁', hbody', mapM_eraseIdx hyields fun i v hi hv => ?_, hst₁, htile⟩
  -- what is yielded comes from outside of the loop, so it has no clone
  have hnot := hsep.yields i v hi hv
  have hscoped := site.scopedOp
  rw [ScopedOp] at hscoped
  rw [definedIds_loop] at hnot
  have hmem := hscoped.2.2 v (List.mem_of_getElem? hv)
  simp only [List.mem_append, not_or] at hnot hmem
  have hscope : v ∈ scope := by
    rcases hmem with hmem | hmem | hmem
    · exact absurd (mem_definedIds_of_blockResults hmem) hnot.2.1
    · exact absurd hmem hnot.1
    · exact hmem
  have heq := (hrel v (List.mem_append_right _ (List.mem_append_right _ hscope))).1
  rwa [lookupOrDefault, if_neg] at heq
  intro hmapped
  rcases mem_mappedBy hmapped with hmapped | hmapped
  · exact hnot.1 (List.mem_of_mem_eraseIdx hmapped)
  · exact hnot.2.1 hmapped

/-- Which value the pass takes for the accumulator. -/
theorem accIdx_eq_iff {initVal : ValueId} :
    accIdx h initVal = j ↔
      h.inits.findIdx? (· = initVal) = some j ∨ (initVal ∉ h.inits ∧ j = 0) := by
  rw [accIdx]
  cases hfind : h.inits.findIdx? (· = initVal) with
  | none =>
    have hnot : initVal ∉ h.inits := by
      intro hmem
      have := List.findIdx?_eq_none_iff.mp hfind initVal hmem
      simp at this
    rw [Option.getD_none]
    constructor
    · exact fun hj => .inr ⟨hnot, hj.symm⟩
    · rintro (hj | ⟨-, rfl⟩)
      · cases hj
      · rfl
  | some i =>
    have hmem : initVal ∈ h.inits := by
      obtain ⟨hi, heq, -⟩ := List.findIdx?_eq_some_iff_getElem.mp hfind
      rw [decide_eq_true_eq] at heq
      exact heq ▸ List.getElem_mem hi
    rw [Option.getD_some]
    constructor
    · exact fun hj => .inl (congrArg some hj)
    · rintro (hj | ⟨hnot, -⟩)
      · exact Option.some.inj hj
      · exact absurd hmem hnot

/-- **A separable loop keeps its other results.** -/
theorem evalOp_rewriteLoop (site : Site ops scope [.loop h body])
    (hsep : Separable ops chain ctx h body j) (hj : j < h.results.length)
    (hoff : ∀ v ∈ scope, v < off) (hids : ∀ v ∈ definedIds ops, v < off)
    (htiles : ∀ l ∈ leavesOps ops, l.tile? ≠ some ctx.tile)
    (hread : ∀ access, read = some access → ∀ v ∈ access.base :: access.indices, v ∈ scope)
    {Val Mem : Type} {I : Interp Val Mem} {env env₁ : Env Val} {st st₁ : State Val Mem}
    (henv : ∀ v ∈ scope, (env v).isSome) (heval : evalOp I (.loop h body) env st = some (env₁, st₁)) :
    ∃ env₁' st₁', evalOps I (rewriteLoop ops chain ctx off read zero h body) env st
        = some (env₁', st₁') ∧ AgreeExcept ctx.tile st₁ st₁' ∧
      ∀ v ∈ h.results.eraseIdx j, env₁' v = env₁ v := by
  have hidx : accIdx h chain.initVal = j := accIdx_eq_iff.mpr hsep.first
  have harity := site.arityOp
  rw [ArityOp] at harity
  obtain ⟨hinits, hyieldsLength, hresults, -⟩ := harity
  obtain ⟨lb, ub, step, vals, vals₁, st₂, hlb, hub, hstep, hvals, hloop, heq⟩ := evalOp_loop.mp heval
  obtain ⟨rfl, rfl⟩ := Prod.mk.inj heq
  obtain ⟨val, hinit⟩ := evalOp_initOp (I := I) hread henv ctx st
  -- the loops run in lockstep
  have hsim := evalLoop_sim (fun vals st vals' st' =>
    vals' = vals.eraseIdx j ∧ vals.length = h.args.length ∧ AgreeExcept ctx.tile st st')
    (fun iv vals st vals' st' env₁ st₁ vals₁ hR hbody hyields => by
      obtain ⟨rfl, hlength, hst⟩ := hR
      obtain ⟨env₁', st₁', hbody', hyields', hst₁, -⟩ := evalOps_iteration site hsep hoff hids htiles
        henv hlength hst hbody hyields
      exact ⟨env₁', st₁', _, hbody', hyields', rfl,
        (exists_of_mapM_eq_some hyields).1.trans hyieldsLength, hst₁⟩)
    ⟨rfl, (exists_of_mapM_eq_some hvals).1.trans hinits, (AgreeExcept.refl _ st).setTile val⟩ hloop
  obtain ⟨vals₁', st₁', hloop', rfl, -, hst₁⟩ := hsim
  have hinits' : (h.inits.eraseIdx j).mapM env = some (vals.eraseIdx j) :=
    mapM_eraseIdx hvals fun _ _ _ _ => rfl
  rw [rewriteLoop, hidx]
  refine ⟨_, st₁', evalOps_cons.mpr ⟨_, _, hinit, evalOps_cons.mpr ⟨_, _, evalOp_loop.mpr
    ⟨lb, ub, step, _, _, _, hlb, hub, hstep, hinits', hloop', rfl⟩, evalOps_cons.mpr
      ⟨_, _, evalOp_leaf.mpr ⟨[], rfl, rfl⟩, evalOps_nil⟩⟩⟩, hst₁, fun v hv => ?_⟩
  have hnodup : h.results.Nodup :=
    (List.nodup_append.mp (List.nodup_append.mp site.loop_nodup).2.1).2.1
  -- the zero takes the place of the accumulator only
  have hne : v ∉ [h.results.getD j 0] := by
    rw [List.mem_singleton, List.getD_eq_getElem?_getD, List.getElem?_eq_getElem hj,
      Option.getD_some]
    obtain ⟨i, hi, hget⟩ := List.mem_eraseIdx_iff_getElem?.mp hv
    obtain ⟨hlt, rfl⟩ := List.getElem?_eq_some_iff.mp hget
    exact fun heq => hi (hnodup.getElem_inj_iff.mp heq)
  exact (Env.bind_of_not_mem hne).trans (Env.bind_eraseIdx hnodup vals₁ hv)

/-! ### A loop that is not separable -/

/-- The meaning under which every value is `val`, and every loop runs `trips` times. -/
def constInterp {Val : Type} (val : Val) (trips : Nat) : Interp Val Unit where
  constant _ := val
  transferRead _ _ _ _ _ := val
  cast _ _ _ _ := val
  contract _ _ _ _ := val
  outerProduct _ _ _ := val
  transferWrite _ _ _ _ _ := ()
  otherResult _ _ _ _ := val
  otherEffect _ _ _ := ()
  tripCount _ _ _ := trips
  induction _ _ _ := val
  vtzero := val
  load _ _ _ _ _ := val
  multiply _ _ _ _ := val
  writeback _ _ _ _ _ _ := ()

/-- The new body defines new names only. -/
theorem le_of_mem_definedIds_cloneBody {mapped : List ValueId} {v : ValueId}
    (hv : v ∈ definedIds (cloneBody ops chain ctx off mapped body)) : off ≤ v := by
  induction body generalizing mapped with
  | nil =>
    rw [cloneBody, definedIds_nil] at hv
    cases hv
  | cons op rest ih =>
    rcases hupdate : updateOperands chain op with _ | ⟨lhs, rhs⟩
    · rw [cloneBody_other hupdate, definedIds_cons, List.mem_append] at hv
      exact hv.elim le_of_mem_definedIds_cloneOp ih
    · rw [cloneBody_update hupdate, definedIds_cons, definedIds_leaf, List.mem_append] at hv
      rcases hv with hv | hv
      · cases hv
      · exact ih hv

/-- An old name that is neither mapped nor in scope is not read by a body whose clone is scoped. -/
theorem not_mem_of_scopedOps_cloneBody {v : ValueId} (hv : v < off) :
    ∀ {body : List Op} {mapped scope' : List ValueId},
      ScopedOps scope' (cloneBody ops chain ctx off mapped body) → v ∉ mapped → v ∉ scope' →
      (∀ op ∈ body, updateOperands chain op = none → v ∉ definedIds [op]) → ∀ op ∈ body,
      (updateOperands chain op = none → v ∉ usesOp op) ∧
        ∀ lhs rhs, updateOperands chain op = some (lhs, rhs) →
          v ≠ traceToSourceValue ops lhs ∧ v ≠ traceToSourceValue ops rhs := by
  intro body
  induction body with
  | nil =>
    intro _ _ _ _ _ _ _ hop
    cases hop
  | cons op rest ih =>
    intro mapped scope' hscoped hmapped hscope hids op' hop'
    have hids' := fun op hop => hids op (List.mem_cons_of_mem _ hop)
    rcases hupdate : updateOperands chain op with _ | ⟨lhs, rhs⟩
    · rw [cloneBody_other hupdate, ScopedOps] at hscoped
      have hmapped' : v ∉ mapped ++ definedIds [op] := by
        rw [List.mem_append, not_or]
        exact ⟨hmapped, hids op List.mem_cons_self hupdate⟩
      have hnew : ∀ {w}, w ∈ definedIds [cloneOp off
          (lookupOrDefault off (mapped ++ definedIds [op])) op] → v ≠ w := by
        rintro w hw rfl
        exact absurd (le_of_mem_definedIds_cloneOp hw) (Nat.not_le.mpr hv)
      rcases List.mem_cons.mp hop' with rfl | hop'
      · refine ⟨fun _ huse => ?_, fun lhs rhs h => ?_⟩
        · -- the clone reads the old name
          have huse' : v ∈ usesOp (cloneOp off
              (lookupOrDefault off (mapped ++ definedIds [op'])) op') := by
            rw [usesOp_cloneOp, List.mem_map]
            exact ⟨v, huse, if_neg hmapped'⟩
          rcases mem_of_scopedOp _ hscoped.1 v huse' with hmem | hmem
          · exact hscope hmem
          · exact hnew hmem rfl
        · rw [hupdate] at h
          cases h
      · apply ih hscoped.2 hmapped' _ hids' op' hop'
        intro hmem
        rcases List.mem_append.mp hmem with hmem | hmem
        · exact hnew (mem_definedIds_of_opResults hmem) rfl
        · exact hscope hmem
    · rw [cloneBody_update hupdate, ScopedOps, ScopedOp] at hscoped
      rcases List.mem_cons.mp hop' with rfl | hop'
      · refine ⟨fun h => ?_, fun lhs' rhs' h => ?_⟩
        · rw [hupdate] at h
          cases h
        · obtain ⟨rfl, rfl⟩ := Prod.mk.inj (Option.some.inj (hupdate.symm.trans h))
          constructor
          · rintro rfl
            have := hscoped.1 _ List.mem_cons_self
            rw [lookupOrDefault, if_neg hmapped] at this
            exact hscope this
          · rintro rfl
            have := hscoped.1 _ (List.mem_cons_of_mem _ List.mem_cons_self)
            rw [lookupOrDefault, if_neg hmapped] at this
            exact hscope this
      · exact ih hscoped.2 hmapped hscope hids' op' hop'

/-- Operations of a block that define a common value are one. -/
theorem eq_of_mem_definedIds {body : List Op} (hnodup : (definedIds body).Nodup) {op op' : Op}
    (hop : op ∈ body) (hop' : op' ∈ body) {v : ValueId} (hv : v ∈ definedIds [op])
    (hv' : v ∈ definedIds [op']) : op = op' := by
  obtain ⟨before, after, rfl⟩ := List.append_of_mem hop
  rw [definedIds_append, definedIds_cons, List.nodup_append] at hnodup
  obtain ⟨-, hafter, hbefore⟩ := hnodup
  have hmem : ∀ {ops}, op' ∈ ops → v ∈ definedIds ops := by
    intro ops hmem
    obtain ⟨before', after', rfl⟩ := List.append_of_mem hmem
    rw [definedIds_append, definedIds_cons]
    exact List.mem_append_right _ (List.mem_append_left _ hv')
  rcases List.mem_append.mp hop' with hop' | hop'
  · exact absurd rfl (hbefore v (hmem hop') v (List.mem_append_left _ hv))
  · rcases List.mem_cons.mp hop' with rfl | hop'
    · rfl
    · exact absurd rfl ((List.nodup_append.mp hafter).2.2 v hv v (hmem hop'))

/-- A removed value has no place in the new loop: it is none of its block arguments, and defined by
    none of the operations that are cloned. -/
theorem removedValues_gone (site : Site ops scope [.loop h body]) {v : ValueId}
    (hv : v ∈ removedValues chain h body j) :
    v ∈ definedIds [.loop h body] ∧ v ∉ h.blockArgs.eraseIdx (j + 1) ∧
      ∀ op ∈ body, updateOperands chain op = none → v ∉ definedIds [op] := by
  obtain ⟨hargs, hrest, hdisjoint⟩ := List.nodup_append.mp site.loop_nodup
  rw [definedIds_loop]
  rw [removedValues, List.mem_append, Option.mem_toList] at hv
  rcases hv with hv | hv
  · -- the accumulator
    have hget : h.blockArgs[j + 1]? = some v := hv
    have hmem : v ∈ h.blockArgs := List.mem_of_getElem? hget
    refine ⟨List.mem_append_left _ hmem, fun herase => ?_, fun op hop _ hids => ?_⟩
    · obtain ⟨i, hi, hget'⟩ := List.mem_eraseIdx_iff_getElem?.mp herase
      obtain ⟨hlt, heq⟩ := List.getElem?_eq_some_iff.mp hget
      obtain ⟨hlt', heq'⟩ := List.getElem?_eq_some_iff.mp hget'
      exact hi (hargs.getElem_inj_iff.mp (heq'.trans heq.symm))
    · obtain ⟨before, after, hbody⟩ := List.append_of_mem hop
      apply hdisjoint v hmem v _ rfl
      rw [hbody, definedIds_append, definedIds_cons]
      simp [hids]
  · -- the result of an update
    obtain ⟨op, hop, hv⟩ := List.mem_flatMap.mp hv
    obtain ⟨hop, hupdate⟩ := List.mem_filter.mp hop
    have hids : v ∈ definedIds [op] := mem_definedIds_of_opResults hv
    have hmem : v ∈ definedIds body := by
      obtain ⟨before, after, hbody⟩ := List.append_of_mem hop
      rw [hbody, definedIds_append, definedIds_cons]
      simp [hids]
    refine ⟨List.mem_append_right _ (List.mem_append_left _ hmem), fun herase => ?_,
      fun op' hop' hnone hids' => ?_⟩
    · exact hdisjoint v (List.mem_of_mem_eraseIdx herase) v (List.mem_append_left _ hmem) rfl
    · obtain rfl := eq_of_mem_definedIds site.body.nodup hop hop' hids hids'
      rw [hnone] at hupdate
      cases hupdate

/-- **No other loop keeps its other results**: the new one reads a value that is gone. -/
theorem separable_of_others (site : Site ops scope [.loop h body])
    (hidx : accIdx h chain.initVal = j) (hids : ∀ v ∈ definedIds ops, v < off)
    (hothers : ∀ (env : Env Unit) (st : State Unit Unit) (env₁ : Env Unit) (st₁ : State Unit Unit),
      (∀ v ∈ scope, (env v).isSome) →
      evalOp (constInterp () 1) (.loop h body) env st = some (env₁, st₁) →
      ∃ env₁' st₁', evalOps (constInterp () 1) (rewriteLoop ops chain ctx off read zero h body) env st
        = some (env₁', st₁'))
    (husers : ∀ v, h.results[j]? = some v →
      v ∉ usesOps (rewriteOps (replaceWrite chain.writeback ctx) ops)) :
    Separable ops chain ctx h body j := by
  -- an execution in which exactly the values of the scope are defined
  let env : Env Unit := fun v => if v ∈ scope then some () else none
  have henv : ∀ v ∈ scope, (env v).isSome := fun v hv => by simp [env, hv]
  have hdom : ∀ v, (env v).isSome → v ∈ scope := by
    intro v hv
    by_contra hnot
    simp [env, hnot] at hv
  obtain ⟨env₁, st₁, heval, -⟩ := evalOp_isSome (I := constInterp () 1) (.loop h body) site.scopedOp
    site.arityOp henv ⟨(), fun _ => ()⟩
  obtain ⟨env₁', st₁', heval'⟩ := hothers env _ env₁ st₁ henv heval
  have hscoped := scopedOps_of_eval (fun _ _ _ => Nat.one_pos) _ heval' hdom
  rw [rewriteLoop, hidx, ScopedOps, ScopedOps, ScopedOp] at hscoped
  obtain ⟨-, ⟨-, hbody, hyields⟩, -⟩ := hscoped
  have hinit : opResults (initOp ctx read) = [] := by
    cases read <;> rfl
  rw [hinit, List.nil_append] at hbody hyields
  have hlt : ∀ v ∈ definedIds [.loop h body], v < off := fun v hv => hids v (site.ids v hv)
  -- the block arguments of the new loop are new
  have hnew : ∀ v ∈ (h.without off j).blockArgs, off ≤ v := by
    intro v hv
    rw [LoopHeader.blockArgs_without] at hv
    obtain ⟨w, -, rfl⟩ := List.mem_map.mp hv
    exact Nat.le_add_left off w
  have hgone : ∀ v ∈ removedValues chain h body j, ∀ op ∈ body,
      (updateOperands chain op = none → v ∉ usesOp op) ∧
        ∀ lhs rhs, updateOperands chain op = some (lhs, rhs) →
          v ≠ traceToSourceValue ops lhs ∧ v ≠ traceToSourceValue ops rhs := by
    intro v hv
    obtain ⟨hdefined, hmapped, hcloned⟩ := removedValues_gone site hv
    apply not_mem_of_scopedOps_cloneBody (hlt v hdefined) hbody hmapped _ hcloned
    intro hmem
    rcases List.mem_append.mp hmem with hmem | hmem
    · exact absurd (hnew v hmem) (Nat.not_le.mpr (hlt v hdefined))
    · exact site.fresh v hdefined hmem
  refine ⟨accIdx_eq_iff.mp hidx, fun i v hi hv hdefined => ?_, fun op hop hnone v huse hv => ?_,
    fun op hop lhs rhs hupdate => ⟨fun hv => ?_, fun hv => ?_⟩, husers⟩
  · -- a value that is yielded is old, so it comes from outside
    have hmem := hyields v (List.mem_eraseIdx_iff_getElem?.mpr ⟨i, hi, hv⟩)
    simp only [List.mem_append] at hmem
    rcases hmem with hmem | hmem | hmem
    · exact absurd (le_of_mem_definedIds_cloneBody (mem_definedIds_of_blockResults hmem))
        (Nat.not_le.mpr (hlt v hdefined))
    · exact absurd (hnew v hmem) (Nat.not_le.mpr (hlt v hdefined))
    · exact site.fresh v hdefined hmem
  · exact (hgone v hv op hop).1 hnone huse
  · exact ((hgone _ hv op hop).2 lhs rhs hupdate).1 rfl
  · exact ((hgone _ hv op hop).2 lhs rhs hupdate).2 rfl

/-- The users of the result that is removed see a zero. -/
theorem rewriteLoop_result {Val Mem : Type} {I : Interp Val Mem} {env env₁ : Env Val}
    {st st₁ : State Val Mem}
    (heval : evalOps I (rewriteLoop ops chain ctx off read zero h body) env st = some (env₁, st₁)) :
    env₁ (h.results.getD (accIdx h chain.initVal) 0) = some (I.constant zero) := by
  rw [rewriteLoop] at heval
  obtain ⟨env₂, st₂, -, heval⟩ := evalOps_cons.mp heval
  obtain ⟨env₃, st₃, -, heval⟩ := evalOps_cons.mp heval
  obtain ⟨env₄, st₄, hconstant, heval⟩ := evalOps_cons.mp heval
  rw [evalOps_nil] at heval
  obtain ⟨rfl, -⟩ := Prod.mk.inj (Option.some.inj heval)
  obtain ⟨vals, -, heq⟩ := evalOp_leaf.mp hconstant
  obtain ⟨rfl, -⟩ := Prod.mk.inj heq
  have hget : [h.results.getD (accIdx h chain.initVal) 0][0]?
      = some (h.results.getD (accIdx h chain.initVal) 0) := rfl
  exact Env.bind_getElem (List.nodup_singleton _) hget

/-- The removed result keeps its value in every execution only if nothing reads it. -/
theorem not_accumulated (site : Site ops scope [.loop h body])
    (hidx : accIdx h chain.initVal = j) {v : ValueId} (hv : h.results[j]? = some v) :
    ¬ ∀ (env : Env Bool) (st : State Bool Unit) (env₁ : Env Bool) (st₁ : State Bool Unit),
      (∀ v ∈ scope, (env v).isSome) →
      evalOp (constInterp false 0) (.loop h body) env st = some (env₁, st₁) →
      ∃ env₁' st₁', evalOps (constInterp false 0)
        (rewriteLoop ops chain ctx off read zero h body) env st = some (env₁', st₁') ∧
          env₁' v = env₁ v := by
  intro hall
  -- a loop that does not run, on values other than the zero
  have htrue : ∀ v ∈ scope, ((fun _ => some true : Env Bool) v).isSome := fun _ _ => rfl
  obtain ⟨env₁, st₁, heval, -⟩ := evalOp_isSome (I := constInterp false 0) (.loop h body)
    site.scopedOp site.arityOp htrue ⟨(), fun _ => false⟩
  obtain ⟨env₁', st₁', heval', heq⟩ := hall _ _ env₁ st₁ (fun _ _ => rfl) heval
  have hzero := rewriteLoop_result heval'
  rw [hidx, List.getD_eq_getElem?_getD, hv, Option.getD_some, heq] at hzero
  obtain ⟨_, _, _, vals, vals', st₂, -, -, -, hvals, hloop, hfinal⟩ := evalOp_loop.mp heval
  obtain ⟨rfl, rfl⟩ := Prod.mk.inj (Option.some.inj hloop)
  obtain ⟨rfl, -⟩ := Prod.mk.inj hfinal
  have hnodup : h.results.Nodup :=
    (List.nodup_append.mp (List.nodup_append.mp site.loop_nodup).2.1).2.1
  rw [Env.bind_getElem hnodup hv] at hzero
  have hmap : h.inits.mapM (fun _ => some true) = some (h.inits.map fun _ => true) :=
    List.mapM_pure
  obtain rfl := Option.some.inj (hvals.symm.trans hmap)
  rw [List.getElem?_map, Option.map_eq_some_iff] at hzero
  obtain ⟨_, -, hfalse⟩ := hzero
  cases hfalse

/-- **Which loops keep everything but their accumulator.** -/
theorem loopFrame_iff_separable (site : Site ops scope [.loop h body])
    (hj : j < h.results.length) (hoff : ∀ v ∈ scope, v < off) (hids : ∀ v ∈ definedIds ops, v < off)
    (htiles : ∀ l ∈ leavesOps ops, l.tile? ≠ some ctx.tile)
    (hread : ∀ access, read = some access → ∀ v ∈ access.base :: access.indices, v ∈ scope) :
    LoopFrame ops chain ctx scope h body j (rewriteLoop ops chain ctx off read zero h body) ↔
      Separable ops chain ctx h body j := by
  have hresults : h.results.Nodup :=
    (List.nodup_append.mp (List.nodup_append.mp site.loop_nodup).2.1).2.1
  constructor
  · intro hframe
    have hidx : accIdx h chain.initVal = j := by
      have hlt : accIdx h chain.initVal < h.results.length := by
        have harity := site.arityOp
        rw [ArityOp] at harity
        rw [harity.2.2.1, ← harity.1, accIdx]
        cases hfind : h.inits.findIdx? (· = chain.initVal) with
        | none =>
          rw [Option.getD_none, harity.1, ← harity.2.2.1]
          exact Nat.lt_of_le_of_lt (Nat.zero_le j) hj
        | some i => exact (List.findIdx?_eq_some_iff_getElem.mp hfind).1
      apply eq_of_eraseIdx_eq hresults hlt
      exact hframe.removed _ _ (List.mem_cons_of_mem _ List.mem_cons_self)
    apply separable_of_others site hidx hids
    · intro env st env₁ st₁ henv heval
      obtain ⟨env₁', st₁', heval', -⟩ := hframe.others _ _ _ env st env₁ st₁ henv heval
      exact ⟨env₁', st₁', heval'⟩
    · exact fun v hv huse => not_accumulated site hidx hv (hframe.accumulated v hv huse _ _ _)
  · intro hsep
    have hidx : accIdx h chain.initVal = j := accIdx_eq_iff.mpr hsep.first
    refine ⟨fun header inner hmem => ?_, fun Val Mem I env st env₁ st₁ henv heval =>
      evalOp_rewriteLoop site hsep hj hoff hids htiles hread henv heval,
      fun v hv huse => absurd huse (hsep.users v hv)⟩
    rw [rewriteLoop, hidx] at hmem
    rcases List.mem_cons.mp hmem with hmem | hmem
    · cases read <;> cases hmem
    · rcases List.mem_cons.mp hmem with hmem | hmem
      · obtain ⟨rfl, -⟩ := Op.loop.inj hmem
        rfl
      · cases List.mem_singleton.mp hmem

end Separable

end CoralNPU.Matrix
