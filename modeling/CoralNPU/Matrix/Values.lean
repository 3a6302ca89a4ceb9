import CoralNPU.Matrix.LoopFrame
import CoralNPU.Matrix.Links

namespace CoralNPU.Matrix

open Lib

/-!
# Matrix — the values of an execution

* `Holds` — every value in scope is what its definition says; `evalOps_holds` — an execution keeps
  it so, and with it every value that does not depend on the memory.
* `Holds.cast`, `Holds.contract` — the values of casts and contractions.
* `UpdatesOf` — the updates of a body in their order; `multiplyAll_links` — multiplied into a tile,
  they follow their links.
-/

variable {Val Mem : Type} {I : Interp Val Mem}

/-! ### Definitions hold -/

/-- The operations with one result, which depends on their operands only. -/
def Leaf.isPure : Leaf → Bool
  | .constant _ _ | .cast _ _ _ _ _ | .contract _ _ _ _ _ | .outerProduct _ _ _ _ => true
  | .transferRead _ _ _ _ | .transferWrite _ _ _ _ | .other _ _ _ | .vtzero _ | .load _ _ _ _
  | .multiply _ _ _ _ | .writeback _ _ _ _ | .configure _ => false

/-- Every value in scope is what its definition says. -/
def Holds (I : Interp Val Mem) (ops : List Op) (env : Env Val) (scope : List ValueId) : Prop :=
  ∀ v ∈ scope, ∀ l, findDef ops v = some (.leaf l) → l.isPure = true →
    ∃ vals m, l.operands.mapM env = some vals ∧ env v = some (I.result l vals m 0)

theorem Leaf.results_of_isPure {l : Leaf} (hl : l.isPure = true) : ∃ r, l.results = [r] := by
  cases l with
  | constant r | cast r | contract r | outerProduct r => exact ⟨r, rfl⟩
  | _ => cases hl

/-- The arguments of a block have no definition in it. -/
theorem SSA.holds {arguments : List ValueId} {ops : List Op} (h : SSA arguments ops)
    (env : Env Val) : Holds I ops env arguments :=
  fun v hv _ hd _ => absurd hv (h.fresh v (List.mem_map_of_mem (mem_of_lookup hd)))

/-- Environments that agree on a closed scope. -/
theorem Holds.congr {ops : List Op} {env env' : Env Val} {scope : List ValueId}
    (h : Holds I ops env scope) (hclosed : Closed ops scope) (henv : ∀ v ∈ scope, env' v = env v) :
    Holds I ops env' scope := by
  intro v hv l hdef hpure
  obtain ⟨vals, m, hvals, hval⟩ := h v hv l hdef hpure
  refine ⟨vals, m, ?_, ?_⟩
  · have hcongr : ∀ u ∈ l.operands, env' u = env u := fun u hu =>
      henv u (hclosed v hv _ hdef u hu)
    rw [mapM_congr hcongr, hvals]
  · rw [henv v hv, hval]

/-- An operation makes the definitions of its results hold. -/
theorem evalOp_holds {ops₀ : List Op} {scope : List ValueId} {op : Op} {ops : List Op}
    (site : Site ops₀ scope (op :: ops)) {env env₁ : Env Val} {st st₁ : State Val Mem}
    (h : Holds I ops₀ env scope) (heval : evalOp I op env st = some (env₁, st₁)) :
    Holds I ops₀ env₁ (opResults op ++ scope) := by
  have hkeep : ∀ v ∈ scope, env₁ v = env v := by
    intro v hv
    apply evalOp_frame heval
    intro hmem
    exact site.head.fresh v (mem_definedIds_of_opResults hmem) hv
  have hold : Holds I ops₀ env₁ scope := h.congr site.closed hkeep
  intro v hv l hdef hpure
  rcases List.mem_append.mp hv with hv | hv
  · cases op with
    | leaf l' =>
      -- the operation itself
      have hdef' : findDef ops₀ v = some (.leaf l') :=
        findDef_of_mem site.nodup₀ (site.head.defs _ (mem_defs_leaf hv))
      obtain rfl := Def.leaf.inj (Option.some.inj (hdef.symm.trans hdef'))
      obtain ⟨vals, hvals, heq⟩ := evalOp_leaf.mp heval
      obtain ⟨henv₁, -⟩ := Prod.mk.inj heq
      have hscoped := site.scopedOp
      rw [ScopedOp] at hscoped
      obtain ⟨r, hr⟩ := Leaf.results_of_isPure hpure
      refine ⟨vals, st.mem, ?_, ?_⟩
      · rw [mapM_congr fun u hu => hkeep u (hscoped u hu), hvals]
      · have hget : l.results[0]? = some v := by
          have : v ∈ l.results := hv
          rw [hr] at this ⊢
          rw [List.mem_singleton.mp this]
          rfl
        have hnodup : l.results.Nodup := by
          rw [hr]
          exact List.nodup_singleton r
        rw [henv₁, Env.bind_getElem hnodup hget]
    | loop header body =>
      -- the result of a loop is no such operation
      have hdef' := findDef_of_mem site.nodup₀ (site.head.defs _ (mem_defs_result hv))
      cases hdef.symm.trans hdef'
  · exact hold v hv l hdef hpure

/-- **An execution makes the definitions of a block hold.** -/
theorem evalOps_holds {ops₀ : List Op} {ops : List Op} :
    ∀ {scope : List ValueId} {env env₁ : Env Val} {st st₁ : State Val Mem},
      Site ops₀ scope ops → Holds I ops₀ env scope → evalOps I ops env st = some (env₁, st₁) →
      Holds I ops₀ env₁ (blockResults ops ++ scope) := by
  induction ops with
  | nil =>
    intro scope env env₁ st st₁ _ h heval
    rw [evalOps_nil] at heval
    obtain ⟨rfl, -⟩ := Prod.mk.inj (Option.some.inj heval)
    exact h
  | cons op ops ih =>
    intro scope env env₁ st st₁ site h heval
    obtain ⟨env₂, st₂, hop, hops⟩ := evalOps_cons.mp heval
    have hholds := ih site.tail (evalOp_holds site h hop) hops
    intro v hv
    apply hholds
    rw [blockResults_cons] at hv
    simp only [List.mem_append] at hv ⊢
    tauto

/-- The definitions hold in an iteration of a loop. -/
theorem Holds.bindArgs {ops₀ : List Op} {scope : List ValueId} {h : LoopHeader} {body : List Op}
    (site : Site ops₀ scope [.loop h body]) {env : Env Val} (hholds : Holds I ops₀ env scope)
    (iv : Val) (vals : List Val) : Holds I ops₀ (h.bindArgs env iv vals) (h.blockArgs ++ scope) := by
  have hargs : ∀ v ∈ scope, h.bindArgs env iv vals v = env v := by
    intro v hv
    apply Env.bind_of_not_mem
    intro hmem
    apply site.fresh v _ hv
    rw [definedIds_loop]
    exact List.mem_append_left _ hmem
  have hscope := hholds.congr site.closed hargs
  intro v hv l hdef hpure
  rcases List.mem_append.mp hv with hv | hv
  · have hdef' := findDef_of_mem site.nodup₀ (site.defs _ (mem_defs_blockArg hv))
    cases hdef.symm.trans hdef'
  · exact hscope v hv l hdef hpure

/-- The value of a cast. -/
theorem Holds.cast {ops : List Op} {env : Env Val} {scope : List ValueId}
    (h : Holds I ops env scope) (hclosed : Closed ops scope) {v r src : ValueId} {kind : CastKind}
    {srcType type : VectorType} (hv : v ∈ scope)
    (hdef : findDef ops v = some (.leaf (.cast r kind src srcType type))) :
    src ∈ scope ∧ ∃ x, env src = some x ∧ env v = some (I.cast kind srcType type x) := by
  obtain ⟨vals, m, hvals, hval⟩ := h v hv _ hdef rfl
  obtain ⟨x, _, hx, hnil, rfl⟩ := mapM_cons_eq_some.mp hvals
  obtain rfl := Option.some.inj hnil
  exact ⟨hclosed v hv _ hdef src (by simp [Def.operands, Leaf.operands]), x, hx, hval⟩

/-- The operands of a contraction. -/
theorem mapM_contract {env : Env Val} {r lhs rhs acc : ValueId} {c : ContractionOp}
    {vals : List Val} (h : (Leaf.operands (.contract r c lhs rhs acc)).mapM env = some vals) :
    ∃ x y va, env lhs = some x ∧ env rhs = some y ∧ env acc = some va ∧ vals = [x, y, va] := by
  obtain ⟨x, _, hx, h₁, rfl⟩ := mapM_cons_eq_some.mp h
  obtain ⟨y, _, hy, h₂, rfl⟩ := mapM_cons_eq_some.mp h₁
  obtain ⟨va, _, hva, h₃, rfl⟩ := mapM_cons_eq_some.mp h₂
  obtain rfl := Option.some.inj h₃
  exact ⟨x, y, va, hx, hy, hva, rfl⟩

/-- The value of a contraction. -/
theorem Holds.contract {ops : List Op} {env : Env Val} {scope : List ValueId}
    (h : Holds I ops env scope) (hclosed : Closed ops scope) {v r lhs rhs acc : ValueId}
    {c : ContractionOp} (hv : v ∈ scope)
    (hdef : findDef ops v = some (.leaf (.contract r c lhs rhs acc))) :
    (lhs ∈ scope ∧ rhs ∈ scope ∧ acc ∈ scope) ∧ ∃ x y va, env lhs = some x ∧ env rhs = some y ∧
      env acc = some va ∧ env v = some (I.contract c x y va) := by
  have hoperands := hclosed v hv _ hdef
  obtain ⟨vals, m, hvals, hval⟩ := h v hv _ hdef rfl
  obtain ⟨x, y, va, hx, hy, hva, rfl⟩ := mapM_contract hvals
  refine ⟨⟨?_, ?_, ?_⟩, x, y, va, hx, hy, hva, hval⟩
  · exact hoperands lhs (by simp [Def.operands, Leaf.operands])
  · exact hoperands rhs (by simp [Def.operands, Leaf.operands])
  · exact hoperands acc (by simp [Def.operands, Leaf.operands])

/-! ### The updates of a body -/

/-- The update with result `r`. -/
theorem updateOperands_contract {chain : AccumulatorChain} {r lhs rhs acc : ValueId}
    {c : ContractionOp} (hr : r ∈ chain.updates) :
    updateOperands chain (.leaf (.contract r c lhs rhs acc)) = some (lhs, rhs) :=
  if_pos hr

/-- The updates `us`, which link `a` to `y`, are those that a block has.  Before the block none of
    them is in scope. -/
structure UpdatesOf (ops₀ : List Op) (chain : AccumulatorChain) (scope : List ValueId) (a : ValueId)
    (us : List ValueId) (y : ValueId) (body : List Op) : Prop where
  links : Links ops₀ a us y
  nodup : us.Nodup
  acc : a ∈ scope
  fresh : ∀ r ∈ us, r ∉ scope
  updates : ∀ r ∈ us, r ∈ chain.updates
  defined : ∀ r ∈ us, r ∈ blockResults body
  only : ∀ op ∈ body, ∀ p, updateOperands chain op = some p → ∀ r ∈ opResults op, r ∈ us

namespace UpdatesOf

variable {ops₀ rest : List Op} {chain : AccumulatorChain} {scope us : List ValueId} {a y : ValueId}

/-- Of an empty block. -/
theorem eq_nil (h : UpdatesOf ops₀ chain scope a us y []) : us = [] ∧ a = y := by
  cases us with
  | nil => exact ⟨rfl, h.links⟩
  | cons r us => exact absurd (h.defined r List.mem_cons_self) List.not_mem_nil

/-- Behind an operation that is no update they are all to come. -/
theorem other {l : Leaf} (h : UpdatesOf ops₀ chain scope a us y (.leaf l :: rest))
    (site : Site ops₀ scope (.leaf l :: rest)) (hother : updateOperands chain (.leaf l) = none) :
    UpdatesOf ops₀ chain (opResults (.leaf l) ++ scope) a us y rest := by
  have hnot : ∀ r ∈ us, r ∉ opResults (.leaf l) := by
    intro r hr hmem
    -- the definition of a result of the operation is the operation
    have hop := findDef_of_mem site.nodup₀ (site.head.defs _ (mem_defs_leaf hmem))
    obtain ⟨c, lhs, rhs, acc, hdef, -⟩ := h.links.mem r hr
    obtain rfl := Def.leaf.inj (Option.some.inj (hop.symm.trans hdef))
    rw [updateOperands_contract (h.updates r hr)] at hother
    cases hother
  exact {
    links := h.links
    nodup := h.nodup
    acc := List.mem_append_right _ h.acc
    fresh := fun r hr hmem => (List.mem_append.mp hmem).elim (hnot r hr) (h.fresh r hr)
    updates := h.updates
    defined := fun r hr => (List.mem_append.mp (h.defined r hr)).resolve_left (hnot r hr)
    only := fun op hop => h.only op (List.mem_cons_of_mem _ hop) }

/-- An update of the block is the first one to come, and links from the accumulator. -/
theorem eq_cons {r lhs rhs acc : ValueId} {c : ContractionOp}
    (h : UpdatesOf ops₀ chain scope a us y (.leaf (.contract r c lhs rhs acc) :: rest))
    (site : Site ops₀ scope (.leaf (.contract r c lhs rhs acc) :: rest)) (hr : r ∈ chain.updates) :
    ∃ us', us = r :: us' ∧ acc = a := by
  have hmem : r ∈ us :=
    h.only _ List.mem_cons_self _ (updateOperands_contract hr) r (List.mem_singleton_self r)
  have hdef : findDef ops₀ r = some (.leaf (.contract r c lhs rhs acc)) :=
    findDef_of_mem site.nodup₀ (site.head.defs _ (mem_defs_leaf (List.mem_singleton_self r)))
  have hscoped := site.scopedOp
  rw [ScopedOp] at hscoped
  have hacc : acc ∈ scope := hscoped acc (by simp [Leaf.operands])
  cases us with
  | nil => cases hmem
  | cons r₁ us =>
    obtain ⟨⟨c₁, lhs₁, rhs₁, hdef₁⟩, hlinks⟩ := h.links
    -- a later link has an earlier one as its accumulator, which is not in scope yet
    have hfirst : r = r₁ := by
      refine (List.mem_cons.mp hmem).resolve_right fun hlater => ?_
      obtain ⟨c', lhs', rhs', acc', hdef', hacc'⟩ := hlinks.mem r hlater
      cases hdef.symm.trans hdef'
      apply h.fresh acc _ hacc
      rcases hacc' with rfl | hacc'
      · exact List.mem_cons_self
      · exact List.mem_cons_of_mem _ hacc'
    obtain rfl := hfirst
    cases hdef.symm.trans hdef₁
    exact ⟨us, rfl, rfl⟩

/-- Behind the first update the others are to come. -/
theorem tail {r lhs rhs acc : ValueId} {c : ContractionOp}
    (h : UpdatesOf ops₀ chain scope a (r :: us) y (.leaf (.contract r c lhs rhs acc) :: rest))
    (site : Site ops₀ scope (.leaf (.contract r c lhs rhs acc) :: rest)) :
    UpdatesOf ops₀ chain (r :: scope) r us y rest := by
  obtain ⟨-, hlinks⟩ := h.links
  obtain ⟨hr, hnodup⟩ := List.nodup_cons.mp h.nodup
  have hne : ∀ r' ∈ us, r' ≠ r := fun r' hr' heq => hr (heq ▸ hr')
  refine ⟨hlinks, hnodup, List.mem_cons_self, fun r' hr' hmem => ?_,
    fun r' hr' => h.updates r' (List.mem_cons_of_mem _ hr'), fun r' hr' => ?_, fun op hop p hp r' hr' => ?_⟩
  · exact (List.mem_cons.mp hmem).elim (hne r' hr') (h.fresh r' (List.mem_cons_of_mem _ hr'))
  · refine (List.mem_append.mp (h.defined r' (List.mem_cons_of_mem _ hr'))).resolve_left fun hmem => ?_
    exact hne r' hr' (List.mem_singleton.mp hmem)
  · refine (List.mem_cons.mp (h.only op (List.mem_cons_of_mem _ hop) p hp r' hr')).resolve_left ?_
    rintro rfl
    -- every value has one definition
    have hmem : r' ∈ blockResults rest := List.mem_flatMap.mpr ⟨op, hop, hr'⟩
    exact site.tail.fresh r' (mem_definedIds_of_blockResults hmem)
      (List.mem_append_left _ (List.mem_singleton_self r'))

end UpdatesOf

/-- **The updates of a body, multiplied into a tile, follow their links**, in the order of the block:
    what relates the accumulator and the tile while the links `us` are to come, and is kept by an
    update, relates the last link and the tile in the end. -/
theorem multiplyAll_links {ops₀ : List Op} {chain : AccumulatorChain} {intrinsic : Intrinsic}
    {env : Env Val} (T : List ValueId → Val → Val → Prop) {y : ValueId} :
    ∀ (body : List Op) {scope : List ValueId} {a : ValueId} {us : List ValueId} {va tile : Val},
      Site ops₀ scope body → Straight body → UpdatesOf ops₀ chain scope a us y body →
      (∀ r c lhs rhs acc, .leaf (.contract r c lhs rhs acc) ∈ body → r ∈ chain.updates →
        ∀ us va t, env acc = some va → T (r :: us) va t → ∃ x y va',
          env (traceToSourceValue ops₀ lhs) = some x ∧ env (traceToSourceValue ops₀ rhs) = some y ∧
          env r = some va' ∧ T us va' (I.multiply intrinsic x y t)) →
      env a = some va → T us va tile →
      ∃ vy t, multiplyAll I intrinsic env (updatePairs ops₀ chain body) tile = some t ∧
        env y = some vy ∧ T [] vy t := by
  intro body
  induction body with
  | nil =>
    intro scope a us va tile _ _ hus _ ha hT
    obtain ⟨rfl, rfl⟩ := hus.eq_nil
    exact ⟨va, tile, rfl, ha, hT⟩
  | cons op rest ih =>
    intro scope a us va tile site hstraight hus hstep ha hT
    have hstraight' : Straight rest := fun op' hop' => hstraight op' (List.mem_cons_of_mem _ hop')
    have hstep' := fun r c lhs rhs acc hmem =>
      hstep r c lhs rhs acc (List.mem_cons_of_mem _ hmem)
    obtain ⟨l, rfl⟩ := hstraight op List.mem_cons_self
    rcases hupdate : updateOperands chain (.leaf l) with _ | ⟨lhs, rhs⟩
    · rw [updatePairs_other hupdate]
      exact ih site.tail hstraight' (hus.other site hupdate) hstep' ha hT
    · rw [updatePairs_update hupdate]
      obtain ⟨r, c, acc, heq, hr⟩ := updateOperands_eq_some hupdate
      obtain rfl := Op.leaf.inj heq
      obtain ⟨us, rfl, rfl⟩ := hus.eq_cons site hr
      obtain ⟨x, y', va', hx, hy', hva', hT'⟩ :=
        hstep r c lhs rhs acc List.mem_cons_self hr us va tile ha hT
      obtain ⟨vy, t, hall, hvy, hTt⟩ := ih site.tail hstraight' (hus.tail site) hstep' hva' hT'
      refine ⟨vy, t, ?_, hvy, hTt⟩
      rw [multiplyAll, hx, hy']
      exact hall

end CoralNPU.Matrix
