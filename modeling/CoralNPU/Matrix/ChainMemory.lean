import CoralNPU.Matrix.ChainRewrite

namespace CoralNPU.Matrix

open Lib

/-!
# Matrix — the memory that a single chain leaves

* `Split.evalOps_writeback` — the writeback of the tile against the transfer write.
* `evalOp_initOp_chain` — the initialized tile holds the initial value.
* `LoopedChain.separable`, `LoopedChain.evalOp_loop_tile` — the tile after the loop.
* `leavesMemory_loop`, `leavesMemory_contract` — the two forms of a rewritten chain leave the
  memory that the function leaves.
-/

variable {f : Function} {chain : AccumulatorChain} {vector : ValueId} {Val Mem : Type}
  {I : Interp Val Mem}

/-! ### The transfer write -/

namespace Split

variable {pre mid post : List Op} {op : Op} {access : Access}

/-- The written value is used by the transfer write, as what it writes. -/
theorem not_used (sp : Split f chain vector pre op mid post access)
    (hs : SingleChain f chain vector) :
    (vector ∉ usesOps mid ∧ vector ∉ usesOps post) ∧ vector ∉ access.base :: access.indices := by
  have hcount : (usesOps f.body).count vector = 1 := hs.vector_once
  rw [sp.eq, usesOps_append, usesOps, usesOps_append, usesOps, usesOp] at hcount
  simp only [List.count_append, Leaf.operands] at hcount
  rw [List.count_cons_self] at hcount
  refine ⟨⟨?_, ?_⟩, ?_⟩
  · rw [← List.count_eq_zero]
    omega
  · rw [← List.count_eq_zero]
    omega
  · rw [← List.count_eq_zero]
    omega

/-- The operations after the written value do not bind it again. -/
theorem not_bound (sp : Split f chain vector pre op mid post access)
    (hs : SingleChain f chain vector) : vector ∉ blockResults mid := by
  intro hmem
  have hnodup := hs.ssa.nodup
  rw [sp.eq, definedIds_append, definedIds_cons, definedIds_append] at hnodup
  have hright := (List.nodup_append.mp hnodup).2.1
  exact (List.nodup_append.mp hright).2.2 _ (mem_definedIds_of_opResults sp.result) _
    (List.mem_append_left _ (mem_definedIds_of_blockResults hmem)) rfl

/-- The function has no matrix instructions. -/
theorem tile_ne (sp : Split f chain vector pre op mid post access) (hs : SingleChain f chain vector)
    (tile : Nat) :
    (∀ l ∈ leavesOps mid, l.tile? ≠ some tile) ∧ ∀ l ∈ leavesOps post, l.tile? ≠ some tile := by
  have hnone : ∀ l ∈ leavesOps f.body, l.tile? ≠ some tile := by
    intro l hl
    rw [hs.source.tiles l hl]
    simp
  rw [sp.eq] at hnone
  simp only [leavesOps_append, leavesOps_cons, List.mem_append] at hnone
  exact ⟨fun l hl => hnone l (.inr (.inr (.inl hl))),
    fun l hl => hnone l (.inr (.inr (.inr (.inr hl))))⟩

/-- **The writeback of the tile** takes place where the transfer write does, in the same memory, at
    the same base and indices. -/
theorem evalOps_writeback (sp : Split f chain vector pre op mid post access)
    (hs : SingleChain f chain vector) {tile : Nat} (rows columns : Int) {env env' env₁ : Env Val}
    {st st' st₁ : State Val Mem} {va : Val} (hvector : env vector = some va)
    (henv : ∀ u, u ≠ vector → env' u = env u) (hst : AgreeExcept tile st st')
    (h : evalOps I (mid ++ .leaf (.transferWrite chain.writeback .minorIdentity access vector) :: post)
      env st = some (env₁, st₁)) :
    ∃ base indices env₂ env₂' st₂ st₂',
      evalOps I post env₂ { st₂ with
        mem := I.transferWrite .minorIdentity va base indices st₂.mem } = some (env₁, st₁) ∧
      evalOps I (mid ++ [.leaf (.writeback tile access rows columns)]) env' st'
        = some (env₂', { st₂' with
            mem := I.writeback rows columns (st'.tiles tile) base indices st₂.mem }) ∧
      (∀ u, u ≠ vector → env₂' u = env₂ u) ∧ AgreeExcept tile st₂ st₂' := by
  obtain ⟨⟨hmid, -⟩, haccess⟩ := sp.not_used hs
  obtain ⟨env₂, st₂, h₂, hrest⟩ := evalOps_append.mp h
  obtain ⟨env₃, st₃, hwrite, hpost⟩ := evalOps_cons.mp hrest
  obtain ⟨env₂', st₂', h₂', henv₂, hst₂, htile⟩ :=
    evalOps_hidden mid sp.mid hmid (sp.tile_ne hs tile).1 henv hst h₂
  -- the operands of the transfer write
  obtain ⟨vals, hvals, heq⟩ := evalOp_leaf.mp hwrite
  obtain ⟨rfl, rfl⟩ := Prod.mk.inj heq
  have hva : env₂ vector = some va := (evalOps_frame h₂ (sp.not_bound hs)).trans hvector
  obtain ⟨va', tail, hva', htail, rfl⟩ := mapM_cons_eq_some.mp hvals
  obtain ⟨base, indices, hbase, hindices, rfl⟩ := mapM_cons_eq_some.mp htail
  obtain rfl := Option.some.inj (hva.symm.trans hva')
  refine ⟨base, indices, env₂, env₂', st₂, st₂', hpost, ?_, henv₂, hst₂⟩
  have hoperands : (access.base :: access.indices).mapM env₂' = some (base :: indices) := by
    rw [← htail]
    exact mapM_congr fun u hu => henv₂ u fun heq => haccess (heq ▸ hu)
  refine evalOps_append.mpr ⟨env₂', st₂', h₂', evalOps_cons.mpr ⟨_, _, evalOp_leaf.mpr
    ⟨base :: indices, hoperands, rfl⟩, ?_⟩⟩
  rw [evalOps_nil, Interp.effect, htile, hst₂.mem]
  rfl

/-- **A tile that holds the written value** leaves the memory that the transfer write leaves. -/
theorem leavesMemory (sp : Split f chain vector pre op mid post access)
    (hs : SingleChain f chain vector) (hI : I.MatrixUnit) {env env' env₁ : Env Val}
    {st st' st₁ : State Val Mem} {va : Val}
    (hvector : env vector = some va) (htile : st'.tiles 0 = va)
    (henv : ∀ u, u ≠ vector → env' u = env u) (hst : AgreeExcept 0 st st')
    (h : evalOps I (mid ++ .leaf (.transferWrite chain.writeback .minorIdentity access vector) :: post)
      env st = some (env₁, st₁)) :
    ∃ env₁' st₁', evalOps I (mid ++ .leaf (.writeback 0 access 4 4) :: post) env' st'
      = some (env₁', st₁') ∧ st₁'.mem = st₁.mem := by
  obtain ⟨base, indices, env₂, env₂', st₂, st₂', hpost, hwrite, henv₂, hst₂⟩ :=
    sp.evalOps_writeback hs 4 4 hvector henv hst h
  have hst₃ : AgreeExcept 0
      { st₂ with mem := I.transferWrite .minorIdentity va base indices st₂.mem }
      { st₂' with mem := I.writeback 4 4 (st'.tiles 0) base indices st₂.mem } := by
    refine ⟨?_, hst₂.tiles⟩
    show I.writeback 4 4 (st'.tiles 0) base indices st₂.mem
      = I.transferWrite .minorIdentity va base indices st₂.mem
    rw [htile, hI.writeback]
  obtain ⟨env₁', st₁', hpost', -, hst₁, -⟩ :=
    evalOps_hidden post sp.post (sp.not_used hs).1.2 (sp.tile_ne hs 0).2 henv₂ hst₃ hpost
  refine ⟨env₁', st₁', ?_, hst₁.mem⟩
  rw [show mid ++ Op.leaf (.writeback 0 access 4 4) :: post
    = (mid ++ [.leaf (.writeback 0 access 4 4)]) ++ post by simp]
  exact evalOps_append.mpr ⟨_, _, hwrite, hpost'⟩

end Split

/-! ### The initial value -/

/-- A value that no operation with a region defines is bound by an operation of the block itself. -/
theorem exists_leaf_split {ops pre : List Op} {v : ValueId} {l : Leaf} {scope : List ValueId}
    (site : Site ops scope pre) (hdef : findDef ops v = some (.leaf l)) (hv : v ∈ blockResults pre) :
    ∃ before after, pre = before ++ .leaf l :: after := by
  obtain ⟨op, hop, hresult⟩ := List.mem_flatMap.mp hv
  obtain ⟨before, after, rfl⟩ := List.append_of_mem hop
  obtain ⟨_, -, site'⟩ := site.append_right
  cases op with
  | leaf l' =>
    have hdef' := findDef_of_mem site.nodup₀ (site'.head.defs _ (mem_defs_leaf hresult))
    obtain rfl := Def.leaf.inj (Option.some.inj (hdef.symm.trans hdef'))
    exact ⟨before, after, rfl⟩
  | loop h body =>
    have hdef' := findDef_of_mem site.nodup₀ (site'.head.defs _ (mem_defs_result hresult))
    cases hdef.symm.trans hdef'

/-- A tile that is initialized with a zero. -/
theorem evalOp_initOp_zero (hI : I.MatrixUnit)
    (hdef : findDef f.body chain.initVal
      = some (.leaf (.constant chain.initVal (.splat (.floatZero false) 16))))
    {scope : List ValueId} {env : Env Val} (hholds : Holds I f.body env scope)
    (hmem : chain.initVal ∈ scope) (st : State Val Mem) (tile : Nat) (intrinsic : Intrinsic) :
    ∃ va, env chain.initVal = some va ∧
      evalOp I (initOp ⟨tile, 4, 4, intrinsic⟩ (readOp (findDef f.body chain.initVal))) env st
        = some (env, st.setTile tile va) := by
  obtain ⟨vals, m, hvals, hval⟩ := hholds _ hmem _ hdef rfl
  refine ⟨_, hval, ?_⟩
  rw [hdef]
  refine evalOp_leaf.mpr ⟨[], rfl, ?_⟩
  rw [Interp.effect, hI.zero]
  rfl

/-- A tile that is loaded where the initial value was read, and from the same memory. -/
theorem evalOp_initOp_read (hI : I.MatrixUnit) {access : Access}
    (hdef : findDef f.body chain.initVal
      = some (.leaf (.transferRead chain.initVal .minorIdentity access accumulatorType)))
    {before after rest : List Op} (heq : f.body = before ++ .leaf (.transferRead chain.initVal
      .minorIdentity access accumulatorType) :: (after ++ rest)) (hssa : SSA f.arguments f.body)
    (hwrite : ∀ l ∈ leavesOps after, ∀ kind access v, l ≠ .transferWrite chain.writeback kind access v)
    {env env₁ env₂ env₃ env₄ : Env Val} {st st₁ st₂ st₃ st₄ : State Val Mem}
    (hbefore : evalOps I before env st = some (env₃, st₃))
    (hop : evalOp I (.leaf (.transferRead chain.initVal .minorIdentity access accumulatorType))
      env₃ st₃ = some (env₄, st₄))
    (hafter : evalOps I after env₄ st₄ = some (env₁, st₁))
    (hrest : evalOps I rest env₁ st₁ = some (env₂, st₂)) (hund : Undisturbed I f chain env st env₂)
    (tile : Nat) (intrinsic : Intrinsic) :
    ∃ va, env₁ chain.initVal = some va ∧
      evalOp I (initOp ⟨tile, 4, 4, intrinsic⟩ (readOp (findDef f.body chain.initVal))) env₁ st₁
        = some (env₁, st₁.setTile tile va) := by
  obtain ⟨vals, hvals, hfinal⟩ := evalOp_leaf.mp hop
  obtain ⟨henv₄, hst₄⟩ := Prod.mk.inj hfinal
  obtain rfl : st₄ = st₃ := hst₄
  obtain ⟨base, indices, hbase, hindices, rfl⟩ := mapM_cons_eq_some.mp hvals
  -- the operands keep their values
  obtain ⟨scope, -, site⟩ := (hssa.site_of_eq heq).append_right
  have hscoped := site.scopedOp
  rw [ScopedOp] at hscoped
  have hnext := evalOps_cons.mpr ⟨env₄, st₄, hop, hafter⟩
  have hall : evalOps I (.leaf (.transferRead chain.initVal .minorIdentity access accumulatorType)
      :: (after ++ rest)) env₃ st₄ = some (env₂, st₂) :=
    evalOps_cons.mpr ⟨_, _, hop, evalOps_append.mpr ⟨_, _, hafter, hrest⟩⟩
  have hkept₁ : ∀ v ∈ access.base :: access.indices, env₁ v = env₃ v := by
    intro v hv
    apply evalOps_frame hnext
    intro hbound
    apply site.not_bound (hscoped v hv)
    rw [← List.cons_append, blockResults, List.flatMap_append]
    exact List.mem_append_left _ hbound
  have hkept₂ : ∀ v ∈ access.base :: access.indices, env₂ v = env₃ v :=
    fun v hv => evalOps_frame hall (site.not_bound (hscoped v hv))
  -- no operation in between changes what is read
  have hundisturbed := hund access (.inl (by rw [hdef]; rfl)) base indices
    ((hkept₂ _ List.mem_cons_self).trans hbase)
    ((mapM_congr fun v hv => hkept₂ v (List.mem_cons_of_mem _ hv)).trans hindices)
  have hmemory := evalOps_keeps (P := fun s => I.transferRead .minorIdentity accumulatorType base
      indices s.mem = I.transferRead .minorIdentity accumulatorType base indices st₄.mem) after
    (fun l vals s hexec hP => by
      refine (hundisturbed l vals s ?_ (hwrite l hexec.mem)).trans hP
      rw [heq]
      exact ((hexec.append_left rest).after hop).append_right hbefore) hafter rfl
  have hfresh : chain.initVal ∉ blockResults after := by
    intro hbound
    have hnodup := site.nodup
    rw [definedIds_cons, definedIds_leaf, definedIds_append] at hnodup
    exact (List.nodup_append.mp hnodup).2.2 _ (List.mem_singleton_self _) _
      (List.mem_append_left _ (mem_definedIds_of_blockResults hbound)) rfl
  refine ⟨I.transferRead .minorIdentity accumulatorType base indices st₄.mem, ?_, ?_⟩
  · rw [evalOps_frame hafter hfresh, henv₄]
    exact Env.bind_getElem (List.nodup_singleton _) (k := 0) rfl
  · rw [hdef]
    refine evalOp_leaf.mpr ⟨base :: indices, (mapM_congr hkept₁).trans hvals, ?_⟩
    have hload : I.load 4 4 base indices st₁.mem
        = I.transferRead .minorIdentity accumulatorType base indices st₄.mem :=
      (hI.load base indices st₁.mem).trans hmemory
    simp only [Interp.effect, Leaf.results]
    rw [show I.operand (base :: indices) 0 = base from rfl, List.drop_one, List.tail_cons, hload]
    rfl

/-- **The initialized tile holds the initial value**, which is no negative zero. -/
theorem evalOp_initOp_chain (hs : SingleChain f chain vector) (hI : I.MatrixUnit)
    (hpos : findDef f.body chain.initVal
      ≠ some (.leaf (.constant chain.initVal (.splat (.floatZero true) 16))))
    {pre rest : List Op} (heq : f.body = pre ++ rest) (hmem : chain.initVal ∈ blockResults pre)
    (hwrite : ∀ l ∈ leavesOps pre, ∀ kind access v, l ≠ .transferWrite chain.writeback kind access v)
    {env env₁ env₂ : Env Val} {st st₁ st₂ : State Val Mem}
    (hpre : evalOps I pre env st = some (env₁, st₁))
    (hrest : evalOps I rest env₁ st₁ = some (env₂, st₂)) (hund : Undisturbed I f chain env st env₂)
    (tile : Nat) (intrinsic : Intrinsic) :
    ∃ va, env₁ chain.initVal = some va ∧
      evalOp I (initOp ⟨tile, 4, 4, intrinsic⟩ (readOp (findDef f.body chain.initVal))) env₁ st₁
        = some (env₁, st₁.setTile tile va) := by
  have site := (hs.ssa.site_of_eq heq).append_left
  rcases hs.init with ⟨negative, hdef⟩ | ⟨access, hdef, -⟩
  · cases negative with
    | true => exact absurd hdef hpos
    | false =>
      exact evalOp_initOp_zero hI hdef (evalOps_holds site (hs.ssa.holds env) hpre)
        (List.mem_append_left _ hmem) st₁ tile intrinsic
  · obtain ⟨before, after, rfl⟩ := exists_leaf_split site hdef hmem
    obtain ⟨env₃, st₃, hbefore, hread⟩ := evalOps_append.mp hpre
    obtain ⟨env₄, st₄, hop, hafter⟩ := evalOps_cons.mp hread
    rw [List.append_assoc, List.cons_append] at heq
    refine evalOp_initOp_read hI hdef heq hs.ssa (fun l hl => hwrite l ?_) hbefore hop hafter hrest
      hund tile intrinsic
    rw [leavesOps_append, leavesOps_cons]
    exact List.mem_append_right _ (List.mem_append_right _ hl)

/-! ### The loop of a chain -/

/-- A source is the value itself, or the operand of a cast. -/
theorem traceToSourceValue_cases (ops : List Op) (v : ValueId) :
    traceToSourceValue ops v = v ∨ ∃ u r kind srcType type,
      findDef ops u = some (.leaf (.cast r kind (traceToSourceValue ops v) srcType type)) := by
  unfold traceToSourceValue
  cases htrace : iterate (traceStep ops) (traceFuel ops) v with
  | none => exact .inl rfl
  | some source =>
    obtain ⟨w, hw, hexit⟩ := iterate_exit
      (fun w => w = v ∨ ∃ u r kind srcType type,
        findDef ops u = some (.leaf (.cast r kind w srcType type)))
      (fun w w' _ hstep => by
        unfold traceStep at hstep
        split at hstep
        next hdef =>
          obtain rfl := Sum.inl.inj hstep
          exact .inr ⟨w, _, _, _, _, hdef⟩
        next => cases hstep) _ _ _ (.inl rfl) htrace
    unfold traceStep at hexit
    split at hexit
    next => cases hexit
    next =>
      obtain rfl := Sum.inr.inj hexit
      exact hw

/-- Every value of a chain but the last is what the next link adds to. -/
theorem Links.next {ops : List Op} {us : List ValueId} : ∀ {a y v : ValueId}, Links ops a us y →
    v = a ∨ v ∈ us → v = y ∨ ∃ r ∈ us, ∃ c lhs rhs,
      findDef ops r = some (.leaf (.contract r c lhs rhs v)) := by
  induction us with
  | nil =>
    intro a y v h hv
    obtain rfl : a = y := h
    exact .inl (hv.resolve_right List.not_mem_nil)
  | cons r us ih =>
    intro a y v h hv
    obtain ⟨⟨c, lhs, rhs, hdef⟩, h⟩ := h
    rw [List.mem_cons, ← or_assoc] at hv
    have hrest : v = r ∨ v ∈ us → v = y ∨ ∃ r' ∈ r :: us, ∃ c lhs rhs,
        findDef ops r' = some (.leaf (.contract r' c lhs rhs v)) := by
      intro hv
      rcases ih h hv with heq | ⟨r', hr', hdef'⟩
      · exact .inl heq
      · exact .inr ⟨r', List.mem_cons_of_mem _ hr', hdef'⟩
    rcases hv with (rfl | hv) | hv
    · exact .inr ⟨r, List.mem_cons_self, c, lhs, rhs, hdef⟩
    · exact hrest (.inl hv)
    · exact hrest (.inr hv)

/-- The transfer write is rewritten in its place. -/
theorem Split.rewriteWrite_eq {pre mid post : List Op} {op : Op} {access : Access}
    (sp : Split f chain vector pre op mid post access) (hs : SingleChain f chain vector)
    (ctx : TileContext) : rewriteOps (replaceWrite chain.writeback ctx) f.body
      = (pre ++ op :: mid) ++ .leaf (.writeback ctx.tile access ctx.rows ctx.columns) :: post := by
  have hwrites := hs.writeback_not_mem sp.eq_write
  rw [sp.eq_write, rewriteOps_replaceWrite (fun l hl => hwrites l (List.mem_append_left _ hl))
    fun l hl => hwrites l (List.mem_append_right _ hl)]

namespace LoopedChain

variable {pre body post mid post' : List Op} {h : LoopHeader} {init arg yielded : ValueId}
  {us₁ us₂ : List ValueId} {access : Access}

/-- The updates of the loop are the links in its body. -/
theorem update_mem
    (lc : LoopedChain f chain vector pre h body post init arg yielded vector us₁ us₂ [])
    (hssa : SSA f.arguments f.body) {op : Op} (hop : op ∈ body) {p : ValueId × ValueId}
    (hupdate : updateOperands chain op = some p) : ∀ r ∈ opResults op, r ∈ us₂ := by
  obtain ⟨scope, -, site⟩ := lc.site hssa
  obtain ⟨r, c, acc, rfl, hr⟩ := updateOperands_eq_some hupdate
  intro r' hr'
  obtain rfl := List.mem_singleton.mp hr'
  rw [lc.updates, List.append_nil, List.mem_append] at hr
  refine hr.resolve_left fun hbefore => ?_
  -- a link from before the loop is not bound by its body
  have hbound : r' ∈ definedIds body :=
    mem_definedIds_of_blockResults (List.mem_flatMap.mpr ⟨_, hop, List.mem_singleton_self r'⟩)
  exact site.head.body.fresh r' hbound (List.mem_append_right _ ((lc.before_mem site).2 r' hbefore))

/-- What uses an accumulator in the loop is the next link. -/
theorem use_eq
    (lc : LoopedChain f chain vector pre h body post init arg yielded vector us₁ us₂ [])
    (hs : SingleChain f chain vector) {v : ValueId} (hv : v = arg ∨ v ∈ us₂) {l : Leaf}
    (hl : l ∈ leavesOps f.body) (huse : v ∈ l.operands) :
    ∃ r ∈ chain.updates, ∃ c lhs rhs, l = .contract r c lhs rhs v ∧ v ≠ lhs ∧ v ≠ rhs := by
  have hus : ∀ r ∈ us₂, r ∈ chain.updates := by
    intro r hr
    rw [lc.updates, List.append_nil]
    exact List.mem_append_right _ hr
  have honce : (usesOps f.body).count v = 1 := by
    rcases hv with rfl | hv
    · exact lc.argOnce
    · exact hs.links v (hus v hv)
  rw [lc.count_uses] at honce
  have hpos : 0 < (leafUses f.body).count v :=
    List.count_pos_iff.mpr (List.mem_flatMap.mpr ⟨l, hl, huse⟩)
  rcases lc.inside.next hv with heq | ⟨r, hr, c, lhs, rhs, hdef⟩
  · -- the loop yields it, which is one use more
    have : 0 < h.yields.count v := by
      rw [lc.yields, heq]
      simp
    omega
  · have hl' := (mem_leaves_of_findDef hdef).1
    obtain rfl := eq_of_count_leafUses (by omega) hl hl' huse (by simp [Leaf.operands])
    have hcount : (Leaf.operands (.contract r c lhs rhs v)).count v ≤ (leafUses f.body).count v := by
      obtain ⟨xs, ys, hsplit⟩ := List.append_of_mem hl
      rw [leafUses, hsplit, List.flatMap_append, List.flatMap_cons, List.count_append,
        List.count_append]
      omega
    refine ⟨r, hus r hr, c, lhs, rhs, rfl, ?_, ?_⟩
    · rintro rfl
      simp only [Leaf.operands, List.count_cons, beq_self_eq_true, if_true, List.count_nil] at hcount
      omega
    · rintro rfl
      simp only [Leaf.operands, List.count_cons, beq_self_eq_true, if_true, List.count_nil] at hcount
      omega

/-- **The loop can do without its accumulator.** -/
theorem separable
    (lc : LoopedChain f chain vector pre h body post init arg yielded vector us₁ us₂ [])
    (hs : SingleChain f chain vector) (sp : Split f chain vector pre (.loop h body) mid post' access)
    (ctx : TileContext) : Separable f.body chain ctx h body 0 := by
  have hbody : ∀ l, .leaf l ∈ body → l ∈ leavesOps f.body := by
    intro l hl
    rw [lc.eq, leavesOps_append, leavesOps_cons, leavesOp_loop]
    apply List.mem_append_right
    apply List.mem_append_left
    exact mem_leaves_of_mem hl
  have hremoved : ∀ v ∈ removedValues chain h body 0, v = arg ∨ v ∈ us₂ := by
    intro v hv
    rw [removedValues, List.mem_append] at hv
    rcases hv with hv | hv
    · left
      simpa [lc.args] using hv
    · right
      obtain ⟨op, hop, hv⟩ := List.mem_flatMap.mp hv
      obtain ⟨hop, hupdate⟩ := List.mem_filter.mp hop
      obtain ⟨p, hp⟩ := Option.isSome_iff_exists.mp hupdate
      exact lc.update_mem hs.ssa hop hp v hv
  -- a source of an operand is no accumulator
  have hsource : ∀ {r c lhs rhs acc v}, .leaf (.contract r c lhs rhs acc) ∈ body →
      v = lhs ∨ v = rhs → traceToSourceValue f.body v ∉ removedValues chain h body 0 := by
    intro r c lhs rhs acc v hmem hv hgone
    rcases traceToSourceValue_cases f.body v with heq | ⟨u, r', kind, srcType, type, hdef⟩
    · rw [heq] at hgone
      obtain ⟨r', -, c', lhs', rhs', heq', hlhs, hrhs⟩ := lc.use_eq hs (hremoved v hgone)
        (hbody _ hmem) (by rcases hv with rfl | rfl <;> simp [Leaf.operands])
      obtain ⟨-, -, rfl, rfl, -⟩ := Leaf.contract.inj heq'
      exact hv.elim hlhs hrhs
    · obtain ⟨r', -, c', lhs', rhs', heq', -⟩ := lc.use_eq hs (hremoved _ hgone)
        (mem_leaves_of_findDef hdef).1 (by simp [Leaf.operands])
      cases heq'
  refine ⟨accIdx_eq_iff.mp (lc.accIdx_eq chain.initVal), ?_, ?_, ?_, ?_⟩
  · intro i v hi hv
    rw [lc.yields] at hv
    exact absurd (eq_of_getElem?_singleton hv).1 hi
  · intro op hop hupdate v hv hgone
    obtain ⟨l, rfl⟩ := lc.body op hop
    rw [usesOp] at hv
    obtain ⟨r, hr, c, lhs, rhs, rfl, -⟩ := lc.use_eq hs (hremoved v hgone) (hbody l hop) hv
    rw [updateOperands_contract hr] at hupdate
    cases hupdate
  · intro op hop lhs rhs hupdate
    obtain ⟨r, c, acc, rfl, -⟩ := updateOperands_eq_some hupdate
    exact ⟨hsource hop (.inl rfl), hsource hop (.inr rfl)⟩
  · intro v hv hmem
    rw [lc.results] at hv
    obtain rfl := Option.some.inj hv
    have hcount : (usesOps f.body).count vector = 1 := hs.vector_once
    rw [sp.rewriteWrite_eq hs, usesOps_append, usesOps, usesOp, usesOps_append, usesOps] at hmem
    rw [sp.eq, usesOps_append, usesOps, usesOps_append, usesOps, usesOp] at hcount
    simp only [List.count_append, Leaf.operands] at hcount
    rw [List.count_cons_self] at hcount
    have := List.count_pos_iff.mpr hmem
    simp only [List.count_append, Leaf.operands] at this
    omega

/-- **The tile after the new loop.** A relation between the accumulator and the tile that the
    updates of an iteration keep; see `AccumulatorLoop.evalOps_rewriteLoop`. -/
theorem evalOps_loop_tile
    (lc : LoopedChain f chain vector pre h body post init arg yielded vector us₁ us₂ [])
    (hs : SingleChain f chain vector) (sp : Split f chain vector pre (.loop h body) mid post' access)
    {ctx : TileContext} (T : List ValueId → Val → Val → Prop)
    (hback : ∀ va t, T [] va t → T us₂ va t)
    (hstep : ∀ env scope, Closed f.body scope → Holds I f.body env scope →
      ∀ r ∈ us₂, r ∈ scope → ∀ c lhs rhs acc,
      findDef f.body r = some (.leaf (.contract r c lhs rhs acc)) →
      ∀ us va t, env acc = some va → T (r :: us) va t → ∃ x y va',
        env (traceToSourceValue f.body lhs) = some x ∧
        env (traceToSourceValue f.body rhs) = some y ∧
        env r = some va' ∧ T us va' (I.multiply ctx.intrinsic x y t))
    {env env₁ env₂ : Env Val} {st st₁ st₂ : State Val Mem}
    (hargs : ∀ v ∈ f.arguments, (env v).isSome)
    (hpre : evalOps I pre env st = some (env₁, st₁))
    (hloop : evalOp I (.loop h body) env₁ st₁ = some (env₂, st₂)) {read : Option Access}
    {zero : ConstAttr} {va tile : Val} (hinit : env₁ init = some va)
    (hread : evalOp I (initOp ctx read) env₁ st₁ = some (env₁, st₁.setTile ctx.tile tile))
    (hT : T us₂ va tile) :
    ∃ env₂' st₂', evalOps I (rewriteLoop f.body chain ctx (freshOffset (f.body ++ f.body)) read zero
        h body) env₁ st₁ = some (env₂', st₂') ∧ AgreeExcept ctx.tile st₂ st₂' ∧
      (∀ v, v ≠ vector → env₂' v = env₂ v) ∧
      ∃ va', env₂ vector = some va' ∧ T us₂ va' (st₂'.tiles ctx.tile) ∧
        ((∀ lb ub step, 0 < I.tripCount lb ub step) → T [] va' (st₂'.tiles ctx.tile)) := by
  obtain ⟨scope, hscope, site⟩ := lc.site hs.ssa
  have hsite := hs.ssa.site_of_eq lc.eq
  have hmem : ∀ v ∈ scope, v ∈ blockResults pre ++ f.arguments :=
    fun v hv => List.mem_append.mpr ((hscope v).mp hv)
  -- what is in scope has a value that fits its definition
  have henv : ∀ v ∈ scope, (env₁ v).isSome :=
    fun v hv => hsite.append_left.bound hargs hpre v (hmem v hv)
  have hholds : Holds I f.body env₁ scope := by
    have := evalOps_holds hsite.append_left (hs.ssa.holds env) hpre
    exact fun v hv => this v (hmem v hv)
  have hlt : ∀ v, v ∈ usesOps f.body ∨ v ∈ definedIds f.body → v < freshOffset (f.body ++ f.body) := by
    intro v hv
    apply lt_freshOffset_of_mem
    rw [usesOps_append, definedIds_append]
    exact hv.imp (List.mem_append_left _) (List.mem_append_left _)
  have harg : ∀ op lhs rhs acc,
      findDef f.body arg ≠ some (.leaf (.contract arg op lhs rhs acc)) := by
    intro op lhs rhs acc hdef
    have hmem : arg ∈ h.blockArgs := by simp [LoopHeader.blockArgs, lc.args]
    cases hdef.symm.trans (findDef_of_mem site.nodup₀ (site.head.defs _ (mem_defs_blockArg hmem)))
  have hus : ∀ r ∈ us₂, r ∈ chain.updates := by
    intro r hr
    rw [lc.updates, List.append_nil]
    exact List.mem_append_right _ hr
  have hupdates : UpdatesOf f.body chain (h.blockArgs ++ scope) arg us₂ yielded body := {
    links := lc.inside
    nodup := lc.inside.nodup harg
    acc := List.mem_append_left _ (by simp [LoopHeader.blockArgs, lc.args])
    fresh := fun r hr hmem => site.head.body.fresh r
      (mem_definedIds_of_blockResults (lc.inside_mem site r hr)) hmem
    updates := hus
    defined := lc.inside_mem site
    only := fun op hop p => lc.update_mem hs.ssa hop }
  refine AccumulatorLoop.evalOps_rewriteLoop ⟨site.head, lc.inits, lc.args, lc.yields, lc.results,
    lc.body, lc.separable hs sp ctx, ?_, fun v hv => hlt v (.inr hv), ?_, hupdates⟩ hback ?_ henv
    hholds hinit hread hT hloop
  · intro v hv
    rcases (hscope v).mp hv with hv | hv
    · apply hlt v (.inr _)
      rw [lc.eq, definedIds_append]
      exact List.mem_append_left _ (mem_definedIds_of_blockResults hv)
    · exact hlt v (.inl (List.mem_filter.mp hv).1)
  · intro l hl
    rw [hs.source.tiles l hl]
    simp
  · intro env' hholds' r c lhs rhs acc hop hr us va t hva hT
    have hresult : r ∈ blockResults body :=
      List.mem_flatMap.mpr ⟨_, hop, List.mem_singleton_self r⟩
    have hr₂ := lc.update_mem hs.ssa hop (updateOperands_contract hr) r (List.mem_singleton_self r)
    have hdef : findDef f.body r = some (.leaf (.contract r c lhs rhs acc)) :=
      site.head.body.findDef_leaf (mem_leaves_of_mem hop) (List.mem_singleton_self r)
    exact hstep env' _ site.head.body.closed_end hholds' r hr₂ (List.mem_append_left _ hresult) c lhs
      rhs acc hdef us va t hva hT

end LoopedChain

/-! ### The two forms -/

/-- The initial value is no negative zero. -/
def AccumulatorChain.StartsPositive (f : Function) (chain : AccumulatorChain) : Prop :=
  findDef f.body chain.initVal
    ≠ some (.leaf (.constant chain.initVal (.splat (.floatZero true) 16)))

/-- The operands of an update have the elements that the multiply instruction of the chain reads in
    their sources. -/
def AccumulatorChain.Feeds (f : Function) (chain : AccumulatorChain) (r : ValueId) : Prop :=
  ∀ c lhs rhs acc, findDef f.body r = some (.leaf (.contract r c lhs rhs acc)) →
    Casts f.body lhs chain.intrinsic.marks (traceToSourceValue f.body lhs) ∧
      Casts f.body rhs chain.intrinsic.marks (traceToSourceValue f.body rhs)

/-- **A loop that starts from the initial value of the chain** is rewritten as it should be. -/
theorem leavesMemory_loop (hs : SingleChain f chain vector) (hpos : chain.StartsPositive f)
    {h : LoopHeader} {body : List Op} (hfind : findLoop vector f.body = some (h, body))
    (hinit : chain.initVal ∈ h.inits) (hfeeds : ∀ r ∈ chain.updates, chain.Feeds f r) :
    ∃ ops, rewriteChain f f.body chain ⟨0, 4, 4, chain.intrinsic⟩ vector = .ok ops ∧
      LeavesMemory f chain ops := by
  obtain ⟨pre, post, init, arg, yielded, us₁, us₂, lc⟩ := hs.loop_of_findLoop hfind
  have hvector : vector ∈ h.results := by simp [lc.results]
  obtain ⟨mid, post', access, sp⟩ := hs.exists_split lc.eq hvector lc.post
  rw [lc.inits, List.mem_singleton] at hinit
  refine ⟨_, lc.rewriteChain_eq hs hfind sp ⟨0, 4, 4, chain.intrinsic⟩, ?_⟩
  intro Val Mem I hI env env₁ st st₁ hargs hrun hund
  rw [sp.eq] at hrun
  obtain ⟨env₂, st₂, hpre, hrest⟩ := evalOps_append.mp hrun
  obtain ⟨env₃, st₃, hloop, hafter⟩ := evalOps_cons.mp hrest
  -- the tile starts from the initial value
  obtain ⟨scope, hscope, site⟩ := lc.site hs.ssa
  have hmem : chain.initVal ∈ blockResults pre := by
    refine ((hscope _).mp (lc.before_mem site).1).resolve_right fun harg => ?_
    exact hs.ssa.fresh _ hs.init_defined harg
  have hwrites := hs.writeback_not_mem sp.eq_write
  obtain ⟨va, hva, hread⟩ := evalOp_initOp_chain hs hI hpos sp.eq hmem (fun l hl => hwrites l (by
    rw [leavesOps_append]
    exact List.mem_append_left _ (List.mem_append_left _ hl))) hpre hrest hund 0 chain.intrinsic
  obtain ⟨env₃', st₃', hnew, hst₃, henv₃, va', hva', htile, -⟩ := lc.evalOps_loop_tile hs sp
    (fun _ va t => va = t) (fun _ _ h => h) (fun env scope hclosed hholds r hr hmem c lhs rhs acc hdef
      us va t hacc hT => by
        subst hT
        have hr' : r ∈ chain.updates := by
          rw [lc.updates, List.append_nil]
          exact List.mem_append_right _ hr
        obtain ⟨hlhs, hrhs⟩ := hfeeds r hr' c lhs rhs acc hdef
        obtain ⟨x, y, hx, hy, hval⟩ := update_multiply hI hclosed hholds hmem hdef
          (hs.products r hr' c lhs rhs acc hdef) chain.intrinsic_cases hlhs hrhs hacc
        exact ⟨x, y, _, hx, hy, hval, rfl⟩) hargs hpre hloop (hinit ▸ hva) hread rfl
  obtain ⟨env₁', st₁', hend, hmemory⟩ := sp.leavesMemory hs hI hva' htile.symm henv₃ hst₃ hafter
  exact ⟨env₁', st₁', evalOps_append.mpr ⟨env₂, st₂, hpre, evalOps_append.mpr
    ⟨env₃', st₃', hnew, hend⟩⟩, hmemory⟩

/-- A loop that yields what it carries passes its initial value on. -/
theorem evalOp_passes {ops : List Op} {scope : List ValueId} {h : LoopHeader} {body : List Op}
    {init arg result : ValueId} (site : Site ops scope [.loop h body]) (hinits : h.inits = [init])
    (hargs : h.args = [arg]) (hyields : h.yields = [arg]) (hresults : h.results = [result])
    {env env₁ : Env Val} {st st₁ : State Val Mem} {va : Val} (hva : env init = some va)
    (heval : evalOp I (.loop h body) env st = some (env₁, st₁)) : env₁ result = some va := by
  obtain ⟨lb, ub, step, vals, vals₁, st₂, -, -, -, hvals, hloop, heq⟩ := evalOp_loop.mp heval
  obtain ⟨rfl, rfl⟩ := Prod.mk.inj heq
  rw [hinits, List.mapM_cons, hva] at hvals
  obtain rfl : vals = [va] := (Option.some.inj hvals).symm
  obtain rfl : vals₁ = [va] := by
    refine evalLoop_invariant (fun vals _ => vals = [va]) ?_ rfl hloop
    rintro iv _ st' env₂ st₂ vals₂ rfl hbody hvals₂
    rw [hyields, List.mapM_cons, evalOps_arg site hargs hbody] at hvals₂
    exact (Option.some.inj hvals₂).symm
  rw [hresults]
  exact Env.bind_getElem (List.nodup_singleton _) (k := 0) rfl

/-- The only update of a chain that does not end with a loop, and what it adds to. -/
theorem SingleChain.exists_contract (hs : SingleChain f chain vector)
    (hfind : findLoop vector f.body = none) (hupdates : chain.updates = [vector]) :
    ∃ pre c lhs rhs acc rest, f.body = pre ++ .leaf (.contract vector c lhs rhs acc) :: rest ∧
      Straight rest ∧ chain.initVal ∈ blockResults pre ∧
      ∀ {Val Mem : Type} {I : Interp Val Mem} {env env₁ : Env Val} {st st₁ : State Val Mem},
        evalOps I pre env st = some (env₁, st₁) → env₁ acc = env₁ chain.initVal := by
  have hinit : chain.initVal ∉ f.arguments := hs.ssa.fresh _ hs.init_defined
  rcases hs.straight_or_looped with ⟨hstraight, hlinks⟩ | ⟨pre, h, body, post, init, arg, yielded,
    result, us₁, us₂, us₃, lc⟩
  · rw [hupdates] at hlinks
    obtain ⟨⟨c, lhs, rhs, hdef⟩, -⟩ := hlinks
    obtain ⟨pre, rest, heq⟩ := hstraight.exists_split (mem_leaves_of_findDef hdef).1
    obtain ⟨scope, hscope, site⟩ := (hs.ssa.site_of_eq heq).append_right
    have hscoped := site.scopedOp
    rw [ScopedOp] at hscoped
    have hmem := (hscope _).mp (hscoped chain.initVal (by simp [Leaf.operands]))
    exact ⟨pre, c, lhs, rhs, chain.initVal, rest, heq, (heq ▸ hstraight).of_append_right.of_cons,
      hmem.resolve_right hinit, fun _ => rfl⟩
  · -- the update comes after the loop
    have hthree := lc.updates
    rw [hupdates] at hthree
    obtain ⟨scope, hscope, site⟩ := lc.site hs.ssa
    cases us₃ with
    | nil =>
      exfalso
      obtain rfl : result = vector := lc.after
      rw [lc.eq] at hfind
      exact findLoop_ne_none (by simp [lc.results]) hfind
    | cons r us₃ =>
      obtain ⟨rfl, rfl, rfl, rfl⟩ : us₁ = [] ∧ us₂ = [] ∧ us₃ = [] ∧ r = vector := by
        have hlength := congrArg List.length hthree
        simp only [List.length_append, List.length_cons, List.length_nil] at hlength
        have h₁ : us₁ = [] := List.length_eq_zero_iff.mp (by omega)
        have h₂ : us₂ = [] := List.length_eq_zero_iff.mp (by omega)
        have h₃ : us₃ = [] := List.length_eq_zero_iff.mp (by omega)
        subst h₁ h₂ h₃
        exact ⟨rfl, rfl, rfl, (List.cons.inj hthree).1.symm⟩
      obtain rfl : chain.initVal = init := lc.before
      obtain rfl : arg = yielded := lc.inside
      obtain ⟨⟨c, lhs, rhs, hdef⟩, -⟩ := lc.after
      have hmem₀ : result ∈ h.results ++ blockResults post := by simp [lc.results]
      have hleaf := lc.leaf_mem_post hs.ssa hmem₀ (mem_leaves_of_findDef hdef).1
        (by simp [Leaf.operands])
      obtain ⟨mid, rest, rfl⟩ := lc.post.exists_split hleaf
      have hmem := ((hscope _).mp (lc.before_mem site).1).resolve_right hinit
      refine ⟨pre ++ .loop h body :: mid, c, lhs, rhs, result, rest, ?_,
        lc.post.of_append_right.of_cons, ?_, ?_⟩
      · rw [lc.eq, List.append_assoc, List.cons_append]
      · rw [blockResults, List.flatMap_append]
        exact List.mem_append_left _ hmem
      · intro Val Mem I env env₁ st st₁ heval
        obtain ⟨env₂, st₂, -, hrest⟩ := evalOps_append.mp heval
        obtain ⟨env₃, st₃, hloop, hmid⟩ := evalOps_cons.mp hrest
        -- the initial value is not bound again, and neither is the result of the loop
        have hkept : env₁ chain.initVal = env₂ chain.initVal := by
          apply evalOps_frame hrest
          intro hbound
          apply site.not_bound (lc.before_mem site).1
          rw [blockResults_cons, blockResults, List.flatMap_append, ← List.append_assoc]
          exact List.mem_append_left _ hbound
        have hresult : env₁ result = env₃ result := by
          apply evalOps_frame hmid
          intro hbound
          have hnodup := site.nodup
          rw [definedIds_cons, definedIds_append] at hnodup
          refine (List.nodup_append.mp hnodup).2.2 result ?_ result (List.mem_append_left _
            (mem_definedIds_of_blockResults hbound)) rfl
          rw [definedIds_loop, lc.results]
          simp
        obtain ⟨_, _, _, vals, _, _, -, -, -, hvals, -, -⟩ := evalOp_loop.mp hloop
        obtain ⟨va, hva⟩ := Option.isSome_iff_exists.mp
          ((exists_of_mapM_eq_some hvals).2 chain.initVal (by simp [lc.inits]))
        rw [hkept, hresult, hva]
        exact evalOp_passes site.head lc.inits lc.args lc.yields lc.results hva hloop

/-- **What stands in the place of an update**: the tile, and the values that are left. -/
theorem evalOps_rewriteContract {read : Option Access} {z : ConstAttr} {vector lhs rhs acc : ValueId}
    {c : ContractionOp} {intrinsic : Intrinsic} {env env₁ : Env Val} {st st₁ : State Val Mem}
    {tile : Val} (hread : evalOp I (initOp ⟨0, 4, 4, intrinsic⟩ read) env st
      = some (env, st.setTile 0 tile))
    (hop : evalOp I (.leaf (.contract vector c lhs rhs acc)) env st = some (env₁, st₁)) :
    ∃ x y va env₁' st₁', env lhs = some x ∧ env rhs = some y ∧ env acc = some va ∧
      env₁ vector = some (I.contract c x y va) ∧
      evalOps I (rewriteContract ⟨0, 4, 4, intrinsic⟩ read z vector lhs rhs) env st
        = some (env₁', st₁') ∧ st₁'.tiles 0 = I.multiply intrinsic x y tile ∧
      (∀ u, u ≠ vector → env₁' u = env₁ u) ∧ AgreeExcept 0 st₁ st₁' := by
  obtain ⟨vals, hvals, hfinal⟩ := evalOp_leaf.mp hop
  obtain ⟨rfl, rfl⟩ := Prod.mk.inj hfinal
  obtain ⟨x, y, va, hx, hy, hva, rfl⟩ := mapM_contract hvals
  have hoperands : [lhs, rhs].mapM env = some [x, y] := by
    rw [List.mapM_cons, hx, List.mapM_cons, hy]
    rfl
  refine ⟨x, y, va, env.bind [vector] fun _ => some (I.constant z),
    (st₁.setTile 0 tile).setTile 0 (I.multiply intrinsic x y tile), hx, hy, hva,
    Env.bind_getElem (List.nodup_singleton _) (k := 0) rfl, ?_, State.setTile_tiles_self .., ?_,
    ((AgreeExcept.refl 0 st₁).setTile tile).setTile _⟩
  · refine evalOps_cons.mpr ⟨_, _, hread, evalOps_cons.mpr ⟨env, _, evalOp_leaf.mpr
      ⟨[x, y], hoperands, ?_⟩, evalOps_cons.mpr ⟨_, _, evalOp_leaf.mpr ⟨[], rfl, rfl⟩, evalOps_nil⟩⟩⟩
    simp only [Interp.effect, State.setTile_tiles_self]
    rfl
  · intro u hu
    have hnot : u ∉ [vector] := fun hmem => hu (List.mem_singleton.mp hmem)
    exact (Env.bind_of_not_mem hnot).trans (Env.bind_of_not_mem hnot).symm

/-- **A chain of one update** that does not end with a loop is rewritten as it should be, if the
    operands of the update are those of the instruction. -/
theorem leavesMemory_contract (hs : SingleChain f chain vector) (hpos : chain.StartsPositive f)
    (hfind : findLoop vector f.body = none) (hupdates : chain.updates = [vector])
    (hinput : chain.inputElTy = .f32) :
    ∃ ops, rewriteChain f f.body chain ⟨0, 4, 4, chain.intrinsic⟩ vector = .ok ops ∧
      LeavesMemory f chain ops := by
  obtain ⟨pre, c, lhs, rhs, acc, rest, heq, hrest, hmem, hacc⟩ := hs.exists_contract hfind hupdates
  obtain ⟨mid, post, access, sp⟩ := hs.exists_split heq (List.mem_singleton_self vector) hrest
  have hintrinsic : chain.intrinsic = .vtfmm := by
    rw [AccumulatorChain.intrinsic, hinput]
    rfl
  rw [hintrinsic]
  refine ⟨_, rewriteChain_eq_contract hs hfind hupdates sp ⟨0, 4, 4, .vtfmm⟩, ?_⟩
  intro Val Mem I hI env env₁ st st₁ hargs hrun hund
  rw [sp.eq] at hrun
  obtain ⟨env₂, st₂, hpre, hnext⟩ := evalOps_append.mp hrun
  obtain ⟨env₃, st₃, hop, hafter⟩ := evalOps_cons.mp hnext
  have hwrites := hs.writeback_not_mem sp.eq_write
  obtain ⟨va, hva, hread⟩ := evalOp_initOp_chain hs hI hpos sp.eq hmem (fun l hl => hwrites l (by
    rw [leavesOps_append]
    exact List.mem_append_left _ (List.mem_append_left _ hl))) hpre hnext hund 0 .vtfmm
  -- the update
  have hdef : findDef f.body vector = some (.leaf (.contract vector c lhs rhs acc)) := by
    refine hs.ssa.site.findDef_leaf (mem_leaves_of_mem ?_) (List.mem_singleton_self _)
    rw [heq]
    simp
  have hproduct := hs.products vector (by simp [hupdates]) c lhs rhs acc hdef
  obtain ⟨x, y, va', env₃', st₃', -, -, hva', hvector, hnew, htile, henv, hst⟩ :=
    evalOps_rewriteContract (z := zeroAccumulator) hread hop
  rw [hacc hpre, hva] at hva'
  obtain rfl := Option.some.inj hva'
  rw [← hI.multiply c x y va hproduct] at htile
  obtain ⟨env₁', st₁', hend, hmemory⟩ := sp.leavesMemory hs hI hvector htile henv hst hafter
  exact ⟨env₁', st₁', evalOps_append.mpr ⟨env₂, _, hpre, evalOps_append.mpr ⟨_, _, hnew, hend⟩⟩,
    hmemory⟩

end CoralNPU.Matrix
