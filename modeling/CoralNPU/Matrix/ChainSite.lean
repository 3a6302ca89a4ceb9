import CoralNPU.Matrix.SingleChain

namespace CoralNPU.Matrix

open Lib

/-!
# Matrix — where a single chain stands

* `SingleChain.straight_or_looped` — the links of the chain: in a straight block, or before the
  loop, in its body and after it.
* `Split` — the operation that defines the written value, and the transfer write after it.
* `leafUses` — the operands of the operations of a block, and what follows where a value is used
  once.
-/

/-! ### Parts of a block -/

/-- The operations after some of a block. -/
theorem Site.append_right {ops₀ : List Op} {pre ops : List Op} :
    ∀ {scope : List ValueId}, Site ops₀ scope (pre ++ ops) →
      ∃ scope', (∀ v, v ∈ scope' ↔ v ∈ blockResults pre ∨ v ∈ scope) ∧ Site ops₀ scope' ops := by
  induction pre with
  | nil => exact fun {scope} site => ⟨scope, by simp, site⟩
  | cons op pre ih =>
    intro scope site
    obtain ⟨scope', hscope', site'⟩ := ih (Site.tail site)
    refine ⟨scope', fun v => ?_, site'⟩
    rw [hscope', blockResults_cons, List.mem_append, List.mem_append]
    tauto

/-- The first operations of a block. -/
theorem Site.append_left {ops₀ : List Op} {ops pre : List Op} {scope : List ValueId}
    (site : Site ops₀ scope (pre ++ ops)) : Site ops₀ scope pre where
  inScope := by
    have := site.inScope
    clear site
    induction pre generalizing scope with
    | nil => rw [ScopedOps]; trivial
    | cons op pre ih =>
      rw [List.cons_append, ScopedOps] at this
      rw [ScopedOps]
      exact ⟨this.1, ih this.2⟩
  arity := by
    have := site.arity
    clear site
    induction pre with
    | nil => rw [ArityOps]; trivial
    | cons op pre ih =>
      rw [List.cons_append, ArityOps] at this
      rw [ArityOps]
      exact ⟨this.1, ih this.2⟩
  nodup := by
    have := site.nodup
    rw [definedIds_append] at this
    exact (List.nodup_append.mp this).1
  fresh v hv := by
    apply site.fresh
    rw [definedIds_append]
    exact List.mem_append_left _ hv
  nodup₀ := site.nodup₀
  defs p hp := by
    apply site.defs
    clear site
    induction pre with
    | nil =>
      rw [defsOps] at hp
      cases hp
    | cons op pre ih =>
      rw [defsOps_cons, List.mem_append] at hp
      rw [List.cons_append, defsOps_cons, List.mem_append]
      exact hp.imp_right ih
  leaves l hl := by
    apply site.leaves
    rw [leavesOps_append]
    exact List.mem_append_left _ hl
  closed := site.closed

/-- What a block binds is closed with its scope. -/
theorem Site.closed_end {ops₀ ops : List Op} {scope : List ValueId} (site : Site ops₀ scope ops) :
    Closed ops₀ (blockResults ops ++ scope) := by
  have hnil : Site ops₀ scope (ops ++ []) := by rwa [List.append_nil]
  obtain ⟨scope', hscope', site'⟩ := hnil.append_right
  intro v hv d hd u hu
  rw [List.mem_append, ← hscope'] at hv ⊢
  exact site'.closed v hv d hd u hu

/-- A block in SSA form, however it is split. -/
theorem SSA.site_of_eq {arguments : List ValueId} {ops ops' : List Op} (h : SSA arguments ops)
    (heq : ops = ops') : Site ops arguments ops' := by
  rw [← heq]
  exact h.site

/-- The values in scope at a block are not bound by it. -/
theorem Site.not_bound {ops₀ ops : List Op} {scope : List ValueId} (site : Site ops₀ scope ops)
    {v : ValueId} (hv : v ∈ scope) : v ∉ blockResults ops :=
  fun hmem => site.fresh v (mem_definedIds_of_blockResults hmem) hv

/-- The values in scope after a block that was executed. -/
theorem Site.bound {Val Mem : Type} {I : Interp Val Mem} {ops₀ ops : List Op}
    {scope : List ValueId} (site : Site ops₀ scope ops) {env env₁ : Env Val}
    {st st₁ : State Val Mem} (henv : ∀ v ∈ scope, (env v).isSome)
    (h : evalOps I ops env st = some (env₁, st₁)) :
    ∀ v ∈ blockResults ops ++ scope, (env₁ v).isSome := by
  obtain ⟨env₁', st₁', h', hsome⟩ := evalOps_isSome ops site.inScope site.arity henv st
  obtain ⟨rfl, rfl⟩ := Prod.mk.inj (Option.some.inj (h.symm.trans h'))
  exact hsome

/-- A value that is used in a block is in scope or defined in it. -/
theorem Site.mem_of_leaf {ops₀ ops : List Op} {scope : List ValueId} (site : Site ops₀ scope ops)
    {l : Leaf} (hl : l ∈ leavesOps ops) {v : ValueId} (hv : v ∈ l.operands) :
    v ∈ scope ∨ v ∈ definedIds ops :=
  mem_of_scopedOps ops site.inScope v (mem_usesOps_of_leaf hv ops hl)

/-- What uses a value stands after the operation that binds it. -/
theorem Site.leaf_mem_after {ops₀ ops pre post : List Op} {op : Op} {scope : List ValueId}
    (site : Site ops₀ scope ops) (heq : ops = pre ++ op :: post) {v : ValueId}
    (hv : v ∈ opResults op) {l : Leaf} (hl : l ∈ leavesOps ops) (huse : v ∈ l.operands) :
    l ∈ leavesOps post := by
  subst heq
  obtain ⟨scope', hscope', site'⟩ := site.append_right
  have hdefined : v ∈ definedIds (op :: post) := by
    rw [definedIds_cons]
    exact List.mem_append_left _ (mem_definedIds_of_opResults hv)
  have hfresh := site'.fresh v hdefined
  rw [leavesOps_append, leavesOps_cons, List.mem_append, List.mem_append] at hl
  rcases hl with hl | hl | hl
  · -- before it, the value is not in scope
    have hnodup := site.nodup
    rw [definedIds_append] at hnodup
    rcases site.append_left.mem_of_leaf hl huse with hmem | hmem
    · exact absurd ((hscope' v).mpr (.inr hmem)) hfresh
    · exact absurd rfl ((List.nodup_append.mp hnodup).2.2 v hmem v hdefined)
  · cases op with
    | leaf l' =>
      have hscoped := site'.scopedOp
      rw [ScopedOp] at hscoped
      obtain rfl : l = l' := by simpa using hl
      exact absurd (hscoped v huse) hfresh
    | loop header body =>
      rw [leavesOp_loop] at hl
      have hnodup := site'.head.loop_nodup
      rw [← List.append_assoc] at hnodup
      have hnot := (List.nodup_append.mp hnodup).2.2
      rcases site'.head.body.mem_of_leaf hl huse with hmem | hmem
      · rcases List.mem_append.mp hmem with hmem | hmem
        · exact absurd rfl (hnot v (List.mem_append_left _ hmem) v hv)
        · exact absurd hmem hfresh
      · exact absurd rfl (hnot v (List.mem_append_right _ hmem) v hv)
  · exact hl

mutual

/-- An operation that defines a value is there. -/
theorem mem_leaves_of_def_op {v : ValueId} {l : Leaf} :
    ∀ op : Op, (v, .leaf l) ∈ defsOp op → l ∈ leavesOp op ∧ v ∈ l.results
  | .leaf l', hmem => by
    rw [defsOp, List.mem_map] at hmem
    obtain ⟨r, hr, heq⟩ := hmem
    cases heq
    exact ⟨by simp, hr⟩
  | .loop h body, hmem => by
    rw [defsOp, List.mem_append, List.mem_append] at hmem
    rw [leavesOp_loop]
    rcases hmem with hmem | hmem | hmem
    · obtain ⟨_, -, heq⟩ := List.mem_map.mp hmem
      cases (Prod.mk.inj heq).2
    · exact mem_leaves_of_def body hmem
    · obtain ⟨_, -, heq⟩ := List.mem_map.mp hmem
      cases (Prod.mk.inj heq).2

/-- The operation that defines a value is in the block, and has it as a result. -/
theorem mem_leaves_of_def {v : ValueId} {l : Leaf} :
    ∀ ops : List Op, (v, .leaf l) ∈ defsOps ops → l ∈ leavesOps ops ∧ v ∈ l.results
  | [], hmem => by
    rw [defsOps] at hmem
    cases hmem
  | op :: ops, hmem => by
    rw [defsOps_cons, List.mem_append] at hmem
    rw [leavesOps_cons, List.mem_append]
    rcases hmem with hmem | hmem
    · exact (mem_leaves_of_def_op op hmem).imp_left .inl
    · exact (mem_leaves_of_def ops hmem).imp_left .inr

end

mutual

/-- An operation that is there defines its results. -/
theorem def_of_mem_leaves_op {v : ValueId} {l : Leaf} (hv : v ∈ l.results) :
    ∀ op : Op, l ∈ leavesOp op → (v, .leaf l) ∈ defsOp op
  | .leaf l', hl => by
    obtain rfl : l = l' := by simpa using hl
    rw [defsOp]
    exact List.mem_map_of_mem hv
  | .loop h body, hl => by
    rw [leavesOp_loop] at hl
    rw [defsOp]
    exact List.mem_append_right _ (List.mem_append_left _ (def_of_mem_leaves hv body hl))

/-- An operation of the block defines its results. -/
theorem def_of_mem_leaves {v : ValueId} {l : Leaf} (hv : v ∈ l.results) :
    ∀ ops : List Op, l ∈ leavesOps ops → (v, .leaf l) ∈ defsOps ops
  | [], hl => by
    rw [leavesOps_nil] at hl
    cases hl
  | op :: ops, hl => by
    rw [leavesOps_cons, List.mem_append] at hl
    rw [defsOps_cons, List.mem_append]
    exact hl.imp (def_of_mem_leaves_op hv op) (def_of_mem_leaves hv ops)

end

/-- So its results are defined in the block. -/
theorem mem_definedIds_of_leaf {ops : List Op} {l : Leaf} {v : ValueId} (hl : l ∈ leavesOps ops)
    (hv : v ∈ l.results) : v ∈ definedIds ops :=
  List.mem_map_of_mem (def_of_mem_leaves hv ops hl)

/-- An operation of the block is one of its operations at any depth. -/
theorem mem_leaves_of_mem {ops : List Op} {l : Leaf} (h : .leaf l ∈ ops) : l ∈ leavesOps ops := by
  obtain ⟨xs, ys, rfl⟩ := List.append_of_mem h
  rw [leavesOps_append, leavesOps_cons, leavesOp_leaf]
  simp

/-- An operation of a block in SSA form is the definition of its results. -/
theorem Site.findDef_leaf {ops₀ ops : List Op} {scope : List ValueId} (site : Site ops₀ scope ops)
    {l : Leaf} (hl : l ∈ leavesOps ops) {v : ValueId} (hv : v ∈ l.results) :
    findDef ops₀ v = some (.leaf l) :=
  findDef_of_mem site.nodup₀ (site.defs _ (def_of_mem_leaves hv ops hl))

/-- So is one that is found by its result. -/
theorem mem_leaves_of_findDef {ops : List Op} {v : ValueId} {l : Leaf}
    (h : findDef ops v = some (.leaf l)) : l ∈ leavesOps ops ∧ v ∈ l.results :=
  mem_leaves_of_def ops (mem_of_lookup h)

namespace Straight

variable {ops : List Op}

/-- The first part of a block without loops. -/
theorem of_append_left {ops' : List Op} (h : Straight (ops ++ ops')) : Straight ops :=
  fun op hop => h op (List.mem_append_left _ hop)

/-- Its second part. -/
theorem of_append_right {ops' : List Op} (h : Straight (ops ++ ops')) : Straight ops' :=
  fun op hop => h op (List.mem_append_right _ hop)

/-- What follows its first operation. -/
theorem of_cons {op : Op} (h : Straight (op :: ops)) : Straight ops :=
  fun op' hop' => h op' (List.mem_cons_of_mem _ hop')

/-- Where an operation stands in a block without loops. -/
theorem exists_split (hops : Straight ops) {l : Leaf} (hl : l ∈ leavesOps ops) :
    ∃ pre post, ops = pre ++ .leaf l :: post := by
  induction ops with
  | nil =>
    rw [leavesOps_nil] at hl
    cases hl
  | cons op ops ih =>
    obtain ⟨l', rfl⟩ := hops op List.mem_cons_self
    rw [leavesOps_cons, leavesOp_leaf, List.singleton_append, List.mem_cons] at hl
    rcases hl with rfl | hl
    · exact ⟨[], ops, rfl⟩
    · obtain ⟨pre, post, rfl⟩ := ih hops.of_cons hl
      exact ⟨.leaf l' :: pre, post, rfl⟩

/-- The results of the operations of a block without loops. -/
theorem mem_blockResults (hops : Straight ops) {l : Leaf} (hl : l ∈ leavesOps ops) {v : ValueId}
    (hv : v ∈ l.results) : v ∈ blockResults ops := by
  obtain ⟨pre, post, rfl⟩ := hops.exists_split hl
  rw [blockResults, List.mem_flatMap]
  exact ⟨.leaf l, by simp, hv⟩

end Straight

/-! ### Uses -/

/-- The operands of the operations of a block, without those of the loops themselves. -/
def leafUses (ops : List Op) : List ValueId := (leavesOps ops).flatMap Leaf.operands

/-- The operands in two blocks, one after the other. -/
theorem leafUses_append (ops ops' : List Op) :
    leafUses (ops ++ ops') = leafUses ops ++ leafUses ops' := by
  rw [leafUses, leavesOps_append, List.flatMap_append]
  rfl

/-- Without loops, the values in use are the operands. -/
theorem Straight.usesOps_eq {ops : List Op} (hops : Straight ops) : usesOps ops = leafUses ops := by
  induction ops with
  | nil => rw [usesOps]; rfl
  | cons op ops ih =>
    obtain ⟨l, rfl⟩ := hops op List.mem_cons_self
    rw [usesOps, usesOp, ih hops.of_cons, leafUses, leafUses, leavesOps_cons, leavesOp_leaf,
      List.flatMap_append, List.flatMap_singleton]

/-- The uses of a function with one loop. -/
theorem Looped.count_uses {ops pre body post : List Op} {h : LoopHeader}
    {init arg yielded result : ValueId} (hl : Looped ops pre h body post init arg yielded result)
    (v : ValueId) : (usesOps ops).count v
      = (leafUses ops).count v + h.operands.count v + h.yields.count v := by
  have huses : leafUses ops = leafUses pre ++ (leafUses body ++ leafUses post) := by
    rw [hl.eq, leafUses_append]
    congr 1
    rw [leafUses, leavesOps_cons, leavesOp_loop, List.flatMap_append]
    rfl
  rw [huses, hl.eq, usesOps_append, usesOps, usesOp, hl.pre.usesOps_eq, hl.body.usesOps_eq,
    hl.post.usesOps_eq]
  simp only [List.count_append]
  omega

/-- Different operations that use a value use it twice. -/
theorem eq_of_count_leafUses {ops : List Op} {v : ValueId} (h : (leafUses ops).count v ≤ 1)
    {l l' : Leaf} (hl : l ∈ leavesOps ops) (hl' : l' ∈ leavesOps ops) (hv : v ∈ l.operands)
    (hv' : v ∈ l'.operands) : l = l' := by
  by_contra hne
  obtain ⟨xs, ys, hsplit⟩ := List.append_of_mem hl
  rw [hsplit, List.mem_append, List.mem_cons] at hl'
  have hcount := List.count_pos_iff.mpr hv
  rw [leafUses, hsplit, List.flatMap_append, List.flatMap_cons, List.count_append,
    List.count_append] at h
  rcases hl' with hl' | rfl | hl'
  · have := List.count_pos_iff.mpr (List.mem_flatMap.mpr ⟨l', hl', hv'⟩)
    omega
  · exact hne rfl
  · have := List.count_pos_iff.mpr (List.mem_flatMap.mpr ⟨l', hl', hv'⟩)
    omega

/-! ### The links of a chain -/

/-- Links that end in a closed scope are in it. -/
theorem Links.mem_of_closed {ops : List Op} {scope : List ValueId} (hclosed : Closed ops scope)
    {us : List ValueId} : ∀ {a y : ValueId}, Links ops a us y → y ∈ scope →
      a ∈ scope ∧ ∀ r ∈ us, r ∈ scope := by
  induction us with
  | nil =>
    intro a y h hy
    obtain rfl : a = y := h
    exact ⟨hy, fun _ hr => absurd hr List.not_mem_nil⟩
  | cons r us ih =>
    intro a y h hy
    obtain ⟨⟨op, lhs, rhs, hdef⟩, h⟩ := h
    obtain ⟨hr, hus⟩ := ih h hy
    refine ⟨hclosed r hr _ hdef a (by simp [Def.operands, Leaf.operands]), fun u hu => ?_⟩
    rcases List.mem_cons.mp hu with rfl | hu
    · exact hr
    · exact hus u hu

/-- The first links up to one of them. -/
theorem Links.upTo {ops : List Op} {us : List ValueId} {a y r : ValueId} (h : Links ops a us y)
    (hr : r ∈ us) : ∃ us', Links ops a us' r := by
  obtain ⟨before, after, rfl⟩ := List.append_of_mem hr
  obtain ⟨m, hbefore, hdef, -⟩ := Links.append.mp h
  exact ⟨before ++ [r], Links.append.mpr ⟨m, hbefore, hdef, rfl⟩⟩

/-- A chain in a function with a loop: the links `us₁` before it, `us₂` in its body and `us₃` after
    it. -/
structure LoopedChain (f : Function) (chain : AccumulatorChain) (vector : ValueId) (pre : List Op)
    (h : LoopHeader) (body post : List Op) (init arg yielded result : ValueId)
    (us₁ us₂ us₃ : List ValueId) : Prop extends
    Looped f.body pre h body post init arg yielded result where
  argOnce : f.UsesOnce arg
  resultOnce : f.UsesOnce result
  before : Links f.body chain.initVal us₁ init
  inside : Links f.body arg us₂ yielded
  after : Links f.body result us₃ vector
  updates : chain.updates = us₁ ++ us₂ ++ us₃

/-- The definition of the result of the loop. -/
theorem Looped.findDef_result {arguments : List ValueId} {ops pre body post : List Op}
    {h : LoopHeader} {init arg yielded result : ValueId}
    (hl : Looped ops pre h body post init arg yielded result) (hssa : SSA arguments ops) :
    findDef ops result = some (.loopResult h 0) := by
  obtain ⟨inner, hat⟩ := hl.loopAt arguments
  have site := hat.site hssa.site
  have hmem : result ∈ h.results := by simp [hl.results]
  have := findDef_of_mem site.nodup₀ (site.defs _ (mem_defs_result hmem))
  rwa [hl.results, List.idxOf_cons_self] at this

/-- **The links of the chain.** -/
theorem SingleChain.straight_or_looped {f : Function} {chain : AccumulatorChain} {vector : ValueId}
    (hs : SingleChain f chain vector) :
    (Straight f.body ∧ Links f.body chain.initVal chain.updates vector) ∨
      ∃ pre h body post init arg yielded result us₁ us₂ us₃,
        LoopedChain f chain vector pre h body post init arg yielded result us₁ us₂ us₃ := by
  rcases hs.shape with hstraight | ⟨pre, h, body, post, init, arg, yielded, result, hl, hacc, harg,
    hresult⟩
  · exact .inl ⟨hstraight, (hs.trail.links hstraight).2⟩
  · obtain ⟨inner, hat⟩ := hl.loopAt f.arguments
    have site := hat.site hs.ssa.site
    have hdef := hl.findDef_result hs.ssa
    have hat' := hs.trail.links_looped hl site
    generalize hus : chain.updates = us at hat'
    cases hat' with
    | after hafter =>
      -- the trail does not meet the loop
      exfalso
      have hne : chain.initVal ≠ result := by
        intro heq
        rcases hs.init with ⟨negative, hdef'⟩ | ⟨access, hdef', -⟩
        · cases (heq ▸ hdef').symm.trans hdef
        · cases (heq ▸ hdef').symm.trans hdef
      rcases hacc with rfl | ⟨r, hr, c, lhs, rhs, hdef'⟩
      · obtain ⟨-, heq⟩ := hafter.eq_nil fun op lhs rhs acc hdef' => by cases hdef.symm.trans hdef'
        exact hne heq
      · obtain ⟨c', lhs', rhs', acc, hdef₁, hmem⟩ := hafter.mem r (hus ▸ hr)
        cases hdef'.symm.trans hdef₁
        rcases hmem with rfl | hmem
        · exact hne rfl
        · obtain ⟨_, _, _, _, hdef₂, -⟩ := hafter.mem _ hmem
          cases hdef.symm.trans hdef₂
    | before _ hbefore hinside hafter =>
      exact .inr ⟨pre, h, body, post, init, arg, yielded, result, _, _, _,
        { hl with argOnce := harg, resultOnce := hresult, before := hbefore, inside := hinside
                  after := hafter, updates := hus }⟩

namespace LoopedChain

variable {f : Function} {chain : AccumulatorChain} {vector : ValueId} {pre : List Op}
  {h : LoopHeader} {body post : List Op} {init arg yielded result : ValueId}
  {us₁ us₂ us₃ : List ValueId}

/-- The loop and what stands after it. -/
theorem site (lc : LoopedChain f chain vector pre h body post init arg yielded result us₁ us₂ us₃)
    (hssa : SSA f.arguments f.body) :
    ∃ scope, (∀ v, v ∈ scope ↔ v ∈ blockResults pre ∨ v ∈ f.arguments) ∧
      Site f.body scope (.loop h body :: post) :=
  (hssa.site_of_eq lc.eq).append_right

/-- The links before the loop are in scope at the loop. -/
theorem before_mem
    (lc : LoopedChain f chain vector pre h body post init arg yielded result us₁ us₂ us₃)
    {scope : List ValueId} (site : Site f.body scope (.loop h body :: post)) :
    chain.initVal ∈ scope ∧ ∀ r ∈ us₁, r ∈ scope := by
  have hscoped := site.scopedOp
  rw [ScopedOp] at hscoped
  apply lc.before.mem_of_closed site.closed
  exact hscoped.1 init (by simp [LoopHeader.operands, lc.inits])

/-- The links in the loop are bound by its body. -/
theorem inside_mem
    (lc : LoopedChain f chain vector pre h body post init arg yielded result us₁ us₂ us₃)
    {scope : List ValueId} (site : Site f.body scope (.loop h body :: post)) :
    ∀ r ∈ us₂, r ∈ blockResults body := by
  have hscoped := site.scopedOp
  rw [ScopedOp] at hscoped
  have hmem := lc.inside.mem_of_closed site.head.body.closed_end
    (hscoped.2.2 yielded (by simp [lc.yields]))
  intro r hr
  obtain ⟨c, lhs, rhs, acc, hdef, -⟩ := lc.inside.mem r hr
  rcases List.mem_append.mp (hmem.2 r hr) with hmem | hmem
  · exact hmem
  exfalso
  rcases List.mem_append.mp hmem with hmem | hmem
  · have hdef' := findDef_of_mem site.nodup₀ (site.head.defs _ (mem_defs_blockArg hmem))
    cases hdef.symm.trans hdef'
  · -- a link from outside would have the block argument in scope there
    obtain ⟨us', hlinks⟩ := lc.inside.upTo hr
    have harg := (hlinks.mem_of_closed site.closed hmem).1
    apply site.head.fresh arg _ harg
    rw [definedIds_loop]
    exact List.mem_append_left _ (by simp [LoopHeader.blockArgs, lc.args])

/-- What uses a value from the loop on stands after the loop. -/
theorem leaf_mem_post
    (lc : LoopedChain f chain vector pre h body post init arg yielded result us₁ us₂ us₃)
    (hssa : SSA f.arguments f.body) {v : ValueId} (hv : v ∈ h.results ++ blockResults post)
    {l : Leaf} (hl : l ∈ leavesOps f.body) (huse : v ∈ l.operands) : l ∈ leavesOps post := by
  have site := hssa.site
  rcases List.mem_append.mp hv with hv | hv
  · exact site.leaf_mem_after lc.eq hv hl huse
  · obtain ⟨op, hop, hv⟩ := List.mem_flatMap.mp hv
    obtain ⟨post₁, post₂, hpost⟩ := List.append_of_mem hop
    have heq : f.body = (pre ++ .loop h body :: post₁) ++ op :: post₂ := by
      rw [lc.eq, hpost, List.append_assoc, List.cons_append]
    have hmem := site.leaf_mem_after heq hv hl huse
    rw [hpost, leavesOps_append, leavesOps_cons]
    exact List.mem_append_right _ (List.mem_append_right _ hmem)

/-- The links after the loop. -/
theorem after_mem
    (lc : LoopedChain f chain vector pre h body post init arg yielded result us₁ us₂ us₃)
    (hssa : SSA f.arguments f.body) :
    (∀ r ∈ us₃, r ∈ blockResults post) ∧ vector ∈ h.results ++ blockResults post := by
  have hlinks : ∀ (us : List ValueId) (a : ValueId), a ∈ h.results ++ blockResults post →
      Links f.body a us vector →
      (∀ r ∈ us, r ∈ blockResults post) ∧ vector ∈ h.results ++ blockResults post := by
    intro us
    induction us with
    | nil =>
      intro a ha h
      obtain rfl : a = vector := h
      exact ⟨fun _ hr => absurd hr List.not_mem_nil, ha⟩
    | cons r us ih =>
      intro a ha h
      obtain ⟨⟨op, lhs, rhs, hdef⟩, h⟩ := h
      obtain ⟨hl, hr⟩ := mem_leaves_of_findDef hdef
      have hr := lc.post.mem_blockResults
        (lc.leaf_mem_post hssa ha hl (by simp [Leaf.operands])) hr
      obtain ⟨hus, hvector⟩ := ih r (List.mem_append_right _ hr) h
      refine ⟨fun u hu => ?_, hvector⟩
      rcases List.mem_cons.mp hu with rfl | hu
      · exact hr
      · exact hus u hu
  exact hlinks us₃ result (List.mem_append_left _ (by simp [lc.results])) lc.after

end LoopedChain

/-! ### The operation that defines the written value -/

/-- Links that are not empty end in the last one. -/
theorem Links.mem_end {ops : List Op} {a y : ValueId} {us : List ValueId} (h : Links ops a us y) :
    a = y ∨ y ∈ us := by
  rcases List.eq_nil_or_concat us with rfl | ⟨us, r, rfl⟩
  · exact .inl h
  · rw [List.concat_eq_append] at h ⊢
    obtain ⟨rfl, -⟩ := h.concat
    exact .inr (List.mem_append_right _ (List.mem_singleton_self y))

/-- The function up to the operation that defines the written value, and on to the transfer
    write. -/
structure Split (f : Function) (chain : AccumulatorChain) (vector : ValueId) (pre : List Op) (op : Op)
    (mid post : List Op) (access : Access) : Prop where
  eq : f.body = pre ++ op ::
    (mid ++ .leaf (.transferWrite chain.writeback .minorIdentity access vector) :: post)
  result : vector ∈ opResults op
  mid : Straight mid
  post : Straight post
  rank : 2 ≤ access.indices.length

namespace SingleChain

variable {f : Function} {chain : AccumulatorChain} {vector : ValueId}

/-- The written value is used by the transfer write only. -/
theorem vector_once (hs : SingleChain f chain vector) : f.UsesOnce vector := by
  rcases hs.straight_or_looped with ⟨-, hlinks⟩ | ⟨pre, h, body, post, init, arg, yielded, result,
    us₁, us₂, us₃, lc⟩
  · rcases hlinks.mem_end with heq | hmem
    · -- an update comes before it
      obtain ⟨r, us, -, -, -, -, hupdates, -⟩ := firstUpdate_of_analyzeChain hs.analyze
      obtain ⟨hnil, -⟩ := hlinks.eq_nil fun op lhs rhs acc => heq ▸ hs.init_ne_contract op lhs rhs acc
      rw [hupdates] at hnil
      cases hnil
    · exact hs.links vector hmem
  · rcases lc.after.mem_end with rfl | hmem
    · exact lc.resultOnce
    · exact hs.links vector (lc.updates ▸ List.mem_append_right _ hmem)

/-- Where the transfer write stands, after the operation that defines the written value. -/
theorem exists_split (hs : SingleChain f chain vector) {pre rest : List Op} {op : Op}
    (heq : f.body = pre ++ op :: rest) (hresult : vector ∈ opResults op) (hrest : Straight rest) :
    ∃ mid post access, Split f chain vector pre op mid post access := by
  obtain ⟨access, hwrite, hrank⟩ := hs.write
  obtain ⟨mid, post, rfl⟩ := hrest.exists_split
    (hs.ssa.site.leaf_mem_after heq hresult hwrite List.mem_cons_self)
  exact ⟨mid, post, access, heq, hresult, hrest.of_append_left, hrest.of_append_right.of_cons, hrank⟩

/-- There is no other operation with the name of the transfer write. -/
theorem writeback_not_mem (hs : SingleChain f chain vector) {pre post : List Op} {access : Access}
    (heq : f.body = pre ++
      .leaf (.transferWrite chain.writeback .minorIdentity access vector) :: post) :
    ∀ l ∈ leavesOps pre ++ leavesOps post,
      ∀ kind access v, l ≠ .transferWrite chain.writeback kind access v := by
  have hnodup := hs.source.writes
  have hbody : f.body = pre ++
      ([.leaf (.transferWrite chain.writeback .minorIdentity access vector)] ++ post) := heq
  rw [hbody, transferWrites_append pre, transferWrites_append [_], List.map_append,
    List.map_append] at hnodup
  have hsingle : (transferWrites [.leaf (.transferWrite chain.writeback .minorIdentity access
      vector)]).map Prod.fst = [chain.writeback] := rfl
  rw [hsingle] at hnodup
  obtain ⟨-, hright, hdisjoint⟩ := List.nodup_append.mp hnodup
  rintro l hl kind access' v rfl
  have hmem : ∀ {ops : List Op}, .transferWrite chain.writeback kind access' v ∈ leavesOps ops →
      chain.writeback ∈ (transferWrites ops).map Prod.fst :=
    fun hl => List.mem_map_of_mem (Matrix.mem_transferWrites (w := (_, v)) |>.mpr ⟨kind, access', hl⟩)
  rcases List.mem_append.mp hl with hl | hl
  · exact hdisjoint _ (hmem hl) _ (List.mem_append_left _ (List.mem_singleton_self _)) rfl
  · exact (List.nodup_append.mp hright).2.2 _ (List.mem_singleton_self _) _ (hmem hl) rfl

end SingleChain

namespace Split

variable {f : Function} {chain : AccumulatorChain} {vector : ValueId} {pre : List Op} {op : Op}
  {mid post : List Op} {access : Access}

/-- The function up to the transfer write, and on. -/
theorem eq_write (sp : Split f chain vector pre op mid post access) :
    f.body = (pre ++ op :: mid) ++
      .leaf (.transferWrite chain.writeback .minorIdentity access vector) :: post := by
  rw [sp.eq, List.append_assoc, List.cons_append]

end Split

end CoralNPU.Matrix
