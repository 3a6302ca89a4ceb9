import CoralNPU.Matrix.Scope

namespace CoralNPU.Matrix

open Lib

/-!
# Matrix — where a loop and its chain stand

* `SSA` — one definition a value, and every operand in scope.
* `Closed` — a scope has the operands of the definitions of its values.
* `LoopAt` — the loops of a block, with the values in scope there; `Site` — what holds of a part of
  a block in SSA form, and with `LoopAt.site` of its loops.
* `Trail` — the values that the analysis of a chain goes through; `trail_of_analyzeChain` — the
  analysis ends at the end of a trail, and `Trail.initVal_mem` — outside of the loop that the
  written value comes from.
-/

/-! ### SSA form -/

/-- The arguments of a function that it uses. -/
def Function.arguments (f : Function) : List ValueId :=
  (usesOps f.body).filter fun v => v ∉ definedIds f.body

/-- **SSA form.** -/
structure SSA (arguments : List ValueId) (ops : List Op) : Prop where
  inScope : ScopedOps arguments ops
  arity : ArityOps ops
  nodup : (definedIds ops).Nodup
  fresh : ∀ v ∈ definedIds ops, v ∉ arguments

/-- A value that is defined once has that definition. -/
theorem findDef_of_mem {ops : List Op} (hnodup : (definedIds ops).Nodup) {v : ValueId} {d : Def}
    (h : (v, d) ∈ defsOps ops) : findDef ops v = some d :=
  lookup_of_mem hnodup h

/-- The definitions of a block, by its first operation. -/
theorem defsOps_cons (op : Op) (ops : List Op) :
    defsOps (op :: ops) = defsOp op ++ defsOps ops := by rw [defsOps]

/-- A block of one operation. -/
theorem defsOps_singleton (op : Op) : defsOps [op] = defsOp op := by
  rw [defsOps_cons, defsOps, List.append_nil]

/-- The result of an operation is defined by it. -/
theorem mem_defs_leaf {l : Leaf} {v : ValueId} (hv : v ∈ l.results) :
    (v, .leaf l) ∈ defsOps [.leaf l] := by
  rw [defsOps_singleton, defsOp]
  exact List.mem_map_of_mem hv

/-- The result of a loop is defined by the loop, at its position. -/
theorem mem_defs_result {h : LoopHeader} {body : List Op} {v : ValueId} (hv : v ∈ h.results) :
    (v, .loopResult h (h.results.idxOf v)) ∈ defsOps [.loop h body] := by
  rw [defsOps_singleton, defsOp]
  apply List.mem_append_right
  apply List.mem_append_right
  rw [List.mem_map]
  refine ⟨(v, h.results.idxOf v), ?_, rfl⟩
  rw [List.mem_zipIdx_iff_getElem?]
  exact List.getElem?_idxOf hv

/-- So is an argument of its body. -/
theorem mem_defs_blockArg {h : LoopHeader} {body : List Op} {v : ValueId} (hv : v ∈ h.blockArgs) :
    (v, .blockArg h (h.blockArgs.idxOf v)) ∈ defsOps [.loop h body] := by
  rw [defsOps_singleton, defsOp]
  apply List.mem_append_left
  rw [List.mem_map]
  refine ⟨(v, h.blockArgs.idxOf v), ?_, rfl⟩
  rw [List.mem_zipIdx_iff_getElem?]
  exact List.getElem?_idxOf hv

/-! ### Scopes that are closed -/

/-- The operands of the operation that defines a value, or that has it as a block argument. -/
def Def.operands : Def → List ValueId
  | .leaf op => op.operands
  | .loopResult h _ | .blockArg h _ => h.operands

/-- The scope has the operands of the definitions of its values. -/
def Closed (ops : List Op) (scope : List ValueId) : Prop :=
  ∀ v ∈ scope, ∀ d, findDef ops v = some d → ∀ u ∈ d.operands, u ∈ scope

/-- A block in SSA form has no values from outside but its arguments. -/
theorem SSA.closed {arguments : List ValueId} {ops : List Op} (h : SSA arguments ops) :
    Closed ops arguments :=
  fun v hv _ hd => absurd hv (h.fresh v (List.mem_map_of_mem (mem_of_lookup hd)))

/-- A scope with the values of one more definition. -/
theorem Closed.append {ops : List Op} {scope new : List ValueId} (d₀ : ValueId → Def)
    (h : Closed ops scope) (hdef : ∀ v ∈ new, findDef ops v = some (d₀ v))
    (hnew : ∀ v ∈ new, ∀ u ∈ (d₀ v).operands, u ∈ scope) : Closed ops (new ++ scope) := by
  intro v hv d hd u hu
  rw [List.mem_append]
  apply Or.inr
  rcases List.mem_append.mp hv with hv | hv
  · obtain rfl := Option.some.inj ((hdef v hv).symm.trans hd)
    exact hnew v hv u hu
  · exact h v hv d hd u hu

/-- What a block binds is closed with its scope. -/
theorem Closed.opResults {ops : List Op} (hnodup : (definedIds ops).Nodup) {scope : List ValueId}
    (h : Closed ops scope) {op : Op} (hscoped : ScopedOp scope op)
    (hdefs : ∀ p ∈ defsOps [op], p ∈ defsOps ops) : Closed ops (opResults op ++ scope) := by
  cases op with
  | leaf op =>
    rw [ScopedOp] at hscoped
    apply h.append fun _ => .leaf op
    · exact fun v hv => findDef_of_mem hnodup (hdefs _ (mem_defs_leaf hv))
    · exact fun _ _ => hscoped
  | loop header body =>
    rw [ScopedOp] at hscoped
    apply h.append fun v => .loopResult header (header.results.idxOf v)
    · exact fun v hv => findDef_of_mem hnodup (hdefs _ (mem_defs_result hv))
    · exact fun _ _ => hscoped.1

/-- The block arguments of a loop are closed with its scope. -/
theorem Closed.blockArgs {ops : List Op} (hnodup : (definedIds ops).Nodup) {scope : List ValueId}
    (h : Closed ops scope) {header : LoopHeader} {body : List Op}
    (hoperands : ∀ v ∈ header.operands, v ∈ scope)
    (hdefs : ∀ p ∈ defsOps [.loop header body], p ∈ defsOps ops) :
    Closed ops (header.blockArgs ++ scope) := by
  apply h.append fun v => .blockArg header (header.blockArgs.idxOf v)
  · exact fun v hv => findDef_of_mem hnodup (hdefs _ (mem_defs_blockArg hv))
  · exact fun _ _ => hoperands

/-! ### The loops of a block -/

/-- The loop with header `h` and body `body` stands in a block, with the values of `inner` in scope
    if those of the first scope are in scope at the block. -/
inductive LoopAt : List ValueId → List Op → List ValueId → LoopHeader → List Op → Prop
  | here {scope : List ValueId} {h : LoopHeader} {body ops : List Op} :
      LoopAt scope (.loop h body :: ops) scope h body
  | inside {scope inner : List ValueId} {header h : LoopHeader} {body₁ body ops : List Op}
      (hat : LoopAt (header.blockArgs ++ scope) body₁ inner h body) :
      LoopAt scope (.loop header body₁ :: ops) inner h body
  | after {scope inner : List ValueId} {op : Op} {h : LoopHeader} {body ops : List Op}
      (hat : LoopAt (opResults op ++ scope) ops inner h body) :
      LoopAt scope (op :: ops) inner h body

/-- What is in scope at a loop is in scope at the block or defined in it. -/
theorem LoopAt.mem_scope {scope inner : List ValueId} {ops body : List Op} {h : LoopHeader}
    (hat : LoopAt scope ops inner h body) : ∀ v ∈ inner, v ∈ scope ∨ v ∈ definedIds ops := by
  induction hat with
  | here => exact fun v hv => .inl hv
  | inside _ ih =>
    intro v hv
    rw [definedIds_cons, definedIds_loop]
    simp only [List.mem_append] at ih ⊢
    have := ih v hv
    tauto
  | after _ ih =>
    intro v hv
    rw [definedIds_cons]
    rcases ih v hv with hv | hv
    · rcases List.mem_append.mp hv with hv | hv
      · exact .inr (List.mem_append_left _ (mem_definedIds_of_opResults hv))
      · exact .inl hv
    · exact .inr (List.mem_append_right _ hv)

/-- The results of a loop are defined in the block. -/
theorem LoopAt.mem_results {scope inner : List ValueId} {ops body : List Op} {h : LoopHeader}
    (hat : LoopAt scope ops inner h body) : ∀ v ∈ h.results, v ∈ definedIds ops := by
  induction hat with
  | here =>
    intro v hv
    rw [definedIds_cons, definedIds_loop]
    simp [hv]
  | inside _ ih =>
    intro v hv
    rw [definedIds_cons, definedIds_loop]
    simp [ih v hv]
  | after _ ih =>
    intro v hv
    rw [definedIds_cons]
    exact List.mem_append_right _ (ih v hv)

/-- There is no loop in an operation without a body. -/
theorem LoopAt.not_leaf {scope inner : List ValueId} {l : Leaf} {body : List Op} {h : LoopHeader} :
    ¬ LoopAt scope [.leaf l] inner h body := by
  intro hat
  cases hat with
  | after hat => cases hat

/-- The loops of two blocks. -/
theorem LoopAt.of_append {inner : List ValueId} {ops ops' body : List Op} {h : LoopHeader} :
    ∀ {scope : List ValueId}, LoopAt scope (ops ++ ops') inner h body →
      LoopAt scope ops inner h body ∨ ∃ scope',
        (∀ v, v ∈ scope' ↔ v ∈ blockResults ops ∨ v ∈ scope) ∧ LoopAt scope' ops' inner h body := by
  induction ops with
  | nil => exact fun {scope} hat => .inr ⟨scope, by simp, hat⟩
  | cons op ops ih =>
    intro scope hat
    rw [List.cons_append] at hat
    cases hat with
    | here => exact .inl .here
    | inside hat => exact .inl (.inside hat)
    | after hat =>
      rcases ih hat with hat | ⟨scope', hscope', hat⟩
      · exact .inl (.after hat)
      · refine .inr ⟨scope', fun v => ?_, hat⟩
        rw [hscope', blockResults_cons, List.mem_append, List.mem_append]
        tauto

mutual

/-- The loop that is found by its result is in the operation. -/
theorem loopAt_of_findLoopOp {result : ValueId} {h : LoopHeader} {body : List Op} :
    ∀ (op : Op) {ops : List Op} {scope : List ValueId}, findLoopOp result op = some (h, body) →
      result ∈ h.results ∧ ∃ inner, LoopAt scope (op :: ops) inner h body
  | .leaf op, _, _, hfind => by
    rw [findLoopOp] at hfind
    cases hfind
  | .loop header body', _, _, hfind => by
    rw [findLoopOp] at hfind
    split at hfind
    next hmem =>
      obtain ⟨rfl, rfl⟩ := Prod.mk.inj (Option.some.inj hfind)
      exact ⟨hmem, _, .here⟩
    next =>
      obtain ⟨hmem, inner, hat⟩ := loopAt_of_findLoop body' hfind
      exact ⟨hmem, inner, .inside hat⟩

/-- **The loop of a value** stands in the block, and has it as a result. -/
theorem loopAt_of_findLoop {result : ValueId} {h : LoopHeader} {body : List Op} :
    ∀ (ops : List Op) {scope : List ValueId}, findLoop result ops = some (h, body) →
      result ∈ h.results ∧ ∃ inner, LoopAt scope ops inner h body
  | [], _, hfind => by
    rw [findLoop] at hfind
    cases hfind
  | op :: ops, _, hfind => by
    rw [findLoop, Option.or_eq_some_iff] at hfind
    rcases hfind with hfind | ⟨-, hfind⟩
    · exact loopAt_of_findLoopOp op hfind
    · obtain ⟨hmem, inner, hat⟩ := loopAt_of_findLoop ops hfind
      exact ⟨hmem, inner, .after hat⟩

end

/-! ### Parts of a block -/

/-- A part of the block `ops₀` in SSA form, with the values of `scope` in scope. -/
structure Site (ops₀ : List Op) (scope : List ValueId) (ops : List Op) : Prop extends
    SSA scope ops where
  nodup₀ : (definedIds ops₀).Nodup
  defs : ∀ p ∈ defsOps ops, p ∈ defsOps ops₀
  leaves : ∀ l ∈ leavesOps ops, l ∈ leavesOps ops₀
  closed : Closed ops₀ scope

/-- The whole block is a place in itself. -/
theorem SSA.site {arguments : List ValueId} {ops : List Op} (h : SSA arguments ops) :
    Site ops arguments ops :=
  { h with nodup₀ := h.nodup, defs := fun _ h => h, leaves := fun _ h => h, closed := h.closed }

namespace Site

variable {ops₀ : List Op} {scope : List ValueId} {ops inner : List Op} {op : Op} {h : LoopHeader}

/-- The operation at the place uses what is in scope. -/
theorem scopedOp (s : Site ops₀ scope (op :: ops)) : ScopedOp scope op := by
  have := s.inScope
  rw [ScopedOps] at this
  exact this.1

/-- It binds as many values as it has results. -/
theorem arityOp (s : Site ops₀ scope (op :: ops)) : ArityOp op := by
  have := s.arity
  rw [ArityOps] at this
  exact this.1

/-- What it defines is defined in the block. -/
theorem ids (s : Site ops₀ scope ops) : ∀ v ∈ definedIds ops, v ∈ definedIds ops₀ := by
  intro v hv
  obtain ⟨p, hp, rfl⟩ := List.mem_map.mp hv
  exact List.mem_map_of_mem (s.defs p hp)

/-- A loop defines no value twice. -/
theorem loop_nodup (s : Site ops₀ scope [.loop h inner]) :
    (h.blockArgs ++ (definedIds inner ++ h.results)).Nodup := by
  rw [← definedIds_loop]
  exact s.nodup

/-- The first operation. -/
theorem head (s : Site ops₀ scope (op :: ops)) : Site ops₀ scope [op] where
  inScope := by
    rw [ScopedOps, ScopedOps]
    exact ⟨s.scopedOp, trivial⟩
  arity := by
    rw [ArityOps, ArityOps]
    exact ⟨s.arityOp, trivial⟩
  nodup := by
    have := s.nodup
    rw [definedIds_cons] at this
    exact (List.nodup_append.mp this).1
  fresh v hv := by
    apply s.fresh
    rw [definedIds_cons]
    exact List.mem_append_left _ hv
  nodup₀ := s.nodup₀
  defs p hp := by
    apply s.defs
    rw [defsOps_singleton] at hp
    rw [defsOps_cons]
    exact List.mem_append_left _ hp
  leaves l hl := by
    apply s.leaves
    rw [leavesOps_cons, leavesOps_nil, List.append_nil] at hl
    rw [leavesOps_cons]
    exact List.mem_append_left _ hl
  closed := s.closed

/-- The operations after the first one. -/
theorem tail (s : Site ops₀ scope (op :: ops)) : Site ops₀ (opResults op ++ scope) ops where
  inScope := by
    have := s.inScope
    rw [ScopedOps] at this
    exact this.2
  arity := by
    have := s.arity
    rw [ArityOps] at this
    exact this.2
  nodup := by
    have := s.nodup
    rw [definedIds_cons] at this
    exact (List.nodup_append.mp this).2.1
  fresh v hv hmem := by
    have hnodup := s.nodup
    have hfresh := s.fresh v
    rw [definedIds_cons] at hnodup hfresh
    rcases List.mem_append.mp hmem with hmem | hmem
    · exact (List.nodup_append.mp hnodup).2.2 v (mem_definedIds_of_opResults hmem) v hv rfl
    · exact hfresh (List.mem_append_right _ hv) hmem
  nodup₀ := s.nodup₀
  defs p hp := by
    apply s.defs
    rw [defsOps_cons]
    exact List.mem_append_right _ hp
  leaves l hl := by
    apply s.leaves
    rw [leavesOps_cons]
    exact List.mem_append_right _ hl
  closed := s.closed.opResults s.nodup₀ s.scopedOp s.head.defs

/-- The body of a loop. -/
theorem body (s : Site ops₀ scope [.loop h inner]) : Site ops₀ (h.blockArgs ++ scope) inner where
  inScope := by
    have := s.scopedOp
    rw [ScopedOp] at this
    exact this.2.1
  arity := by
    have := s.arityOp
    rw [ArityOp] at this
    exact this.2.2.2
  nodup := by
    have := s.nodup
    rw [definedIds_loop] at this
    exact (List.nodup_append.mp (List.nodup_append.mp this).2.1).1
  fresh v hv hmem := by
    have hnodup := s.nodup
    have hfresh := s.fresh v
    rw [definedIds_loop] at hnodup hfresh
    rcases List.mem_append.mp hmem with hmem | hmem
    · exact (List.nodup_append.mp hnodup).2.2 v hmem v (List.mem_append_left _ hv) rfl
    · exact hfresh (List.mem_append_right _ (List.mem_append_left _ hv)) hmem
  nodup₀ := s.nodup₀
  defs p hp := by
    apply s.defs
    rw [defsOps_singleton, defsOp]
    exact List.mem_append_right _ (List.mem_append_left _ hp)
  leaves l hl := by
    apply s.leaves
    rw [leavesOps_cons, leavesOp_loop]
    exact List.mem_append_left _ hl
  closed := by
    have hscoped := s.scopedOp
    rw [ScopedOp] at hscoped
    exact s.closed.blockArgs s.nodup₀ hscoped.1 s.defs

end Site

/-- A loop of a block in SSA form. -/
theorem LoopAt.site {ops₀ : List Op} {scope inner : List ValueId} {ops body : List Op}
    {h : LoopHeader} (hat : LoopAt scope ops inner h body) (s : Site ops₀ scope ops) :
    Site ops₀ inner [.loop h body] := by
  induction hat with
  | here => exact s.head
  | inside _ ih => exact ih s.head.body
  | after _ ih => exact ih s.tail

/-! ### The trail of a chain -/

/-- The values that the analysis goes through from a written vector: with the loop that it is
    inside of and the updates that it has found. -/
inductive Trail (f : Function) (vector : ValueId) :
    Option (LoopHeader × Nat) → ValueId → List ValueId → Prop
  | start : Trail f vector none vector []
  | update {loop : Option (LoopHeader × Nat)} {v r lhs rhs acc : ValueId} {us : List ValueId}
      {op : ContractionOp} {inputElTy : ElementType} (h : Trail f vector loop v us)
      (hdef : findDef f.body v = some (.leaf (.contract r op lhs rhs acc)))
      (htype : traceToSourceElementType f lhs = .ok inputElTy)
      (hsupported : isSupportedMatrixContraction op inputElTy = true) :
      Trail f vector loop acc (r :: us)
  | enter {v y : ValueId} {us : List ValueId} {header : LoopHeader} {i : Nat}
      (h : Trail f vector none v us) (hdef : findDef f.body v = some (.loopResult header i))
      (hyield : header.yields[i]? = some y) : Trail f vector (some (header, i)) y us
  | leave {v init : ValueId} {us : List ValueId} {header : LoopHeader} {i : Nat}
      (h : Trail f vector (some (header, i)) v us)
      (hdef : findDef f.body v = some (.blockArg header (i + 1)))
      (hinit : header.inits[i]? = some init) : Trail f vector none init us

/-- One round of the analysis. -/
theorem trail_of_analyzeStep {f : Function} {vector : ValueId} {t t' : Trace}
    (h : Trail f vector t.activeLoop t.val t.updates) (hstep : analyzeStep f t = .inl t') :
    Trail f vector t'.activeLoop t'.val t'.updates := by
  unfold analyzeStep at hstep
  split at hstep
  · cases hstep
  next header number hdef =>
    split at hstep
    next loop resNum hloop =>
      split at hstep
      next heq =>
        obtain ⟨rfl, rfl⟩ := heq
        split at hstep
        next init hinit =>
          obtain rfl := Sum.inl.inj hstep
          rw [hloop] at h
          exact .leave h hdef hinit
        next => cases hstep
      next => cases hstep
    next => cases hstep
  next header resNum hdef =>
    split at hstep
    next yielded hloop hyield =>
      obtain rfl := Sum.inl.inj hstep
      rw [hloop] at h
      exact .enter h hdef hyield
    next => cases hstep
  next result op lhs rhs acc hdef =>
    split at hstep
    · cases hstep
    split at hstep
    next => cases hstep
    next inputElTy htype =>
      split at hstep
      next hsupported =>
        obtain rfl := Sum.inl.inj hstep
        exact .update h hdef htype hsupported
      next => cases hstep
  next => cases hstep
  next => cases hstep
  next => cases hstep

/-- An analysis that stops does so at its value. -/
theorem stop_of_analyzeStep {f : Function} {t : Trace} {initVal : Option ValueId}
    {updates : List ValueId} {inputElTy : Option ElementType}
    (h : analyzeStep f t = .inr (.ok (.stop initVal updates inputElTy))) :
    t.stop = .stop initVal updates inputElTy := by
  unfold analyzeStep at h
  split at h
  · exact Except.ok.inj (Sum.inr.inj h)
  · split at h
    · split at h
      · split at h
        · cases h
        · cases Except.ok.inj (Sum.inr.inj h)
      · exact Except.ok.inj (Sum.inr.inj h)
    · exact Except.ok.inj (Sum.inr.inj h)
  · split at h
    · cases h
    · cases Except.ok.inj (Sum.inr.inj h)
  · split at h
    · cases Except.ok.inj (Sum.inr.inj h)
    · split at h
      · cases Sum.inr.inj h
      · split at h
        · cases h
        · cases Except.ok.inj (Sum.inr.inj h)
  · exact Except.ok.inj (Sum.inr.inj h)
  · exact Except.ok.inj (Sum.inr.inj h)
  · cases Except.ok.inj (Sum.inr.inj h)

/-- **The analysis ends at the end of a trail**, outside of every loop. -/
theorem trail_of_analyzeChain {f : Function} {writeback : Nat} {vector : ValueId}
    {chain : AccumulatorChain} (h : analyzeChain f writeback vector = .ok (some chain)) :
    Trail f vector none chain.initVal chain.updates := by
  rw [analyzeChain] at h
  split at h
  · split at h
    · cases h
    next initVal updates inputElTy hend =>
      obtain rfl := Option.some.inj (Except.ok.inj h)
      obtain ⟨t, htrail, hexit⟩ := iterate_exit
        (fun t : Trace => Trail f vector t.activeLoop t.val t.updates)
        (fun _ _ => trail_of_analyzeStep) _ _ _ .start hend
      have hstop := stop_of_analyzeStep hexit
      rw [Trace.stop] at hstop
      split at hstop
      next houtside =>
        obtain ⟨hval, hupdates, -⟩ := TraceEnd.stop.inj hstop
        obtain rfl := Option.some.inj hval
        obtain rfl := hupdates
        rwa [Option.isNone_iff_eq_none.mp houtside] at htrail
      next => cases (TraceEnd.stop.inj hstop).1
    · cases h
  · cases h

/-- Where the trail from a result of a loop leads: to values in scope at the loop, and through loops
    whose operands are. -/
theorem Trail.inScope {f : Function} {vector : ValueId} {scope : List ValueId} {h : LoopHeader}
    {k : Nat} (hdef : findDef f.body vector = some (.loopResult h k))
    (hoperands : ∀ v ∈ h.operands, v ∈ scope) (hclosed : Closed f.body scope)
    {loop : Option (LoopHeader × Nat)} {v : ValueId} {updates : List ValueId}
    (ht : Trail f vector loop v updates) :
    (loop = none → v = vector ∨ v ∈ scope) ∧
      ∀ header i, loop = some (header, i) → ∀ u ∈ header.operands, u ∈ scope := by
  induction ht with
  | start => exact ⟨fun _ => .inl rfl, nofun⟩
  | update _ hdef' _ _ ih =>
    refine ⟨fun hloop => ?_, ih.2⟩
    rcases ih.1 hloop with rfl | hmem
    · cases hdef.symm.trans hdef'
    · exact .inr (hclosed _ hmem _ hdef' _ (by simp [Def.operands, Leaf.operands]))
  | enter _ hdef' _ ih =>
    refine ⟨nofun, fun header i hloop => ?_⟩
    obtain ⟨rfl, rfl⟩ := Prod.mk.inj (Option.some.inj hloop)
    rcases ih.1 rfl with rfl | hmem
    · obtain ⟨rfl, rfl⟩ := Def.loopResult.inj (Option.some.inj (hdef.symm.trans hdef'))
      exact hoperands
    · exact hclosed _ hmem _ hdef'
  | leave _ _ hinit ih =>
    refine ⟨fun _ => .inr ?_, nofun⟩
    apply ih.2 _ _ rfl
    simp [LoopHeader.operands, List.mem_of_getElem? hinit]

/-- **The initial value of a chain** that goes through a loop, if it can be put into a tile, is in
    scope at the loop. -/
theorem Trail.initVal_mem {f : Function} {vector : ValueId} {scope : List ValueId}
    {h : LoopHeader} {k : Nat} (hdef : findDef f.body vector = some (.loopResult h k))
    (hoperands : ∀ v ∈ h.operands, v ∈ scope) (hclosed : Closed f.body scope) {v : ValueId}
    {updates : List ValueId} (ht : Trail f vector none v updates)
    (hsupported : isSupportedInit (findDef f.body v) = true) : v ∈ scope := by
  rcases (ht.inScope hdef hoperands hclosed).1 rfl with rfl | hmem
  · rw [hdef] at hsupported
    cases hsupported
  · exact hmem

end CoralNPU.Matrix
