import CoralNPU.Matrix.ChainSite

namespace CoralNPU.Matrix

open Lib

/-!
# Matrix — what a single chain becomes

* `Split.rewriteChain_eq` — the operation that defines the written value is replaced, and the
  transfer write after it.
* `SingleChain.loop_or_contract` — it is the loop, or the last update.
* `LoopedChain.rewriteChain_eq`, `rewriteChain_eq_contract` — the two forms.
-/

variable {f : Function} {chain : AccumulatorChain} {vector : ValueId}

/-! ### The two edits -/

theorem writeAccess_append (ops ops' : List Op) (writeback : Nat) :
    writeAccess (ops ++ ops') writeback
      = (writeAccess ops writeback).or (writeAccess ops' writeback) := by
  rw [writeAccess, leavesOps_append, List.findSome?_append]
  rfl

theorem writeAccess_eq_none {ops : List Op} {writeback : Nat}
    (h : ∀ l ∈ leavesOps ops, ∀ kind access v, l ≠ .transferWrite writeback kind access v) :
    writeAccess ops writeback = none := by
  rw [writeAccess, List.findSome?_eq_none_iff]
  intro l hl
  split
  next id kind access v =>
    rw [if_neg]
    rintro rfl
    exact h _ hl kind access v rfl
  next => rfl

/-- The access of the first transfer write with a name. -/
theorem writeAccess_eq {pre post : List Op} {writeback : Nat} {kind : TransferKind}
    {access : Access} {v : ValueId}
    (hpre : ∀ l ∈ leavesOps pre, ∀ kind access v, l ≠ .transferWrite writeback kind access v) :
    writeAccess (pre ++ .leaf (.transferWrite writeback kind access v) :: post) writeback
      = some access := by
  rw [writeAccess_append, writeAccess_eq_none hpre, Option.none_or, writeAccess, leavesOps_cons,
    leavesOp_leaf, List.singleton_append, List.findSome?_cons]
  simp

/-- The transfer write is the only operation that becomes a writeback. -/
theorem replaceWrite_eq_none {writeback : Nat} {ctx : TileContext} {l : Leaf}
    (h : ∀ kind access v, l ≠ .transferWrite writeback kind access v) :
    replaceWrite writeback ctx (.leaf l) = none := by
  unfold replaceWrite
  split
  next id kind access v heq =>
    obtain rfl := Op.leaf.inj heq
    rw [if_neg]
    rintro rfl
    exact h kind access v rfl
  next => rfl

theorem replaceWrite_loop {writeback : Nat} {ctx : TileContext} (h : LoopHeader) (body : List Op) :
    replaceWrite writeback ctx (.loop h body) = none := rfl

/-- The transfer write becomes a writeback in its place. -/
theorem rewriteOps_replaceWrite {writeback : Nat} {ctx : TileContext} {pre post : List Op}
    {kind : TransferKind} {access : Access} {v : ValueId}
    (hpre : ∀ l ∈ leavesOps pre, ∀ kind access v, l ≠ .transferWrite writeback kind access v)
    (hpost : ∀ l ∈ leavesOps post, ∀ kind access v, l ≠ .transferWrite writeback kind access v) :
    rewriteOps (replaceWrite writeback ctx)
        (pre ++ .leaf (.transferWrite writeback kind access v) :: post)
      = pre ++ .leaf (.writeback ctx.tile access ctx.rows ctx.columns) :: post := by
  have hwrite : replaceWrite writeback ctx (.leaf (.transferWrite writeback kind access v))
      = some [.leaf (.writeback ctx.tile access ctx.rows ctx.columns)] := if_pos rfl
  rw [rewriteOps_append,
    rewriteOps_eq_self replaceWrite_loop pre fun l hl => replaceWrite_eq_none (hpre l hl),
    rewriteOps, rewriteOp_of_some hwrite,
    rewriteOps_eq_self replaceWrite_loop post fun l hl => replaceWrite_eq_none (hpost l hl)]
  rfl

/-- **The rewritten chain**, when the operation that defines the written value is replaced. -/
theorem Split.rewriteChain_eq {pre mid post new : List Op} {op : Op} {access : Access}
    (sp : Split f chain vector pre op mid post access) (hs : SingleChain f chain vector)
    {ctx : TileContext} (edit : Op → Option (List Op))
    (hupdates : rewriteUpdates f f.body chain ctx vector = .ok (rewriteOps edit f.body))
    (hop : edit op = some new) (hpre : rewriteOps edit pre = pre)
    (hleaves : ∀ l ∈ leavesOps (mid ++
      .leaf (.transferWrite chain.writeback .minorIdentity access vector) :: post),
        edit (.leaf l) = none)
    (hnew : ∀ l ∈ leavesOps new, ∀ kind access v, l ≠ .transferWrite chain.writeback kind access v) :
    rewriteChain f f.body chain ctx vector = .ok (pre ++ (new ++
      (mid ++ .leaf (.writeback ctx.tile access ctx.rows ctx.columns) :: post))) := by
  have hrest : Straight (mid ++
      .leaf (.transferWrite chain.writeback .minorIdentity access vector) :: post) := by
    intro op' hop'
    simp only [List.mem_append, List.mem_cons] at hop'
    rcases hop' with hop' | rfl | hop'
    · exact sp.mid op' hop'
    · exact ⟨_, rfl⟩
    · exact sp.post op' hop'
  have hwrites := hs.writeback_not_mem sp.eq_write
  simp only [leavesOps_append, leavesOps_cons, List.mem_append] at hwrites
  -- the updates
  have hfirst : rewriteOps edit f.body = (pre ++ (new ++ mid)) ++
      .leaf (.transferWrite chain.writeback .minorIdentity access vector) :: post := by
    rw [sp.eq, rewriteOps_append, hpre, rewriteOps, rewriteOp_of_some hop,
      rewriteOps_straight hrest hleaves, List.append_assoc, List.append_assoc]
  have hbefore : ∀ l ∈ leavesOps (pre ++ (new ++ mid)),
      ∀ kind access v, l ≠ .transferWrite chain.writeback kind access v := by
    intro l hl
    simp only [leavesOps_append, List.mem_append] at hl
    rcases hl with hl | hl | hl
    · exact hwrites l (.inl (.inl hl))
    · exact hnew l hl
    · exact hwrites l (.inl (.inr (.inr hl)))
  have hrank : checkRank access = .ok () := if_pos sp.rank
  rw [rewriteChain, hupdates, ok_bind, rewriteWriteback, hfirst, writeAccess_eq hbefore]
  simp only [hrank, ok_bind, pure_eq_ok]
  rw [rewriteOps_replaceWrite hbefore fun l hl => hwrites l (.inr hl)]
  simp only [List.append_assoc]

/-! ### The operation that is replaced -/

/-- A loop of the block is found by its results. -/
theorem findLoop_ne_none {pre body post : List Op} {h : LoopHeader} {v : ValueId}
    (hv : v ∈ h.results) : findLoop v (pre ++ .loop h body :: post) ≠ none := by
  induction pre with
  | nil =>
    rw [List.nil_append, findLoop, findLoopOp, if_pos hv]
    simp
  | cons op pre ih =>
    rw [List.cons_append, findLoop]
    cases findLoopOp v op with
    | none => simpa using ih
    | some found => simp

/-- A loop that has the written value as its result is that of the chain. -/
theorem SingleChain.loop_of_findLoop (hs : SingleChain f chain vector) {h : LoopHeader}
    {body : List Op} (hfind : findLoop vector f.body = some (h, body)) :
    ∃ pre post init arg yielded us₁ us₂,
      LoopedChain f chain vector pre h body post init arg yielded vector us₁ us₂ [] := by
  obtain ⟨hmem, inner, hat⟩ : vector ∈ h.results ∧ ∃ inner, LoopAt f.arguments f.body inner h body :=
    loopAt_of_findLoop f.body hfind
  rcases hs.straight_or_looped with ⟨hstraight, -⟩ | ⟨pre, h', body', post, init, arg, yielded,
    result, us₁, us₂, us₃, lc⟩
  · exact absurd hat hstraight.not_loopAt
  · obtain ⟨rfl, rfl⟩ := lc.loopAt_unique hat
    have hvector := hmem
    rw [lc.results, List.mem_singleton] at hvector
    subst hvector
    -- no link comes after the loop
    have hdef := lc.findDef_result hs.ssa
    obtain ⟨hnil, -⟩ := lc.after.eq_nil fun op lhs rhs acc hdef' => by
      cases hdef.symm.trans hdef'
    subst hnil
    exact ⟨pre, post, init, arg, yielded, us₁, us₂, lc⟩

/-- A chain that does not end with a loop ends with an update. -/
theorem SingleChain.vector_mem_updates (hs : SingleChain f chain vector)
    (hfind : findLoop vector f.body = none) : vector ∈ chain.updates := by
  rcases hs.straight_or_looped with ⟨-, hlinks⟩ | ⟨pre, h, body, post, init, arg, yielded, result,
    us₁, us₂, us₃, lc⟩
  · refine hlinks.mem_end.resolve_left fun heq => ?_
    obtain ⟨hnil, -⟩ := hlinks.eq_nil fun op lhs rhs acc => heq ▸ hs.init_ne_contract op lhs rhs acc
    obtain ⟨r, us, -, -, -, -, hupdates, -⟩ := firstUpdate_of_analyzeChain hs.analyze
    rw [hupdates] at hnil
    cases hnil
  · rcases lc.after.mem_end with rfl | hmem
    · rw [lc.eq] at hfind
      exact absurd hfind (findLoop_ne_none (by simp [lc.results]))
    · rw [lc.updates]
      exact List.mem_append_right _ hmem

/-- What stands in the place of a loop has none of the transfer writes of the function. -/
theorem not_write_rewriteLoop {ops body : List Op} {ctx : TileContext} {off : Nat}
    {read : Option Access} {zero : ConstAttr} {h : LoopHeader} {writeback : Nat}
    (hoff : writeback < off) :
    ∀ l ∈ leavesOps (rewriteLoop ops chain ctx off read zero h body),
      ∀ kind access v, l ≠ .transferWrite writeback kind access v := by
  rintro l hl kind access v rfl
  simp only [rewriteLoop, leavesOps_cons, leavesOp_loop, leavesOp_leaf, leavesOps_nil,
    List.append_nil, List.mem_append, List.mem_singleton] at hl
  rcases hl with hl | hl | hl
  · have htile : Leaf.tile? _ = some ctx.tile := leavesOp_initOp _ hl
    cases htile
  · rcases leavesOps_cloneBody hl with ⟨lhs, rhs, heq⟩ | ⟨ρ, l', -, heq⟩
    · cases heq
    · -- a clone has a name of its own
      cases l' with
      | transferWrite id kind' access' v' =>
        obtain ⟨rfl, -⟩ := Leaf.transferWrite.inj heq
        omega
      | _ => cases heq
  · cases hl

/-- What stands in the place of a contraction has no transfer write. -/
theorem not_write_rewriteContract {ctx : TileContext} {read : Option Access} {zero : ConstAttr}
    {result lhs rhs : ValueId} :
    ∀ l ∈ leavesOps (rewriteContract ctx read zero result lhs rhs),
      ∀ writeback kind access v, l ≠ .transferWrite writeback kind access v := by
  rintro l hl writeback kind access v rfl
  simp only [rewriteContract, leavesOps_cons, leavesOp_leaf, leavesOps_nil, List.append_nil,
    List.mem_append, List.mem_singleton] at hl
  rcases hl with hl | hl | hl
  · have htile : Leaf.tile? _ = some ctx.tile := leavesOp_initOp _ hl
    cases htile
  · cases hl
  · cases hl

/-- The zero that the users of an accumulator get. -/
def zeroAccumulator : ConstAttr := .splat (.floatZero false) 16

/-- The only value that the loop carries is taken for the accumulator. -/
theorem Looped.accIdx_eq {ops pre body post : List Op} {h : LoopHeader}
    {init arg yielded result : ValueId} (hl : Looped ops pre h body post init arg yielded result)
    (initVal : ValueId) : accIdx h initVal = 0 := by
  rw [accIdx_eq_iff, hl.inits]
  by_cases heq : init = initVal
  · exact .inl (by simp [heq])
  · exact .inr ⟨by simpa using Ne.symm heq, rfl⟩

/-- **A chain that ends with the loop**: the loop is replaced. -/
theorem LoopedChain.rewriteChain_eq {pre body post mid post' : List Op} {h : LoopHeader}
    {init arg yielded : ValueId} {us₁ us₂ : List ValueId} {access : Access}
    (lc : LoopedChain f chain vector pre h body post init arg yielded vector us₁ us₂ [])
    (hs : SingleChain f chain vector) (hfind : findLoop vector f.body = some (h, body))
    (sp : Split f chain vector pre (.loop h body) mid post' access) (ctx : TileContext) :
    rewriteChain f f.body chain ctx vector = .ok (pre ++ (rewriteLoop f.body chain ctx
      (freshOffset (f.body ++ f.body)) (readOp (findDef f.body chain.initVal)) zeroAccumulator h body
        ++ (mid ++ .leaf (.writeback ctx.tile access ctx.rows ctx.columns) :: post'))) := by
  have hzero : getZeroAttr (f.types (h.results.getD (accIdx h chain.initVal) 0))
      = .ok zeroAccumulator := by
    rw [lc.accIdx_eq, lc.results, List.getD_cons_zero, hs.types vector List.mem_cons_self]
    rfl
  have hvector : vector ∈ h.results := by simp [lc.results]
  apply sp.rewriteChain_eq hs (replaceLoop vector (rewriteLoop f.body chain ctx
    (freshOffset (f.body ++ f.body)) (readOp (findDef f.body chain.initVal)) zeroAccumulator))
  · rw [rewriteUpdates]
    simp only [hs.checkReadRank, ok_bind, hfind, hzero, pure_eq_ok]
  · exact if_pos hvector
  · exact rewriteOps_straight lc.pre fun _ _ => rfl
  · exact fun _ _ => rfl
  · apply not_write_rewriteLoop
    apply lt_freshOffset (w := (_, vector))
    rw [transferWrites_append]
    exact List.mem_append_left _ hs.mem_transferWrites

/-- **A chain that ends with its only update**: the update is replaced. -/
theorem rewriteChain_eq_contract {pre mid post : List Op} {c : ContractionOp}
    {lhs rhs acc : ValueId} {access : Access} (hs : SingleChain f chain vector)
    (hfind : findLoop vector f.body = none) (hupdates : chain.updates = [vector])
    (sp : Split f chain vector pre (.leaf (.contract vector c lhs rhs acc)) mid post access)
    (ctx : TileContext) :
    rewriteChain f f.body chain ctx vector = .ok (pre ++ (rewriteContract ctx
      (readOp (findDef f.body chain.initVal)) zeroAccumulator vector lhs rhs
        ++ (mid ++ .leaf (.writeback ctx.tile access ctx.rows ctx.columns) :: post))) := by
  have hdef : findDef f.body vector = some (.leaf (.contract vector c lhs rhs acc)) := by
    refine hs.ssa.site.findDef_leaf (mem_leaves_of_mem ?_) (List.mem_singleton_self _)
    rw [sp.eq]
    simp
  have hzero : getZeroAttr (f.types vector) = .ok zeroAccumulator := by
    rw [hs.types vector List.mem_cons_self]
    rfl
  -- no other operation has the result
  have hother : ∀ l ∈ leavesOps pre ++ leavesOps (mid ++
      .leaf (.transferWrite chain.writeback .minorIdentity access vector) :: post),
      vector ∉ l.results := by
    intro l hl hmem
    have hnodup := hs.ssa.nodup
    rw [sp.eq, definedIds_append, definedIds_cons, definedIds_leaf] at hnodup
    obtain ⟨-, hright, hdisjoint⟩ := List.nodup_append.mp hnodup
    have hvector : vector ∈ Leaf.results (.contract vector c lhs rhs acc) := List.mem_singleton_self _
    rcases List.mem_append.mp hl with hl | hl
    · exact hdisjoint _ (mem_definedIds_of_leaf hl hmem) _ (List.mem_append_left _ hvector) rfl
    · exact (List.nodup_append.mp hright).2.2 _ hvector _ (mem_definedIds_of_leaf hl hmem) rfl
  have hnone : ∀ {l : Leaf} {new : ValueId → ValueId → List Op}, vector ∉ l.results →
      replaceContract vector new (.leaf l) = none := by
    intro l new hmem
    unfold replaceContract
    split
    next r c lhs rhs acc heq =>
      obtain rfl := Op.leaf.inj heq
      exact if_neg fun heq => hmem (by simp [Leaf.results, heq])
    next => rfl
  apply sp.rewriteChain_eq hs (replaceContract vector (rewriteContract ctx
    (readOp (findDef f.body chain.initVal)) zeroAccumulator vector))
  · rw [rewriteUpdates]
    simp only [hs.checkReadRank, ok_bind, hfind, hupdates, List.headD_cons, hdef, hzero, pure_eq_ok]
  · exact if_pos rfl
  · exact rewriteOps_eq_self (fun _ _ => rfl) pre fun l hl =>
      hnone (hother l (List.mem_append_left _ hl))
  · exact fun l hl => hnone (hother l (List.mem_append_right _ hl))
  · exact fun l hl => not_write_rewriteContract l hl _

end CoralNPU.Matrix
