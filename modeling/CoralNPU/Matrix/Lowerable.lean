import CoralNPU.Matrix.Recording

namespace CoralNPU.Matrix

open Lib

/-!
# Matrix — which single chains keep their meaning

* `Lowerable` — the condition: one update of an operand type that the instruction reads, or a loop
  that starts from the initial value of the chain and multiplies the elements that the instruction
  reads; and not from a negative zero.
* `keepsMemory_of_lowerable` — it is enough; `lowerable_of_contract`, `lowerable_of_loop` — the
  matrix unit that records tells every other chain from what it becomes.
* `keepsMemory_iff` — the two directions.
-/

variable {f : Function} {chain : AccumulatorChain} {vector : ValueId}

/-- **The single chains that the pass keeps.** -/
def Lowerable (f : Function) (chain : AccumulatorChain) (vector : ValueId) : Prop :=
  chain.StartsPositive f ∧
    match findLoop vector f.body with
    | some (h, _) => chain.initVal ∈ h.inits ∧ ∀ r ∈ chain.updates, chain.Feeds f r
    | none => chain.updates = [vector] ∧ chain.inputElTy = .f32

/-- **The condition is enough.** -/
theorem keepsMemory_of_lowerable (hs : SingleChain f chain vector)
    (hl : Lowerable f chain vector) : KeepsMemory f chain := by
  obtain ⟨hpos, hshape⟩ := hl
  rw [hs.keepsMemory_iff_rewriteChain]
  split at hshape
  next h body hfind => exact leavesMemory_loop hs hpos hfind hshape.1 hshape.2
  next hfind => exact leavesMemory_contract hs hpos hfind hshape.1 hshape.2

/-! ### Chains that end with an update -/

/-- The tile is initialized with a zero, which records nothing. -/
theorem recording_initOp {read : Option Access} {ctx : TileContext} {env env₁ : Env Record}
    {st st₁ : State Record (List (List Update))}
    (h : evalOp recording (initOp ctx read) env st = some (env₁, st₁)) :
    env₁ = env ∧ st₁ = st.setTile ctx.tile .empty := by
  cases read with
  | none =>
    obtain ⟨_, -, heq⟩ := evalOp_leaf.mp h
    exact Prod.mk.inj heq
  | some access =>
    obtain ⟨_, -, heq⟩ := evalOp_leaf.mp h
    exact Prod.mk.inj heq

/-- What stands in the place of an update records it alone. -/
theorem tile_rewriteContract {read : Option Access} {zero : ConstAttr} {result lhs rhs : ValueId}
    {intrinsic : Intrinsic} {env env₁ : Env Record} {st st₁ : State Record (List (List Update))}
    (h : evalOps recording (rewriteContract ⟨0, 4, 4, intrinsic⟩ read zero result lhs rhs) env st
      = some (env₁, st₁)) : (st₁.tiles 0).updates.length = 1 := by
  obtain ⟨env₂, st₂, hinit, hrest⟩ := evalOps_cons.mp h
  obtain ⟨env₃, st₃, hmultiply, hrest⟩ := evalOps_cons.mp hrest
  obtain ⟨env₄, st₄, hconstant, hend⟩ := evalOps_cons.mp hrest
  rw [evalOps_nil] at hend
  obtain ⟨rfl, rfl⟩ := Prod.mk.inj (Option.some.inj hend)
  obtain ⟨_, -, heq⟩ := evalOp_leaf.mp hconstant
  obtain ⟨-, rfl⟩ := Prod.mk.inj heq
  obtain ⟨vals, -, heq⟩ := evalOp_leaf.mp hmultiply
  obtain ⟨-, rfl⟩ := Prod.mk.inj heq
  obtain ⟨-, rfl⟩ := recording_initOp hinit
  simp only [Interp.effect, State.setTile_tiles_self]
  rfl

/-- **The tile records one update**, however many there are. -/
theorem tile_le_one {ops : List Op} (htiles : ∀ l ∈ leavesOps ops, l.tile? = none) {r : ValueId}
    {read : Option Access} {zero : ConstAttr} {intrinsic : Intrinsic} {env env₁ : Env Record}
    {st st₁ : State Record (List (List Update))}
    (h : evalOps recording
      (rewriteOps (replaceContract r (rewriteContract ⟨0, 4, 4, intrinsic⟩ read zero r)) ops) env st
        = some (env₁, st₁)) (hst : (st.tiles 0).updates.length ≤ 1) :
    (st₁.tiles 0).updates.length ≤ 1 := by
  refine evalOps_rewriteOps_keeps (P := fun s => (s.tiles 0).updates.length ≤ 1) ?_ ops ?_ h hst
  · intro op new hnew env st env₁ st₁ h _
    obtain ⟨c, lhs, rhs, acc, rfl, rfl⟩ := replaceContract_eq_some hnew
    exact (tile_rewriteContract h).le
  · intro l hl _ vals st hst
    have htile := htiles l hl
    cases l with
    | vtzero | load | multiply | writeback => cases htile
    | _ => exact hst

/-- What is written in the place of the chain's transfer write. -/
theorem exists_entry (hs : SingleChain f chain vector) (hfind : findLoop vector f.body = none)
    {ops : List Op} {intrinsic : Intrinsic}
    (hops : rewriteChain f f.body chain ⟨0, 4, 4, intrinsic⟩ vector = .ok ops)
    {pre post : List Op} {access : Access} (heq : f.body = pre ++
      .leaf (.transferWrite chain.writeback .minorIdentity access vector) :: post)
    {env₁ : Env Record} {st₁ : State Record (List (List Update))}
    (h : evalOps recording ops emptyEnv emptyState = some (env₁, st₁)) :
    ∃ t, st₁.mem[writeCount pre]? = some t ∧ t.length ≤ 1 := by
  obtain ⟨ops₁, hupdates, hwrite⟩ := bind_eq_ok.mp hops
  obtain ⟨_, -, rfl⟩ := rewriteWriteback_eq_ok hwrite
  rcases rewriteUpdates_eq_ok hupdates with ⟨_, _, _, hsome, -, -⟩ | ⟨r, _, _, _, _, zero, -, -, -, rfl⟩
  · rw [hfind] at hsome
    cases hsome
  generalize readOp (findDef f.body chain.initVal) = read at h
  -- the two edits are independent
  have hwrites := hs.writeback_not_mem heq
  have hkept : ∀ {ops : List Op},
      (∀ l ∈ leavesOps ops, ∀ kind access v, l ≠ .transferWrite chain.writeback kind access v) →
      ∀ l ∈ leavesOps (rewriteOps (replaceContract r (rewriteContract ⟨0, 4, 4, intrinsic⟩ read zero r))
        ops), ∀ kind access v, l ≠ .transferWrite chain.writeback kind access v := by
    intro ops hleaves
    refine leavesOps_rewriteOps (fun op new _ hnew => ?_) (fun _ h => h) ops hleaves
    obtain ⟨c, lhs, rhs, acc, rfl, rfl⟩ := replaceContract_eq_some hnew
    exact fun l hl => not_write_rewriteContract l hl _
  rw [heq, rewriteOps_append, rewriteOps] at h
  rw [show rewriteOp (replaceContract r _) (.leaf (.transferWrite chain.writeback .minorIdentity
    access vector)) = [.leaf (.transferWrite chain.writeback .minorIdentity access vector)] from rfl,
    List.singleton_append,
    rewriteOps_replaceWrite (hkept fun l hl => hwrites l (List.mem_append_left _ hl))
      (hkept fun l hl => hwrites l (List.mem_append_right _ hl))] at h
  obtain ⟨env₂, st₂, hpre, hrest⟩ := evalOps_append.mp h
  obtain ⟨env₃, st₃, hop, hpost⟩ := evalOps_cons.mp hrest
  obtain ⟨vals, -, hfinal⟩ := evalOp_leaf.mp hop
  obtain ⟨rfl, rfl⟩ := Prod.mk.inj hfinal
  refine ⟨(st₂.tiles 0).updates, ?_, ?_⟩
  · have hentry := recording_entry hpost
    rwa [recording_length hpre, writeCount_rewriteOps] at hentry
    intro op new hnew
    obtain ⟨c, lhs, rhs, acc, rfl, rfl⟩ := replaceContract_eq_some hnew
    cases read with
    | none => rfl
    | some access => rfl
  · refine tile_le_one (fun l hl => hs.source.tiles l ?_) hpre (Nat.zero_le 1)
    rw [heq, leavesOps_append]
    exact List.mem_append_left _ hl

/-- **A chain that ends with an update** keeps its meaning only if that is the only one. -/
theorem updates_of_contract (hs : SingleChain f chain vector)
    (hfind : findLoop vector f.body = none) (hkeeps : KeepsMemory f chain) :
    chain.StartsPositive f ∧ chain.updates = [vector] := by
  obtain ⟨ops, hops, hleaves⟩ := hs.keepsMemory_iff_rewriteChain.mp hkeeps
  obtain ⟨env₁, st₁, hrun⟩ := hs.exists_run
  obtain ⟨env₁', st₁', hrun', hmem⟩ := hleaves _ _ recording recording_matrixUnit emptyEnv env₁
    emptyState st₁ (fun _ _ => rfl) hrun recording_undisturbed
  -- what the chain writes, before and after
  obtain ⟨pre, access, post, heq, hcount⟩ := hs.exists_written
  obtain ⟨t, ht, hle⟩ := exists_entry hs hfind hops heq hrun'
  rw [heq] at hrun
  obtain ⟨env₂, st₂, hpre, hrest⟩ := evalOps_append.mp hrun
  obtain ⟨env₃, st₃, hop, hpost⟩ := evalOps_cons.mp hrest
  obtain ⟨vals, hvals, hfinal⟩ := evalOp_leaf.mp hop
  obtain ⟨rfl, rfl⟩ := Prod.mk.inj hfinal
  obtain ⟨va, tail, hva, -, rfl⟩ := mapM_cons_eq_some.mp hvals
  have hentry := recording_entry hpost
  rw [recording_length hpre, ← hmem, ht] at hentry
  obtain rfl : t = va.updates := Option.some.inj hentry
  obtain ⟨hwritten, hnegative⟩ := hcount hpre hva
  obtain ⟨r, us, -, -, -, -, hupdates, -⟩ := firstUpdate_of_analyzeChain hs.analyze
  rw [hupdates, List.length_cons] at hwritten hnegative
  refine ⟨?_, ?_⟩
  · by_contra hneg
    have := hnegative hneg
    omega
  · obtain rfl : us = [] := List.length_eq_zero_iff.mp (by omega)
    have hvector := hs.vector_mem_updates hfind
    rw [hupdates, List.mem_singleton] at hvector
    rw [hvector]
    exact hupdates

/-- **The only update** is lowered with its operands as they are, so these have to be what the
    instruction reads. -/
theorem input_of_contract (hs : SingleChain f chain vector) (hfind : findLoop vector f.body = none)
    (hupdates : chain.updates = [vector]) (hkeeps : KeepsMemory f chain) :
    chain.inputElTy = .f32 := by
  refine hs.inputElTy_cases.resolve_right fun hinput => ?_
  have hintrinsic : chain.intrinsic = .vtfmmAlt := by rw [AccumulatorChain.intrinsic, if_pos hinput]
  obtain ⟨pre, c, lhs, rhs, acc, rest, heq, hrest, -, -⟩ := hs.exists_contract hfind hupdates
  obtain ⟨mid, post, access, sp⟩ := hs.exists_split heq (List.mem_singleton_self vector) hrest
  obtain ⟨ops, hops, hleaves⟩ := hs.keepsMemory_iff_rewriteChain.mp hkeeps
  rw [hintrinsic, rewriteChain_eq_contract hs hfind hupdates sp ⟨0, 4, 4, .vtfmmAlt⟩] at hops
  obtain rfl := Except.ok.inj hops
  obtain ⟨env₁, st₁, hrun⟩ := hs.exists_run
  obtain ⟨env₁', st₁', hrun', hmem⟩ := hleaves _ _ recording recording_matrixUnit emptyEnv env₁
    emptyState st₁ (fun _ _ => rfl) hrun recording_undisturbed
  rw [sp.eq] at hrun
  obtain ⟨env₂, st₂, hpre, hnext⟩ := evalOps_append.mp hrun
  obtain ⟨env₃, st₃, hop, hafter⟩ := evalOps_cons.mp hnext
  -- the update, before and after
  obtain ⟨env₂', st₂', hpre', hrest'⟩ := evalOps_append.mp hrun'
  obtain ⟨rfl, rfl⟩ := Prod.mk.inj (Option.some.inj (hpre.symm.trans hpre'))
  obtain ⟨env₃', st₃', hnew', hafter'⟩ := evalOps_append.mp hrest'
  obtain ⟨env₄, st₄, hinit, -⟩ := evalOps_cons.mp hnew'
  obtain ⟨rfl, rfl⟩ := recording_initOp hinit
  obtain ⟨x, y, va, env₅, st₅, -, -, -, hvector, hnew, htile, henv, hst⟩ :=
    evalOps_rewriteContract (z := zeroAccumulator) hinit hop
  obtain ⟨rfl, rfl⟩ := Prod.mk.inj (Option.some.inj (hnew.symm.trans hnew'))
  -- what is written
  have hwritten := sp.entry_eq hs hvector henv hst hafter hafter' hmem
  rw [htile] at hwritten
  simp only [recording, Record.update, Record.empty, List.nil_append] at hwritten
  have hlast := congrArg List.getLast? hwritten
  simp [Record.cast, Intrinsic.marks] at hlast

/-- **A chain that ends with an update** keeps its meaning only if it is lowerable. -/
theorem lowerable_of_contract (hs : SingleChain f chain vector)
    (hfind : findLoop vector f.body = none) (hkeeps : KeepsMemory f chain) :
    Lowerable f chain vector := by
  obtain ⟨hpos, hupdates⟩ := updates_of_contract hs hfind hkeeps
  refine ⟨hpos, ?_⟩
  rw [hfind]
  exact ⟨hupdates, input_of_contract hs hfind hupdates hkeeps⟩

/-! ### Chains that end with a loop -/

section Loop

variable {pre body post mid post' : List Op} {h : LoopHeader} {init arg yielded : ValueId}
  {us₁ us₂ : List ValueId} {access : Access}

/-- When the updates `us` are to come in an iteration, the tile records what the accumulator does
    only if the chain starts in the tile and the updates before them are fed. -/
def Follows (f : Function) (chain : AccumulatorChain) (early : Prop) (us₂ us : List ValueId)
    (va t : Record) : Prop :=
  va.updates = t.updates → ¬ early ∧ ∀ r ∈ us₂, r ∉ us → chain.Feeds f r

/-- **An update** records the same only if its operands are what the instruction reads. -/
theorem follows_update {scope : List ValueId} {env : Env Record} (hclosed : Closed f.body scope)
    (hholds : Holds recording f.body env scope) {early : Prop} {r : ValueId} (hmem : r ∈ scope)
    {c : ContractionOp} {lhs rhs acc : ValueId}
    (hdef : findDef f.body r = some (.leaf (.contract r c lhs rhs acc))) {us : List ValueId}
    {va t : Record} (hva : env acc = some va) (h : Follows f chain early us₂ (r :: us) va t) :
    ∃ x y va', env (traceToSourceValue f.body lhs) = some x ∧
      env (traceToSourceValue f.body rhs) = some y ∧ env r = some va' ∧
      Follows f chain early us₂ us va' (recording.multiply chain.intrinsic x y t) := by
  obtain ⟨⟨hlhs, hrhs, -⟩, x₀, y₀, va', hx₀, hy₀, hva', hval⟩ := hholds.contract hclosed hmem hdef
  obtain rfl := Option.some.inj (hva.symm.trans hva')
  obtain ⟨marks, hcasts⟩ := Casts.trace f.body lhs
  obtain ⟨marks', hcasts'⟩ := Casts.trace f.body rhs
  obtain ⟨x, hx, rfl⟩ := hcasts.recorded hclosed hholds hlhs hx₀
  obtain ⟨y, hy, rfl⟩ := hcasts'.recorded hclosed hholds hrhs hy₀
  refine ⟨x, y, _, hx, hy, hval, fun heq => ?_⟩
  -- the same updates before, and the same casts in this one
  obtain ⟨hbefore, hlast⟩ := List.append_inj' (show va.updates ++ _ = t.updates ++ _ from heq) rfl
  obtain ⟨hleft, hright⟩ := Prod.mk.inj (List.singleton_inj.mp hlast)
  obtain rfl : marks = chain.intrinsic.marks := List.append_cancel_right hleft
  obtain rfl : marks' = chain.intrinsic.marks := List.append_cancel_right hright
  obtain ⟨hstart, hfed⟩ := h hbefore
  refine ⟨hstart, fun r' hr' hnot => ?_⟩
  by_cases hr : r' = r
  · subst hr
    intro c' lhs' rhs' acc' hdef'
    cases hdef.symm.trans hdef'
    exact ⟨hcasts, hcasts'⟩
  · exact hfed r' hr' (by simp [hr, hnot])

/-- **Before the loop** the tile is behind if the chain has started already. -/
theorem LoopedChain.exists_start (hs : SingleChain f chain vector)
    (lc : LoopedChain f chain vector pre h body post init arg yielded vector us₁ us₂ [])
    {env₂ env₃ : Env Record} {st₂ st₃ : State Record (List (List Update))}
    (hpre : evalOps recording pre emptyEnv emptyState = some (env₂, st₂))
    (hloop : evalOp recording (.loop h body) env₂ st₂ = some (env₃, st₃)) :
    ∃ va, env₂ init = some va ∧
      evalOp recording (initOp ⟨0, 4, 4, chain.intrinsic⟩ (readOp (findDef f.body chain.initVal)))
        env₂ st₂ = some (env₂, st₂.setTile 0 .empty) ∧
      Follows f chain (¬ chain.StartsPositive f ∨ us₁ ≠ []) us₂ us₂ va .empty := by
  obtain ⟨scope, hscope, site⟩ := lc.site hs.ssa
  have hsite := hs.ssa.site_of_eq lc.eq
  have hholds : Holds recording f.body env₂ scope := by
    have := evalOps_holds hsite.append_left (hs.ssa.holds emptyEnv) hpre
    exact fun v hv => this v (List.mem_append.mpr ((hscope v).mp hv))
  have hscoped := site.scopedOp
  rw [ScopedOp] at hscoped
  have hinit : init ∈ scope := hscoped.1 init (by simp [LoopHeader.operands, lc.inits])
  obtain ⟨_, _, _, vals, _, _, -, -, -, hvals, -, -⟩ := evalOp_loop.mp hloop
  obtain ⟨va, hva⟩ := Option.isSome_iff_exists.mp
    ((exists_of_mapM_eq_some hvals).2 init (by simp [lc.inits]))
  obtain ⟨v, hv, hcount⟩ := lc.before.length_eq site.closed hholds hinit hva
  have henv : ∀ v ∈ scope, (env₂ v).isSome := fun v hv =>
    hsite.append_left.bound (fun _ _ => rfl) hpre v (List.mem_append.mpr ((hscope v).mp hv))
  refine ⟨va, hva, ?_, fun heq => ⟨?_, fun r hr hnot => absurd hr hnot⟩⟩
  · -- what the initial value is read with is in scope
    cases hread : readOp (findDef f.body chain.initVal) with
    | none => exact evalOp_leaf.mpr ⟨[], rfl, rfl⟩
    | some access =>
      have hoperands : ∀ v ∈ access.base :: access.indices, v ∈ scope := by
        intro v hv
        unfold readOp at hread
        split at hread
        next r kind access' type hdef =>
          obtain rfl := Option.some.inj hread
          exact site.closed _ (lc.before_mem site).1 _ hdef v hv
        next => cases hread
      obtain ⟨vals, hvals⟩ := exists_mapM_eq_some fun v hv => henv v (hoperands v hv)
      exact evalOp_leaf.mpr ⟨vals, hvals, rfl⟩
  · rw [heq] at hcount
    simp only [Record.empty, List.length_nil] at hcount
    rintro (hneg | hne)
    · rw [updates_init hholds (lc.before_mem site).1 hv hneg, List.length_singleton] at hcount
      omega
    · have := List.length_pos_iff.mpr hne
      omega

/-- **What the rewritten loop writes** is what the accumulator records only if the chain starts in
    the tile, and its updates are fed. -/
theorem feeds_of_loop (hs : SingleChain f chain vector)
    (lc : LoopedChain f chain vector pre h body post init arg yielded vector us₁ us₂ [])
    (sp : Split f chain vector pre (.loop h body) mid post' access)
    (hfind : findLoop vector f.body = some (h, body)) (hkeeps : KeepsMemory f chain) :
    ¬ (¬ chain.StartsPositive f ∨ us₁ ≠ []) ∧ ∀ r ∈ us₂, chain.Feeds f r := by
  obtain ⟨ops, hops, hleaves⟩ := hs.keepsMemory_iff_rewriteChain.mp hkeeps
  rw [lc.rewriteChain_eq hs hfind sp] at hops
  obtain rfl := Except.ok.inj hops
  obtain ⟨env₁, st₁, hrun⟩ := hs.exists_run
  obtain ⟨env₁', st₁', hrun', hmem⟩ := hleaves _ _ recording recording_matrixUnit emptyEnv env₁
    emptyState st₁ (fun _ _ => rfl) hrun recording_undisturbed
  rw [sp.eq] at hrun
  obtain ⟨env₂, st₂, hpre, hrest⟩ := evalOps_append.mp hrun
  obtain ⟨env₃, st₃, hloop, hafter⟩ := evalOps_cons.mp hrest
  -- before the loop
  obtain ⟨va, hva, hread, hstart⟩ := lc.exists_start hs hpre hloop
  -- the loop
  obtain ⟨env₃', st₃', hnew, hst₃, henv₃, va', hva', -, hfollows⟩ := lc.evalOps_loop_tile hs sp
    (Follows f chain (¬ chain.StartsPositive f ∨ us₁ ≠ []) us₂)
    (fun va t hend heq => ⟨(hend heq).1, fun r hr _ => (hend heq).2 r hr List.not_mem_nil⟩)
    (fun env scope hclosed hholds r hr hmem c lhs rhs acc hdef us va t hva hT =>
      follows_update hclosed hholds hmem hdef hva hT)
    (fun _ _ => rfl) hpre hloop hva hread hstart
  obtain ⟨env₅, st₅, hpre', hrest'⟩ := evalOps_append.mp hrun'
  obtain ⟨rfl, rfl⟩ := Prod.mk.inj (Option.some.inj (hpre.symm.trans hpre'))
  obtain ⟨env₆, st₆, hnew', hafter'⟩ := evalOps_append.mp hrest'
  obtain ⟨rfl, rfl⟩ := Prod.mk.inj (Option.some.inj (hnew.symm.trans hnew'))
  obtain ⟨hearly, hfed⟩ := hfollows (fun _ _ _ => Nat.one_pos)
    (sp.entry_eq hs hva' henv₃ hst₃ hafter hafter' hmem)
  exact ⟨hearly, fun r hr => hfed r hr List.not_mem_nil⟩

end Loop

/-- **A chain that ends with a loop** keeps its meaning only if it starts there, from what the tile
    is initialized with, and multiplies what the instruction reads. -/
theorem lowerable_of_loop (hs : SingleChain f chain vector) {h : LoopHeader} {body : List Op}
    (hfind : findLoop vector f.body = some (h, body)) (hkeeps : KeepsMemory f chain) :
    Lowerable f chain vector := by
  obtain ⟨pre, post, init, arg, yielded, us₁, us₂, lc⟩ := hs.loop_of_findLoop hfind
  have hvector : vector ∈ h.results := by simp [lc.results]
  obtain ⟨mid, post', access, sp⟩ := hs.exists_split lc.eq hvector lc.post
  obtain ⟨hearly, hfed⟩ := feeds_of_loop hs lc sp hfind hkeeps
  rw [not_or, not_not, not_not] at hearly
  obtain ⟨hpos, hnil⟩ := hearly
  refine ⟨hpos, ?_⟩
  rw [hfind]
  refine ⟨?_, fun r hr => ?_⟩
  · have hbefore := lc.before
    rw [hnil] at hbefore
    obtain rfl : chain.initVal = init := hbefore
    simp [lc.inits]
  · rw [lc.updates, hnil, List.append_nil, List.nil_append] at hr
    exact hfed r hr

/-- **Which single chains keep their meaning.** The rewritten function leaves the memory that the
    function leaves if and only if the chain is lowerable. -/
theorem keepsMemory_iff (hs : SingleChain f chain vector) :
    KeepsMemory f chain ↔ Lowerable f chain vector := by
  refine ⟨fun hkeeps => ?_, keepsMemory_of_lowerable hs⟩
  cases hfind : findLoop vector f.body with
  | none => exact lowerable_of_contract hs hfind hkeeps
  | some found => exact lowerable_of_loop hs hfind hkeeps

/-! ### One update and two -/

theorem outerContraction_isOuterProduct : (outerContraction .f32 .f32).IsOuterProduct :=
  ⟨by decide, rfl, rfl, rfl, 0, 1, 2, rfl, rfl, rfl, rfl, by decide, .inl rfl, .inl rfl, rfl⟩

theorem oneAccumulator_update {r : ValueId} (hr : r ∈ [13]) {c : ContractionOp}
    {lhs rhs acc : ValueId}
    (hdef : findDef oneAccumulator.body r = some (.leaf (.contract r c lhs rhs acc))) :
    c = outerContraction .f32 .f32 ∧ lhs = 1 ∧ rhs = 2 := by
  obtain rfl := List.mem_singleton.mp hr
  have hproduct : findDef oneAccumulator.body 13
      = some (.leaf (.contract 13 (outerContraction .f32 .f32) 1 2 11)) := rfl
  cases hproduct.symm.trans hdef
  exact ⟨rfl, rfl, rfl⟩

theorem oneAccumulator_single : SingleChain oneAccumulator ⟨0, [13], 0, .f32⟩ 20 where
  zvt := by decide
  source := oneAccumulator_source
  ssa := oneAccumulator_ssa
  chains := eq_ok_of_toOption (by decide +kernel)
  write := ⟨⟨100, [101, 101]⟩, by simp [oneAccumulator, product], by decide⟩
  types v hv := by
    simp only [List.mem_cons, List.not_mem_nil, or_false] at hv
    rcases hv with rfl | rfl
    · rfl
    · rfl
  products r hr c lhs rhs acc hdef := by
    obtain ⟨rfl, -, -⟩ := oneAccumulator_update hr hdef
    exact outerContraction_isOuterProduct
  init := .inl ⟨false, rfl⟩
  links := by decide
  shape := by
    have hlooped : Looped oneAccumulator.body _ (productLoop [20] [0] [11] [13]) [product 13 11] _
        0 11 13 20 :=
      ⟨rfl, .cons (.cons .nil), .cons .nil, .cons .nil, rfl, rfl, rfl, rfl⟩
    exact .inr ⟨_, _, _, _, _, _, _, _, hlooped, .inl rfl, by decide, by decide⟩

/-- A loop with one update is kept. -/
theorem keepsMemory_oneAccumulator : KeepsMemory oneAccumulator ⟨0, [13], 0, .f32⟩ := by
  have hfind : findLoop 20 oneAccumulator.body
      = some (productLoop [20] [0] [11] [13], [product 13 11]) := rfl
  refine (keepsMemory_iff oneAccumulator_single).mpr ⟨?_, ?_⟩
  · intro hnegative
    cases hnegative
  · rw [hfind]
    refine ⟨List.mem_singleton_self 0, fun r hr c lhs rhs acc hdef => ?_⟩
    obtain ⟨-, rfl, rfl⟩ := oneAccumulator_update hr hdef
    -- the operands are no casts
    have hlhs : traceToSourceValue oneAccumulator.body 1 = 1 := by decide +kernel
    have hrhs : traceToSourceValue oneAccumulator.body 2 = 2 := by decide +kernel
    rw [hlhs, hrhs]
    exact ⟨.refl 1, .refl 2⟩

/-- Two products that are added to zero one after the other. -/
def twoUpdates : Function where
  isFuncOp := true
  cpuFeatures := some "+zvtbase".toList
  types := productTypes
  body := [.leaf (.constant 0 (.splat (.floatZero false) 16)), .leaf (.other 0 [1, 2] []),
    product 3 0, product 4 3, .leaf (.transferWrite 0 .minorIdentity ⟨100, [101, 101]⟩ 4)]

theorem twoUpdates_update {r : ValueId} (hr : r ∈ [3, 4]) {c : ContractionOp}
    {lhs rhs acc : ValueId}
    (hdef : findDef twoUpdates.body r = some (.leaf (.contract r c lhs rhs acc))) :
    c = outerContraction .f32 .f32 ∧ lhs = 1 := by
  have hfirst : findDef twoUpdates.body 3
      = some (.leaf (.contract 3 (outerContraction .f32 .f32) 1 2 0)) := rfl
  have hsecond : findDef twoUpdates.body 4
      = some (.leaf (.contract 4 (outerContraction .f32 .f32) 1 2 3)) := rfl
  simp only [List.mem_cons, List.not_mem_nil, or_false] at hr
  rcases hr with rfl | rfl
  · cases hfirst.symm.trans hdef
    exact ⟨rfl, rfl⟩
  · cases hsecond.symm.trans hdef
    exact ⟨rfl, rfl⟩

theorem twoUpdates_single : SingleChain twoUpdates ⟨0, [3, 4], 0, .f32⟩ 4 where
  zvt := by decide
  source := by
    refine ⟨by decide, fun config hl => ?_, by decide⟩
    simp [twoUpdates, product] at hl
  ssa := by
    refine ⟨?_, ?_, by decide, by decide⟩
    · simp only [twoUpdates, product, ScopedOps, ScopedOp]
      decide
    · simp only [twoUpdates, product, ArityOps, ArityOp]
      decide
  chains := eq_ok_of_toOption (by decide +kernel)
  write := ⟨⟨100, [101, 101]⟩, by simp [twoUpdates, product], by decide⟩
  types v hv := by
    simp only [List.mem_cons, List.not_mem_nil, or_false] at hv
    rcases hv with rfl | rfl | rfl
    · rfl
    · rfl
    · rfl
  products r hr c lhs rhs acc hdef := by
    obtain ⟨rfl, -⟩ := twoUpdates_update hr hdef
    exact outerContraction_isOuterProduct
  init := .inl ⟨false, rfl⟩
  links := by decide
  shape := .inl (.cons (.cons (.cons (.cons (.cons .nil)))))

/-- Of two updates the second one is lost. -/
theorem twoUpdates_not_keepsMemory :
    SingleChain twoUpdates ⟨0, [3, 4], 0, .f32⟩ 4 ∧ ¬ KeepsMemory twoUpdates ⟨0, [3, 4], 0, .f32⟩ := by
  refine ⟨twoUpdates_single, fun hkeeps => ?_⟩
  have hfind : findLoop 4 twoUpdates.body = none := rfl
  cases (updates_of_contract twoUpdates_single hfind hkeeps).2

end CoralNPU.Matrix
