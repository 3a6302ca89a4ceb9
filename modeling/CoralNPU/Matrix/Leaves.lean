import CoralNPU.Matrix.Rewrite

namespace CoralNPU.Matrix

open Lib

/-!
# Matrix — the operations of a rewritten function

What the rewriting does to the operations of a function, wherever in its loops they stand.

* `rewriteUpdates_eq_ok`, `rewriteWriteback_eq_ok` — the edits that one chain is rewritten with;
* `leavesOps_cloneBody` — what the body of a new loop is made of;
* `leavesOps_rewriteOps` — an edit adds only operations that the replacement has;
* `hasTile_rewriteOps` — an edit keeps the tiles in use if its replacements do.
-/

/-! ### One chain -/

/-- **How the updates of a chain are rewritten**: with the loop that has the written value as a
    result, or with the first update. -/
theorem rewriteUpdates_eq_ok {f : Function} {ops ops' : List Op} {chain : AccumulatorChain}
    {ctx : TileContext} {vector : ValueId} (h : rewriteUpdates f ops chain ctx vector = .ok ops') :
    (∃ header body zero, findLoop vector ops = some (header, body) ∧
      getZeroAttr (f.types (header.results.getD (accIdx header chain.initVal) 0)) = .ok zero ∧
      ops' = rewriteOps (replaceLoop vector (rewriteLoop ops chain ctx (freshOffset (f.body ++ ops))
        (readOp (findDef f.body chain.initVal)) zero)) ops) ∨
    ∃ result op lhs rhs acc zero, findLoop vector ops = none ∧
      findDef ops (chain.updates.headD 0) = some (.leaf (.contract result op lhs rhs acc)) ∧
      getZeroAttr (f.types result) = .ok zero ∧
      ops' = rewriteOps (replaceContract result (rewriteContract ctx
        (readOp (findDef f.body chain.initVal)) zero result)) ops := by
  rw [rewriteUpdates] at h
  obtain ⟨_, -, h⟩ := bind_eq_ok.mp h
  split at h
  next header body hloop =>
    obtain ⟨zero, hzero, h⟩ := bind_eq_ok.mp h
    exact .inl ⟨header, body, zero, hloop, hzero, (Except.ok.inj h).symm⟩
  next hloop =>
    split at h
    next result op lhs rhs acc hdef =>
      obtain ⟨zero, hzero, h⟩ := bind_eq_ok.mp h
      exact .inr ⟨result, op, lhs, rhs, acc, zero, hloop, hdef, hzero, (Except.ok.inj h).symm⟩
    next => cases h

/-- The writeback of a chain takes the place of its transfer write. -/
theorem rewriteWriteback_eq_ok {ops ops' : List Op} {chain : AccumulatorChain} {ctx : TileContext}
    (h : rewriteWriteback ops chain ctx = .ok ops') :
    ∃ access, writeAccess ops chain.writeback = some access ∧
      ops' = rewriteOps (replaceWrite chain.writeback ctx) ops := by
  rw [rewriteWriteback] at h
  split at h
  next access haccess =>
    obtain ⟨_, -, h⟩ := bind_eq_ok.mp h
    exact ⟨access, haccess, (Except.ok.inj h).symm⟩
  next => cases h

/-- The edits match one kind of operation each. -/
theorem replaceLoop_eq_some {result : ValueId} {new : LoopHeader → List Op → List Op} {op : Op}
    {ops : List Op} (h : replaceLoop result new op = some ops) :
    ∃ header body, op = .loop header body ∧ result ∈ header.results ∧ ops = new header body := by
  cases op with
  | leaf l => cases h
  | loop header body =>
    simp only [replaceLoop] at h
    split at h
    next hmem => exact ⟨header, body, rfl, hmem, (Option.some.inj h).symm⟩
    next => cases h

/-- See `replaceLoop_eq_some`. -/
theorem replaceContract_eq_some {result : ValueId} {new : ValueId → ValueId → List Op} {op : Op}
    {ops : List Op} (h : replaceContract result new op = some ops) :
    ∃ c lhs rhs acc, op = .leaf (.contract result c lhs rhs acc) ∧ ops = new lhs rhs := by
  unfold replaceContract at h
  split at h
  · split at h
    next hr => exact ⟨_, _, _, _, by rw [hr], (Option.some.inj h).symm⟩
    next => cases h
  · cases h

/-- See `replaceLoop_eq_some`. -/
theorem replaceWrite_eq_some {writeback : Nat} {ctx : TileContext} {op : Op} {ops : List Op}
    (h : replaceWrite writeback ctx op = some ops) :
    ∃ kind access v, op = .leaf (.transferWrite writeback kind access v) ∧
      ops = [.leaf (.writeback ctx.tile access ctx.rows ctx.columns)] := by
  unfold replaceWrite at h
  split at h
  · split at h
    next hid => exact ⟨_, _, _, by rw [hid], (Option.some.inj h).symm⟩
    next => cases h
  · cases h

/-! ### Clones -/

mutual

/-- The operations of a clone are the clones of the operations. -/
theorem leavesOp_cloneOp (off : Nat) (ρ : ValueId → ValueId) :
    ∀ op : Op, leavesOp (cloneOp off ρ op) = (leavesOp op).map (Leaf.clone off ρ)
  | .leaf op => by simp [cloneOp]
  | .loop h body => by simp [cloneOp, leavesOps_cloneOps off ρ body]

/-- See `leavesOp_cloneOp`. -/
theorem leavesOps_cloneOps (off : Nat) (ρ : ValueId → ValueId) :
    ∀ ops : List Op, leavesOps (cloneOps off ρ ops) = (leavesOps ops).map (Leaf.clone off ρ)
  | [] => by simp [cloneOps]
  | op :: ops => by
    simp [cloneOps, leavesOp_cloneOp off ρ op, leavesOps_cloneOps off ρ ops]

end

/-- A clone works on the tile of its original. -/
@[simp] theorem Leaf.tile?_clone (off : Nat) (ρ : ValueId → ValueId) (op : Leaf) :
    (op.clone off ρ).tile? = op.tile? := by
  cases op <;> rfl

/-- An update is a contraction. -/
theorem updateOperands_eq_some {chain : AccumulatorChain} {op : Op} {operands : ValueId × ValueId}
    (h : updateOperands chain op = some operands) :
    ∃ r c acc, op = .leaf (.contract r c operands.1 operands.2 acc) ∧ r ∈ chain.updates := by
  unfold updateOperands at h
  split at h
  · rename_i r c lhs rhs acc
    split at h
    · rename_i hr
      simp only [Option.some.injEq] at h
      subst h
      exact ⟨r, c, acc, rfl, hr⟩
    · cases h
  · cases h

/-- Every operation of the new body is a multiply on the tile or a clone. -/
theorem leavesOps_cloneBody {ops : List Op} {chain : AccumulatorChain} {ctx : TileContext}
    {off : Nat} {mapped : List ValueId} {body : List Op} {op : Leaf}
    (h : op ∈ leavesOps (cloneBody ops chain ctx off mapped body)) :
    (∃ lhs rhs, op = .multiply ctx.intrinsic ctx.tile lhs rhs)
      ∨ ∃ ρ, ∃ op' ∈ leavesOps body, op = op'.clone off ρ := by
  induction body generalizing mapped with
  | nil => simp [cloneBody] at h
  | cons o rest ih =>
    unfold cloneBody at h
    split at h
    · -- an update
      rw [leavesOps_cons, List.mem_append, leavesOp_leaf, List.mem_singleton] at h
      rcases h with h | h
      · exact .inl ⟨_, _, h⟩
      · rcases ih h with h' | ⟨ρ, op', hop', rfl⟩
        · exact .inl h'
        · exact .inr ⟨ρ, op', by simp [hop'], rfl⟩
    · -- any other operation
      rw [leavesOps_cons, List.mem_append, leavesOp_cloneOp, List.mem_map] at h
      rcases h with ⟨op', hop', rfl⟩ | h
      · exact .inr ⟨_, op', by simp [hop'], rfl⟩
      · rcases ih h with h' | ⟨ρ, op', hop', rfl⟩
        · exact .inl h'
        · exact .inr ⟨ρ, op', by simp [hop'], rfl⟩

/-! ### Tiles in use -/

/-- An instruction of the block works on the tile. -/
def HasTile (ops : List Op) (tile : Nat) : Prop := ∃ op ∈ leavesOps ops, op.tile? = some tile

/-- An empty block uses no tile. -/
@[simp] theorem hasTile_nil (tile : Nat) : ¬ HasTile [] tile := by simp [HasTile]

/-- Two blocks, one after the other. -/
theorem hasTile_append {ops ops' : List Op} {tile : Nat} :
    HasTile (ops ++ ops') tile ↔ HasTile ops tile ∨ HasTile ops' tile := by
  simp only [HasTile, leavesOps_append, List.mem_append, or_and_right, exists_or]

/-- A block, by its first operation. -/
theorem hasTile_cons {op : Op} {ops : List Op} {tile : Nat} :
    HasTile (op :: ops) tile ↔ HasTile [op] tile ∨ HasTile ops tile := by
  rw [← List.singleton_append, hasTile_append]

/-- A loop uses the tiles of its body. -/
@[simp] theorem hasTile_loop {h : LoopHeader} {body : List Op} {tile : Nat} :
    HasTile [.loop h body] tile ↔ HasTile body tile := by
  simp [HasTile]

/-- An operation uses its own tile. -/
@[simp] theorem hasTile_leaf {op : Leaf} {tile : Nat} :
    HasTile [.leaf op] tile ↔ op.tile? = some tile := by
  simp [HasTile]

/-- A clone uses the tiles of its original. -/
theorem hasTile_cloneOp {off : Nat} {ρ : ValueId → ValueId} {op : Op} {tile : Nat} :
    HasTile [cloneOp off ρ op] tile ↔ HasTile [op] tile := by
  simp [HasTile, leavesOp_cloneOp]

/-- The new body uses every tile that the old one does. -/
theorem hasTile_cloneBody {ops : List Op} {chain : AccumulatorChain} {ctx : TileContext}
    {off : Nat} {mapped : List ValueId} {body : List Op} {tile : Nat} (h : HasTile body tile) :
    HasTile (cloneBody ops chain ctx off mapped body) tile := by
  induction body generalizing mapped with
  | nil => exact absurd h (hasTile_nil tile)
  | cons o rest ih =>
    unfold cloneBody
    split
    · -- an update uses no tile
      rename_i lhs rhs hupd
      obtain ⟨r, c, acc, rfl, -⟩ := updateOperands_eq_some hupd
      rw [hasTile_cons] at h ⊢
      apply Or.inr
      apply ih
      exact h.resolve_left (by simp [Leaf.tile?])
    · rw [hasTile_cons] at h ⊢
      exact h.imp hasTile_cloneOp.mpr fun h => ih h

/-! ### Edits -/

mutual

/-- What holds of all operations before holds after, if the replacements have it. -/
theorem leavesOp_rewriteOp {edit : Op → Option (List Op)} {P Q : Leaf → Prop}
    (hedit : ∀ op new, (∀ l ∈ leavesOp op, P l) → edit op = some new → ∀ l ∈ leavesOps new, Q l)
    (hkeep : ∀ l, P l → Q l) :
    ∀ op : Op, (∀ l ∈ leavesOp op, P l) → ∀ l ∈ leavesOps (rewriteOp edit op), Q l
  | .leaf op, hP => by
    intro l hl
    unfold rewriteOp at hl
    cases he : edit (.leaf op) with
    | none =>
      rw [he] at hl
      exact hkeep l (hP l (by simpa using hl))
    | some new =>
      rw [he] at hl
      exact hedit _ new hP he l hl
  | .loop h body, hP => by
    intro l hl
    unfold rewriteOp at hl
    split at hl
    · rename_i new he
      exact hedit _ new hP he l hl
    · have hbody := leavesOps_rewriteOps hedit hkeep body (by simpa using hP)
      exact hbody l (by simpa using hl)

/-- **What an edit adds.**  If the operations of a block have `P`, then those of the edited
    block have `Q`, when `P` implies `Q` and the replacement of an operation with `P` has
    `Q`. -/
theorem leavesOps_rewriteOps {edit : Op → Option (List Op)} {P Q : Leaf → Prop}
    (hedit : ∀ op new, (∀ l ∈ leavesOp op, P l) → edit op = some new → ∀ l ∈ leavesOps new, Q l)
    (hkeep : ∀ l, P l → Q l) :
    ∀ ops : List Op, (∀ l ∈ leavesOps ops, P l) → ∀ l ∈ leavesOps (rewriteOps edit ops), Q l
  | [], _ => by simp [rewriteOps]
  | op :: ops, hP => by
    intro l hl
    rw [rewriteOps, leavesOps_append, List.mem_append] at hl
    rcases hl with hl | hl
    · exact leavesOp_rewriteOp hedit hkeep op (fun l' hl' => hP l' (by simp [hl'])) l hl
    · exact leavesOps_rewriteOps hedit hkeep ops (fun l' hl' => hP l' (by simp [hl'])) l hl

end

mutual

/-- Rewriting keeps a tile in use, if the replacements do. -/
theorem hasTile_rewriteOp {edit : Op → Option (List Op)} {tile : Nat}
    (hedit : ∀ op new, edit op = some new → HasTile [op] tile → HasTile new tile) :
    ∀ op : Op, HasTile [op] tile → HasTile (rewriteOp edit op) tile
  | .leaf op, h => by
    unfold rewriteOp
    cases he : edit (.leaf op) with
    | none => exact h
    | some new => exact hedit _ new he h
  | .loop header body, h => by
    unfold rewriteOp
    split
    · rename_i new he
      exact hedit _ new he h
    · rw [hasTile_loop] at h ⊢
      exact hasTile_rewriteOps hedit body h

/-- An edit keeps the tiles in use if its replacements do. -/
theorem hasTile_rewriteOps {edit : Op → Option (List Op)} {tile : Nat}
    (hedit : ∀ op new, edit op = some new → HasTile [op] tile → HasTile new tile) :
    ∀ ops : List Op, HasTile ops tile → HasTile (rewriteOps edit ops) tile
  | [], h => absurd h (hasTile_nil tile)
  | op :: ops, h => by
    rw [hasTile_cons] at h
    rw [rewriteOps, hasTile_append]
    exact h.imp (hasTile_rewriteOp hedit op) (hasTile_rewriteOps hedit ops)

end

mutual

/-- Rewriting puts a tile to use, if the operation is there to be replaced. -/
theorem hasTile_rewriteOp_of_mem {edit : Op → Option (List Op)} {tile : Nat} {l : Leaf}
    (hloop : ∀ h body, edit (.loop h body) = none)
    (hl : ∀ new, edit (.leaf l) = some new → HasTile new tile)
    (hsome : (edit (.leaf l)).isSome) :
    ∀ op : Op, l ∈ leavesOp op → HasTile (rewriteOp edit op) tile
  | .leaf op, hmem => by
    rw [leavesOp_leaf, List.mem_singleton] at hmem
    subst hmem
    obtain ⟨new, he⟩ := Option.isSome_iff_exists.mp hsome
    unfold rewriteOp
    rw [he]
    exact hl new he
  | .loop header body, hmem => by
    unfold rewriteOp
    rw [hloop header body, hasTile_loop]
    exact hasTile_rewriteOps_of_mem hloop hl hsome body (by simpa using hmem)

/-- An edit of operations without a region puts a tile to use when it matches an operation of
    the block, and its replacement uses the tile. -/
theorem hasTile_rewriteOps_of_mem {edit : Op → Option (List Op)} {tile : Nat} {l : Leaf}
    (hloop : ∀ h body, edit (.loop h body) = none)
    (hl : ∀ new, edit (.leaf l) = some new → HasTile new tile)
    (hsome : (edit (.leaf l)).isSome) :
    ∀ ops : List Op, l ∈ leavesOps ops → HasTile (rewriteOps edit ops) tile
  | [], hmem => by simp at hmem
  | op :: ops, hmem => by
    rw [leavesOps_cons, List.mem_append] at hmem
    rw [rewriteOps, hasTile_append]
    exact hmem.imp (hasTile_rewriteOp_of_mem hloop hl hsome op)
      (hasTile_rewriteOps_of_mem hloop hl hsome ops)

end

end CoralNPU.Matrix
