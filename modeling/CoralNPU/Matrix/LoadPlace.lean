import CoralNPU.Matrix.Splice
import Mathlib.Data.Option.Basic

namespace CoralNPU.Matrix

open Lib

/-!
# Matrix — what runs between the read and the tile load

An accumulator is read where its `vector.transfer_read` stands, and its tile is loaded at the loop
or at the first update.

* `runsBefore`, `runsBetween` — the operations that may run before a place, and between a read and
  a place;
* `isReplaced`, `isTileLoad` — the place in a function, and in the rewritten one;
* `WriteSets`, `SameWrites` — the elements that operations write;
* `runsBetween_rewriteUpdates` — between the read and the tile load the elements are written that
  are written between the read and the loop or first update.
-/

/-! ### Places -/

mutual

/-- See `runsBefore`. -/
def runsBeforeOp (place : Op → Bool) : Op → Option (List Leaf)
  | .leaf _ => none
  | .loop _ body => (runsBefore place body).map fun _ => leavesOps body

/-- The operations that may have run since the start of a block when `place` is reached.  Of a loop
    that has the place inside it is all of them, since it may be in any iteration. -/
def runsBefore (place : Op → Bool) : List Op → Option (List Leaf)
  | [] => none
  | op :: ops =>
    if place op then some []
    else (runsBeforeOp place op).or ((runsBefore place ops).map (leavesOp op ++ ·))

end

/-- The transfer read that defines a value. -/
def isReadOf (r : ValueId) : Op → Bool
  | .leaf (.transferRead result _ _ _) => result = r
  | _ => false

mutual

/-- See `runsBetween`. -/
def runsBetweenOp (r : ValueId) (place : Op → Bool) : Op → Option (List Leaf)
  | .leaf _ => none
  | .loop _ body => runsBetween r place body

/-- The operations that may run between the transfer read of `r` and `place`, if the read comes
    first. -/
def runsBetween (r : ValueId) (place : Op → Bool) : List Op → Option (List Leaf)
  | [] => none
  | op :: ops =>
    if isReadOf r op then runsBefore place ops
    else if place op then none
    else (runsBetweenOp r place op).or (runsBetween r place ops)

end

/-- What the pass replaces: the loop that has the written value as a result, if there is one, or
    else the first update. -/
def isReplaced (ops : List Op) (chain : AccumulatorChain) (vector : ValueId) (op : Op) : Bool :=
  match findLoop vector ops, op with
  | some _, .loop h _ => vector ∈ h.results
  | none, .leaf (.contract r _ _ _ _) => r = chain.updates.headD 0
  | _, _ => false

/-- The load of a tile. -/
def isTileLoad (tile : Nat) : Op → Bool
  | .leaf (.load t _ _ _) => t = tile
  | _ => false

/-! ### Write sets -/

/-- The operations that do not write to memory. -/
def Leaf.isSilent : Leaf → Bool
  | .constant _ _ | .transferRead _ _ _ _ | .cast _ _ _ _ _ | .contract _ _ _ _ _
  | .outerProduct _ _ _ _ | .vtzero _ | .load _ _ _ _ | .multiply _ _ _ _ | .configure _ => true
  | .transferWrite _ _ _ _ | .other _ _ _ | .writeback _ _ _ _ => false

/-- The elements that the operations write.  A clone writes what the operation writes. -/
structure WriteSets where
  writes : Leaf → List Int
  silent : ∀ l, l.isSilent = true → writes l = []
  clone : ∀ off ρ l, writes (l.clone off ρ) = writes l

/-- Two lists of operations write the same elements. -/
def SameWrites (sets : WriteSets) (run run' : List Leaf) : Prop :=
  ∀ a, (∃ l ∈ run, a ∈ sets.writes l) ↔ ∃ l ∈ run', a ∈ sets.writes l

namespace SameWrites

variable {sets : WriteSets} {run run' run₁ run₁' : List Leaf}

/-- Operations write what they write. -/
theorem refl (run : List Leaf) : SameWrites sets run run := fun _ => Iff.rfl

/-- Two runs, one after the other. -/
theorem append (h : SameWrites sets run run') (h₁ : SameWrites sets run₁ run₁') :
    SameWrites sets (run ++ run₁) (run' ++ run₁') := by
  intro a
  simp only [List.mem_append, or_and_right, exists_or]
  exact or_congr (h a) (h₁ a)

/-- What writes nothing. -/
theorem of_silent (h : ∀ l ∈ run, l.isSilent = true) (h' : ∀ l ∈ run', l.isSilent = true) :
    SameWrites sets run run' := by
  have hnone : ∀ {ls : List Leaf}, (∀ l ∈ ls, l.isSilent = true) →
      ∀ a, ¬ ∃ l ∈ ls, a ∈ sets.writes l := by
    rintro ls hls a ⟨l, hl, ha⟩
    rw [sets.silent l (hls l hl)] at ha
    cases ha
  exact fun a => iff_of_false (hnone h a) (hnone h' a)

/-- Clones. -/
theorem map_clone (off : Nat) (ρ : ValueId → ValueId) (run : List Leaf) :
    SameWrites sets run (run.map (Leaf.clone off ρ)) := by
  intro a
  simp only [List.mem_map, exists_exists_and_eq_and, sets.clone]

end SameWrites

/-- The body of the new loop writes what the body of the loop writes. -/
theorem sameWrites_cloneBody (sets : WriteSets) {ops : List Op} {chain : AccumulatorChain}
    {ctx : TileContext} {off : Nat} {mapped : List ValueId} (body : List Op) :
    SameWrites sets (leavesOps body) (leavesOps (cloneBody ops chain ctx off mapped body)) := by
  induction body generalizing mapped with
  | nil => exact SameWrites.refl _
  | cons op rest ih =>
    unfold cloneBody
    split
    next lhs rhs hupdate =>
      -- neither an update nor the multiply writes
      obtain ⟨r, c, acc, rfl, -⟩ := updateOperands_eq_some hupdate
      rw [leavesOps_cons, leavesOps_cons, leavesOp_leaf, leavesOp_leaf]
      exact (SameWrites.of_silent (by simp [Leaf.isSilent]) (by simp [Leaf.isSilent])).append ih
    next =>
      rw [leavesOps_cons, leavesOps_cons, leavesOp_cloneOp]
      exact (SameWrites.map_clone _ _ _).append ih

/-! ### Rewritten blocks -/

/-- An edit puts `load` in the first place of what it replaces, which is what meets `place`, and
    changes nothing about the elements written. -/
structure Puts (sets : WriteSets) (edit : Op → Option (List Op)) (place : Op → Bool) (load : Op) :
    Prop where
  first : ∀ op, place op = true → ∃ rest, edit op = some (load :: rest)
  none : ∀ op, place op = false → edit op = none
  writes : ∀ op new, edit op = some new → SameWrites sets (leavesOp op) (leavesOps new)

section Puts

variable {sets : WriteSets} {edit : Op → Option (List Op)} {place : Op → Bool} {load : Op}
  {tile : Nat}

mutual

/-- Rewriting an operation keeps what it writes. -/
theorem Puts.sameWrites_op (h : Puts sets edit place load) :
    ∀ op : Op, SameWrites sets (leavesOp op) (leavesOps (rewriteOp edit op))
  | .leaf l => by
    rw [rewriteOp]
    cases hedit : edit (.leaf l) with
    | none =>
      rw [Option.getD_none, leavesOps_cons, leavesOps_nil, List.append_nil]
      exact SameWrites.refl _
    | some new => exact h.writes _ _ hedit
  | .loop header body => by
    rw [rewriteOp]
    cases hedit : edit (.loop header body) with
    | none => simpa using h.sameWrites body
    | some new => exact h.writes _ _ hedit

/-- A rewritten block writes the same elements. -/
theorem Puts.sameWrites (h : Puts sets edit place load) :
    ∀ ops : List Op, SameWrites sets (leavesOps ops) (leavesOps (rewriteOps edit ops))
  | [] => by
    rw [rewriteOps]
    exact SameWrites.refl _
  | op :: ops => by
    rw [rewriteOps, leavesOps_cons, leavesOps_append]
    exact (h.sameWrites_op op).append (h.sameWrites ops)

end

/-- A leaf that is kept. -/
theorem Puts.rewriteOps_leaf (h : Puts sets edit place load) {l : Leaf}
    (hl : place (.leaf l) = false) (ops : List Op) :
    rewriteOps edit (.leaf l :: ops) = .leaf l :: rewriteOps edit ops := by
  rw [rewriteOps, rewriteOp, h.none _ hl]
  rfl

/-- A loop that is kept, with its body rewritten. -/
theorem Puts.rewriteOps_loop (h : Puts sets edit place load) {header : LoopHeader} {body : List Op}
    (hloop : place (.loop header body) = false) (ops : List Op) :
    rewriteOps edit (.loop header body :: ops)
      = .loop header (rewriteOps edit body) :: rewriteOps edit ops := by
  rw [rewriteOps, rewriteOp, h.none _ hloop]
  rfl

/-- An operation that is replaced. -/
theorem Puts.rewriteOps_place (h : Puts sets edit place load) {op : Op} (hop : place op = true)
    (ops : List Op) : ∃ rest, rewriteOps edit (op :: ops) = load :: rest := by
  obtain ⟨rest, hedit⟩ := h.first op hop
  exact ⟨rest ++ rewriteOps edit ops, by rw [rewriteOps, rewriteOp_of_some hedit]; rfl⟩

/-- A block that does not work on the tile does not load it. -/
theorem isTileLoad_eq_false {l : Leaf} (hl : l.tile? ≠ some tile) :
    isTileLoad tile (.leaf l) = false := by
  cases l with
  | load t _ _ _ => exact decide_eq_false fun heq => hl (congrArg some heq)
  | _ => rfl

/-- The first of two results, and the second without it. -/
theorem rel_or {R : List Leaf → List Leaf → Prop} {a a' b b' : Option (List Leaf)}
    (ha : Option.Rel R a a') (hb : Option.Rel R b b') : Option.Rel R (a.or b) (a'.or b') := by
  cases ha with
  | some h => exact .some h
  | none => exact hb

/-- A relation that a function respects. -/
theorem rel_map {R : List Leaf → List Leaf → Prop} {a a' : Option (List Leaf)}
    {g g' : List Leaf → List Leaf} (ha : Option.Rel R a a')
    (hg : ∀ run run', R run run' → R (g run) (g' run')) : Option.Rel R (a.map g) (a'.map g') := by
  cases ha with
  | some h => exact .some (hg _ _ h)
  | none => exact .none

mutual

/-- An operation before the place is still before it, and the load is not in it. -/
theorem Puts.runsBefore_op (h : Puts sets edit place load) (hload : isTileLoad tile load = true) :
    ∀ op : Op, place op = false → ¬ HasTile [op] tile → ∀ ops : List Op,
      ∃ op', rewriteOps edit (op :: ops) = op' :: rewriteOps edit ops ∧
        isTileLoad tile op' = false ∧ (∀ r, isReadOf r op' = isReadOf r op) ∧
        SameWrites sets (leavesOp op) (leavesOp op') ∧
        Option.Rel (SameWrites sets) (runsBeforeOp place op) (runsBeforeOp (isTileLoad tile) op')
  | .leaf l, hl, hfresh, ops => by
    refine ⟨.leaf l, h.rewriteOps_leaf hl ops, isTileLoad_eq_false (hasTile_leaf.not.mp hfresh),
      fun _ => rfl, SameWrites.refl _, ?_⟩
    rw [runsBeforeOp, runsBeforeOp]
    exact .none
  | .loop header body, hloop, hfresh, ops => by
    have hwrites := h.sameWrites body
    refine ⟨.loop header (rewriteOps edit body), h.rewriteOps_loop hloop ops, rfl, fun _ => rfl,
      by rwa [leavesOp_loop, leavesOp_loop], ?_⟩
    rw [runsBeforeOp, runsBeforeOp]
    exact rel_map (h.runsBefore hload body (hasTile_loop.not.mp hfresh)) fun _ _ _ => hwrites

/-- **Before the place** and before the load the same elements are written. -/
theorem Puts.runsBefore (h : Puts sets edit place load) (hload : isTileLoad tile load = true) :
    ∀ ops : List Op, ¬ HasTile ops tile → Option.Rel (SameWrites sets)
      (runsBefore place ops) (runsBefore (isTileLoad tile) (rewriteOps edit ops))
  | [], _ => by
    rw [rewriteOps, Matrix.runsBefore, Matrix.runsBefore]
    exact .none
  | op :: ops, hfresh => by
    rw [hasTile_cons, not_or] at hfresh
    have hrest := h.runsBefore hload ops hfresh.2
    cases hop : place op with
    | true =>
      obtain ⟨rest, hrewrite⟩ := h.rewriteOps_place hop ops
      rw [hrewrite, Matrix.runsBefore, Matrix.runsBefore, if_pos hop, if_pos hload]
      exact .some (SameWrites.refl [])
    | false =>
      obtain ⟨op', hrewrite, hno, -, hwrites, hinside⟩ := h.runsBefore_op hload op hop hfresh.1 ops
      rw [hrewrite, Matrix.runsBefore, Matrix.runsBefore, if_neg (by simp [hop]),
        if_neg (by simp [hno])]
      exact rel_or hinside (rel_map hrest fun _ _ hrun => hwrites.append hrun)

end

mutual

/-- So is one between the read and the place. -/
theorem Puts.runsBetween_op (h : Puts sets edit place load) (hload : isTileLoad tile load = true)
    {r : ValueId} (hread : ∀ op, isReadOf r op = true → place op = false) :
    ∀ op : Op, place op = false → ¬ HasTile [op] tile → ∀ {op' : Op} {ops : List Op},
      rewriteOps edit (op :: ops) = op' :: rewriteOps edit ops → Option.Rel (SameWrites sets)
        (runsBetweenOp r place op) (runsBetweenOp r (isTileLoad tile) op')
  | .leaf l, hl, _, op', ops, hrewrite => by
    obtain rfl := (List.cons.inj ((h.rewriteOps_leaf hl ops).symm.trans hrewrite)).1
    rw [runsBetweenOp, runsBetweenOp]
    exact .none
  | .loop header body, hloop, hfresh, op', ops, hrewrite => by
    obtain rfl := (List.cons.inj ((h.rewriteOps_loop hloop ops).symm.trans hrewrite)).1
    rw [runsBetweenOp, runsBetweenOp]
    exact h.runsBetween hload hread body (hasTile_loop.not.mp hfresh)

/-- **Between a read and the place**, and between it and the load, the same elements are written. -/
theorem Puts.runsBetween (h : Puts sets edit place load) (hload : isTileLoad tile load = true)
    {r : ValueId} (hread : ∀ op, isReadOf r op = true → place op = false) :
    ∀ ops : List Op, ¬ HasTile ops tile → Option.Rel (SameWrites sets)
      (runsBetween r place ops) (runsBetween r (isTileLoad tile) (rewriteOps edit ops))
  | [], _ => by
    rw [rewriteOps, Matrix.runsBetween, Matrix.runsBetween]
    exact .none
  | op :: ops, hfresh => by
    rw [hasTile_cons, not_or] at hfresh
    cases hop : place op with
    | true =>
      obtain ⟨rest, hrewrite⟩ := h.rewriteOps_place hop ops
      have hnot : ¬ isReadOf r op = true := fun hr => by simp [hread op hr] at hop
      have hnot' : ¬ isReadOf r load = true := by
        cases load with
        | leaf l => cases l <;> simp [isTileLoad, isReadOf] at *
        | loop header body => simp [isReadOf]
      rw [hrewrite, Matrix.runsBetween, Matrix.runsBetween, if_neg hnot, if_neg hnot', if_pos hop,
        if_pos hload]
      exact .none
    | false =>
      obtain ⟨op', hrewrite, hno, hsame, -⟩ := h.runsBefore_op hload op hop hfresh.1 ops
      rw [hrewrite, Matrix.runsBetween, Matrix.runsBetween, hsame, if_neg (by simp [hop] : ¬ place op = true),
        if_neg (by simp [hno] : ¬ isTileLoad tile op' = true)]
      split
      · exact h.runsBefore hload ops hfresh.2
      · exact rel_or (h.runsBetween_op hload hread op hop hfresh.1 hrewrite)
          (h.runsBetween hload hread ops hfresh.2)

end

end Puts

/-! ### The rewritten updates -/

section Updates

variable {f : Function} {ops ops' : List Op} {chain : AccumulatorChain} {ctx : TileContext}
  {vector : ValueId} {access : Access}

/-- With a loop, the place is the loop with the written value among its results. -/
theorem isReplaced_loop {op : Op} {header : LoopHeader} {body : List Op}
    (hfind : findLoop vector ops = some (header, body)) :
    isReplaced ops chain vector op = true ↔ ∃ h inner, op = .loop h inner ∧ vector ∈ h.results := by
  cases op with
  | leaf l => simp [isReplaced, hfind]
  | loop h inner => simp [isReplaced, hfind]

/-- Without one, it is the first update. -/
theorem isReplaced_contract {op : Op} (hfind : findLoop vector ops = none) :
    isReplaced ops chain vector op = true ↔
      ∃ c lhs rhs acc, op = .leaf (.contract (chain.updates.headD 0) c lhs rhs acc) := by
  cases op with
  | leaf l => cases l <;> simp [isReplaced, hfind]
  | loop h inner => simp [isReplaced, hfind]

/-- What stands in the place of the loop writes what the loop writes. -/
theorem sameWrites_rewriteLoop (sets : WriteSets) (ctx : TileContext) (off : Nat) (read : Option Access)
    (zero : ConstAttr) (h : LoopHeader) (body : List Op) :
    SameWrites sets (leavesOp (.loop h body))
      (leavesOps (rewriteLoop ops chain ctx off read zero h body)) := by
  have hinit : SameWrites sets [] (leavesOp (initOp ctx read)) := by
    apply SameWrites.of_silent
    · simp
    · cases read <;> simp [initOp, Leaf.isSilent]
  have hbody : SameWrites sets (leavesOps body) (leavesOps (cloneBody ops chain ctx off
    (h.iv :: h.args.eraseIdx (accIdx h chain.initVal)) body)) := sameWrites_cloneBody sets body
  have hzero : SameWrites sets []
      [.constant (h.results.getD (accIdx h chain.initVal) 0) zero] := by
    apply SameWrites.of_silent <;> simp [Leaf.isSilent]
  simpa [rewriteLoop] using (hinit.append hbody).append hzero

/-- The edit of the pass puts the load of the tile in the place of the loop or first update. -/
theorem puts_rewriteUpdates (sets : WriteSets)
    (hrewrite : rewriteUpdates f ops chain ctx vector = .ok ops')
    (hread : readOp (findDef f.body chain.initVal) = some access) :
    ∃ edit, Puts sets edit (isReplaced ops chain vector) (initOp ctx (some access)) ∧
      ops' = rewriteOps edit ops := by
  rcases rewriteUpdates_eq_ok hrewrite with ⟨header, body, zero, hfind, -, rfl⟩ |
    ⟨result, c, lhs, rhs, acc, zero, hfind, hdef, -, rfl⟩
  · rw [hread]
    refine ⟨_, ⟨fun op hop => ?_, fun op hop => ?_, fun op new hedit => ?_⟩, rfl⟩
    · obtain ⟨h, inner, rfl, hmem⟩ := (isReplaced_loop hfind).mp hop
      exact ⟨_, if_pos hmem⟩
    · refine Option.eq_none_iff_forall_ne_some.mpr fun new hedit => ?_
      obtain ⟨h, inner, rfl, hmem, -⟩ := replaceLoop_eq_some hedit
      rw [(isReplaced_loop hfind).mpr ⟨h, inner, rfl, hmem⟩] at hop
      cases hop
    · obtain ⟨h, inner, rfl, -, rfl⟩ := replaceLoop_eq_some hedit
      exact sameWrites_rewriteLoop sets ctx _ (some access) zero h inner
  · obtain rfl := findDef_contract hdef
    rw [hread]
    refine ⟨_, ⟨fun op hop => ?_, fun op hop => ?_, fun op new hedit => ?_⟩, rfl⟩
    · obtain ⟨c, lhs, rhs, acc, rfl⟩ := (isReplaced_contract hfind).mp hop
      exact ⟨_, if_pos rfl⟩
    · refine Option.eq_none_iff_forall_ne_some.mpr fun new hedit => ?_
      obtain ⟨c, lhs, rhs, acc, rfl, -⟩ := replaceContract_eq_some hedit
      rw [(isReplaced_contract hfind).mpr ⟨c, lhs, rhs, acc, rfl⟩] at hop
      cases hop
    · obtain ⟨c, lhs, rhs, acc, rfl, rfl⟩ := replaceContract_eq_some hedit
      refine SameWrites.of_silent (by simp [Leaf.isSilent]) ?_
      simp [rewriteContract, initOp, Leaf.isSilent]

/-- The read is not what is replaced. -/
theorem isReplaced_isReadOf {r : ValueId} {op : Op} (h : isReadOf r op = true) :
    isReplaced ops chain vector op = false := by
  unfold isReadOf at h
  split at h
  · unfold isReplaced
    cases findLoop vector ops <;> rfl
  · cases h

/-- **Where the tile is loaded**: between the read and the load the elements are written that are
    written between the read and the loop or first update. -/
theorem runsBetween_rewriteUpdates (sets : WriteSets)
    (hrewrite : rewriteUpdates f ops chain ctx vector = .ok ops')
    (hread : readOp (findDef f.body chain.initVal) = some access) (hfresh : ¬ HasTile ops ctx.tile)
    {run : List Leaf}
    (hrun : runsBetween chain.initVal (isReplaced ops chain vector) ops = some run) :
    ∃ run', runsBetween chain.initVal (isTileLoad ctx.tile) ops' = some run' ∧
      SameWrites sets run run' := by
  obtain ⟨edit, hputs, rfl⟩ := puts_rewriteUpdates sets hrewrite hread
  have hload : isTileLoad ctx.tile (initOp ctx (some access)) = true := decide_eq_true rfl
  have hrel := hputs.runsBetween hload (fun _ => isReplaced_isReadOf (r := chain.initVal)) ops hfresh
  rw [hrun] at hrel
  cases hrewritten : runsBetween chain.initVal (isTileLoad ctx.tile) (rewriteOps edit ops) with
  | none =>
    rw [hrewritten] at hrel
    cases hrel
  | some run' =>
    rw [hrewritten] at hrel
    cases hrel with
    | some hsame => exact ⟨run', rfl, hsame⟩

end Updates

end CoralNPU.Matrix
