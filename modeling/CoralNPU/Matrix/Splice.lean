import CoralNPU.Matrix.Accumulate

namespace CoralNPU.Matrix

open Lib

/-!
# Matrix — an operation in the middle of a block

The pass replaces one operation of a block, and the transfer write after it.

* `rewriteOps_eq_self` — an edit that matches nothing of a block;
* `Executed`, `evalOps_keeps` — what every executed operation keeps, the execution keeps;
* `evalOps_rewriteOps_keeps` — what an edited block keeps;
* `evalOps_hidden` — a block that does not read the replaced value does the same.
-/

/-! ### Edits -/

section Edit

variable {edit : Op → Option (List Op)}

/-- Rewriting two blocks, one after the other. -/
theorem rewriteOps_append (ops ops' : List Op) :
    rewriteOps edit (ops ++ ops') = rewriteOps edit ops ++ rewriteOps edit ops' := by
  induction ops with
  | nil => rw [rewriteOps, List.nil_append, List.nil_append]
  | cons op ops ih => rw [List.cons_append, rewriteOps, ih, rewriteOps, List.append_assoc]

/-- An operation that the edit matches. -/
theorem rewriteOp_of_some {op : Op} {new : List Op} (h : edit op = some new) :
    rewriteOp edit op = new := by
  cases op with
  | leaf op => rw [rewriteOp, h, Option.getD_some]
  | loop header body => rw [rewriteOp, h]

mutual

/-- An operation without a match stays as it is. -/
theorem rewriteOp_eq_self (hloops : ∀ h body, edit (.loop h body) = none) :
    ∀ op : Op, (∀ l ∈ leavesOp op, edit (.leaf l) = none) → rewriteOp edit op = [op]
  | .leaf op, hleaves => by
    rw [rewriteOp, hleaves op (by simp), Option.getD_none]
  | .loop header body, hleaves => by
    rw [leavesOp_loop] at hleaves
    rw [rewriteOp, hloops, rewriteOps_eq_self hloops body hleaves]

/-- An edit of operations without a region that matches none of a block. -/
theorem rewriteOps_eq_self (hloops : ∀ h body, edit (.loop h body) = none) :
    ∀ ops : List Op, (∀ l ∈ leavesOps ops, edit (.leaf l) = none) → rewriteOps edit ops = ops
  | [], _ => by rw [rewriteOps]
  | op :: ops, hleaves => by
    rw [leavesOps_cons] at hleaves
    rw [rewriteOps, rewriteOp_eq_self hloops op fun l hl => hleaves l (List.mem_append_left _ hl),
      rewriteOps_eq_self hloops ops fun l hl => hleaves l (List.mem_append_right _ hl)]
    rfl

end

/-- An edit that matches no operation of a block without loops. -/
theorem rewriteOps_straight {ops : List Op} (hops : Straight ops)
    (hleaves : ∀ l ∈ leavesOps ops, edit (.leaf l) = none) : rewriteOps edit ops = ops := by
  induction ops with
  | nil => rw [rewriteOps]
  | cons op ops ih =>
    obtain ⟨l, rfl⟩ := hops op List.mem_cons_self
    rw [leavesOps_cons, leavesOp_leaf] at hleaves
    rw [rewriteOps, rewriteOp, hleaves l (by simp), Option.getD_none,
      ih (fun op hop => hops op (List.mem_cons_of_mem _ hop))
        fun l hl => hleaves l (List.mem_append_right _ hl)]
    rfl

end Edit

/-! ### What an execution keeps -/

/-- **The rule for a loop**: what every iteration keeps holds at the end. -/
theorem evalLoop_invariant {Val Mem : Type}
    {body : Env Val → State Val Mem → Option (Env Val × State Val Mem)} {h : LoopHeader}
    {env : Env Val} {iv : Nat → Val} (R : List Val → State Val Mem → Prop)
    (hstep : ∀ iv vals st env₁ st₁ vals₁, R vals st →
      body (h.bindArgs env iv vals) st = some (env₁, st₁) → h.yields.mapM env₁ = some vals₁ →
      R vals₁ st₁) {n : Nat} :
    ∀ {k : Nat} {vals vals₁ : List Val} {st st₁ : State Val Mem}, R vals st →
      evalLoop body h env iv n k vals st = some (vals₁, st₁) → R vals₁ st₁ := by
  induction n with
  | zero =>
    intro k vals vals₁ st st₁ hR h
    obtain ⟨rfl, rfl⟩ := Prod.mk.inj (Option.some.inj h)
    exact hR
  | succ n ih =>
    intro k vals vals₁ st st₁ hR h
    obtain ⟨env₂, st₂, vals₂, hbody, hyields, hrest⟩ := evalLoop_succ.mp h
    exact ih (hstep (iv k) vals st env₂ st₂ vals₂ hR hbody hyields) hrest

/-- The last iteration. -/
theorem evalLoop_succ_last {Val Mem : Type}
    {body : Env Val → State Val Mem → Option (Env Val × State Val Mem)} {h : LoopHeader}
    {env : Env Val} {iv : Nat → Val} {n : Nat} :
    ∀ {k : Nat} {vals : List Val} {st : State Val Mem} {final : List Val × State Val Mem},
      evalLoop body h env iv (n + 1) k vals st = some final →
      ∃ vals₁ st₁ env₂, evalLoop body h env iv n k vals st = some (vals₁, st₁) ∧
        body (h.bindArgs env (iv (k + n)) vals₁) st₁ = some (env₂, final.2) ∧
        h.yields.mapM env₂ = some final.1 := by
  induction n with
  | zero =>
    intro k vals st final h
    obtain ⟨env₁, st₁, vals₁, hbody, hyields, hend⟩ := evalLoop_succ.mp h
    obtain rfl := Option.some.inj hend
    exact ⟨vals, st, env₁, rfl, hbody, hyields⟩
  | succ n ih =>
    intro k vals st final h
    obtain ⟨env₁, st₁, vals₁, hbody, hyields, hrest⟩ := evalLoop_succ.mp h
    obtain ⟨vals₂, st₂, env₂, hloop, hbody₂, hyields₂⟩ := ih hrest
    refine ⟨vals₂, st₂, env₂, evalLoop_succ.mpr ⟨env₁, st₁, vals₁, hbody, hyields, hloop⟩, ?_,
      hyields₂⟩
    rwa [show k + (n + 1) = k + 1 + n by omega]

section Executed

variable {Val Mem : Type} {I : Interp Val Mem}

/-- The execution of a block executes an operation, on the values `vals` of its operands. -/
inductive Executed (I : Interp Val Mem) :
    List Op → Env Val → State Val Mem → Leaf → List Val → State Val Mem → Prop
  | here {l : Leaf} {ops : List Op} {env : Env Val} {st : State Val Mem} {vals : List Val}
      (hvals : l.operands.mapM env = some vals) : Executed I (.leaf l :: ops) env st l vals st
  | inside {h : LoopHeader} {body ops : List Op} {env : Env Val} {st st₁ st' : State Val Mem}
      {lb ub step : Val} {inits args vals : List Val} {n : Nat} {l : Leaf}
      (hlb : env h.lowerBound = some lb) (hub : env h.upperBound = some ub)
      (hstep : env h.step = some step) (hinits : h.inits.mapM env = some inits)
      (hn : n < I.tripCount lb ub step)
      (hloop : evalLoop (evalOps I body) h env (I.induction lb step) n 0 inits st = some (args, st₁))
      (hbody : Executed I body (h.bindArgs env (I.induction lb step n) args) st₁ l vals st') :
      Executed I (.loop h body :: ops) env st l vals st'
  | after {op : Op} {ops : List Op} {env env₁ : Env Val} {st st₁ st' : State Val Mem}
      {vals : List Val} {l : Leaf} (hop : evalOp I op env st = some (env₁, st₁))
      (hops : Executed I ops env₁ st₁ l vals st') : Executed I (op :: ops) env st l vals st'

/-- What is executed in a block is executed if more follows. -/
theorem Executed.append_left {ops : List Op} (ops' : List Op) {env : Env Val}
    {st st' : State Val Mem} {l : Leaf} {vals : List Val} (h : Executed I ops env st l vals st') :
    Executed I (ops ++ ops') env st l vals st' := by
  induction h with
  | here hvals => exact .here hvals
  | inside hlb hub hstep hinits hn hloop hbody _ =>
    exact .inside hlb hub hstep hinits hn hloop hbody
  | after hop _ ih => exact .after hop ih

/-- And if more comes before. -/
theorem Executed.append_right {ops : List Op} :
    ∀ {pre : List Op} {env env₁ : Env Val} {st st₁ st' : State Val Mem} {l : Leaf}
      {vals : List Val}, evalOps I pre env st = some (env₁, st₁) →
      Executed I ops env₁ st₁ l vals st' → Executed I (pre ++ ops) env st l vals st' := by
  intro pre
  induction pre with
  | nil =>
    intro env env₁ st st₁ st' l vals hpre h
    rw [evalOps_nil] at hpre
    obtain ⟨rfl, rfl⟩ := Prod.mk.inj (Option.some.inj hpre)
    exact h
  | cons op pre ih =>
    intro env env₁ st st₁ st' l vals hpre h
    obtain ⟨env₂, st₂, hop, hrest⟩ := evalOps_cons.mp hpre
    exact .after hop (ih hrest h)

mutual

/-- **A property that every executed operation keeps** is kept by the whole. -/
theorem evalOp_keeps {P : State Val Mem → Prop} :
    ∀ (op : Op) {env env₁ : Env Val} {st st₁ : State Val Mem},
      (∀ l vals st', Executed I [op] env st l vals st' → P st' → P (I.effect l vals st')) →
      evalOp I op env st = some (env₁, st₁) → P st → P st₁
  | .leaf op, env, env₁, st, st₁, hkeeps, h, hP => by
    obtain ⟨vals, hvals, heq⟩ := evalOp_leaf.mp h
    obtain ⟨-, rfl⟩ := Prod.mk.inj heq
    exact hkeeps op vals st (.here hvals) hP
  | .loop header body, env, env₁, st, st₁, hkeeps, h, hP => by
    obtain ⟨lb, ub, step, inits, vals', st₂, hlb, hub, hstep, hinits, hloop, heq⟩ := evalOp_loop.mp h
    obtain ⟨-, rfl⟩ := Prod.mk.inj heq
    -- by induction on the iterations that are done
    have hall : ∀ n ≤ I.tripCount lb ub step, ∀ args st', evalLoop (evalOps I body) header env
        (I.induction lb step) n 0 inits st = some (args, st') → P st' := by
      intro n
      induction n with
      | zero =>
        intro _ args st' h
        obtain ⟨-, rfl⟩ := Prod.mk.inj (Option.some.inj h)
        exact hP
      | succ n ih =>
        intro hn args st' h
        obtain ⟨args₁, st₁, env₂, hloop₁, hbody, -⟩ := evalLoop_succ_last h
        rw [Nat.zero_add] at hbody
        exact evalOps_keeps body (fun l vals st' hexec =>
          hkeeps l vals st' (.inside hlb hub hstep hinits hn hloop₁ hexec)) hbody
          (ih (Nat.le_of_succ_le hn) args₁ st₁ hloop₁)
    exact hall _ (Nat.le_refl _) _ _ hloop

/-- **What every executed operation keeps**, the execution keeps. -/
theorem evalOps_keeps {P : State Val Mem → Prop} :
    ∀ (ops : List Op) {env env₁ : Env Val} {st st₁ : State Val Mem},
      (∀ l vals st', Executed I ops env st l vals st' → P st' → P (I.effect l vals st')) →
      evalOps I ops env st = some (env₁, st₁) → P st → P st₁
  | [], env, env₁, st, st₁, _, h, hP => by
    rw [evalOps_nil] at h
    obtain ⟨-, rfl⟩ := Prod.mk.inj (Option.some.inj h)
    exact hP
  | op :: ops, env, env₁, st, st₁, hkeeps, h, hP => by
    obtain ⟨env₂, st₂, hop, hops⟩ := evalOps_cons.mp h
    refine evalOps_keeps ops (fun l vals st' hexec => hkeeps l vals st' (.after hop hexec)) hops ?_
    exact evalOp_keeps op (fun l vals st' hexec => hkeeps l vals st' (hexec.append_left ops)) hop hP

end

/-- An executed operation is an operation of the block. -/
theorem Executed.mem {ops : List Op} {env : Env Val} {st st' : State Val Mem} {l : Leaf}
    {vals : List Val} (h : Executed I ops env st l vals st') : l ∈ leavesOps ops := by
  induction h with
  | here => simp
  | inside _ _ _ _ _ _ _ ih =>
    rw [leavesOps_cons, leavesOp_loop]
    exact List.mem_append_left _ ih
  | after _ _ ih =>
    rw [leavesOps_cons]
    exact List.mem_append_right _ ih

end Executed

/-! ### What an edited block keeps -/

section Edited

variable {Val Mem : Type} {I : Interp Val Mem} {edit : Op → Option (List Op)}
  {P : State Val Mem → Prop}

mutual

/-- So is one that the replacements keep, by the rewritten operation. -/
theorem evalOp_rewriteOp_keeps
    (hnew : ∀ op new, edit op = some new → ∀ env st env₁ st₁,
      evalOps I new env st = some (env₁, st₁) → P st → P st₁) :
    ∀ (op : Op) {env env₁ : Env Val} {st st₁ : State Val Mem},
      (∀ l ∈ leavesOp op, edit (.leaf l) = none → ∀ vals st, P st → P (I.effect l vals st)) →
      evalOps I (rewriteOp edit op) env st = some (env₁, st₁) → P st → P st₁
  | .leaf l, env, env₁, st, st₁, hleaves, h, hP => by
    rw [rewriteOp] at h
    cases hedit : edit (.leaf l) with
    | none =>
      rw [hedit, Option.getD_none] at h
      obtain ⟨env₂, st₂, hop, hend⟩ := evalOps_cons.mp h
      rw [evalOps_nil] at hend
      obtain ⟨rfl, rfl⟩ := Prod.mk.inj (Option.some.inj hend)
      obtain ⟨vals, -, heq⟩ := evalOp_leaf.mp hop
      obtain ⟨-, rfl⟩ := Prod.mk.inj heq
      exact hleaves l (by simp) hedit vals st hP
    | some new =>
      rw [hedit, Option.getD_some] at h
      exact hnew _ new hedit env st env₁ st₁ h hP
  | .loop header body, env, env₁, st, st₁, hleaves, h, hP => by
    rw [leavesOp_loop] at hleaves
    rw [rewriteOp] at h
    split at h
    next new hedit => exact hnew _ new hedit env st env₁ st₁ h hP
    next =>
      obtain ⟨env₂, st₂, hop, hend⟩ := evalOps_cons.mp h
      rw [evalOps_nil] at hend
      obtain ⟨rfl, rfl⟩ := Prod.mk.inj (Option.some.inj hend)
      obtain ⟨lb, ub, step, vals, vals', st₃, -, -, -, -, hloop, heq⟩ := evalOp_loop.mp hop
      obtain ⟨-, rfl⟩ := Prod.mk.inj heq
      exact evalLoop_invariant (fun _ st => P st) (fun _ _ _ _ _ _ hP hbody _ =>
        evalOps_rewriteOps_keeps hnew body hleaves hbody hP) hP hloop

/-- **What an edited block keeps**: what the replacements and the other operations keep. -/
theorem evalOps_rewriteOps_keeps
    (hnew : ∀ op new, edit op = some new → ∀ env st env₁ st₁,
      evalOps I new env st = some (env₁, st₁) → P st → P st₁) :
    ∀ (ops : List Op) {env env₁ : Env Val} {st st₁ : State Val Mem},
      (∀ l ∈ leavesOps ops, edit (.leaf l) = none → ∀ vals st, P st → P (I.effect l vals st)) →
      evalOps I (rewriteOps edit ops) env st = some (env₁, st₁) → P st → P st₁
  | [], env, env₁, st, st₁, _, h, hP => by
    rw [rewriteOps, evalOps_nil] at h
    obtain ⟨-, rfl⟩ := Prod.mk.inj (Option.some.inj h)
    exact hP
  | op :: ops, env, env₁, st, st₁, hleaves, h, hP => by
    rw [leavesOps_cons] at hleaves
    rw [rewriteOps] at h
    obtain ⟨env₂, st₂, hop, hops⟩ := evalOps_append.mp h
    exact evalOps_rewriteOps_keeps hnew ops (fun l hl => hleaves l (List.mem_append_right _ hl)) hops
      (evalOp_rewriteOp_keeps hnew op (fun l hl => hleaves l (List.mem_append_left _ hl)) hop hP)

end

end Edited

/-! ### A value that a block does not read -/

section Hidden

variable {Val Mem : Type} {I : Interp Val Mem} {tile : Nat} {v : ValueId}

/-- An operation that does not read the value. -/
theorem evalOp_hidden {l : Leaf} (hv : v ∉ l.operands) (htile : l.tile? ≠ some tile)
    {env env' env₁ : Env Val} {st st' st₁ : State Val Mem} (henv : ∀ u, u ≠ v → env' u = env u)
    (hst : AgreeExcept tile st st') (h : evalOp I (.leaf l) env st = some (env₁, st₁)) :
    ∃ env₁' st₁', evalOp I (.leaf l) env' st' = some (env₁', st₁') ∧
      (∀ u, u ≠ v → env₁' u = env₁ u) ∧ AgreeExcept tile st₁ st₁' ∧
      st₁'.tiles tile = st'.tiles tile := by
  obtain ⟨vals, hvals, heq⟩ := evalOp_leaf.mp h
  obtain ⟨rfl, rfl⟩ := Prod.mk.inj heq
  have hvals' : l.operands.mapM env' = some vals := by
    rw [mapM_congr fun u hu => henv u fun heq => hv (heq ▸ hu), hvals]
  obtain ⟨hst₁, hkept⟩ := Interp.effect_agreeExcept (I := I) htile vals hst
  refine ⟨_, _, evalOp_leaf.mpr ⟨vals, hvals', rfl⟩, fun u hu => ?_, hst₁, hkept⟩
  rw [hst.mem, Env.bind, Env.bind]
  split
  · rfl
  · exact henv u hu

/-- **A block that does not read the value** does the same whatever it is. -/
theorem evalOps_hidden :
    ∀ (ops : List Op) {env env' env₁ : Env Val} {st st' st₁ : State Val Mem}, Straight ops →
      v ∉ usesOps ops → (∀ l ∈ leavesOps ops, l.tile? ≠ some tile) →
      (∀ u, u ≠ v → env' u = env u) → AgreeExcept tile st st' →
      evalOps I ops env st = some (env₁, st₁) →
      ∃ env₁' st₁', evalOps I ops env' st' = some (env₁', st₁') ∧
        (∀ u, u ≠ v → env₁' u = env₁ u) ∧ AgreeExcept tile st₁ st₁' ∧
        st₁'.tiles tile = st'.tiles tile := by
  intro ops
  induction ops with
  | nil =>
    intro env env' env₁ st st' st₁ _ _ _ henv hst h
    rw [evalOps_nil] at h
    obtain ⟨rfl, rfl⟩ := Prod.mk.inj (Option.some.inj h)
    exact ⟨env', st', evalOps_nil, henv, hst, rfl⟩
  | cons op ops ih =>
    intro env env' env₁ st st' st₁ hstraight hv htiles henv hst h
    obtain ⟨l, rfl⟩ := hstraight op List.mem_cons_self
    rw [usesOps, List.mem_append, not_or, usesOp] at hv
    rw [leavesOps_cons, leavesOp_leaf] at htiles
    obtain ⟨env₂, st₂, hop, hops⟩ := evalOps_cons.mp h
    obtain ⟨env₂', st₂', hop', henv₂, hst₂, hkept₂⟩ :=
      evalOp_hidden hv.1 (htiles l (by simp)) henv hst hop
    obtain ⟨env₃', st₃', hops', henv₃, hst₃, hkept₃⟩ :=
      ih (fun op' hop' => hstraight op' (List.mem_cons_of_mem _ hop')) hv.2
        (fun l' hl' => htiles l' (List.mem_append_right _ hl')) henv₂ hst₂ hops
    exact ⟨env₃', st₃', evalOps_cons.mpr ⟨env₂', st₂', hop', hops'⟩, henv₃, hst₃,
      hkept₃.trans hkept₂⟩

end Hidden

end CoralNPU.Matrix
