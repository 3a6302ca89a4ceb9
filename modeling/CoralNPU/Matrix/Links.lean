import CoralNPU.Matrix.Site

namespace CoralNPU.Matrix

open Lib

/-!
# Matrix — the links of a chain

* `Links` — contractions that accumulate one into the next.
* `Straight` — a block without loops; `Looped` — one with a single loop, which carries one value.
* `Trail.links`, `Trail.links_looped` — what the analysis of a chain goes through is links: before
  the loop, in its body and after it.
* `MemUse` — which operations use a value that is used once.
-/

/-! ### Definitions and where they come from -/

mutual

/-- A definition is found where it is: an operation, a result of a loop or an argument of its body.
    -/
theorem def_sound_op {v : ValueId} {d : Def} :
    ∀ (op : Op) {ops : List Op} {scope : List ValueId}, (v, d) ∈ defsOp op →
      (∃ l, d = .leaf l ∧ v ∈ l.results) ∨
        ∃ inner h body k, LoopAt scope (op :: ops) inner h body ∧
          ((d = .loopResult h k ∧ h.results[k]? = some v) ∨
            (d = .blockArg h k ∧ h.blockArgs[k]? = some v))
  | .leaf l, _, _, hmem => by
    rw [defsOp, List.mem_map] at hmem
    obtain ⟨r, hr, heq⟩ := hmem
    obtain ⟨rfl, rfl⟩ := Prod.mk.inj heq
    exact .inl ⟨l, rfl, hr⟩
  | .loop h body, _, scope, hmem => by
    rw [defsOp, List.mem_append, List.mem_append] at hmem
    rcases hmem with hmem | hmem | hmem
    · obtain ⟨⟨u, k⟩, hk, heq⟩ := List.mem_map.mp hmem
      obtain ⟨rfl, rfl⟩ := Prod.mk.inj heq
      exact .inr ⟨scope, h, body, k, .here, .inr ⟨rfl, List.mem_zipIdx_iff_getElem?.mp hk⟩⟩
    · rcases def_sound body _ hmem with hleaf | ⟨inner, h', body', k, hat, hd⟩
      · exact .inl hleaf
      · exact .inr ⟨inner, h', body', k, .inside hat, hd⟩
    · obtain ⟨⟨u, k⟩, hk, heq⟩ := List.mem_map.mp hmem
      obtain ⟨rfl, rfl⟩ := Prod.mk.inj heq
      exact .inr ⟨scope, h, body, k, .here, .inl ⟨rfl, List.mem_zipIdx_iff_getElem?.mp hk⟩⟩

/-- A definition of a block is that of a result of one of its operations, or of a block argument of
    one of its loops. -/
theorem def_sound {v : ValueId} {d : Def} :
    ∀ (ops : List Op) (scope : List ValueId), (v, d) ∈ defsOps ops →
      (∃ l, d = .leaf l ∧ v ∈ l.results) ∨
        ∃ inner h body k, LoopAt scope ops inner h body ∧
          ((d = .loopResult h k ∧ h.results[k]? = some v) ∨
            (d = .blockArg h k ∧ h.blockArgs[k]? = some v))
  | [], _, hmem => by
    rw [defsOps] at hmem
    cases hmem
  | op :: ops, _, hmem => by
    rw [defsOps_cons, List.mem_append] at hmem
    rcases hmem with hmem | hmem
    · exact def_sound_op op hmem
    · rcases def_sound ops _ hmem with hleaf | ⟨inner, h, body, k, hat, hd⟩
      · exact .inl hleaf
      · exact .inr ⟨inner, h, body, k, .after hat, hd⟩

end

/-- A contraction defines the value it is found for. -/
theorem findDef_contract {ops : List Op} {v r lhs rhs acc : ValueId} {op : ContractionOp}
    (h : findDef ops v = some (.leaf (.contract r op lhs rhs acc))) : v = r := by
  rcases def_sound ops [] (mem_of_lookup h) with ⟨l, hl, hmem⟩ | ⟨_, _, _, _, _, hd | hd⟩
  · cases hl
    exact List.mem_singleton.mp hmem
  · cases hd.1
  · cases hd.1

/-! ### Links -/

/-- The contractions `us` accumulate one into the next, from `a` to `y`. -/
def Links (ops : List Op) : ValueId → List ValueId → ValueId → Prop
  | a, [], y => a = y
  | a, r :: us, y =>
    (∃ op lhs rhs, findDef ops r = some (.leaf (.contract r op lhs rhs a))) ∧ Links ops r us y

namespace Links

variable {ops : List Op} {a b y : ValueId} {us us' : List ValueId}

/-- Two parts of a chain of contractions. -/
theorem append : ∀ {us : List ValueId} {a : ValueId},
    Links ops a (us ++ us') y ↔ ∃ m, Links ops a us m ∧ Links ops m us' y
  | [], a => by simp [Links]
  | r :: us, a => by
    rw [List.cons_append, Links, append]
    constructor
    · rintro ⟨hdef, m, hm, h⟩
      exact ⟨m, ⟨hdef, hm⟩, h⟩
    · rintro ⟨m, ⟨hdef, hm⟩, h⟩
      exact ⟨hdef, m, hm, h⟩

/-- The last contraction of a chain. -/
theorem concat {r : ValueId} (h : Links ops a (us ++ [r]) y) :
    y = r ∧ ∃ v op lhs rhs, Links ops a us v ∧
      findDef ops r = some (.leaf (.contract r op lhs rhs v)) := by
  obtain ⟨v, hv, ⟨op, lhs, rhs, hdef⟩, rfl⟩ := append.mp h
  exact ⟨rfl, v, op, lhs, rhs, hv, hdef⟩

/-- A value that is no contraction ends no links. -/
theorem eq_nil (h : Links ops a us y)
    (hy : ∀ op lhs rhs acc, findDef ops y ≠ some (.leaf (.contract y op lhs rhs acc))) :
    us = [] ∧ a = y := by
  rcases List.eq_nil_or_concat us with rfl | ⟨us, r, rfl⟩
  · exact ⟨rfl, h⟩
  · rw [List.concat_eq_append] at h
    obtain ⟨rfl, v, op, lhs, rhs, -, hdef⟩ := h.concat
    exact absurd hdef (hy op lhs rhs v)

/-- Links that end in one value start from one of two values that are no contractions. -/
theorem start_unique : ∀ {us us' : List ValueId} {y : ValueId}, Links ops a us y →
    Links ops b us' y →
    (∀ op lhs rhs acc, findDef ops a ≠ some (.leaf (.contract a op lhs rhs acc))) →
    (∀ op lhs rhs acc, findDef ops b ≠ some (.leaf (.contract b op lhs rhs acc))) →
    a = b ∧ us = us' := by
  intro us
  induction us using List.reverseRecOn with
  | nil =>
    intro us' y h h' ha _
    obtain rfl : a = y := h
    obtain ⟨rfl, rfl⟩ := h'.eq_nil ha
    exact ⟨rfl, rfl⟩
  | append_singleton us r ih =>
    intro us' y h h' ha hb
    obtain ⟨rfl, v, op, lhs, rhs, hv, hdef⟩ := h.concat
    rcases List.eq_nil_or_concat us' with rfl | ⟨us', r', rfl⟩
    · obtain rfl : b = y := h'
      exact absurd hdef (hb op lhs rhs v)
    · rw [List.concat_eq_append] at h'
      obtain ⟨rfl, v', op', lhs', rhs', hv', hdef'⟩ := h'.concat
      cases hdef.symm.trans hdef'
      obtain ⟨rfl, rfl⟩ := ih hv hv' ha hb
      exact ⟨rfl, by rw [List.concat_eq_append]⟩

/-- Every link is a contraction, which accumulates into the start or another link. -/
theorem mem {us : List ValueId} : ∀ {a : ValueId}, Links ops a us y → ∀ r ∈ us,
    ∃ op lhs rhs acc, findDef ops r = some (.leaf (.contract r op lhs rhs acc)) ∧
      (acc = a ∨ acc ∈ us) := by
  induction us with
  | nil =>
    intro _ _ r hr
    cases hr
  | cons u us ih =>
    intro a h r hr
    obtain ⟨⟨op, lhs, rhs, hdef⟩, h⟩ := h
    rcases List.mem_cons.mp hr with rfl | hr
    · exact ⟨op, lhs, rhs, a, hdef, .inl rfl⟩
    · obtain ⟨op', lhs', rhs', acc, hdef', hacc⟩ := ih h r hr
      refine ⟨op', lhs', rhs', acc, hdef', .inr ?_⟩
      rcases hacc with rfl | hacc
      · exact List.mem_cons_self
      · exact List.mem_cons_of_mem _ hacc

/-- Links from a value that is no contraction have no cycle. -/
theorem nodup : ∀ {us : List ValueId} {y : ValueId}, Links ops a us y →
    (∀ op lhs rhs acc, findDef ops a ≠ some (.leaf (.contract a op lhs rhs acc))) → us.Nodup := by
  intro us
  induction us using List.reverseRecOn with
  | nil => exact fun _ _ => List.nodup_nil
  | append_singleton us r ih =>
    intro y h ha
    obtain ⟨m, hm, hr⟩ := append.mp h
    rw [List.nodup_append]
    refine ⟨ih hm ha, List.nodup_singleton r, ?_⟩
    rintro u hu _ hr' rfl
    obtain rfl := List.mem_singleton.mp hr'
    -- the links up to the first occurrence are all of them
    obtain ⟨before, after, rfl⟩ := List.append_of_mem hu
    obtain ⟨m', hbefore, hu', -⟩ := append.mp hm
    have hfirst : Links ops a (before ++ [u]) u := append.mpr ⟨m', hbefore, hu', rfl⟩
    obtain rfl : u = y := hr.2
    obtain ⟨-, heq⟩ := hfirst.start_unique h ha ha
    have := congrArg List.length heq
    simp at this

end Links

/-! ### Functions with at most one loop -/

/-- The block has no loop. -/
def Straight (ops : List Op) : Prop := ∀ op ∈ ops, ∃ l, op = .leaf l

/-- The empty block has no loops. -/
theorem Straight.nil : Straight [] := fun _ hop => absurd hop List.not_mem_nil

/-- Nor has one with an operation before. -/
theorem Straight.cons {l : Leaf} {ops : List Op} (h : Straight ops) : Straight (.leaf l :: ops) := by
  intro op hop
  rcases List.mem_cons.mp hop with rfl | hop
  · exact ⟨l, rfl⟩
  · exact h op hop

/-- The block has one loop, `h` with body `body`, which carries one value. -/
structure Looped (ops pre : List Op) (h : LoopHeader) (body post : List Op)
    (init arg yielded result : ValueId) : Prop where
  eq : ops = pre ++ .loop h body :: post
  pre : Straight pre
  body : Straight body
  post : Straight post
  inits : h.inits = [init]
  args : h.args = [arg]
  yields : h.yields = [yielded]
  results : h.results = [result]

/-- So there is no loop in it. -/
theorem Straight.not_loopAt {ops : List Op} (hops : Straight ops) {scope inner : List ValueId}
    {h : LoopHeader} {body : List Op} : ¬ LoopAt scope ops inner h body := by
  intro hat
  induction hat with
  | here =>
    obtain ⟨l, hl⟩ := hops _ List.mem_cons_self
    cases hl
  | inside =>
    obtain ⟨l, hl⟩ := hops _ List.mem_cons_self
    cases hl
  | after _ ih => exact ih fun op hop => hops op (List.mem_cons_of_mem _ hop)

/-- The values in scope after a block. -/
theorem LoopAt.append_right {pre ops body : List Op} {h : LoopHeader} :
    ∀ {scope : List ValueId}, (∀ {scope'}, (∀ v, v ∈ scope' ↔ v ∈ blockResults pre ∨ v ∈ scope) →
      ∃ inner, LoopAt scope' ops inner h body) →
      ∃ inner, LoopAt scope (pre ++ ops) inner h body := by
  induction pre with
  | nil =>
    intro scope hat
    exact hat fun v => by simp
  | cons op pre ih =>
    intro scope hat
    obtain ⟨inner, hinner⟩ := @ih (opResults op ++ scope) fun {scope'} hscope' =>
      hat fun v => by
        rw [hscope', blockResults_cons, List.mem_append, List.mem_append]
        tauto
    exact ⟨inner, .after hinner⟩

/-- A list with one element has it at position 0. -/
theorem eq_of_getElem?_singleton {α : Type} {x y : α} {k : Nat} (h : [x][k]? = some y) :
    k = 0 ∧ x = y := by
  rw [List.getElem?_singleton] at h
  split at h
  next hk => exact ⟨hk, Option.some.inj h⟩
  next => cases h

namespace Looped

variable {ops pre body post : List Op} {h : LoopHeader} {init arg yielded result : ValueId}

/-- The loop is in the block. -/
theorem loopAt (hl : Looped ops pre h body post init arg yielded result) (scope : List ValueId) :
    ∃ inner, LoopAt scope ops inner h body := by
  rw [hl.eq]
  exact LoopAt.append_right fun _ => ⟨_, .here⟩

/-- There is no other loop. -/
theorem loopAt_unique (hl : Looped ops pre h body post init arg yielded result)
    {scope inner : List ValueId} {h' : LoopHeader} {body' : List Op}
    (hat : LoopAt scope ops inner h' body') : h' = h ∧ body' = body := by
  rw [hl.eq] at hat
  rcases hat.of_append with hat | ⟨_, -, hat⟩
  · exact absurd hat hl.pre.not_loopAt
  · cases hat with
    | here => exact ⟨rfl, rfl⟩
    | inside hat => exact absurd hat hl.body.not_loopAt
    | after hat => exact absurd hat hl.post.not_loopAt

/-- The result of a loop is the one of the loop. -/
theorem eq_of_loopResult (hl : Looped ops pre h body post init arg yielded result) {v : ValueId}
    {h' : LoopHeader} {k : Nat} (hdef : findDef ops v = some (.loopResult h' k)) :
    h' = h ∧ k = 0 ∧ v = result := by
  rcases def_sound ops [] (mem_of_lookup hdef) with
    ⟨l, hleaf, -⟩ | ⟨_, _, _, k', hat, ⟨hd, hget⟩ | ⟨hd, -⟩⟩
  · cases hleaf
  · obtain ⟨rfl, rfl⟩ := Def.loopResult.inj hd
    obtain ⟨rfl, -⟩ := hl.loopAt_unique hat
    rw [hl.results] at hget
    obtain ⟨hk, hv⟩ := eq_of_getElem?_singleton hget
    exact ⟨rfl, hk, hv.symm⟩
  · cases hd

/-- The first value that the loop carries is its only one. -/
theorem eq_of_blockArg (hl : Looped ops pre h body post init arg yielded result) {v : ValueId}
    {h' : LoopHeader} (hdef : findDef ops v = some (.blockArg h' 1)) : v = arg := by
  rcases def_sound ops [] (mem_of_lookup hdef) with
    ⟨l, hleaf, -⟩ | ⟨_, _, _, k, hat, ⟨hd, -⟩ | ⟨hd, hget⟩⟩
  · cases hleaf
  · cases hd
  · obtain ⟨rfl, rfl⟩ := Def.blockArg.inj hd
    obtain ⟨rfl, -⟩ := hl.loopAt_unique hat
    rw [LoopHeader.blockArgs, hl.args] at hget
    exact (Option.some.inj hget).symm

end Looped

/-! ### What the analysis goes through -/

/-- A chain in a function without loops is links from its initial value on. -/
theorem Trail.links {f : Function} (hstraight : Straight f.body) {vector : ValueId}
    {loop : Option (LoopHeader × Nat)} {v : ValueId} {us : List ValueId}
    (ht : Trail f vector loop v us) : loop = none ∧ Links f.body v us vector := by
  induction ht with
  | start => exact ⟨rfl, rfl⟩
  | update _ hdef _ _ ih =>
    obtain rfl := findDef_contract hdef
    exact ⟨ih.1, ⟨_, _, _, hdef⟩, ih.2⟩
  | enter _ hdef _ _ =>
    rcases def_sound f.body [] (mem_of_lookup hdef) with
      ⟨l, hl, -⟩ | ⟨_, _, _, _, hat, -⟩
    · cases hl
    · exact absurd hat hstraight.not_loopAt
  | leave _ hdef _ _ =>
    rcases def_sound f.body [] (mem_of_lookup hdef) with
      ⟨l, hl, -⟩ | ⟨_, _, _, _, hat, -⟩
    · cases hl
    · exact absurd hat hstraight.not_loopAt

section Looped

variable {f : Function} {pre body post : List Op} {h : LoopHeader}
  {init arg yielded result vector : ValueId}

/-- Where the analysis of a chain is in a function with one loop: after the loop, in its body, or
    before it. -/
inductive Looped.At (f : Function) (scope : List ValueId) (h : LoopHeader)
    (init arg yielded result vector : ValueId) :
    Option (LoopHeader × Nat) → ValueId → List ValueId → Prop
  | after {v : ValueId} {us : List ValueId} (hafter : Links f.body v us vector) :
      Looped.At f scope h init arg yielded result vector none v us
  | inside {v : ValueId} {us₂ us₃ : List ValueId} (hinside : Links f.body v us₂ yielded)
      (hafter : Links f.body result us₃ vector) :
      Looped.At f scope h init arg yielded result vector (some (h, 0)) v (us₂ ++ us₃)
  | before {v : ValueId} {us₁ us₂ us₃ : List ValueId} (hv : v ∈ scope)
      (hbefore : Links f.body v us₁ init) (hinside : Links f.body arg us₂ yielded)
      (hafter : Links f.body result us₃ vector) :
      Looped.At f scope h init arg yielded result vector none v (us₁ ++ us₂ ++ us₃)

/-- **The chains of a function with one loop.** -/
theorem Trail.links_looped (hl : Looped f.body pre h body post init arg yielded result)
    {scope : List ValueId} (site : Site f.body scope [.loop h body])
    {loop : Option (LoopHeader × Nat)} {v : ValueId} {us : List ValueId}
    (ht : Trail f vector loop v us) :
    Looped.At f scope h init arg yielded result vector loop v us := by
  have hscoped := site.scopedOp
  rw [ScopedOp] at hscoped
  induction ht with
  | start => exact .after rfl
  | update _ hdef _ _ ih =>
    obtain rfl := findDef_contract hdef
    cases ih with
    | after hafter => exact .after ⟨⟨_, _, _, hdef⟩, hafter⟩
    | inside hinside hafter =>
      have hinside' : Links f.body _ (_ :: _) yielded := ⟨⟨_, _, _, hdef⟩, hinside⟩
      exact .inside hinside' hafter
    | before hv hbefore hinside hafter =>
      have hbefore' : Links f.body _ (_ :: _) init := ⟨⟨_, _, _, hdef⟩, hbefore⟩
      refine .before ?_ hbefore' hinside hafter
      exact site.closed _ hv _ hdef _ (by simp [Def.operands, Leaf.operands])
  | enter _ hdef hyield ih =>
    obtain ⟨rfl, rfl, rfl⟩ := hl.eq_of_loopResult hdef
    rw [hl.yields] at hyield
    obtain ⟨-, rfl⟩ := eq_of_getElem?_singleton hyield
    cases ih with
    | after hafter =>
      have hinside : Links f.body yielded [] yielded := rfl
      exact .inside hinside hafter
    | before hv _ _ _ =>
      -- its result is not in scope before it
      refine absurd hv (site.fresh _ ?_)
      rw [definedIds_loop, hl.results]
      simp
  | leave _ hdef hinit ih =>
    cases ih with
    | inside hinside hafter =>
      rw [hl.inits] at hinit
      obtain ⟨-, rfl⟩ := eq_of_getElem?_singleton hinit
      obtain rfl := hl.eq_of_blockArg hdef
      have hbefore : Links f.body init [] init := rfl
      refine .before ?_ hbefore hinside hafter
      apply hscoped.1
      simp [LoopHeader.operands, hl.inits]

end Looped

end CoralNPU.Matrix
