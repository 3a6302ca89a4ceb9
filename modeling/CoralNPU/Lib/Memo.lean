import CoralNPU.Lib.Scratch
import CoralNPU.Lib.GroupBy
import CoralNPU.Lib.Assoc
import CoralNPU.Lib.Loop

namespace Lib

/-!
# Results that are kept

A function that may fail and is expensive is called through a table of the results that it gave.

* `Memo`, `memoized` — the table, and the call through it.
* `Memo.After` — the table after some keys were asked: each was computed once, at its first occurrence.
* `computes_memoized`, `computes_memoizedEach` — a call, and a loop with a call in every turn, give what they
  give without the table; the loop asks for the keys through the first turn that fails.
-/

variable {κ β ε α γ : Type} [DecidableEq κ]

/-- The results that were kept, and the keys for which the function was called. -/
structure Memo (κ β : Type) where
  entries : List (κ × β)
  computed : List κ

/-- Nothing has been asked. -/
def Memo.empty : Memo κ β := ⟨[], []⟩

/-- The result for a key that is kept, or else what the function gives, which is kept if it is no
    error. -/
def memoized (f : κ → Except ε β) (k : κ) : Scratch (Memo κ β) ε β := do
  let memo ← get
  match memo.entries.lookup k with
  | some b => pure b
  | none =>
    modify fun memo => { memo with computed := memo.computed ++ [k] }
    let b ← Scratch.lift (f k)
    modify fun memo => { memo with entries := memo.entries ++ [(k, b)] }
    pure b

/-- **The table after some keys were asked**, all with success. -/
structure Memo.After (f : κ → Except ε β) (asked : List κ) (memo : Memo κ β) : Prop where
  computed : memo.computed = keysOf id asked
  keys : memo.entries.map Prod.fst = memo.computed
  value : ∀ e ∈ memo.entries, f e.1 = .ok e.2

/-- Before the first call nothing is remembered. -/
theorem memo_after_empty (f : κ → Except ε β) : (Memo.empty : Memo κ β).After f [] :=
  ⟨rfl, rfl, fun e he => by cases he⟩

/-- A key without an entry. -/
theorem lookup_eq_none_iff {entries : List (κ × β)} {k : κ} :
    entries.lookup k = none ↔ k ∉ entries.map Prod.fst := by
  simp only [List.lookup_eq_none_iff, bne_iff_ne, List.mem_map, not_exists, not_and]
  exact ⟨fun h e he heq => h e he heq.symm, fun h e he heq => h e he heq.symm⟩

/-- What is remembered is not computed again. -/
theorem recall_of_some (f : κ → Except ε β) {k : κ} {memo : Memo κ β} {b : β}
    (h : memo.entries.lookup k = some b) : memoized f k memo = (.ok b, memo) := by
  rw [memoized, Scratch.bind_apply, Scratch.get_apply]
  simp only [h]
  rfl

/-- What is not remembered is computed, and remembered if it succeeds. -/
theorem recall_of_none (f : κ → Except ε β) {k : κ} {memo : Memo κ β}
    (h : memo.entries.lookup k = none) :
    memoized f k memo = match f k with
      | .ok b => (.ok b, ⟨memo.entries ++ [(k, b)], memo.computed ++ [k]⟩)
      | .error e => (.error e, ⟨memo.entries, memo.computed ++ [k]⟩) := by
  rw [memoized, Scratch.bind_apply, Scratch.get_apply]
  simp only [h]
  cases hf : f k with
  | ok b => rfl
  | error e => rfl

/-- **A call** through the table. -/
theorem computes_memoized (f : κ → Except ε β) (asked : List κ) (k : κ) :
    Computes (Memo.After f asked) (memoized f k) (f k)
      (fun memo => memo.computed = keysOf id (asked ++ [k]))
      (fun b a memo => a = b ∧ memo.After f (asked ++ [k])) := by
  intro memo hmemo
  have hconcat := keysOf_concat id asked k
  have hknown : k ∈ keysOf id asked ↔ memo.entries.lookup k ≠ none := by
    rw [Ne, lookup_eq_none_iff, not_not, hmemo.keys, hmemo.computed]
  cases hlookup : memo.entries.lookup k with
  | some b =>
    have hvalue : f k = .ok b := hmemo.value (k, b) (mem_of_lookup hlookup)
    have hsame : keysOf id (asked ++ [k]) = keysOf id asked := by
      rw [hconcat]
      refine (congrArg _ (if_pos (hknown.mpr ?_))).trans (List.append_nil _)
      rw [hlookup]
      exact Option.some_ne_none b
    rw [hvalue]
    exact ⟨b, memo, recall_of_some f hlookup, rfl, hmemo.computed.trans hsame.symm, hmemo.keys,
      hmemo.value⟩
  | none =>
    have hnew : memo.computed ++ [k] = keysOf id (asked ++ [k]) := by
      rw [hconcat, hmemo.computed]
      exact congrArg _ (if_neg fun h => hknown.mp h hlookup).symm
    have hrun := recall_of_none f hlookup
    cases hf : f k with
    | error e =>
      rw [hf] at hrun
      exact ⟨_, hrun, hnew⟩
    | ok b =>
      rw [hf] at hrun
      refine ⟨b, _, hrun, rfl, hnew, ?_, ?_⟩
      · rw [List.map_append, hmemo.keys]
        rfl
      · intro e he
        rcases List.mem_append.mp he with he | he
        · exact hmemo.value e he
        · rw [List.mem_singleton.mp he]
          exact hf

section Each

variable (f : κ → Except ε β) (key : α → Except ε κ) (use : α → κ → β → Except ε γ)

/-- A turn of a loop: it finds a key, calls the function and uses what it gives. -/
def turn (x : α) : Except ε γ := do
  let k ← key x
  let b ← f k
  use x k b

/-- The keys of some elements. -/
def keysOfEach (xs : List α) : List κ := xs.filterMap (key · |>.toOption)

/-- **A turn** through the table asks for its key, also when it fails after that. -/
theorem computes_memoizedTurn (asked : List κ) (x : α) :
    Computes (Memo.After f asked) (do
        let k ← Scratch.lift (key x)
        let b ← memoized f k
        Scratch.lift (use x k b)) (turn f key use x)
      (fun memo => memo.computed = keysOf id (asked ++ keysOfEach key [x]))
      (fun c a memo => a = c ∧ memo.After f (asked ++ keysOfEach key [x])) := by
  cases hkey : key x with
  | error e =>
    have hnone : keysOfEach key [x] = [] := by simp [keysOfEach, hkey, Except.toOption]
    rw [turn, hkey, hnone, List.append_nil]
    exact fun memo hmemo => ⟨memo, rfl, hmemo.computed⟩
  | ok k =>
    have hone : keysOfEach key [x] = [k] := by simp [keysOfEach, hkey, Except.toOption]
    rw [turn, hkey, hone]
    show Computes _ (memoized f k >>= fun b => _) (f k >>= fun b => _) _ _
    refine computes_bind (computes_memoized f asked k) fun b a => ?_
    refine computes_assuming ?_
    rintro rfl
    exact computes_lift fun memo hmemo => hmemo.computed

/-- **A loop** that finds a key in every turn, calls the function and uses what it gives.  It asks for
    the keys through the first turn that fails. -/
theorem computes_memoizedEach (xs : List α) : ∀ asked : List κ, Computes (Memo.After f asked)
    (xs.mapM fun x => do
      let k ← Scratch.lift (key x)
      let b ← memoized f k
      Scratch.lift (use x k b))
    (xs.mapM (turn f key use))
    (fun memo => memo.computed = keysOf id
      (asked ++ keysOfEach key (throughFirst (fun x => !(turn f key use x).isOk) xs)))
    (fun cs as memo => as = cs ∧ memo.After f (asked ++ keysOfEach key xs)) := by
  induction xs with
  | nil =>
    intro asked
    rw [List.mapM_nil, List.mapM_nil]
    refine computes_pure fun memo hmemo => ⟨rfl, ?_⟩
    rwa [show keysOfEach key [] = [] from rfl, List.append_nil]
  | cons x xs ih =>
    intro asked
    have hkeys : ∀ ys : List α,
        keysOfEach key (x :: ys) = keysOfEach key [x] ++ keysOfEach key ys :=
      fun ys => show keysOfEach key ([x] ++ ys) = _ from List.filterMap_append
    have hturn := computes_memoizedTurn f key use asked x
    rw [List.mapM_cons, List.mapM_cons, throughFirst]
    cases hx : turn f key use x with
    | error e =>
      -- the loop stops here
      rw [hx] at hturn
      exact computes_bind_error hturn
    | ok c =>
      rw [hx] at hturn
      have hok : ¬ (!(Except.ok c : Except ε γ).isOk) = true := Bool.false_ne_true
      rw [if_neg hok, hkeys xs, hkeys (throughFirst _ xs), ← List.append_assoc, ← List.append_assoc]
      refine computes_bind (hturn.of_error fun e memo herror => by cases herror) fun c c' => ?_
      refine computes_assuming ?_
      rintro rfl
      refine computes_bind (ih (asked ++ keysOfEach key [x])) fun cs as => ?_
      refine computes_assuming ?_
      rintro rfl
      exact computes_pure fun memo hmemo => ⟨rfl, hmemo⟩

end Each

end Lib
