import CoralNPU.Tiling.Op
import Mathlib.Data.List.Perm.Basic
import Mathlib.Data.List.Range

namespace CoralNPU.Tiling

/-!
# Tiling — the loop classification is a partition

* `allLoops_refineLoop` — refining one parallel loop files it in exactly one list;
* `allLoops_classifyLoops` — the four lists together are a permutation of the loops;
* `reductionLoops_classifyLoops` — the reduction list is the list of reduction iterators.
-/

/-- All loops of a classification, list by list in the order the shrink loop visits them. -/
def LoopClassification.allLoops (c : LoopClassification) : List Nat :=
  c.vectorLoops ++ c.unrollLoops ++ c.batchLoops ++ c.reductionLoops

/-- The parallel loops of a classification. -/
def LoopClassification.parallelLoops (c : LoopClassification) : List Nat :=
  c.vectorLoops ++ c.unrollLoops ++ c.batchLoops

/-- The lists a loop can be filed in, with one more entry: the reduction list never grows. -/
theorem refineLoop_cases (isDepthwiseConv : Bool) (lhsMap rhsMap : AffineMap)
    (c : LoopClassification) (i : Nat) :
    refineLoop isDepthwiseConv lhsMap rhsMap c i = { c with vectorLoops := c.vectorLoops ++ [i] } ∨
    refineLoop isDepthwiseConv lhsMap rhsMap c i = { c with unrollLoops := c.unrollLoops ++ [i] } ∨
    refineLoop isDepthwiseConv lhsMap rhsMap c i = { c with batchLoops := c.batchLoops ++ [i] } := by
  unfold refineLoop
  by_cases hl : lhsMap.isFunctionOfDim i <;> by_cases hr : rhsMap.isFunctionOfDim i <;>
    cases isDepthwiseConv <;> simp [hl, hr]

/-- An element that comes first in one part of an append comes first in the whole. -/
private theorem perm_cons_append {i : Nat} {xs ys : List Nat} (h : xs.Perm (i :: ys))
    (zs : List Nat) : (zs ++ xs).Perm (i :: (zs ++ ys)) :=
  (h.append_left zs).trans List.perm_middle

/-- **One refined loop** is added to exactly one list. -/
theorem allLoops_refineLoop (isDepthwiseConv : Bool) (lhsMap rhsMap : AffineMap)
    (c : LoopClassification) (i : Nat) :
    (refineLoop isDepthwiseConv lhsMap rhsMap c i).allLoops.Perm (i :: c.allLoops) := by
  -- each case moves `i` from the end of one list to the front
  rcases refineLoop_cases isDepthwiseConv lhsMap rhsMap c i with h | h | h <;> rw [h] <;>
    simp only [LoopClassification.allLoops, List.append_assoc, List.singleton_append]
  · exact List.perm_middle
  · exact perm_cons_append List.perm_middle _
  · exact perm_cons_append (perm_cons_append List.perm_middle _) _

/-- Moving a loop to another class leaves the reduction loops alone. -/
theorem reductionLoops_refineLoop (isDepthwiseConv : Bool) (lhsMap rhsMap : AffineMap)
    (c : LoopClassification) (i : Nat) :
    (refineLoop isDepthwiseConv lhsMap rhsMap c i).reductionLoops = c.reductionLoops := by
  rcases refineLoop_cases isDepthwiseConv lhsMap rhsMap c i with h | h | h <;> rw [h]

/-- Refining a list of loops files each of them in exactly one list. -/
theorem allLoops_foldl_refineLoop (isDepthwiseConv : Bool) (lhsMap rhsMap : AffineMap)
    (loops : List Nat) (c : LoopClassification) :
    (loops.foldl (refineLoop isDepthwiseConv lhsMap rhsMap) c).allLoops.Perm
      (loops ++ c.allLoops) := by
  induction loops generalizing c with
  | nil => exact List.Perm.refl _
  | cons i loops ih =>
    calc (loops.foldl _ (refineLoop isDepthwiseConv lhsMap rhsMap c i)).allLoops
        |>.Perm (loops ++ (refineLoop isDepthwiseConv lhsMap rhsMap c i).allLoops) := ih _
      _ |>.Perm (loops ++ i :: c.allLoops) := (allLoops_refineLoop _ _ _ c i).append_left loops
      _ |>.Perm (i :: loops ++ c.allLoops) := List.perm_middle

/-- So does moving several. -/
theorem reductionLoops_foldl_refineLoop (isDepthwiseConv : Bool) (lhsMap rhsMap : AffineMap)
    (loops : List Nat) (c : LoopClassification) :
    (loops.foldl (refineLoop isDepthwiseConv lhsMap rhsMap) c).reductionLoops
      = c.reductionLoops := by
  induction loops generalizing c with
  | nil => rfl
  | cons i loops ih => rw [List.foldl_cons, ih, reductionLoops_refineLoop]

/-- The refinement only moves parallel loops between lists. -/
theorem allLoops_refineLinalgOpLoops (op : LinalgOp) (c : LoopClassification)
    (hunroll : c.unrollLoops = []) (hbatch : c.batchLoops = []) :
    (refineLinalgOpLoops op c).allLoops.Perm c.allLoops := by
  unfold refineLinalgOpLoops
  split
  · exact List.Perm.refl _
  · refine (allLoops_foldl_refineLoop _ _ _ c.vectorLoops _).trans (List.Perm.of_eq ?_)
    simp [LoopClassification.allLoops, hunroll, hbatch]

/-- So does the refinement for a linalg operation. -/
theorem reductionLoops_refineLinalgOpLoops (op : LinalgOp) (c : LoopClassification) :
    (refineLinalgOpLoops op c).reductionLoops = c.reductionLoops := by
  unfold refineLinalgOpLoops
  split
  · rfl
  · exact reductionLoops_foldl_refineLoop _ _ _ _ _

/-- The loops of an iterator type. -/
theorem mem_loopsOfType {iterTypes : List IteratorType} {t : IteratorType} {i : Nat} :
    i ∈ loopsOfType iterTypes t ↔ iterTypes[i]? = some t := by
  simp only [loopsOfType, List.mem_filter, List.mem_range, decide_eq_true_eq, and_iff_right_iff_imp]
  intro h
  by_contra hlen
  rw [List.getElem?_eq_none (by omega)] at h
  cases h

/-- Every loop is parallel or a reduction, and none is both. -/
theorem loopsOfType_perm (iterTypes : List IteratorType) :
    (loopsOfType iterTypes .parallel ++ loopsOfType iterTypes .reduction).Perm
      (List.range iterTypes.length) := by
  have hneg : loopsOfType iterTypes .reduction
      = (List.range iterTypes.length).filter fun i => !decide (iterTypes[i]? = some .parallel) := by
    refine List.filter_congr fun i hi => ?_
    have hlt : i < iterTypes.length := List.mem_range.mp hi
    rw [List.getElem?_eq_getElem hlt]
    cases iterTypes[i] <;> simp
  rw [hneg]
  exact List.filter_append_perm _ _

/-- **The classification is a partition** of the loops. -/
theorem allLoops_classifyLoops (root : RootOp) :
    (classifyLoops root).allLoops.Perm (List.range root.getLoopIteratorTypes.length) := by
  have hbase := loopsOfType_perm root.getLoopIteratorTypes
  unfold classifyLoops
  cases hop : root.op with
  | linalg op =>
    refine (allLoops_refineLinalgOpLoops op _ rfl rfl).trans ?_
    simpa [LoopClassification.allLoops] using hbase
  | pack op => simpa [LoopClassification.allLoops] using hbase
  | unpack op => simpa [LoopClassification.allLoops] using hbase
  | other op => simpa [LoopClassification.allLoops] using hbase

/-- **The reduction loops** are the loops with a reduction iterator. -/
theorem reductionLoops_classifyLoops (root : RootOp) :
    (classifyLoops root).reductionLoops = loopsOfType root.getLoopIteratorTypes .reduction := by
  unfold classifyLoops
  cases root.op with
  | linalg op => exact reductionLoops_refineLinalgOpLoops op _
  | pack op => rfl
  | unpack op => rfl
  | other op => rfl

/-- No loop is in two classes. -/
theorem nodup_allLoops_classifyLoops (root : RootOp) : (classifyLoops root).allLoops.Nodup :=
  (allLoops_classifyLoops root).nodup_iff.mpr List.nodup_range

/-- Every loop is in one. -/
theorem mem_allLoops_classifyLoops {root : RootOp} {i : Nat} :
    i ∈ (classifyLoops root).allLoops ↔ i < root.getLoopIteratorTypes.length := by
  rw [(allLoops_classifyLoops root).mem_iff, List.mem_range]

/-- The ranges of the iteration domain are one per iterator. -/
theorem length_getStaticLoopRanges (root : RootOp) :
    root.getStaticLoopRanges.length = root.getLoopIteratorTypes.length := by
  unfold RootOp.getStaticLoopRanges RootOp.getLoopIteratorTypes
  cases root.op with
  | linalg op => simp [LinalgOp.getStaticLoopRanges]
  | pack op => simp [op.rank_le]
  | unpack op => simp
  | other op => exact op.domain_length

end CoralNPU.Tiling
