import CoralNPU.CheckGen.ParseUtils
import CoralNPU.Lib.Except
import Mathlib.Data.List.GetD

namespace CoralNPU.CheckGen

open Lib

/-!
# CheckGen — the files that are generated

One file is generated for each instance.  Its name is that of the test file with a suffix: the values
of a group with `_` between them, the groups with `-` between them, which is also the sign of a
negative value.

* `validateInputs` — the check that all instances have the shape of the generators.
* `instSuffix`, `outPath` — the suffix and the path, as `generateCheckTest` computes them.
* `instSuffix_eq` — the suffix as joined texts.
* `groupText_append_inj` — a group of known size is read back in one way only.
* `outPath_ne` — the paths of different instances are different.
-/

/-! ### The checks -/

/-- The fields of `GeneratorInfo` that `validateInputs` reads. -/
structure GeneratorInfo where
  filename : String
  numArguments : Nat
  deriving DecidableEq, Repr

/-- What `validateInputs` reports. -/
inductive InputError
  | groupCount (instIdx size generators : Nat)
  | argumentCount (filename : String) (expected instIdx g size : Nat)
  deriving DecidableEq, Repr

/-- The checks of one instance. -/
def validateInstance (generators : List GeneratorInfo) (instIdx : Nat)
    (inst : List (List Int64)) : Except InputError Unit := do
  if inst.length ≠ generators.length then
    throw (.groupCount instIdx inst.length generators.length)
  generators.zipIdx.forM fun (gen, g) =>
    if gen.numArguments ≠ (inst.getD g []).length then
      throw (.argumentCount gen.filename gen.numArguments instIdx g (inst.getD g []).length)
    else pure ()

/-- `validateInputs`; an error is reported and makes it return false. -/
def validateInputs (generators : List GeneratorInfo) (instances : List (List (List Int64))) :
    Except InputError Unit :=
  instances.zipIdx.forM fun (inst, instIdx) => validateInstance generators instIdx inst

/-! ### The names -/

/-- `std::to_string` of an `int64_t`. -/
def toString (v : Int64) : List Char := decimal v.toInt

/-- `instSuffix`, by the two loops. -/
def instSuffix (inst : List (List Int64)) : List Char :=
  inst.zipIdx.foldl (fun suffix (group, i) =>
    group.zipIdx.foldl (fun suffix (v, j) =>
      (if j > 0 then suffix ++ ['_'] else suffix) ++ toString v)
      (if i > 0 then suffix ++ ['-'] else suffix ++ ['_'])) []

/-- `checkFuncName` -/
def checkFuncName (testFileBaseName : List Char) (inst : List (List Int64)) : List Char :=
  testFileBaseName ++ instSuffix inst

/-- `outPath` -/
def outPath (outputDir testFileBaseName : List Char) (inst : List (List Int64)) : List Char :=
  outputDir ++ ['/'] ++ checkFuncName testFileBaseName inst ++ "_check.mlir".toList

/-! ### The suffix as joined texts -/

/-- The text of a group. -/
def groupText (group : List Int64) : List Char := ['_'].intercalate (group.map toString)

theorem foldl_group (group : List Int64) (acc : List Char) :
    group.zipIdx.foldl (fun suffix (v, j) =>
      (if j > 0 then suffix ++ ['_'] else suffix) ++ toString v) acc = acc ++ groupText group := by
  cases group with
  | nil => exact (List.append_nil acc).symm
  | cons v vs =>
    have hloop := foldl_join ['_'] [] toString vs 0 (acc ++ toString v)
    simp only [List.append_nil] at hloop
    rw [List.zipIdx_cons, List.foldl_cons]
    simp only [gt_iff_lt, lt_irrefl, if_false]
    rw [hloop, groupText, List.map_cons, intercalate_cons_eq, List.append_assoc]

/-- **The suffix**: the groups with `-` between them, after an underscore. -/
theorem instSuffix_eq {inst : List (List Int64)} (h : inst ≠ []) :
    instSuffix inst = '_' :: ['-'].intercalate (inst.map groupText) := by
  cases inst with
  | nil => exact absurd rfl h
  | cons group inst =>
    have hloop := foldl_join ['-'] ['_'] groupText inst 0 (['_'] ++ groupText group)
    unfold instSuffix
    simp only [foldl_group]
    rw [List.zipIdx_cons, List.foldl_cons]
    simp only [gt_iff_lt, lt_irrefl, if_false, List.nil_append]
    simp only [gt_iff_lt] at hloop
    rw [hloop, List.map_cons, intercalate_cons_eq]
    rfl

/-! ### Reading a suffix back -/

theorem groupText_cons (v : Int64) (vs : List Int64) :
    groupText (v :: vs) = toString v ++ (vs.map toString).flatMap (['_'] ++ ·) := by
  rw [groupText, List.map_cons, intercalate_cons_eq]

/-- The values of a group after the first. -/
theorem values_append_inj {vs vs' : List Int64} {rest rest' : List Char} (hrest : NoDigit rest)
    (hrest' : NoDigit rest') (hlen : vs.length = vs'.length)
    (h : (vs.map toString).flatMap (['_'] ++ ·) ++ rest
      = (vs'.map toString).flatMap (['_'] ++ ·) ++ rest') : vs = vs' ∧ rest = rest' := by
  -- what comes before the next value is a separator or the rest
  have hnoDigit : ∀ {vs : List Int64} {rest : List Char}, NoDigit rest →
      NoDigit ((vs.map toString).flatMap (['_'] ++ ·) ++ rest) := by
    intro vs rest hrest
    cases vs with
    | nil => exact hrest
    | cons v vs =>
      intro c hc
      obtain rfl := Option.some.inj hc
      decide
  induction vs generalizing vs' with
  | nil =>
    obtain rfl := List.length_eq_zero_iff.mp hlen.symm
    exact ⟨rfl, h⟩
  | cons v vs ih =>
    cases vs' with
    | nil => cases hlen
    | cons v' vs' =>
      rw [List.map_cons, List.map_cons, List.flatMap_cons, List.flatMap_cons, List.append_assoc,
        List.append_assoc, List.append_assoc, List.append_assoc] at h
      obtain ⟨hv, htail⟩ := decimal_append_inj (hnoDigit hrest) (hnoDigit hrest')
        (List.append_cancel_left h)
      obtain ⟨rfl, hrest⟩ := ih (Nat.succ.inj hlen) htail
      exact ⟨by rw [Int64.toInt_inj.mp hv], hrest⟩

/-- **A group of known size** is read back in one way only. -/
theorem groupText_append_inj {group group' : List Int64} {rest rest' : List Char}
    (hrest : NoDigit rest) (hrest' : NoDigit rest') (hlen : group.length = group'.length)
    (h : groupText group ++ rest = groupText group' ++ rest') : group = group' ∧ rest = rest' := by
  cases group with
  | nil =>
    obtain rfl := List.length_eq_zero_iff.mp hlen.symm
    exact ⟨rfl, h⟩
  | cons v vs =>
    cases group' with
    | nil => cases hlen
    | cons v' vs' =>
      -- with a separator before it, the first value is one after the first
      have hseparated : ((v :: vs).map toString).flatMap (['_'] ++ ·) ++ rest
          = ((v' :: vs').map toString).flatMap (['_'] ++ ·) ++ rest' := by
        rw [groupText_cons, groupText_cons] at h
        rw [List.map_cons, List.map_cons, List.flatMap_cons, List.flatMap_cons, List.append_assoc,
          List.append_assoc, List.append_assoc, List.append_assoc, ← List.append_assoc (toString v),
          h, List.append_assoc]
      exact values_append_inj hrest hrest' hlen hseparated

/-- The instances have the same shape. -/
abbrev SameShape : List (List Int64) → List (List Int64) → Prop :=
  List.Forall₂ fun group group' => group.length = group'.length

/-- **The groups** of a known shape are read back in one way only. -/
theorem groups_inj {inst inst' : List (List Int64)} (hshape : SameShape inst inst')
    (h : (inst.map groupText).flatMap (['-'] ++ ·) = (inst'.map groupText).flatMap (['-'] ++ ·)) :
    inst = inst' := by
  have hnoDigit : ∀ inst : List (List Int64),
      NoDigit ((inst.map groupText).flatMap (['-'] ++ ·)) := by
    intro inst
    cases inst with
    | nil => intro c hc; cases hc
    | cons group inst =>
      intro c hc
      obtain rfl := Option.some.inj hc
      decide
  induction hshape with
  | nil => rfl
  | @cons group group' inst inst' hlen hshape ih =>
    rw [List.map_cons, List.map_cons, List.flatMap_cons, List.flatMap_cons, List.append_assoc,
      List.append_assoc] at h
    obtain ⟨rfl, htail⟩ := groupText_append_inj (hnoDigit inst) (hnoDigit inst') hlen
      (List.append_cancel_left h)
    rw [ih htail]

/-- Instances of one shape have different suffixes. -/
theorem instSuffix_inj {inst inst' : List (List Int64)} (hshape : SameShape inst inst')
    (h : instSuffix inst = instSuffix inst') : inst = inst' := by
  cases hshape with
  | nil => rfl
  | @cons group group' inst inst' hlen hshape =>
    rw [instSuffix_eq (List.cons_ne_nil _ _), instSuffix_eq (List.cons_ne_nil _ _), List.map_cons,
      List.map_cons, intercalate_cons_eq, intercalate_cons_eq] at h
    refine groups_inj (List.Forall₂.cons hlen hshape) ?_
    rw [List.map_cons, List.map_cons, List.flatMap_cons, List.flatMap_cons, List.append_assoc,
      List.append_assoc, (List.cons.inj h).2]

/-! ### Accepted instances -/

/-- The sizes of the groups of an accepted instance are those of the generators. -/
theorem lengths_of_validateInstance {generators : List GeneratorInfo} {instIdx : Nat}
    {inst : List (List Int64)} (h : validateInstance generators instIdx inst = .ok ()) :
    inst.map List.length = generators.map GeneratorInfo.numArguments := by
  unfold validateInstance at h
  split at h
  next => cases h
  next hcount =>
    have hlen : inst.length = generators.length := not_not.mp hcount
    have hchecks := forM_eq_ok.mp h
    refine List.ext_getElem (by rw [List.length_map, List.length_map, hlen]) fun g hg hg' => ?_
    rw [List.length_map] at hg hg'
    have hcheck := hchecks (generators[g], g) (List.mem_zipIdx_iff_getElem?.mpr
      (List.getElem?_eq_getElem hg'))
    simp only at hcheck
    split at hcheck
    next => cases hcheck
    next hsize =>
      rw [not_not, List.getD_eq_getElem _ _ hg] at hsize
      rw [List.getElem_map, List.getElem_map, hsize]

/-- **Different instances** that the generators accept are written to different files. -/
theorem outPath_ne {generators : List GeneratorInfo} {instances : List (List (List Int64))}
    (hvalid : validateInputs generators instances = .ok ()) {inst inst' : List (List Int64)}
    (hmem : inst ∈ instances) (hmem' : inst' ∈ instances) (hne : inst ≠ inst')
    (outputDir testFileBaseName : List Char) :
    outPath outputDir testFileBaseName inst ≠ outPath outputDir testFileBaseName inst' := by
  rw [validateInputs, forM_eq_ok] at hvalid
  have hlengths : ∀ inst ∈ instances,
      inst.map List.length = generators.map GeneratorInfo.numArguments := by
    intro inst hmem
    obtain ⟨i, hi, rfl⟩ := List.getElem_of_mem hmem
    exact lengths_of_validateInstance (hvalid (instances[i], i)
      (List.mem_zipIdx_iff_getElem?.mpr (List.getElem?_eq_getElem hi)))
  have hshape : SameShape inst inst' := by
    have heq := (hlengths inst hmem).trans (hlengths inst' hmem').symm
    rw [← List.forall₂_eq_eq_eq, List.forall₂_map_left_iff, List.forall₂_map_right_iff] at heq
    exact heq
  intro hpath
  refine hne (instSuffix_inj hshape ?_)
  unfold outPath checkFuncName at hpath
  exact List.append_cancel_left (List.append_cancel_left (List.append_cancel_right hpath))

/-- Two instances whose suffixes hold signs and separators next to each other. -/
theorem outPath_ne_signs :
    outPath "out".toList "conv".toList [[1, -2], [3]] ≠
      outPath "out".toList "conv".toList [[1, 2], [-3]] :=
  outPath_ne (show validateInputs [⟨"a.mlir", 2⟩, ⟨"b.mlir", 1⟩]
      [[[1, -2], [3]], [[1, 2], [-3]]] = .ok () from rfl) List.mem_cons_self
    (List.mem_cons_of_mem _ List.mem_cons_self) (by decide) _ _

end CoralNPU.CheckGen
