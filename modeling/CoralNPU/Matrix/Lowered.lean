import CoralNPU.Matrix.Meaning
import CoralNPU.Matrix.Rewrite
import CoralNPU.Lib.Strided

namespace CoralNPU.Matrix

open Lib

/-!
# Matrix — lowered contractions against their meaning

Whether the intrinsic that replaces a contraction adds to the tile what the contraction adds to its
accumulator.  The loop path passes the values that the operands are traced to, the straight-line
path the operands themselves.

* `ChainContraction` — a contraction that the pass accepts on a chain;
* `ChainContraction.lower` — the intrinsic and the registers that are passed to it;
* `Intrinsic.multiplyAdd` — what the intrinsics compute;
* `MeansIntrinsic` — both compute the same, whatever the operands hold;
* `ChainContraction.Lowers` — the condition under which they do;
* `meansIntrinsic_iff_agree` — both sides, in terms of the promoted lanes of the registers
  (`Operand.lanes`) and the promoted elements of the operands (`Operand.elements`);
* `Operand.agree_of_feeds` — the condition is enough.
-/

/-! ### The emitted intrinsic -/

/-- Where a contraction is rewritten: in the body of the new loop, or in its place. -/
inductive Path
  | loop | straightLine
  deriving DecidableEq, Repr

/-- A contraction that the pass accepts, on a chain with input type `inputElTy`.  The chain has the
    accumulator type of each of its updates; on the straight-line path the contraction is the first
    update, which sets the input type. -/
structure ChainContraction where
  path : Path
  inputElTy : ElementType
  kind : CombiningKind
  op : ContractionOp
  lhs : Operand
  rhs : Operand
  verified : Verified kind op
  lhs_valid : lhs.Valid
  rhs_valid : rhs.Valid
  lhs_type : lhs.type = op.lhsType
  rhs_type : rhs.type = op.rhsType
  /-- `cast<VectorType>(traceToSourceValue(contractOp.getLhs()).getType())`. -/
  lhs_vector : lhs.isVector = true
  accepted : isSupportedMatrixContraction op lhs.source.elementType = true
  chain_type : isSupportedElementTypes inputElTy op.accType.elementType = true
  first_update : path = .straightLine → inputElTy = lhs.source.elementType

/-- What is passed for an operand, with the casts that are left out. -/
def passedOperand (path : Path) (o : Operand) : Operand :=
  match path with
  | .loop => o
  | .straightLine => o.untraced

/-- `castToScalable`: the flat vector that is inserted into a register. -/
def castToScalable (o : Operand) : Except Failure VectorType :=
  if o.isVector then
    .ok { shape := [(o.source.dims.prod : Int)], elementType := o.source.elementType }
  else .error (.assertion "cast<VectorType>(val.getType())")

/-- The intrinsic call: the intrinsic, and the types of the flat vectors passed to it. -/
structure IntrinsicCall where
  intrinsic : Intrinsic
  lhs : VectorType
  rhs : VectorType
  deriving DecidableEq, Repr

namespace ChainContraction

/-- The left operand as it is passed. -/
def passedLhs (c : ChainContraction) : Operand := passedOperand c.path c.lhs

/-- The right operand as it is passed. -/
def passedRhs (c : ChainContraction) : Operand := passedOperand c.path c.rhs

/-- The rewriting of the contraction. -/
def lower (c : ChainContraction) : Except Failure IntrinsicCall := do
  let lhs ← castToScalable c.passedLhs
  let rhs ← castToScalable c.passedRhs
  let intrinsic ← intrinsicFor c.inputElTy
  return { intrinsic, lhs, rhs }

/-- The arithmetic of the accumulator. -/
def arith (F : FloatUnit) (c : ChainContraction) : Arith :=
  if c.op.accType.elementType.isF32 then floatArith F else intArith

end ChainContraction

/-! ### What the intrinsics compute -/

/-- The bits of an element. -/
def bitsOf : ElementType → Nat
  | .integer w => w
  | .f16 | .bf16 => 16
  | .f32 => 32
  | .f64 | .index => 64

/-- The type of the lanes that an intrinsic multiplies. -/
def Intrinsic.inputType : Intrinsic → ElementType
  | .vtfmm => .f32
  | .vtfmmAlt => .bf16
  | .vtmms => .integer 8

/-- The arithmetic of an intrinsic. -/
def Intrinsic.arith (F : FloatUnit) : Intrinsic → Arith
  | .vtfmm | .vtfmmAlt => floatArith F
  | .vtmms => intArith

/-- **The intrinsics** add an outer product to the tile: lane `i` of the left register, promoted,
    times lane `j` of the right one. -/
def Intrinsic.multiplyAdd (F : FloatUnit) (intrinsic : Intrinsic) (lhs rhs : Nat)
    (tile : Nat × Nat → Nat) (cell : Nat × Nat) : Nat :=
  let A := intrinsic.arith F
  let type := intrinsic.inputType
  A.accumulate .add (A.promote type (lane (bitsOf type) lhs cell.1))
    (A.promote type (lane (bitsOf type) rhs cell.2)) (tile cell)

/-- The register of a passed operand. -/
def Operand.register (o : Operand) (values : Nat → Nat) (undef : Nat) : Nat :=
  Lib.register (bitsOf o.source.elementType) o.source.dims.prod values undef

/-- Values of an operand's source are of its type. -/
def Operand.InRange (o : Operand) (values : Nat → Nat) : Prop :=
  ∀ e, values e < 2 ^ bitsOf o.source.elementType

/-- **The contraction means what the intrinsic computes**: for all values of what is passed,
    whatever the registers hold above it, and every accumulator. -/
def MeansIntrinsic (F : FloatUnit) (c : ChainContraction) : Prop :=
  ∃ call, c.lower = .ok call ∧
    ∀ lhs rhs : Nat → Nat, c.passedLhs.InRange lhs → c.passedRhs.InRange rhs →
      ∀ undef undef' : Nat, ∀ acc : Nat × Nat → Nat, (∀ cell, acc cell < 2 ^ 32) →
        ∀ cell ∈ cells 4 4,
          call.intrinsic.multiplyAdd F (c.passedLhs.register lhs undef)
              (c.passedRhs.register rhs undef') acc cell
            = c.op.eval (c.arith F) c.kind (c.passedLhs.values F lhs) (c.passedRhs.values F rhs)
                acc cell

/-! ### The condition -/

/-- The passed operand feeds the lanes of an intrinsic for `inputElTy`: a vector of four elements
    of that type, with no unsigned extension left out. -/
structure Operand.Feeds (o : Operand) (inputElTy : ElementType) : Prop where
  vector : o.isVector = true
  count : o.source.dims.prod = 4
  type : o.source.elementType = inputElTy
  signed : ∀ t, (.extUI, t) ∉ o.casts

/-- The condition: a sum, with the left operand on the rows, of passed operands that feed the
    intrinsic. -/
structure ChainContraction.Lowers (c : ChainContraction) : Prop where
  kind : c.kind = .add
  rows : c.op.RowsFirst
  lhs : c.passedLhs.Feeds c.inputElTy
  rhs : c.passedRhs.Feeds c.inputElTy

/-! ### The passed operands -/

/-- The dimensions before the casts are positive. -/
theorem ValidCasts.pos {t : VectorType} {casts : List (CastKind × VectorType)}
    (h : ValidCasts t casts) : ∀ d ∈ t.dims, 1 ≤ d := by
  cases casts with
  | nil => exact h
  | cons _ _ => exact h.1

/-- So are those after. -/
theorem ValidCasts.pos_type {t : VectorType} {casts : List (CastKind × VectorType)}
    (h : ValidCasts t casts) : ∀ d ∈ (castsType t casts).dims, 1 ≤ d := by
  induction casts generalizing t with
  | nil => exact h
  | cons cast casts ih => exact ih h.2.2

/-- An operand of an accepted contraction: four elements, after valid casts. -/
structure Operand.IsColumn (o : Operand) : Prop where
  valid : o.Valid
  count : o.type.dims.prod = 4

namespace Operand

variable {F : FloatUnit} {A : Arith} {T : ElementType} {o : Operand}

/-- Both paths pass an operand of the same type. -/
@[simp] theorem passedOperand_type (path : Path) (o : Operand) :
    (passedOperand path o).type = o.type := by
  cases path <;> rfl

/-- Both paths pass a column. -/
theorem IsColumn.passed (h : o.IsColumn) (path : Path) : (passedOperand path o).IsColumn := by
  refine ⟨?_, by rw [passedOperand_type]; exact h.count⟩
  cases path with
  | loop => exact h.valid
  | straightLine => exact ValidCasts.pos_type h.valid

/-- A column has elements. -/
theorem IsColumn.one_le (h : o.IsColumn) : 1 ≤ o.source.dims.prod := one_le_prod h.valid.pos

/-- It has at most four. -/
theorem IsColumn.le_four (h : o.IsColumn) : o.source.dims.prod ≤ 4 :=
  (castsIndex_spec h.valid).1.trans_eq h.count

/-! ### What is multiplied -/

/-- What an intrinsic for `T` multiplies: the promoted lanes of the register. -/
def lanes (A : Arith) (T : ElementType) (o : Operand) (values : Nat → Nat) (undef i : Nat) :
    Nat :=
  A.promote T (lane (bitsOf T) (o.register values undef) i)

/-- What the contraction multiplies: the promoted elements of the operand. -/
def elements (F : FloatUnit) (A : Arith) (o : Operand) (values : Nat → Nat) (i : Nat) : Nat :=
  A.promote o.type.elementType (o.values F values i)

/-- The elements, when the source holds one number everywhere. -/
theorem elements_const (F : FloatUnit) (A : Arith) (o : Operand) (x i : Nat) :
    o.elements F A (fun _ => x) i
      = A.promote o.type.elementType (castsElement F o.source o.casts x) :=
  congrArg (A.promote _) (castsValues_eq F _ _ _ _)

/-- The elements, when the source has four. -/
theorem elements_four (h : o.IsColumn) (hcount : o.source.dims.prod = 4) (F : FloatUnit)
    (A : Arith) (values : Nat → Nat) {i : Nat} (hi : i < 4) :
    o.elements F A values i
      = A.promote o.type.elementType (castsElement F o.source o.casts (values i)) := by
  have hsame := (castsIndex_spec h.valid).2 (hcount.trans h.count.symm) i (hi.trans_eq h.count.symm)
  refine congrArg (A.promote _) ((castsValues_eq F _ _ _ _).trans ?_)
  rw [hsame]

/-- The lanes, when the source has four elements of their type. -/
theorem lanes_four (hcount : o.source.dims.prod = 4) (htype : o.source.elementType = T)
    (A : Arith) {values : Nat → Nat} (hvalues : o.InRange values) (undef : Nat) {i : Nat}
    (hi : i < 4) : o.lanes A T values undef i = A.promote T (values i) := by
  subst htype
  unfold lanes Operand.register
  rw [lane_register hvalues (by omega)]

/-- The casts do not change what the elements are promoted to. -/
def Keeps (F : FloatUnit) (A : Arith) (o : Operand) : Prop :=
  ∀ x, x < 2 ^ bitsOf o.source.elementType →
    A.promote o.type.elementType (castsElement F o.source o.casts x)
      = A.promote o.source.elementType x

/-- **An operand that feeds the lanes**: they are its elements. -/
theorem lanes_eq_elements (h : o.IsColumn) (hfeeds : o.Feeds T) (hkeeps : o.Keeps F A)
    {values : Nat → Nat} (hvalues : o.InRange values) (undef : Nat) {i : Nat} (hi : i < 4) :
    o.lanes A T values undef i = o.elements F A values i := by
  rw [lanes_four hfeeds.count hfeeds.type A hvalues undef hi, elements_four h hfeeds.count F A _ hi,
    hkeeps _ (hvalues i), hfeeds.type]

/-- The tile and the contraction agree, with the left operand on the rows or on the columns. -/
def Agree (F : FloatUnit) (A : Arith) (T : ElementType) (kind : CombiningKind) (rows : Bool)
    (o o' : Operand) : Prop :=
  ∀ values values', o.InRange values → o'.InRange values' →
    ∀ undef undef' acc i j, acc < 2 ^ 32 → i < 4 → j < 4 →
      A.accumulate .add (o.lanes A T values undef i) (o'.lanes A T values' undef' j) acc
        = A.accumulate kind (o.elements F A values (if rows then i else j))
            (o'.elements F A values' (if rows then j else i)) acc

/-- Sums of operands that feed the lanes agree. -/
theorem agree_of_feeds {o' : Operand} (h : o.IsColumn) (h' : o'.IsColumn) (hfeeds : o.Feeds T)
    (hfeeds' : o'.Feeds T) (hkeeps : o.Keeps F A) (hkeeps' : o'.Keeps F A) :
    Agree F A T .add true o o' := by
  intro values values' hvalues hvalues' undef undef' acc i j _ hi hj
  rw [lanes_eq_elements h hfeeds hkeeps hvalues undef hi,
    lanes_eq_elements h' hfeeds' hkeeps' hvalues' undef' hj]
  rfl

end Operand

/-! ### The two sides of a contraction -/

/-- The element types that are accepted. -/
theorem supportedElementTypes_cases {inputElTy accElTy : ElementType}
    (h : isSupportedElementTypes inputElTy accElTy = true) :
    (inputElTy = .f32 ∨ inputElTy = .bf16) ∧ accElTy = .f32
      ∨ inputElTy = .integer 8 ∧ accElTy = .integer 32 := by
  simp only [isSupportedElementTypes, ElementType.isF32, ElementType.isBF16,
    ElementType.isInteger, Bool.or_eq_true, Bool.and_eq_true, decide_eq_true_eq] at h
  tauto

namespace ChainContraction

variable {F : FloatUnit}

/-- The element types of an accepted contraction. -/
theorem chain_types (c : ChainContraction) :
    (c.inputElTy = .f32 ∨ c.inputElTy = .bf16) ∧ c.op.accType.elementType = .f32
      ∨ c.inputElTy = .integer 8 ∧ c.op.accType.elementType = .integer 32 :=
  supportedElementTypes_cases c.chain_type

/-- The intrinsic multiplies elements of the chain's input type, in the accumulator's
    arithmetic. -/
theorem intrinsic_eq (F : FloatUnit) (c : ChainContraction) :
    ∃ intrinsic, intrinsicFor c.inputElTy = .ok intrinsic ∧ intrinsic.inputType = c.inputElTy
      ∧ intrinsic.arith F = c.arith F := by
  unfold arith
  rcases c.chain_types with ⟨h | h, hacc⟩ | ⟨h, hacc⟩ <;> rw [h, hacc]
  · exact ⟨.vtfmm, rfl, rfl, rfl⟩
  · exact ⟨.vtfmmAlt, rfl, rfl, rfl⟩
  · exact ⟨.vtmms, rfl, rfl, rfl⟩

/-- Three loops index an accepted contraction. -/
theorem matrixForm (c : ChainContraction) : ∃ m n k, MatrixForm c.op m n k :=
  matrixForm_of_verified c.verified (isSupportedMatrixContraction_true c.accepted).2

/-- The left operand that is passed is a column. -/
theorem isColumn_lhs (c : ChainContraction) : c.passedLhs.IsColumn := by
  obtain ⟨m, n, k, hform⟩ := c.matrixForm
  refine Operand.IsColumn.passed ⟨c.lhs_valid, ?_⟩ c.path
  rw [c.lhs_type]
  rcases hform.lhs with ⟨-, h⟩ | ⟨-, h⟩ <;> rw [h] <;> rfl

/-- So is the right one. -/
theorem isColumn_rhs (c : ChainContraction) : c.passedRhs.IsColumn := by
  obtain ⟨m, n, k, hform⟩ := c.matrixForm
  refine Operand.IsColumn.passed ⟨c.rhs_valid, ?_⟩ c.path
  rw [c.rhs_type]
  rcases hform.rhs with ⟨-, h⟩ | ⟨-, h⟩ <;> rw [h] <;> rfl

/-- It has the type of the contraction's operand. -/
theorem type_lhs (c : ChainContraction) : c.passedLhs.type = c.op.lhsType :=
  (Operand.passedOperand_type _ _).trans c.lhs_type

/-- So has the right one. -/
theorem type_rhs (c : ChainContraction) : c.passedRhs.type = c.op.rhsType :=
  (Operand.passedOperand_type _ _).trans c.rhs_type

/-- The rewriting passes vectors. -/
theorem lower_isOk (c : ChainContraction) {intrinsic : Intrinsic}
    (hintrinsic : intrinsicFor c.inputElTy = .ok intrinsic) {call : IntrinsicCall} :
    c.lower = .ok call → c.passedLhs.isVector = true ∧ c.passedRhs.isVector = true
      ∧ call.intrinsic = intrinsic := by
  unfold lower castToScalable
  rw [hintrinsic]
  cases c.passedLhs.isVector <;> cases c.passedRhs.isVector
  case true.true =>
    intro h
    obtain rfl := Except.ok.inj h
    exact ⟨rfl, rfl, rfl⟩
  all_goals exact fun h => nomatch h

/-- The call that a contraction is lowered to. -/
theorem lower_eq (c : ChainContraction) {intrinsic : Intrinsic}
    (hintrinsic : intrinsicFor c.inputElTy = .ok intrinsic) (hlhs : c.passedLhs.isVector = true)
    (hrhs : c.passedRhs.isVector = true) :
    ∃ call, c.lower = .ok call ∧ call.intrinsic = intrinsic := by
  unfold lower castToScalable
  rw [hintrinsic, hlhs, hrhs]
  exact ⟨_, rfl, rfl⟩

/-- **The two sides** of an accepted contraction. -/
theorem meansIntrinsic_iff_agree (F : FloatUnit) (c : ChainContraction) (rows : Bool)
    (hrows : rows = true ↔ c.op.RowsFirst) :
    MeansIntrinsic F c ↔ c.passedLhs.isVector = true ∧ c.passedRhs.isVector = true
      ∧ Operand.Agree F (c.arith F) c.inputElTy c.kind rows c.passedLhs c.passedRhs := by
  obtain ⟨m, n, k, hform⟩ := c.matrixForm
  obtain ⟨intrinsic, hintrinsic, hinput, harith⟩ := c.intrinsic_eq F
  -- both sides, at a cell
  have htile : ∀ (lhs rhs : Nat → Nat) (undef undef' : Nat) (acc : Nat × Nat → Nat)
      (cell : Nat × Nat),
      intrinsic.multiplyAdd F (c.passedLhs.register lhs undef) (c.passedRhs.register rhs undef')
          acc cell
        = (c.arith F).accumulate .add (c.passedLhs.lanes (c.arith F) c.inputElTy lhs undef cell.1)
            (c.passedRhs.lanes (c.arith F) c.inputElTy rhs undef' cell.2) (acc cell) := by
    intro lhs rhs undef undef' acc cell
    unfold Intrinsic.multiplyAdd Operand.lanes
    rw [harith, hinput]
  have hmeaning : ∀ (lhs rhs : Nat → Nat) (acc : Nat × Nat → Nat) (cell : Nat × Nat),
      c.op.eval (c.arith F) c.kind (c.passedLhs.values F lhs) (c.passedRhs.values F rhs) acc cell
        = (c.arith F).accumulate c.kind
            (c.passedLhs.elements F (c.arith F) lhs (if rows then cell.1 else cell.2))
            (c.passedRhs.elements F (c.arith F) rhs (if rows then cell.2 else cell.1))
            (acc cell) := by
    intro lhs rhs acc cell
    rw [hform.eval_eq]
    unfold Operand.elements
    rw [c.type_lhs, c.type_rhs]
    simp only [hrows.trans hform.rowsFirst_iff]
  constructor
  · rintro ⟨call, hcall, hmeans⟩
    obtain ⟨hlhs, hrhs, rfl⟩ := c.lower_isOk hintrinsic hcall
    refine ⟨hlhs, hrhs, ?_⟩
    intro values values' hvalues hvalues' undef undef' acc i j hacc hi hj
    have hcell := hmeans values values' hvalues hvalues' undef undef' (fun _ => acc)
      (fun _ => hacc) (i, j) (mem_cells.mpr ⟨hi, hj⟩)
    rwa [htile, hmeaning] at hcell
  · rintro ⟨hlhs, hrhs, hagree⟩
    obtain ⟨call, hcall, rfl⟩ := c.lower_eq hintrinsic hlhs hrhs
    refine ⟨call, hcall, ?_⟩
    intro lhs rhs hvalues hvalues' undef undef' acc hacc cell hcell
    rw [htile, hmeaning]
    obtain ⟨hi, hj⟩ := mem_cells.mp hcell
    exact hagree lhs rhs hvalues hvalues' undef undef' (acc cell) cell.1 cell.2 (hacc cell) hi hj

end ChainContraction

end CoralNPU.Matrix
