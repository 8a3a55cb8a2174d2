import AustralVM.CodeExecution
import AustralVM.CpsLowering
import AustralVM.CSemantics
import Mathlib.Algebra.Ring.Parity

/-!
# Values of boolean expressions

A boolean expression is a literal, a comparison or a negation.  Its compiled code is
to compute 1 if it is true and 0 if it is false.  A comparison does so if the code of
its operands computes what they denote, unless it orders unsigned numbers on different
sides of 2^63; a negation complements all bits, so that it never does by itself, and a
second negation undoes the first one.
-/

namespace AustralVM

open Option BitVec

/-! ## Comparisons -/

def ComparisonOperator.isOrder : ComparisonOperator → Bool
  | .equal | .notEqual => false
  | _ => true

open ComparisonOperator

def MonoTy.isUnsigned : MonoTy → Bool
  | .integer .unsigned _ => true
  | _ => false

/-- A literal has no type of its own, so either operand tells that a comparison is one of
unsigned numbers. -/
def comparesUnsigned (lhs rhs : MExpr) : Bool :=
  (getExprType lhs).isUnsigned || (getExprType rhs).isUnsigned

def numberOf (unsigned : Bool) (word : Word) : Int :=
  if unsigned then word.toNat else word.toInt

theorem compute_comparisonOp (op : ComparisonOperator) (lhs rhs : Word) :
    (comparisonOp op).compute lhs rhs = some (wordOfBool (op.holds lhs.toInt rhs.toInt)) := by
  cases op with
  | equal =>
    have same : (lhs == rhs) = (lhs.toInt == rhs.toInt) := by simp [toInt_inj, beq_eq_decide]
    simp only [comparisonOp, CpsBinop.compute, holds, same]
  | notEqual =>
    have same : (lhs != rhs) = (lhs.toInt != rhs.toInt) := by simp [toInt_inj, bne, beq_eq_decide]
    simp only [comparisonOp, CpsBinop.compute, holds, same]
  | _ => rfl

theorem holds_toNat_iff (op : ComparisonOperator) (lhs rhs : Word) :
    op.holds lhs.toInt rhs.toInt = op.holds lhs.toNat rhs.toNat ↔
      (op.isOrder → lhs.msb = rhs.msb) := by
  have lhsLess := lhs.isLt
  have rhsLess := rhs.isLt
  have lhsTop := msb_eq_decide lhs
  have rhsTop := msb_eq_decide rhs
  have lhsInt := toInt_eq_msb_cond lhs
  have rhsInt := toInt_eq_msb_cond rhs
  have same : (lhs.toInt == rhs.toInt) = ((lhs.toNat : Int) == rhs.toNat) := by
    simp only [beq_eq_decide, toInt_inj, Int.natCast_inj, toNat_inj]
  cases op with
  | equal => simp [holds, isOrder, same]
  | notEqual => simp [holds, isOrder, bne, same]
  | _ =>
    cases left : lhs.msb <;> cases right : rhs.msb <;>
      simp_all [holds, isOrder] <;> omega

theorem holds_numberOf_iff (op : ComparisonOperator) (unsigned : Bool) (lhs rhs : Word) :
    op.holds lhs.toInt rhs.toInt = op.holds (numberOf unsigned lhs) (numberOf unsigned rhs) ↔
      (unsigned → op.isOrder → lhs.msb = rhs.msb) := by
  cases unsigned with
  | false => simp [numberOf]
  | true => simpa [numberOf] using holds_toNat_iff op lhs rhs

/-! ## Expressions -/

/-- The boolean expressions: literals, comparisons, and negations of boolean expressions. -/
def MExpr.isBoolean : MExpr → Bool
  | .boolConstant _ | .comparison _ _ _ => true
  | .negation operand => operand.isBoolean
  | _ => false

/-- The negations around a literal or a comparison. -/
def MExpr.negations : MExpr → Nat
  | .negation operand => operand.negations + 1
  | _ => 0

/-- What the operands of comparisons denote that are neither boolean expressions nor integer
literals, and what evaluating them does to the world. -/
abbrev OperandMeaning (ω : Type) := MExpr → ω → Option (Int × ω)

section Values

variable (tables : CpsTables) (ctx : EmitContext) {ω : Type} (host : CodeHost ω)
  (vars : String → Word) (meaning : OperandMeaning ω)

/-- What the compiled code of an expression computes. -/
def computed (expr : MExpr) (world : ω) : Option (Word × ω) :=
  match readExpr ctx (convertExpr tables expr) with
  | .ok code => evalCode host vars code world
  | .error _ => none

/-- The number that an operand of a comparison denotes. -/
def operandNumber (operand : MExpr) (truthOf : ω → Option (Bool × ω)) (world : ω) :
    Option (Int × ω) :=
  if operand.isBoolean then
    (truthOf world).map fun result => (if result.1 then 1 else 0, result.2)
  else
    match operand with
    | .intConstant text => (integerOfText text).map fun value => (value, world)
    | operand => meaning operand world

def truth : MExpr → ω → Option (Bool × ω)
  | .boolConstant value, world => some (value, world)
  | .negation operand, world => do
    let (value, world) ← truth operand world
    some (!value, world)
  | .comparison op lhs rhs, world => do
    let (left, world) ← operandNumber meaning lhs (truth lhs) world
    let (right, world) ← operandNumber meaning rhs (truth rhs) world
    some (op.holds left right, world)
  | _, _ => none

/-- An operand, whether its comparison is one of unsigned numbers, and the world that the
operand is computed in. -/
structure Operand (ω : Type) where
  expr : MExpr
  unsigned : Bool
  world : ω

/-- The operands of the comparisons within a boolean expression. -/
def operandsIn : MExpr → ω → List (Operand ω)
  | .negation operand, world => operandsIn operand world
  | .comparison _ lhs rhs, world =>
    ⟨lhs, comparesUnsigned lhs rhs, world⟩ :: operandsIn lhs world ++
      match computed tables ctx host vars lhs world with
      | some (_, between) => ⟨rhs, comparesUnsigned lhs rhs, between⟩ :: operandsIn rhs between
      | none => []
  | _, _ => []

/-- The code computes 1 if the expression is true and 0 if it is false, and an `if` or
`while` with the expression as its condition is decided accordingly. -/
def ComputesTruth (expr : MExpr) (world : ω) : Prop :=
  ∃ code value after,
    readExpr ctx (convertExpr tables expr) = .ok code ∧
      truth meaning expr world = some (value, after) ∧
      evalCode host vars code world = some (wordOfBool value, after) ∧
      testCodeIn host code ⟨vars, world⟩ = some (value, ⟨vars, after⟩)

/-- The code computes the number that the operand denotes. -/
def ComputesNumber (operand : Operand ω) : Prop :=
  ∃ word after, computed tables ctx host vars operand.expr operand.world = some (word, after) ∧
    operandNumber meaning operand.expr (truth meaning operand.expr) operand.world =
      some (numberOf operand.unsigned word, after)

/-- The code of an operand computes its truth, if it is a boolean expression, or else its
number. -/
def ComputedRight (operand : Operand ω) : Prop :=
  if operand.expr.isBoolean then
    ComputesTruth tables ctx host vars meaning operand.expr operand.world
  else ComputesNumber tables ctx host vars meaning operand

/-- A comparison that orders unsigned numbers has both of them on the same side of 2^63. -/
def OneSided : MExpr → ω → Prop
  | .negation operand, world => OneSided operand world
  | .comparison op lhs rhs, world =>
    comparesUnsigned lhs rhs → op.isOrder → ∀ left between right after,
      computed tables ctx host vars lhs world = some (left, between) →
      computed tables ctx host vars rhs between = some (right, after) → left.msb = right.msb
  | _, _ => True

/-- An integer literal that the code has a word for. -/
def LiteralFits (unsigned : Bool) (text : String) : Prop :=
  ∃ value, integerOfText text = some value ∧ OcamlFloat.inRange value = true ∧
    (unsigned → 0 ≤ value)

/-- The negations around a boolean expression cancel out, and it does not order unsigned
numbers on different sides of 2^63.  A literal fits, and the code of any other operand
computes what it denotes. -/
def PlainlyComputed (operand : Operand ω) : Prop :=
  if operand.expr.isBoolean then
    Even operand.expr.negations ∧ OneSided tables ctx host vars operand.expr operand.world
  else
    match operand.expr with
    | .intConstant text => LiteralFits operand.unsigned text
    | _ => ComputesNumber tables ctx host vars meaning operand

end Values

/-! ## Computed words -/

section Computed

variable {tables : CpsTables} {ctx : EmitContext} {ω : Type} {host : CodeHost ω}
  {vars : String → Word} {meaning : OperandMeaning ω} {expr : MExpr} {world after : ω} {word : Word}

theorem computed_negation (operand : MExpr) (world : ω) :
    computed tables ctx host vars (.negation operand) world =
      (computed tables ctx host vars operand world).map fun result => (~~~result.1, result.2) := by
  rw [computed, computed, convertExpr, readExpr]
  cases readExpr ctx (convertExpr tables operand) with
  | error => rfl
  | ok code =>
    show evalCode host vars (.bnot code) world = (evalCode host vars code world).map _
    rw [evalCode]
    cases evalCode host vars code world with
    | none => rfl
    | some => rfl

theorem comparisonOp_ne (op : ComparisonOperator) :
    ¬ (comparisonOp op = .and ∨ comparisonOp op = .or) := by
  cases op <;> simp [comparisonOp]

theorem computed_comparison (op : ComparisonOperator) (lhs rhs : MExpr) (world : ω) :
    computed tables ctx host vars (.comparison op lhs rhs) world = (do
      let (left, world) ← computed tables ctx host vars lhs world
      let (right, world) ← computed tables ctx host vars rhs world
      some (wordOfBool (op.holds left.toInt right.toInt), world)) := by
  unfold computed
  rw [convertExpr, readExpr, if_neg (comparisonOp_ne op)]
  cases readExpr ctx (convertExpr tables lhs) with
  | error => rfl
  | ok left =>
    cases readExpr ctx (convertExpr tables rhs) with
    | error =>
      show none = (evalCode host vars left world).bind fun _ => none
      rw [bind_fun_none]
    | ok right =>
      show evalCode host vars ((comparisonOp op).instruction left right) world = _
      simp only [evalCode_instruction (comparisonOp_ne op), compute_comparisonOp]
      rfl

theorem computesTruth_iff_eq
    (computes : computed tables ctx host vars expr world = some (word, after))
    (isTruth : truth meaning expr world = some (value, after)) :
    ComputesTruth tables ctx host vars meaning expr world ↔ word = wordOfBool value := by
  unfold computed at computes
  split at computes
  case h_2 => cases computes
  case h_1 code read =>
      constructor
      · rintro ⟨_, _, _, read', isTruth', computes', -⟩
        cases read.symm.trans read'
        cases isTruth.symm.trans isTruth'
        exact congrArg Prod.fst (Option.some.inj (computes.symm.trans computes'))
      · rintro rfl
        refine ⟨code, value, after, read, isTruth, computes, ?_⟩
        have decided : (wordOfBool value != 0) = value := by cases value <;> rfl
        simp only [testCodeIn, evalCodeIn, computes, map_some, decided]

theorem numberOf_wordOfBool (unsigned value : Bool) :
    numberOf unsigned (wordOfBool value) = if value then 1 else 0 := by
  cases unsigned <;> cases value <;> rfl

/-- An operand that is computed right denotes the number of the word. -/
theorem ComputedRight.number {operand : Operand ω}
    (right : ComputedRight tables ctx host vars meaning operand)
    (computes : computed tables ctx host vars operand.expr operand.world = some (word, after)) :
    operandNumber meaning operand.expr (truth meaning operand.expr) operand.world =
      some (numberOf operand.unsigned word, after) := by
  unfold ComputedRight at right
  split_ifs at right with boolean
  · obtain ⟨_, _, _, read, isTruth, evaluates, -⟩ := right
    rw [computed, read] at computes
    cases computes.symm.trans evaluates
    unfold operandNumber
    rw [if_pos boolean, isTruth, map_some, numberOf_wordOfBool]
  · obtain ⟨_, _, computes', isNumber⟩ := right
    cases computes.symm.trans computes'
    exact isNumber

theorem computesNumber_literal (text : String) (unsigned : Bool) (world : ω) :
    ComputesNumber tables ctx host vars meaning ⟨.intConstant text, unsigned, world⟩ ↔
      LiteralFits unsigned text := by
  have computes : computed tables ctx host vars (.intConstant text) world =
      some ((int64OfString text).getD 0, world) := rfl
  have denotes : operandNumber meaning (.intConstant text) (truth meaning (.intConstant text)) world =
      (integerOfText text).map fun value => (value, world) := rfl
  unfold ComputesNumber LiteralFits
  rw [denotes, computes]
  cases isValue : integerOfText text with
  | none => simp
  | some value =>
    have stored : int64OfString text =
        if OcamlFloat.inRange value then some (BitVec.ofInt 64 value) else none := by
      rw [int64OfString, isValue]
    simp only [map_some, Option.some.injEq, Prod.mk.injEq, ↓existsAndEq, and_true, true_and, stored]
    cases fits : OcamlFloat.inRange value with
    | false =>
      simp only [Bool.false_eq_true, if_false, getD_none, false_and, iff_false]
      rintro rfl
      cases unsigned <;> exact absurd fits (by decide)
    | true =>
      have bounds : -2 ^ 63 ≤ value ∧ value < 2 ^ 63 := by simpa [OcamlFloat.inRange] using fits
      simp only [if_true, getD_some, true_and]
      cases unsigned with
      | false =>
        simp only [numberOf, Bool.false_eq_true, if_false, false_implies, iff_true]
        rw [toInt_ofInt]
        exact (Int.bmod_eq_of_le (by omega) (by omega)).symm
      | true =>
        simp only [numberOf, if_true, true_implies, toNat_ofInt]
        omega

/-- The core of a boolean expression is computed as one bit, and each negation around it
complements the word.  The bit is right if the core is no comparison that the instructions
take for one of signed numbers. -/
theorem exists_bit (boolean : expr.isBoolean)
    (operands : ∀ operand ∈ operandsIn tables ctx host vars expr world,
      ComputedRight tables ctx host vars meaning operand)
    (computes : computed tables ctx host vars expr world = some (word, after)) : ∃ bit value : Bool,
      word = (~~~ ·)^[expr.negations] (wordOfBool bit) ∧
      truth meaning expr world = some (not^[expr.negations] value, after) ∧
      (bit = value ↔ OneSided tables ctx host vars expr world) := by
  induction expr using MExpr.isBoolean.induct generalizing word with
  | case1 value =>
    cases computes
    exact ⟨value, value, rfl, rfl, iff_of_true rfl trivial⟩
  | case2 op lhs rhs =>
    rw [computed_comparison] at computes
    obtain ⟨⟨left, between⟩, computesLeft, computes⟩ := bind_eq_some_iff.mp computes
    obtain ⟨⟨right, after'⟩, computesRight, computes⟩ := bind_eq_some_iff.mp computes
    cases computes
    rw [operandsIn, computesLeft] at operands
    have isLeft := (operands _ List.mem_cons_self).number computesLeft
    have isRight := (operands ⟨rhs, comparesUnsigned lhs rhs, between⟩ (by simp)).number computesRight
    refine ⟨_, op.holds (numberOf (comparesUnsigned lhs rhs) left)
      (numberOf (comparesUnsigned lhs rhs) right), rfl, ?_, ?_⟩
    · simp only [truth, isLeft, isRight, bind_eq_bind, bind_some]
      rfl
    · rw [holds_numberOf_iff, OneSided]
      constructor
      · intro same unsigned order _ _ _ _ computesLeft' computesRight'
        cases computesLeft.symm.trans computesLeft'
        cases computesRight.symm.trans computesRight'
        exact same unsigned order
      · intro same unsigned order
        exact same unsigned order _ _ _ _ computesLeft computesRight
  | case3 _ ih =>
    rw [computed_negation] at computes
    obtain ⟨⟨_, _⟩, computesInner, equal⟩ := map_eq_some_iff.mp computes
    cases equal
    obtain ⟨bit, value, isWord, isTruth, same⟩ := ih boolean operands computesInner
    refine ⟨bit, value, ?_, ?_, same⟩
    · rw [MExpr.negations, Function.iterate_succ_apply', ← isWord]
    · rw [truth, isTruth, MExpr.negations, Function.iterate_succ_apply']
      rfl
  | case4 => simp [MExpr.isBoolean] at boolean

theorem complement_involutive : Function.Involutive (fun word : Word => ~~~word) :=
  fun _ => not_not

theorem complement_ne (bit value : Bool) : ~~~wordOfBool bit ≠ wordOfBool value := by
  cases bit <;> cases value <;> decide

theorem wordOfBool_inj : wordOfBool bit = wordOfBool value ↔ bit = value := by
  cases bit <;> cases value <;> decide

/-- A boolean expression whose comparisons have their operands computed right is itself
computed right exactly if the negations around it cancel out and its comparison, if it is
one of unsigned numbers, has them on the same side. -/
theorem computesTruth_iff_of_operands (boolean : expr.isBoolean)
    (computes : (computed tables ctx host vars expr world).isSome)
    (operands : ∀ operand ∈ operandsIn tables ctx host vars expr world,
      ComputedRight tables ctx host vars meaning operand) :
    ComputesTruth tables ctx host vars meaning expr world ↔
      Even expr.negations ∧ OneSided tables ctx host vars expr world := by
  obtain ⟨⟨_, _⟩, computes⟩ := isSome_iff_exists.mp computes
  obtain ⟨_, _, isWord, isTruth, same⟩ := exists_bit boolean operands computes
  rw [computesTruth_iff_eq computes isTruth, isWord, ← same]
  rcases Nat.even_or_odd expr.negations with even | odd
  · rw [complement_involutive.iterate_even even, Bool.involutive_not.iterate_even even]
    simp only [id, wordOfBool_inj, even, true_and]
  · rw [complement_involutive.iterate_odd odd]
    have uneven : ¬ Even expr.negations := Nat.not_even_iff_odd.mpr odd
    simp only [complement_ne, uneven, false_and]

theorem computedRight_iff {operand : Operand ω}
    (computes : (computed tables ctx host vars operand.expr operand.world).isSome)
    (operands : ∀ inner ∈ operandsIn tables ctx host vars operand.expr operand.world,
      ComputedRight tables ctx host vars meaning inner) :
    ComputedRight tables ctx host vars meaning operand ↔
      PlainlyComputed tables ctx host vars meaning operand := by
  unfold ComputedRight PlainlyComputed
  split_ifs with boolean
  · exact computesTruth_iff_of_operands boolean computes operands
  · split
    · rename_i text isLiteral
      obtain ⟨_, _, _⟩ := operand
      cases isLiteral
      exact computesNumber_literal text _ _
    · rfl

theorem forall_operand_iff {operand : Operand ω}
    (computes : (computed tables ctx host vars operand.expr operand.world).isSome)
    (within : (∀ inner ∈ operandsIn tables ctx host vars operand.expr operand.world,
        ComputedRight tables ctx host vars meaning inner) ↔
      ∀ inner ∈ operandsIn tables ctx host vars operand.expr operand.world,
        PlainlyComputed tables ctx host vars meaning inner) :
    (∀ inner ∈ operand :: operandsIn tables ctx host vars operand.expr operand.world,
        ComputedRight tables ctx host vars meaning inner) ↔
      ∀ inner ∈ operand :: operandsIn tables ctx host vars operand.expr operand.world,
        PlainlyComputed tables ctx host vars meaning inner := by
  rw [List.forall_mem_cons, List.forall_mem_cons, ← within]
  exact and_congr_left fun operands => computedRight_iff computes operands

theorem forall_operandsIn_iff (computes : (computed tables ctx host vars expr world).isSome) :
    (∀ operand ∈ operandsIn tables ctx host vars expr world,
        ComputedRight tables ctx host vars meaning operand) ↔
      ∀ operand ∈ operandsIn tables ctx host vars expr world,
        PlainlyComputed tables ctx host vars meaning operand := by
  fun_induction operandsIn tables ctx host vars expr world with
  | case1 world operand ih =>
    rw [computed_negation, isSome_map] at computes
    exact ih computes
  | case2 op lhs rhs world lhsIh rhsIh =>
    obtain ⟨_, computes⟩ := isSome_iff_exists.mp computes
    rw [computed_comparison] at computes
    obtain ⟨⟨_, between⟩, computesLeft, computes⟩ := bind_eq_some_iff.mp computes
    obtain ⟨⟨_, _⟩, computesRight, -⟩ := bind_eq_some_iff.mp computes
    have someLeft := isSome_of_eq_some computesLeft
    have someRight := isSome_of_eq_some computesRight
    simp only [computesLeft]
    rw [List.forall_mem_append, List.forall_mem_append]
    exact and_congr (forall_operand_iff someLeft (lhsIh someLeft))
      (forall_operand_iff someRight (rhsIh between someRight))
  | case3 => simp

end Computed

/-- The code of a boolean expression computes its truth, and that of every operand within what
the operand denotes, exactly if the negations around each boolean expression cancel out, none
orders unsigned numbers on different sides of 2^63, every integer literal fits, and the code of
each other operand computes what it denotes. -/
theorem computesTruth_iff (tables : CpsTables) (ctx : EmitContext) {ω : Type} (host : CodeHost ω)
    (vars : String → Word) (meaning : OperandMeaning ω) (expr : MExpr) (world : ω)
    (boolean : expr.isBoolean) (computes : (computed tables ctx host vars expr world).isSome) :
    (ComputesTruth tables ctx host vars meaning expr world ∧
        ∀ operand ∈ operandsIn tables ctx host vars expr world,
          ComputedRight tables ctx host vars meaning operand) ↔
      (Even expr.negations ∧ OneSided tables ctx host vars expr world) ∧
        ∀ operand ∈ operandsIn tables ctx host vars expr world,
          PlainlyComputed tables ctx host vars meaning operand := by
  rw [← forall_operandsIn_iff computes]
  exact and_congr_left fun operands => computesTruth_iff_of_operands boolean computes operands

def CodeHost.bare : CodeHost Unit := ⟨CpsHost.bare.toCpsMemory, fun _ _ _ => none⟩

def EmitContext.alone : EmitContext := ⟨.replacing, .initial, [], "run", ""⟩

/-- No declarations are registered, and no text is a float. -/
def CpsTables.empty : CpsTables := .initial fun _ => none

/-- `x < 5`. -/
def lessThanFive : MExpr :=
  .comparison .lessThan (.localVar ⟨"x"⟩ (.integer .signed .width64)) (.intConstant "5")

/-- `not (not ((x < 5) = true))`. -/
def doubleNegation : MExpr :=
  .negation (.negation (.comparison .equal lessThanFive (.boolConstant true)))

/-- A variable denotes its word as a signed number. -/
def signedVariables (vars : String → Word) : OperandMeaning Unit
  | .localVar name _, world => some ((vars name.string).toInt, world)
  | _, _ => none

theorem computesTruth_of_doubleNegation : ComputesTruth .empty .alone .bare (fun _ => 3)
      (signedVariables fun _ => 3) doubleNegation () := by
  have operands : operandsIn .empty .alone .bare (fun _ => 3) doubleNegation () =
      [⟨lessThanFive, false, ()⟩, ⟨.localVar ⟨"x"⟩ (.integer .signed .width64), false, ()⟩,
        ⟨.intConstant "5", false, ()⟩, ⟨.boolConstant true, false, ()⟩] := rfl
  refine ((computesTruth_iff .empty .alone .bare (fun _ => 3) _ doubleNegation () rfl rfl).mpr
    ⟨⟨by decide, nofun⟩, ?_⟩).1
  simp only [operands, List.forall_mem_cons]
  exact ⟨⟨by decide, nofun⟩, ⟨3, (), rfl, rfl⟩, ⟨5, by decide, by decide, nofun⟩,
    ⟨by decide, trivial⟩, List.forall_mem_nil _⟩

/-- `not true` is computed as -2, which an `if` or `while` takes for true. -/
theorem not_true_is_taken :
    ¬ ComputesTruth .empty .alone .bare (fun _ => 0) (signedVariables fun _ => 0)
        (.negation (.boolConstant true)) () ∧
      truth (signedVariables fun _ => 0) (.negation (.boolConstant true)) () = some (false, ()) ∧
      testCodeIn .bare (.bnot (.iconst 1)) ⟨fun _ => 0, ()⟩ = some (true, ⟨fun _ => 0, ()⟩) := by
  refine ⟨?_, rfl, rfl⟩
  intro right
  have even := ((computesTruth_iff_of_operands rfl rfl (by simp [operandsIn])).mp right).1
  exact absurd even (by decide)

end AustralVM
