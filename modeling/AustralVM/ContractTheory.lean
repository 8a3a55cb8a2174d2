import AustralVM.ReturnGoals

/-!
# Contracts as axioms

The postcondition of a function is an axiom of the theory in which every goal of its
module is proved, its own goal among them.  If the axioms can be satisfied at every
point, the contracts of the calls that a body makes are enough for the contract of the
body, and by induction on the depth of calls all contracts are true.  A contract that no
result satisfies makes every goal valid.
-/

namespace AustralVM.Liquid.Constraints

open Typed Stoppable
open List hiding after

/-! ## Interpretations that satisfy the axioms -/

/-- A formula whose truth does not depend on the symbols of some names. -/
def Independent (symbols : String → Prop) (formula : Formula) : Prop :=
  ∀ (meaning : Interpretation) (function : String → List Int → Int) (values : Assignment),
    (∀ name, ¬ symbols name → function name = meaning.function name) →
    (formula.Holds { meaning with function := function } values ↔ formula.Holds meaning values)

section Repair

variable {theory : List TheoryFn} {meaning : Interpretation}

/-- A result that all axioms about a symbol allow. -/
def Allowed (theory : List TheoryFn) (meaning : Interpretation) (name : String)
    (numbers : List Int) (result : Int) : Prop :=
  ∀ fn ∈ theory, fn.name = name → numbers.length = fn.params.length → fn.At meaning numbers result

/-- For all arguments there is a result that the axioms allow. -/
def Satisfiable (theory : List TheoryFn) (meaning : Interpretation) : Prop :=
  ∀ name numbers, ∃ result, Allowed theory meaning name numbers result

open Classical in
/-- The symbols keep what the axioms allow, and mean something else that is allowed
elsewhere. -/
noncomputable def repaired (satisfiable : Satisfiable theory meaning) : Interpretation :=
  { meaning with
    function := fun name numbers =>
      if Allowed theory meaning name numbers (meaning.function name numbers) then
        meaning.function name numbers
      else (satisfiable name numbers).choose }

variable (satisfiable : Satisfiable theory meaning)

theorem repaired_eq
    (allowed : Allowed theory meaning name numbers (meaning.function name numbers)) :
    (repaired satisfiable).function name numbers = meaning.function name numbers :=
  if_pos allowed

theorem allowed_repaired (name : String) (numbers : List Int) :
    Allowed theory meaning name numbers ((repaired satisfiable).function name numbers) := by
  by_cases allowed : Allowed theory meaning name numbers (meaning.function name numbers)
  · rw [repaired_eq satisfiable allowed]
    exact allowed
  · have chosen := (satisfiable name numbers).choose_spec
    rw [repaired]
    dsimp only
    rw [if_neg allowed]
    exact chosen

def Symbol (theory : List TheoryFn) (name : String) : Prop := ∃ fn ∈ theory, fn.name = name

theorem repaired_of_not_symbol (other : ¬ Symbol theory name) :
    (repaired satisfiable).function name = meaning.function name := by
  funext numbers
  exact repaired_eq satisfiable fun fn isMember isName => absurd ⟨fn, isMember, isName⟩ other

theorem holds_repaired_iff (independent : Independent (Symbol theory) formula)
    (values : Assignment) :
    formula.Holds (repaired satisfiable) values ↔ formula.Holds meaning values :=
  independent meaning _ values fun _ => repaired_of_not_symbol satisfiable

/-- The contracts of a theory speak of no symbol of the theory. -/
def Independents (theory : List TheoryFn) : Prop :=
  ∀ fn ∈ theory, ∀ source, source = fn.post ∨ fn.pre = some source →
    ∀ formula, readContract .ensures source = some formula → Independent (Symbol theory) formula

theorem holds_repaired (independents : Independents theory) (isMember : fn ∈ theory) :
    fn.Holds (repaired satisfiable) := by
  intro numbers sameLength post isPost assumed
  rw [holds_repaired_iff satisfiable (independents fn isMember _ (.inl rfl) post isPost)]
  refine allowed_repaired satisfiable fn.name numbers fn isMember rfl sameLength post isPost ?_
  intro source pre isSource isPre
  rw [← holds_repaired_iff satisfiable (independents fn isMember source (.inr isSource) pre isPre)]
  exact assumed source pre isSource isPre

/-- What a call returns is allowed by the axioms about its name. -/
def Respects (theory : List TheoryFn) (code : Value → Int) (meaning : Interpretation)
    (names : Typed.Callee → SIdent) (call : Typed.Callee → List Value → Run Value) : Prop :=
  ∀ callee args numbers before value after number, Forall₂ (Denotes code before) args numbers →
    call callee args before = (.ok value, after) → Denotes code after value number →
    Allowed theory meaning (names callee).name.string numbers number

theorem models_repaired (models : Models code meaning names host call)
    (kept : Respects theory code meaning names call) :
    Models code (repaired satisfiable) names host call where
  int := models.int
  bool := models.bool
  integer := models.integer
  cast := models.cast
  calls := by
    intro callee args numbers before value after denote ran
    obtain ⟨grows, denotes⟩ := models.calls callee args numbers before value after denote ran
    refine ⟨grows, ?_⟩
    have allowed := kept callee args numbers before value after _ denote ran denotes
    by_cases isSymbol : numbers.length = 2 → arithmeticOperation (names callee) = none
    · rw [Interpretation.ofCall_eq_function isSymbol] at denotes allowed ⊢
      rw [repaired_eq satisfiable allowed]
      exact denotes
    · obtain ⟨isPair, isOperation⟩ := Classical.not_imp.mp isSymbol
      obtain ⟨_, isOperation⟩ := Option.ne_none_iff_exists'.mp isOperation
      obtain ⟨_, _, rfl⟩ := length_eq_two.mp isPair
      rw [Interpretation.ofCall_eq_apply isOperation] at denotes ⊢
      exact denotes

end Repair

/-! ## The theory of a module -/

theorem lookup_requires_eq (name : String) (own : String) (params : List String)
    (contracts : List (ContractKind × String)) : (contracts.filterMap fun (kind, source) =>
      if kind = .requires then some (own, source) else none).lookup name =
    ((contracts.map fun (kind, source) => (⟨own, kind, source, params⟩ : ContractEntry)).find?
      fun other => other.name = name && other.kind = .requires).map (·.source) := by
  induction contracts with
  | nil => rfl
  | cons contract _ ih =>
    obtain ⟨kind, _⟩ := contract
    rw [map_cons, find?_cons, filterMap_cons]
    by_cases isRequires : kind = .requires
    · by_cases isName : own = name
      · simp [isRequires, isName]
      · have different : (name == own) = false := beq_false_of_ne (Ne.symm isName)
        simp only [isRequires, isName, if_true, decide_false, Bool.false_and, lookup_cons,
          different]
        exact ih
    · simp only [isRequires, if_false, decide_false, Bool.and_false]
      exact ih

theorem requiresByName_lookup (decls : List TypedDecl) (name : String) :
    (requiresByName decls).lookup name = ((contractEntries decls).find? fun other =>
        other.name = name && other.kind = .requires).map (·.source) := by
  induction decls with
  | nil => rfl
  | cons decl _ ih =>
    rw [requiresByName] at ih
    rw [contractEntries] at ih
    rw [requiresByName, contractEntries, flatMap_cons, flatMap_cons,
      lookup_append, find?_append, ih, Option.map_or]
    congr 1
    cases decl with
    | function _ own _ params _ _ pragmas =>
      exact lookup_requires_eq name own.string (paramNames params) (liquidPragmas pragmas)
    | constant | record | union | foreignFunction | typeClass | instanceDecl => rfl

section Module

variable {source : TypedModule} {id : DeclId} {name : Identifier} {typarams : List TypeParameter}
  {params : List ValueParameter} {rt : Ty} {body : TStmt} {pragmas : List Pragma}
  {kind : ContractKind} {text : String} {code : Value → Int} {meaning : Interpretation}
  {names : Typed.Callee → SIdent} {host : Host} {program : Program} {constraints : ConstraintSet}

theorem mem_contractEntries
    (declared : .function id name typarams params rt body pragmas ∈ source.decls)
    (contract : (kind, text) ∈ liquidPragmas pragmas) :
    ⟨name.string, kind, text, paramNames params⟩ ∈ contractEntries source.decls := by
  refine mem_flatMap.mpr ⟨_, declared, ?_⟩
  exact mem_map.mpr ⟨(kind, text), contract, rfl⟩

theorem exists_returnGoal (decls : List TypedDecl) (entry : ContractEntry)
    (isPost : entry.kind = .ensures ∨ entry.kind = .invariant) :
    ∃ goal, returnGoal decls entry = some goal := by
  unfold returnGoal makeReturnGoal
  rcases isPost with isPost | isPost
  · rw [isPost]
    exact ⟨_, rfl⟩
  · rw [isPost]
    exact ⟨_, rfl⟩

/-- What the induction over calls rests on: the functions have names of their own and
their code is what is run under them; the bodies that goals are linked to can be
described; calls compute functions of integers; and the contracts are satisfiable and
speak of no function that has a contract. -/
structure Grounded (source : TypedModule) (code : Value → Int) (meaning : Interpretation)
    (names : Typed.Callee → SIdent) (host : Host) (program : Program) : Prop where
  unique : ∀ decl ∈ source.decls, isContracted decl → Declares source decl
  implements : ∀ callee id name typarams params rt body pragmas,
    .function id name typarams params rt body pragmas ∈ source.decls → pragmas.any isContract →
    (names callee).name.string = name.string →
    program callee = some ⟨params.map (·.name), body⟩
  describable : ∀ id name typarams params rt body pragmas,
    .function id name typarams params rt body pragmas ∈ source.decls → pragmas.any isContract →
    linkedTerm (paramNames params) (spineEnv [] body) body ≠ none → Describable names params body
  models : ∀ depth, Models code meaning names host (callAt host program depth)
  quiet : ∀ depth, Quiet host (callAt host program depth)
  independent : ∀ entry ∈ contractEntries source.decls, ∀ formula,
    readContract .ensures entry.source = some formula →
    Independent (Symbol (theoryOf (contractEntries source.decls))) formula
  satisfiable : Satisfiable (theoryOf (contractEntries source.decls)) meaning

theorem mem_theoryOf (isMember : fn ∈ theoryOf contracts) :
    ∃ entry ∈ contracts, entry.kind = .ensures ∧ fn.name = entry.name ∧
      fn.params = entry.params ∧ fn.post = entry.source ∧ fn.pre = (contracts.find? fun other =>
        other.name = entry.name && other.kind = .requires).map (·.source) := by
  obtain ⟨entry, isEntry, isFn⟩ := mem_filterMap.mp isMember
  rw [Option.ite_none_right_eq_some, Option.some.injEq] at isFn
  obtain ⟨isEnsures, rfl⟩ := isFn
  exact ⟨entry, isEntry, isEnsures, rfl, rfl, rfl, rfl⟩

theorem Grounded.independents (grounded : Grounded source code meaning names host program) :
    Independents (theoryOf (contractEntries source.decls)) := by
  intro _ isMember _ isText formula isFormula
  obtain ⟨entry, isEntry, -, -, -, isPost, isPre⟩ := mem_theoryOf isMember
  rcases isText with rfl | isRequires
  · rw [isPost] at isFormula
    exact grounded.independent entry isEntry formula isFormula
  · rw [isPre] at isRequires
    obtain ⟨other, isOther, rfl⟩ := Option.map_eq_some_iff.mp isRequires
    exact grounded.independent other (mem_of_find?_eq_some isOther) formula isFormula

theorem generate_eq_some (generated : generate source = some constraints) :
    constraints.theory = theoryOf (contractEntries source.decls) ∧
      ∀ entry ∈ contractEntries source.decls, ∀ goal, returnGoal source.decls entry = some goal →
        goal ∈ constraints.goals := by
  unfold generate at generated
  dsimp only at generated
  split at generated
  · cases generated
  · cases generated
    refine ⟨rfl, fun entry isEntry goal isGoal => ?_⟩
    exact mem_append_left _ (mem_filterMap.mpr ⟨entry, isEntry, isGoal⟩)

section

variable (grounded : Grounded source code meaning names host program)
  (generated : generate source = some constraints)
  (valid : ∀ goal ∈ constraints.goals, goal.Valid constraints.theory)
include grounded generated valid

theorem Grounded.post_of_calls
    (kept : Respects (theoryOf (contractEntries source.decls)) code meaning names
      (callAt host program depth))
    (declared : .function id name typarams params rt body pragmas ∈ source.decls)
    (contract : (kind, text) ∈ liquidPragmas pragmas) (isPost : kind = .ensures ∨ kind = .invariant)
    (named : (names callee).name.string = name.string)
    (denote : Forall₂ (Denotes code memory) args numbers)
    (ran : callAt host program (depth + 1) callee args memory = (.ok value, after))
    (denotes : Denotes code after value number)
    (requires : ∀ req formula, (requiresByName source.decls).lookup name.string = some req →
      readContract .ensures req = some formula →
      formula.Holds meaning (contractValues (paramNames params) numbers number))
    (reads : readContract kind text = some formula) :
    formula.Holds meaning (contractValues (paramNames params) numbers number) := by
  have contracted := isContract_of_mem contract
  have declares := grounded.unique _ declared contracted
  have isEntry := mem_contractEntries declared contract
  obtain ⟨isTheory, isGoals⟩ := generate_eq_some generated
  obtain ⟨goal, isGoal⟩ := exists_returnGoal source.decls
    ⟨name.string, kind, text, paramNames params⟩ isPost
  have isValid := valid goal (isGoals _ isEntry goal isGoal)
  rw [isTheory] at isValid
  have readsAs : readContract .ensures text = some formula := by
    rw [← readContract_eq (.inr isPost)]
    exact reads
  rw [← holds_repaired_iff grounded.satisfiable (grounded.independent _ isEntry formula readsAs)]
  refine holds_of_returnGoal declares contract isGoal isValid
    (fun fn => holds_repaired grounded.satisfiable grounded.independents) ?_ ?_ reads
  · intro req given found isRead
    have isReq := mem_contractEntries declared (requires_of_lookup declares found)
    rw [holds_repaired_iff grounded.satisfiable (grounded.independent _ isReq given isRead)]
    exact requires req given found isRead
  · intro _ linked
    have models := models_repaired grounded.satisfiable (grounded.models depth) kept
    have describable := grounded.describable id name typarams params rt body pragmas declared
      contracted (by rw [linked]; exact nofun)
    rw [callAt, grounded.implements callee id name typarams params rt body pragmas declared
      contracted named] at ran
    obtain ⟨_, _, entered, ran⟩ := bind_eq_ok.mp ran
    obtain ⟨_, _, ranBody, done⟩ := bind_eq_ok.mp ran
    obtain ⟨isValue, rfl⟩ := pure_eq_ok.mp done
    exact describable.result_eq models (grounded.quiet depth) denote entered ranBody isValue denotes
      linked

theorem Grounded.respects (depth : Nat) :
    Respects (theoryOf (contractEntries source.decls)) code meaning names
      (callAt host program depth) := by
  induction depth with
  | zero =>
    intro _ _ _ _ _ _ _ _ ran
    cases ran
  | succ _ ih =>
    intro _ _ _ _ _ _ _ denote ran denotes _ isMember isName _
    obtain ⟨_, isEntry, isEnsures, sameName, sameParams, isPost, isPre⟩ := mem_theoryOf isMember
    obtain ⟨decl, declared, isContract⟩ := mem_flatMap.mp isEntry
    cases decl with
    | function =>
      obtain ⟨⟨_, _⟩, contract, rfl⟩ := mem_map.mp isContract
      dsimp only at isEnsures sameName sameParams isPost isPre
      subst isEnsures
      intro _ reads assumed
      rw [sameParams] at assumed ⊢
      rw [isPost] at reads
      refine grounded.post_of_calls generated valid ih declared contract (.inl rfl)
        (isName.symm.trans sameName) denote ran denotes ?_ reads
      intro req formula found isRead
      rw [requiresByName_lookup, ← isPre] at found
      exact assumed req formula found isRead
    | constant | record | union | foreignFunction | typeClass | instanceDecl => cases isContract

end

/-- If all goals of a module are valid in its theory, every call of a function with a
contract that returns has its postconditions, provided that the contracts can be
satisfied and do not speak of each other, and that the goals describe the bodies. -/
theorem contracts_hold_of_valid_goals (grounded : Grounded source code meaning names host program)
    (generated : generate source = some constraints)
    (valid : ∀ goal ∈ constraints.goals, goal.Valid constraints.theory)
    (declared : .function id name typarams params rt body pragmas ∈ source.decls)
    (contract : (kind, text) ∈ liquidPragmas pragmas)
    (isPost : kind = .ensures ∨ kind = .invariant) {callee : Typed.Callee}
    (named : (names callee).name.string = name.string) {depth : Nat} {args : List Value}
    {numbers : List Int} {memory after : Memory} {value : Value} {number : Int}
    (denote : Forall₂ (Denotes code memory) args numbers)
    (ran : callAt host program depth callee args memory = (.ok value, after))
    (denotes : Denotes code after value number)
    (requires : ∀ req formula, (.requires, req) ∈ liquidPragmas pragmas →
      readContract .requires req = some formula →
      formula.Holds meaning (contractValues (paramNames params) numbers number))
    {formula : Formula} (reads : readContract kind text = some formula) :
    formula.Holds meaning (contractValues (paramNames params) numbers number) := by
  cases depth with
  | zero => cases ran
  | succ depth =>
    refine grounded.post_of_calls generated valid (grounded.respects generated valid depth) declared
      contract isPost named denote ran denotes ?_ reads
    intro req given found isRead
    have declares := grounded.unique _ declared (isContract_of_mem contract)
    rw [← readContract_eq (.inl rfl)] at isRead
    exact requires req given (requires_of_lookup declares found) isRead

end Module

def relayBodies : Typed.Callee → TStmt
  | .function ⟨1⟩ _ => .returnStmt (.intConstant "3")
  | _ => .returnStmt
    (.funcall ⟨1⟩ ⟨⟨"Example"⟩, ⟨"three"⟩, ⟨"three"⟩⟩ [] (.integer .signed .width32) .empty)

def relayNames : Typed.Callee → SIdent
  | .function ⟨1⟩ _ => ⟨⟨"Example"⟩, ⟨"three"⟩⟩
  | _ => ⟨⟨"Example"⟩, ⟨"relay"⟩⟩

def relayDecl (id : Nat) : TypedDecl :=
  .function ⟨id⟩ (relayNames (.function ⟨id⟩ .empty)).name [] [] (.integer .signed .width32)
    (relayBodies (.function ⟨id⟩ .empty)) [.liquid "Ensures" "result == 3"]

/-- A function that returns a constant, and one that returns what the first returns. -/
def relayModule : TypedModule := ⟨⟨"Example"⟩, [relayDecl 1, relayDecl 2]⟩

def relayProgram : Program := fun callee => some ⟨[], relayBodies callee⟩

theorem callAt_relay (depth : Nat) (callee : Typed.Callee) (args : List Value) (memory : Memory) :
    ∃ result, callAt integerHost relayProgram depth callee args memory = (result, memory) ∧
      ∀ value, result = .ok value → value = .int 3 := by
  cases depth with
  | zero => exact ⟨_, rfl, nofun⟩
  | succ depth =>
    cases args with
    | cons => exact ⟨_, rfl, nofun⟩
    | nil =>
      rw [callAt, relayProgram]
      dsimp only
      unfold relayBodies
      split
      · exact ⟨_, rfl, fun _ isValue => (Except.ok.inj isValue).symm⟩
      · cases depth with
        | zero => exact ⟨_, rfl, nofun⟩
        | succ => exact ⟨_, rfl, fun _ isValue => (Except.ok.inj isValue).symm⟩

def relayMeaning : Interpretation := { noMeaning with function := fun _ _ => 3 }

theorem mem_relayModule (declared : decl ∈ relayModule.decls) :
    decl = relayDecl 1 ∨ decl = relayDecl 2 := by
  simpa [relayModule] using declared

theorem readContract_relay : readContract .ensures "result == 3" =
    some (.rel .eq (.var "result" none) (.int 3)) := rfl

theorem grounded_relay :
    Grounded relayModule integerCode relayMeaning relayNames integerHost relayProgram where
  unique := by
    intro _ isDecl _
    refine ⟨isDecl, fun other isOther sameName => ?_⟩
    obtain rfl | rfl := mem_relayModule isDecl <;> obtain rfl | rfl := mem_relayModule isOther <;>
      first | rfl | exact absurd sameName (by decide)
  implements := by
    intro callee _ _ _ _ _ _ _ isDecl _ named
    rcases mem_relayModule isDecl with same | same <;> cases same <;>
      unfold relayNames at named <;> split at named
    · rfl
    · exact absurd named (by decide)
    · exact absurd named (by decide)
    · next other =>
      rw [relayProgram, relayBodies]
      · rfl
      · exact other
  describable := by
    intro _ _ _ _ _ _ _ isDecl _ _
    rcases mem_relayModule isDecl with same | same <;> cases same <;>
      exact ⟨rfl, by decide, by decide, rfl, fun expr isExpr => by cases isExpr; rfl⟩
  models := by
    intro depth
    refine models_integerHost (fun _ => rfl) fun callee args numbers before _ _ _ ran => ?_
    obtain ⟨_, returned, isThree⟩ := callAt_relay depth callee args before
    cases returned.symm.trans ran
    rw [isThree _ rfl, Interpretation.ofCall_eq_function]
    · exact ⟨.refl _, .plain nofun nofun⟩
    · intro
      unfold relayNames
      split <;> decide
  quiet := by
    intro depth
    refine quiet_integerHost fun callee args memory => ?_
    obtain ⟨_, returned, -⟩ := callAt_relay depth callee args memory
    rw [returned]
    exact .refl memory
  independent := by
    have isEntry : ∀ entry ∈ contractEntries relayModule.decls, entry.source = "result == 3" := by
      decide
    intro entry isMember _ isFormula
    rw [isEntry entry isMember, readContract_relay] at isFormula
    cases isFormula
    exact fun _ _ _ _ => Iff.rfl
  satisfiable := by
    have isTheory : ∀ fn ∈ theoryOf (contractEntries relayModule.decls),
        fn.post = "result == 3" := by decide
    intro _ _
    refine ⟨3, fun fn isMember _ _ post isFormula _ => ?_⟩
    rw [isTheory fn isMember, readContract_relay] at isFormula
    cases isFormula
    exact show (3 : Int) = 3 from rfl

theorem contracts_hold_of_valid_goals_at_relay :
    callAt integerHost relayProgram 2 (.function ⟨2⟩ .empty) [] ⟨[], []⟩ =
        (.ok (.int 3), ⟨[], []⟩) ∧
      (Formula.rel .eq (.var "result" none) (.int 3)).Holds relayMeaning
        (contractValues [] [] 3) := by
  have valid : ∃ constraints, generate relayModule = some constraints ∧
      ∀ goal ∈ constraints.goals, goal.Valid constraints.theory := by
    refine ⟨_, rfl, forall_mem_cons.mpr ⟨?_, forall_mem_singleton.mpr ?_⟩⟩
    · exact ⟨_, _, rfl, rfl, fun meaning _ values holds => holds _ mem_cons_self⟩
    · refine ⟨_, _, rfl, rfl, fun meaning holdsAll values holds => ?_⟩
      -- the goal of the caller follows from the axiom about the callee
      have isResult := holds _ mem_cons_self
      have isThree := holdsAll _ mem_cons_self [] rfl _ readContract_relay nofun
      exact isResult.trans isThree
  obtain ⟨_, generated, valid⟩ := valid
  have ran : callAt integerHost relayProgram 2 (.function ⟨2⟩ .empty) [] ⟨[], []⟩ =
      (.ok (.int 3), ⟨[], []⟩) := rfl
  refine ⟨ran, contracts_hold_of_valid_goals grounded_relay generated valid
    (mem_cons_of_mem _ (mem_singleton_self (relayDecl 2))) (mem_singleton_self _) (.inl rfl) rfl
    .nil ran (.plain nofun nofun) (fun _ _ isRequires => ?_) readContract_relay⟩
  cases mem_singleton.mp isRequires

theorem Goal.valid_of_contradiction {goal : Goal}
    (noModel : ∀ meaning : Interpretation, ¬ ∀ fn ∈ theory, fn.Holds meaning)
    {assumed : List Formula} {body : Formula}
    (isAssumed : goal.assumes.mapM Assertion.read = some assumed)
    (isBody : goal.body.read = some body) : goal.Valid theory :=
  ⟨assumed, body, isAssumed, isBody, fun meaning axioms => absurd axioms (noModel meaning)⟩

/-- A contract that no result satisfies: all goals of its module are valid, that of
another function too, which returns what its contract forbids. -/
theorem contradictory_contract_validates_goals :
    let ty : Ty := .integer .signed .width32
    let body : TStmt := .returnStmt (.intConstant "3")
    let impossible : TypedDecl := .function ⟨1⟩ ⟨"impossible"⟩ [] [] ty body
      [.liquid "Ensures" "1 == 2"]
    let zero : TypedDecl := .function ⟨2⟩ ⟨"zero"⟩ [] [] ty body [.liquid "Ensures" "result == 0"]
    let source : TypedModule := ⟨⟨"Example"⟩, [impossible, zero]⟩
    let program : Program := fun _ => some ⟨[], body⟩
    totality source = none ∧ checkModule source = none ∧
      (∃ constraints, generate source = some constraints ∧
        ∀ goal ∈ constraints.goals, goal.Valid constraints.theory) ∧
      callAt integerHost program 1 (.function ⟨2⟩ .empty) [] ⟨[], []⟩ = (.ok (.int 3), ⟨[], []⟩) ∧
      ∃ post, readContract .ensures "result == 0" = some post ∧
        ∀ meaning : Interpretation, ¬ post.Holds meaning (contractValues [] [] 3) := by
  intro _ _ _ _ source _
  refine ⟨rfl, rfl, ⟨_, rfl, ?_⟩, rfl, _, rfl, fun meaning => show ¬ (3 : Int) = 0 by decide⟩
  have noModel : ∀ meaning : Interpretation,
      ¬ ∀ fn ∈ theoryOf (contractEntries source.decls), fn.Holds meaning := by
    intro _ axioms
    have isPost : readContract .ensures "1 == 2" = some (.rel .eq (.int 1) (.int 2)) := rfl
    have contract := axioms _ mem_cons_self [] rfl _ isPost nofun
    exact absurd contract (show ¬ (1 : Int) = 2 by decide)
  refine forall_mem_cons.mpr ⟨Goal.valid_of_contradiction noModel rfl rfl,
    forall_mem_singleton.mpr (Goal.valid_of_contradiction noModel rfl rfl)⟩

end AustralVM.Liquid.Constraints
