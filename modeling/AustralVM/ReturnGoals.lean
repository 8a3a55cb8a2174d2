import AustralVM.SteadyBodies

/-!
# Goals about returned values

The goal of a postcondition equates the result with one expression that the body
returns.  A return on the way, or a variable that is assigned again, is not seen by it.
-/

namespace AustralVM.Liquid.Constraints

open Typed Stoppable Option
open List hiding after

/-! ## The meaning of goals -/

/-- The formula that a part of a goal is read as. -/
def Assertion.read : Assertion → Option Formula
  | .contract source => readContract .ensures source
  | .formula given => some given

/-- The values of the parameters and of the result in a contract. -/
def contractValues (params : List String) (numbers : List Int) (result : Int) : Assignment :=
  fun name => if name = "result" then result else ((params.zip numbers).lookup name).getD 0

def TheoryFn.At (meaning : Interpretation) (fn : TheoryFn) (numbers : List Int) (result : Int) :
    Prop :=
  ∀ post, readContract .ensures fn.post = some post →
    (∀ source pre, fn.pre = some source → readContract .ensures source = some pre →
      pre.Holds meaning (contractValues fn.params numbers result)) →
    post.Holds meaning (contractValues fn.params numbers result)

/-- The contract of a function as the axiom states it. -/
def TheoryFn.Holds (meaning : Interpretation) (fn : TheoryFn) : Prop :=
  ∀ numbers : List Int, numbers.length = fn.params.length →
    fn.At meaning numbers (meaning.function fn.name numbers)

/-- A goal is valid in a theory if it can be read, and holds for all integers whatever
the symbols mean, if the axioms hold of them. -/
def Goal.Valid (theory : List TheoryFn) (goal : Goal) : Prop :=
  ∃ assumed body, goal.assumes.mapM Assertion.read = some assumed ∧ goal.body.read = some body ∧
    ∀ meaning : Interpretation, (∀ fn ∈ theory, fn.Holds meaning) → ∀ values : Assignment,
      (∀ formula ∈ assumed, formula.Holds meaning values) → body.Holds meaning values

/-! ## Bodies with one return -/

/-- A body that runs to its last statement and returns there. -/
def straight : TStmt → Bool
  | .returnStmt _ => true
  | .block first second => steady first && !returnsIn first && straight second
  | .letStmt _ name _ (.block (.initialAssign target _) rest) =>
    target.original = name && straight rest
  | _ => false

section

variable {host : Host} {call : Typed.Callee → List Value → Run Value} {limit : Nat}
  {reading : Reading}

theorem returns_matches (models : reading.Describes host call)
    (quiet : Quiet host call) (isStraight : straight body)
    (fits : ∀ binder ∈ binders body, reading.Fits binder)
    (consistent : reading.Consistent frame memory)
    (ran : execStmt host call limit frame body memory = (.ok result, after)) :
    ∃ expr value, returnExpr body = some expr ∧ result.2 = some value ∧
      reading.Matches after value expr := by
  fun_induction straight body generalizing frame memory result with
  | case1 expr =>
    rw [execStmt, bind_eq_ok] at ran
    obtain ⟨value, _, ranValue, done⟩ := ran
    obtain ⟨rfl, rfl⟩ := pure_eq_ok.mp done
    exact ⟨expr, value, rfl, rfl, eval_matches models consistent ranValue⟩
  | case2 first second ih =>
    simp only [Bool.and_eq_true, Bool.not_eq_true'] at isStraight
    rw [binders] at fits
    rw [execStmt, bind_eq_ok] at ran
    obtain ⟨⟨_, _⟩, between, ranFirst, ran⟩ := ran
    cases (extends_of_steady quiet isStraight.1.1 ranFirst).2.2 isStraight.1.2
    have innerConsistent := consistent_of_steady models quiet isStraight.1.1
      (forall_mem_append.mp fits).1 consistent ranFirst
    obtain ⟨expr, value, isExpr, isValue, isMatch⟩ := ih isStraight.2
      (forall_mem_append.mp fits).2 innerConsistent ran
    refine ⟨expr, value, ?_, isValue, isMatch⟩
    rw [returnExpr, isExpr, some_or]
  | case3 mutability name ty target value rest ih =>
    simp only [Bool.and_eq_true, decide_eq_true_eq] at isStraight
    obtain ⟨rfl, isStraight⟩ := isStraight
    simp only [binders, singleton_append] at fits
    rw [execStmt, bind_eq_ok] at ran
    obtain ⟨_, _, allocated, ran⟩ := ran
    obtain ⟨_, ranBody, rfl⟩ := bind_pure_eq_ok.mp ran
    obtain ⟨_, bound, ranRest⟩ := letBody_eq_ok models quiet (fits _ mem_cons_self)
      consistent allocated ranBody
    obtain ⟨expr, value, isExpr, isValue, isMatch⟩ := ih isStraight
      (forall_mem_cons.mp fits).2 bound ranRest
    refine ⟨expr, value, ?_, isValue, isMatch⟩
    rw [returnExpr, returnExpr, isExpr, some_or]
  | case4 => cases isStraight

end

/-! ## The environment of the goal -/

variable {binding : String × TExpr} {env : TempEnv}

theorem headOf_mem_binders (isHead : headOf stmt = some binding) :
    (binding.1, some binding.2) ∈ binders stmt := by
  fun_induction headOf stmt with
  | case1 name value =>
    cases isHead
    rw [binders]
    exact mem_cons_self
  | case2 first second ih =>
    rw [binders]
    exact mem_append_left _ (ih isHead)
  | case3 => cases isHead

theorem mem_bindHead (isMember : binding ∈ bindHead env body) :
    binding ∈ env ∨ (binding.1, some binding.2) ∈ binders body := by
  rw [bindHead] at isMember
  split at isMember
  · rename_i head isHead
    rcases mem_cons.mp isMember with rfl | before
    · exact .inr (headOf_mem_binders isHead)
    · exact .inl before
  · exact .inl isMember

theorem mem_bindBorrow (isMember : binding ∈ bindBorrow env original rename origType mode) :
    binding ∈ env ∨ (binding.1, some binding.2) =
      (rename.string, if mode = .read then some (.paramVar original origType) else none) := by
  cases mode with
  | read =>
    rcases mem_cons.mp isMember with rfl | before
    · exact .inr rfl
    · exact .inl before
  | write | reborrow => exact .inl isMember

theorem mem_spineEnv (isMember : binding ∈ spineEnv env stmt) :
    binding ∈ env ∨ (binding.1, some binding.2) ∈ binders stmt := by
  fun_induction spineEnv env stmt with
  | case1 env first second ihFirst ihSecond =>
    rw [binders, mem_append]
    rcases ihSecond isMember with before | inSecond
    · rcases ihFirst before with before | inFirst
      · exact .inl before
      · exact .inr (.inl inFirst)
    · exact .inr (.inr inSecond)
  | case2 env name ty value | case3 env name value =>
    rw [binders]
    rcases mem_cons.mp isMember with rfl | before
    · exact .inr mem_cons_self
    · exact .inl before
  | case4 env mutability name ty body ih =>
    rw [binders]
    rcases ih isMember with before | inBody
    · exact mem_bindHead before
    · exact .inr inBody
  | case5 env original rename region origType refType body mode ih =>
    rw [binders]
    rcases ih isMember with before | inBody
    · rcases mem_bindBorrow before with before | here
      · exact .inl before
      · exact .inr (here ▸ mem_cons_self)
    · exact .inr (mem_cons_of_mem _ inBody)
  | case6 => exact .inl isMember

/-! ## Entry -/

theorem consistent_nil (reading : Reading) (memory : Memory) : reading.Consistent [] memory :=
  ⟨nofun, nofun, nofun⟩

theorem enter_consistent {reading : Reading} {inner : Frame}
    (consistent : reading.Consistent frame memory)
    (denote : Forall₂ (Denotes reading.code memory) args numbers)
    (assigned : Forall₂ (fun param number => reading.values param.string = number) params
      numbers) (unbound : ∀ param ∈ params, reading.temps.lookup param.string = none)
    (entered : enter frame params args memory = (.ok inner, entry)) :
    Extends memory entry ∧ reading.Consistent inner entry := by
  induction params generalizing frame args numbers memory with
  | nil =>
    cases args with
    | nil =>
      obtain ⟨rfl, rfl⟩ := pure_eq_ok.mp entered
      exact ⟨.refl _, consistent⟩
    | cons => cases entered
  | cons param _ ih =>
    cases args with
    | nil => cases entered
    | cons =>
      cases denote with
      | cons denotes rest =>
        cases assigned with
        | cons isNumber others =>
          rw [enter, bind_eq_ok] at entered
          obtain ⟨_, _, allocated, entered⟩ := entered
          obtain ⟨grows, -, inMemory⟩ := extends_alloc allocated
          have bound := (consistent.mono grows).bind (.named param.string) inMemory
            (fun _ => isNumber ▸ denotes.mono grows.fills)
            fun expr isBound => nomatch
              (unbound param mem_cons_self).symm.trans isBound
          obtain ⟨growsMore, innerConsistent⟩ := ih bound
            (rest.imp fun _ _ denotes => denotes.mono grows.fills) others
            (forall_mem_cons.mp unbound).2 entered
          exact ⟨grows.trans growsMore, innerConsistent⟩

theorem enter_length {params : List Identifier} {args : List Value} {frame inner : Frame}
    {memory entry : Memory} (entered : enter frame params args memory = (.ok inner, entry)) :
    params.length = args.length := by
  induction params generalizing frame args memory with
  | nil =>
    cases args with
    | nil => rfl
    | cons => cases entered
  | cons _ _ ih =>
    cases args with
    | nil => cases entered
    | cons =>
      rw [enter, bind_eq_ok] at entered
      obtain ⟨_, _, -, entered⟩ := entered
      rw [length_cons, length_cons, ih entered]

theorem contractValues_of_nodup (result : Int) (once : params.Nodup)
    (noResult : "result" ∉ params) (sameLength : params.length = numbers.length) :
    Forall₂ (fun param number => contractValues params numbers result param = number) params
      numbers := by
  refine forall₂_iff_zip.mpr ⟨sameLength, fun {param number} isMember => ?_⟩
  have isParam := (of_mem_zip isMember).1
  have keys : ((params.zip numbers).map Prod.fst).Nodup := by
    rwa [map_fst_zip (Nat.le_of_eq sameLength)]
  have notResult : param ≠ "result" := fun same => noResult (same ▸ isParam)
  rw [contractValues, if_neg notResult,
    (TypeBindings.lookup_eq_some_iff_mem keys).mpr isMember, getD_some]

/-! ## The goal of a function -/

def functionName : TypedDecl → Option String
  | .function _ name _ _ _ _ _ => some name.string
  | _ => none

section Function

variable {source : TypedModule} {id : DeclId} {name : Identifier} {typarams : List TypeParameter}
  {params : List ValueParameter} {rt : Ty} {body : TStmt} {pragmas : List Pragma}
  {kind : ContractKind} {text : String} {code : Value → Int} {meaning : Interpretation}
  {names : Typed.Callee → SIdent} {host : Host} {call : Typed.Callee → List Value → Run Value}
  {limit : Nat}

/-- A function is the only one of its name in its module. -/
structure Declares (source : TypedModule) (decl : TypedDecl) : Prop where
  declared : decl ∈ source.decls
  unique : ∀ other ∈ source.decls, functionName other = functionName decl → other = decl

theorem isContract_of_mem (contract : (kind, text) ∈ liquidPragmas pragmas) :
    pragmas.any isContract := by
  obtain ⟨pragma, isPragma, isContract⟩ := mem_filterMap.mp contract
  refine any_eq_true.mpr ⟨pragma, isPragma, ?_⟩
  cases pragma with
  | liquid => rfl
  | foreignImport | foreignExport | unsafeModule | rustOwnership => cases isContract

section

variable (declares : Declares source (.function id name typarams params rt body pragmas))
include declares

theorem declOfEntry_eq (contracted : pragmas.any isContract) (isName : entry.name = name.string) :
    declOfEntry source.decls entry = some (id, body) := by
  have isSome : (declOfEntry source.decls entry).isSome := by
    refine findSome?_isSome_iff.mpr ⟨_, declares.declared, ?_⟩
    simp [isName, contracted]
  obtain ⟨_, isFound⟩ := isSome_iff_exists.mp isSome
  obtain ⟨other, isMember, isOther⟩ := exists_of_findSome?_eq_some isFound
  cases other with
  | function _ otherName =>
    have sameName : otherName.string = entry.name := by
      by_contra different
      simp [different] at isOther
    cases declares.unique _ isMember (by simp [functionName, sameName, isName])
    simp only [isName, decide_true, contracted, Bool.and_self, if_true] at isOther
    rw [isFound, ← isOther]
  | constant | record | union | foreignFunction | typeClass | instanceDecl => cases isOther

theorem requires_of_lookup (found : (requiresByName source.decls).lookup name.string = some req) :
    (ContractKind.requires, req) ∈ liquidPragmas pragmas := by
  obtain ⟨_, _, split, -⟩ := lookup_eq_some_iff.mp found
  have isMember : (name.string, req) ∈ requiresByName source.decls := by
    rw [split]
    simp
  obtain ⟨other, inModule, isRequires⟩ := mem_flatMap.mp isMember
  cases other with
  | function =>
    obtain ⟨⟨_, _⟩, isPragma, isSome⟩ := mem_filterMap.mp isRequires
    simp only [ite_none_right_eq_some, Option.some.injEq, Prod.mk.injEq] at isSome
    obtain ⟨rfl, sameName, rfl⟩ := isSome
    cases declares.unique _ inModule (by simp [functionName, sameName])
    exact isPragma
  | constant | record | union | foreignFunction | typeClass | instanceDecl => cases isRequires

end

/-- The body runs straight to its return, no name is bound twice or hides a parameter
or the result, and what is returned is a plain expression. -/
structure Describable (names : Typed.Callee → SIdent) (params : List ValueParameter) (body : TStmt) :
    Prop where
  isStraight : straight body
  distinct : (paramNames params ++ (binders body).map Prod.fst).Nodup
  noResult : "result" ∉ paramNames params
  legal : paramNames params = params.map fun param => param.name.string
  isPlain : ∀ expr, returnExpr body = some expr → plain names (spineEnv [] body) expr

theorem enter_consistent_of_nodup {reading : Reading}
    (legal : paramNames params = params.map fun param => param.name.string)
    (isValues : reading.values = contractValues (paramNames params) numbers number)
    (distinct : (paramNames params ++ (binders body).map Prod.fst).Nodup)
    (noResult : "result" ∉ paramNames params)
    (known : ∀ binding ∈ reading.temps, (binding.1, some binding.2) ∈ binders body)
    (denote : Forall₂ (Denotes reading.code memory) args numbers)
    (entered : enter [] (params.map (·.name)) args memory = (.ok frame, entry)) :
    reading.Consistent frame entry := by
  obtain ⟨once, -, apart⟩ := nodup_append.mp distinct
  have sameLength : (paramNames params).length = numbers.length := by
    rw [legal, length_map, ← denote.length_eq, ← enter_length entered, length_map]
  have assigned := contractValues_of_nodup number once noResult sameLength
  rw [legal, forall₂_map_left_iff] at assigned
  refine (enter_consistent (consistent_nil reading memory) denote ?_ ?_ entered).2
  · rw [isValues, legal, forall₂_map_left_iff]
    exact assigned
  · intro param isParam
    by_contra isBound
    obtain ⟨expr, isBound⟩ := ne_none_iff_exists'.mp isBound
    obtain ⟨_, _, split, -⟩ := lookup_eq_some_iff.mp isBound
    have inBody := known (param.string, expr) (by rw [split]; simp)
    have isName : param.string ∈ paramNames params := by
      obtain ⟨_, isWhole, rfl⟩ := mem_map.mp isParam
      rw [legal]
      exact mem_map_of_mem isWhole
    exact apart _ isName _ (mem_map_of_mem inBody) rfl

theorem Describable.result_eq (describable : Describable names params body)
    (models : Models code meaning names host call) (quiet : Quiet host call) {args : List Value}
    {number : Int} (denote : Forall₂ (Denotes code memory) args numbers)
    (entered : enter [] (params.map (·.name)) args memory = (.ok frame, entry))
    (ran : execStmt host call limit frame body entry = (.ok ended, after))
    (returned : ended.2.getD .unit = value) (denotes : Denotes code after value number)
    {term : Term} (linked : linkedTerm (paramNames params) (spineEnv [] body) body = some term) :
    number = term.value meaning (contractValues (paramNames params) numbers number) := by
  let reading : Reading := ⟨code, meaning, names, paramNames params,
    contractValues (paramNames params) numbers number, spineEnv [] body, false⟩
  have known : ∀ binding ∈ reading.temps, (binding.1, some binding.2) ∈ binders body :=
    fun binding isMember => (mem_spineEnv isMember).resolve_left not_mem_nil
  have fits : ∀ binder ∈ binders body, reading.Fits binder :=
    Reading.fits_of_nodup describable.distinct known
  have consistent : reading.Consistent frame entry := enter_consistent_of_nodup describable.legal
    rfl describable.distinct describable.noResult known denote entered
  obtain ⟨expr, result, isExpr, isResult, isMatch⟩ := returns_matches ⟨models, rfl⟩ quiet
    describable.isStraight fits consistent ran
  rw [isResult, getD_some] at returned
  subst returned
  rw [linkedTerm, isExpr] at linked
  dsimp only at linked
  split at linked
  · cases linked
  · rename_i found vars isTerm
    rw [ite_none_right_eq_some, Option.some.injEq] at linked
    obtain ⟨inParams, rfl⟩ := linked
    refine denotes.unique (isMatch _ found vars (describable.isPlain expr isExpr) isTerm ?_)
    intro var isVar
    exact of_decide_eq_true (all_eq_true.mp inParams var isVar)

theorem readContract_eq (isText : kind = .requires ∨ kind = .ensures ∨ kind = .invariant) :
    readContract kind text = readContract .ensures text := by
  rcases isText with rfl | rfl | rfl
  · simp only [readContract, parseContract]
    cases parseFormula (fun _ => false) text <;> rfl
  · rfl
  · simp only [readContract, parseContract]
    cases parseFormula (fun _ => false) text <;> rfl

section

variable (declares : Declares source (.function id name typarams params rt body pragmas))
  (contract : (kind, text) ∈ liquidPragmas pragmas)
include declares contract

theorem returnGoal_eq_some
    (generated : returnGoal source.decls ⟨name.string, kind, text, paramNames params⟩ = some goal) :
    (kind = .requires ∨ kind = .ensures ∨ kind = .invariant) ∧
      goal.assumes = ((requiresByName source.decls).lookup name.string).toList.map .contract ++
        (linkedTerm (paramNames params) (spineEnv [] body) body).toList.map (fun term =>
          .formula (.rel .eq (.var "result" none) term)) ∧ goal.body = .contract text := by
  rw [returnGoal, declOfEntry_eq declares (isContract_of_mem contract) rfl] at generated
  cases kind with
  | ensures =>
    cases generated
    exact ⟨.inr (.inl rfl), rfl, rfl⟩
  | invariant =>
    cases generated
    exact ⟨.inr (.inr rfl), rfl, rfl⟩
  | requires | trusted | measure | fold => cases generated

theorem holds_of_returnGoal
    (generated : returnGoal source.decls ⟨name.string, kind, text, paramNames params⟩ = some goal)
    (valid : goal.Valid theory) (axioms : ∀ fn ∈ theory, fn.Holds meaning) {values : Assignment}
    (requires : ∀ req formula, (requiresByName source.decls).lookup name.string = some req →
      readContract .ensures req = some formula → formula.Holds meaning values)
    (equation : ∀ term, linkedTerm (paramNames params) (spineEnv [] body) body = some term →
      values "result" = term.value meaning values) {formula : Formula}
    (reads : readContract kind text = some formula) : formula.Holds meaning values := by
  obtain ⟨_, _, isAssumed, isPost, holds⟩ := valid
  obtain ⟨isText, isGoal⟩ := returnGoal_eq_some declares contract generated
  rw [isGoal.2, Assertion.read, ← readContract_eq isText, reads] at isPost
  cases isPost
  refine holds meaning axioms values ?_
  intro given isGiven
  obtain ⟨_, isAssertion, isRead⟩ := Comp.exists_input_of_mem (forall₂_of_mapM isAssumed) isGiven
  rw [isGoal.1, mem_append] at isAssertion
  rcases isAssertion with isRequires | isEquation
  · obtain ⟨req, isReq, rfl⟩ := mem_map.mp isRequires
    rw [mem_toList] at isReq
    exact requires req given isReq isRead
  · obtain ⟨term, isTerm, rfl⟩ := mem_map.mp isEquation
    cases isRead
    exact equation term (mem_toList.mp isTerm)

end

/-- If the goal of a postcondition is valid over the integers, every execution that
starts with the precondition returns a value with the postcondition, provided that the
goal is linked to the body only if the body runs straight to its return, binds no name
twice, and casts and calls do what the logic takes them to do. -/
theorem return_goal_sound
    (declares : Declares source (.function id name typarams params rt body pragmas))
    {kind : ContractKind} {text : String} (contract : (kind, text) ∈ liquidPragmas pragmas)
    {goal : Goal}
    (generated : returnGoal source.decls ⟨name.string, kind, text, paramNames params⟩ = some goal)
    (valid : goal.Valid []) {program : Program} {depth : Nat}
    (condition : linkedTerm (paramNames params) (spineEnv [] body) body ≠ none →
      Describable names params body ∧ Models code meaning names host (callAt host program depth) ∧
        Quiet host (callAt host program depth))
    {args : List Value} {numbers : List Int} {memory entry after : Memory} {frame : Frame}
    {ended : Frame × Option Value} {value : Value} {number : Int}
    (denote : Forall₂ (Denotes code memory) args numbers)
    (entered : enter [] (params.map (·.name)) args memory = (.ok frame, entry))
    (ran : execStmt host (callAt host program depth) limit frame body entry = (.ok ended, after))
    (returned : ended.2 = some value) (denotes : Denotes code after value number)
    (requires : ∀ req formula, (.requires, req) ∈ liquidPragmas pragmas →
      readContract .requires req = some formula →
      formula.Holds meaning (contractValues (paramNames params) numbers number))
    {formula : Formula} (reads : readContract kind text = some formula) :
    formula.Holds meaning (contractValues (paramNames params) numbers number) := by
  refine holds_of_returnGoal declares contract generated valid nofun ?_ ?_ reads
  · intro req given found isRead
    rw [← readContract_eq (.inl rfl)] at isRead
    exact requires req given (requires_of_lookup declares found) isRead
  · intro _ linked
    obtain ⟨describable, models, quiet⟩ := condition (by rw [linked]; exact nofun)
    have isValue : ended.2.getD .unit = value := by rw [returned, getD_some]
    exact describable.result_eq models quiet denote entered ran isValue denotes linked

end Function

/-- A host that knows integers, and no code that is not Austral. -/
def integerHost : Host where
  constant := fun _ => stop .stuck
  integer := integerOfText
  float := fun _ => .external 0
  cast := fun _ value => some value
  compare := fun operator lhs rhs =>
    match operator, lhs, rhs with
    | .greaterThan, .int lhs, .int rhs => some (decide (rhs < lhs))
    | _, _, _ => none
  index := fun _ _ _ => none
  sizeOf := fun _ => .int 0
  embed := fun _ _ _ => stop .stuck
  foreign := fun _ _ => stop .stuck

/-- No function can be called. -/
abbrev noCalls : Typed.Callee → List Value → Run Value := callAt integerHost (fun _ => none) 0

def integerCode : Value → Int
  | .int number => number
  | _ => 0

def noMeaning : Interpretation where
  function := fun _ _ => 0
  real := fun _ => 0
  bool := fun _ => 0
  truth := fun _ => false
  inhabits := fun _ _ => False

theorem integerOfText_of_intOfString (isNumber : intOfString text = some number) :
    integerOfText text = some number := by
  unfold intOfString at isNumber
  split at isNumber
  · rename_i value isValue
    split at isNumber
    · rw [isValue, isNumber]
    · cases isNumber
  · cases isNumber

theorem models_integerHost (isBool : ∀ value, meaning.bool value = 0)
    (calls : ∀ callee, Realizes integerCode call callee (meaning.ofCall (names callee))) :
    Models integerCode meaning names integerHost call where
  int := fun _ => rfl
  bool := fun value => (isBool value).symm
  integer := fun _ _ => integerOfText_of_intOfString
  cast := fun _ _ _ isCast => (Option.some.inj isCast).symm
  calls := calls

theorem quiet_integerHost
    (quiet : ∀ callee args memory, Extends memory (call callee args memory).2) :
    Quiet integerHost call where
  constant := fun _ memory => .refl memory
  embed := fun _ _ _ memory => .refl memory
  call := quiet

/-! ## Terms alone -/

/-- An evaluation of an expression that has a term, from a state that is consistent with
the environment and with what the symbols of the term stand for. -/
structure TermRun (reading : Reading) (host : Host)
    (call : Typed.Callee → List Value → Run Value) (expr : TExpr) (frame : Frame) (memory : Memory)
    (term : Term) (value : Value) (after : Memory) : Prop where
  consistent : reading.full.Consistent frame memory
  interprets : Interprets reading.full host call frame expr memory
  isTerm : ∃ vars ⊆ reading.params, termOf reading.temps expr = some (term, vars)
  ran : eval host call frame expr memory = (.ok value, after)

/-- In every such state, what the expression evaluates to stands for the value of its
term. -/
def HasTermValue (reading : Reading) (host : Host) (call : Typed.Callee → List Value → Run Value)
    (expr : TExpr) : Prop :=
  ∀ frame memory term value after, TermRun reading host call expr frame memory term value after →
    Denotes reading.code after value (term.value reading.meaning reading.values)

section

variable {reading : Reading} {host : Host} {call : Typed.Callee → List Value → Run Value}

theorem asBool_eq_ok (ran : asBool value memory = (.ok truth, after)) :
    value = .bool truth ∧ after = memory := by
  cases value with
  | bool =>
    obtain ⟨rfl, rfl⟩ := pure_eq_ok.mp ran
    exact ⟨rfl, rfl⟩
  | uninitialized | unit | int | string | function | reference | data | external => cases ran

/-- A negation stands for the other truth value, and its term for the opposite number. -/
theorem denotes_negation_iff (models : Models reading.code reading.meaning reading.names host call)
    (hasValue : HasTermValue reading host call expr)
    (run : TermRun reading host call (.negation expr) frame memory term value after) :
    Denotes reading.code after value (term.value reading.meaning reading.values) ↔
      reading.meaning.bool true = -reading.meaning.bool false := by
  obtain ⟨consistent, interprets, ⟨vars, inParams, isTerm⟩, ran⟩ := run
  rw [eval, bind_eq_ok] at ran
  obtain ⟨truth, last, ranOperand, ran⟩ := ran
  obtain ⟨rfl, rfl⟩ := pure_eq_ok.mp ran
  obtain ⟨_, _, ranOperand, isBool⟩ := bind_eq_ok.mp ranOperand
  obtain ⟨rfl, rfl⟩ := asBool_eq_ok isBool
  rw [termOf_negation] at isTerm
  obtain ⟨operand, isOperand, same⟩ := Option.map_eq_some_iff.mp isTerm
  cases same
  rw [Interprets] at interprets
  have denotes := hasValue frame memory operand.1 (.bool truth) last
    ⟨consistent, interprets, ⟨operand.2, inParams, isOperand⟩, ranOperand⟩
  have ofBool (truth : Bool) :
      Denotes reading.code last (.bool truth) (reading.meaning.bool truth) := by
    rw [← models.bool]
    exact .plain nofun nofun
  have denotes_iff (number : Int) : Denotes reading.code last (.bool !truth) number ↔
      reading.meaning.bool (!truth) = number :=
    ⟨(ofBool !truth).unique, fun same => same ▸ ofBool !truth⟩
  rw [denotes_iff, Term.value, ← (ofBool truth).unique denotes]
  cases truth with
  | false => rfl
  | true =>
    rw [Bool.not_true]
    omega

end

def bitCode : Value → Int
  | .int number => number
  | .bool value => if value then 1 else 0
  | _ => 0

def bitReading : Reading where
  code := bitCode
  meaning := { noMeaning with bool := fun value => if value then 1 else 0 }
  names := fun _ => ⟨⟨"Example"⟩, ⟨"f"⟩⟩
  params := ["b"]
  values := fun _ => 1
  temps := []
  parts := true

theorem models_bitReading : Models bitReading.code bitReading.meaning bitReading.names integerHost
    (fun _ _ => stop .stuck) where
  int := fun _ => rfl
  bool := fun _ => rfl
  integer := fun _ _ => integerOfText_of_intOfString
  cast := fun _ _ _ isCast => (Option.some.inj isCast).symm
  calls := nofun

/-- The slot of a record and a constant of the module, added. -/
def countPlusLimit : TExpr :=
  .methodCall ⟨0⟩ ⟨pervasiveModuleName, ⟨"trappingAdd"⟩, ⟨"trappingAdd"⟩⟩ []
    [.deref (.slotAccessor (.paramVar ⟨"r"⟩ .unit) ⟨"count"⟩ .unit),
      .constVar ⟨⟨"Example"⟩, ⟨"limit"⟩, ⟨"limit"⟩⟩ .unit] .unit .empty

def limitHost : Host := { integerHost with constant := fun _ => pure (.int 4) }

def addition (_ : Typed.Callee) : List Value → Run Value
  | [.int lhs, .int rhs] => pure (.int (lhs + rhs))
  | _ => stop .stuck

def limitReading : Reading where
  code := bitCode
  meaning := { bitReading.meaning with
    function := fun symbol _ => if symbol = "__slot_count" then 3 else 0 }
  names := fun _ => ⟨pervasiveModuleName, ⟨"trappingAdd"⟩⟩
  params := ["r", "Example::limit"]
  values := fun name => if name = "r" then 0 else 4
  temps := []
  parts := true

theorem models_limitReading : Models limitReading.code limitReading.meaning limitReading.names
    limitHost addition where
  int := fun _ => rfl
  bool := fun _ => rfl
  integer := fun _ _ => integerOfText_of_intOfString
  cast := fun _ _ _ isCast => (Option.some.inj isCast).symm
  calls := by
    intro callee args numbers before value after denote ran
    unfold addition at ran
    split at ran
    · obtain ⟨rfl, rfl⟩ := pure_eq_ok.mp ran
      cases denote with
      | cons denotesLhs others =>
        cases others with
        | cons denotesRhs none =>
          cases none
          cases denotesLhs
          cases denotesRhs
          exact ⟨.refl _, .plain nofun nofun⟩
    · cases ran

/-- A record with one slot, and a reference to it. -/
def countMemory : Memory := ⟨[.data none [(⟨"count"⟩, .int 3)], .reference false ⟨0, []⟩], []⟩

/-- A value that is cast, kept in a variable and returned. -/
theorem return_goal_sound_at_let :
    let ty : Ty := .integer .signed .width32
    let body : TStmt := .letStmt .immutable ⟨"x"⟩ ty (.block
      (.initialAssign ⟨⟨"Example"⟩, ⟨"x"⟩, ⟨"x"⟩⟩ (.cast (.paramVar ⟨"n"⟩ ty) ty))
      (.returnStmt (.localVar ⟨"x"⟩ ty)))
    execStmt integerHost noCalls 0 [(.named "n", 0)] body ⟨[.int 3], []⟩ =
        (.ok ([(.named "n", 0)], some (.int 3)), ⟨[.int 3, .int 3], [1]⟩) ∧
      (Formula.rel .eq (.var "result" none) (.var "n" none)).Holds noMeaning
        (contractValues ["n"] [3] 3) := by
  intro ty body
  let params : List ValueParameter := [⟨⟨"n"⟩, ty⟩]
  let decl : TypedDecl := .function ⟨1⟩ ⟨"same"⟩ [] params ty body
    [.liquid "Ensures" "result == n"]
  let names : Typed.Callee → SIdent := fun _ => ⟨⟨"Example"⟩, ⟨"same"⟩⟩
  have isNames : paramNames params = ["n"] := by decide +kernel
  have declares : Declares ⟨⟨"Example"⟩, [decl]⟩ decl :=
    ⟨mem_singleton_self _, fun other isOther _ => mem_singleton.mp isOther⟩
  have describable : Describable names params body :=
    { isStraight := rfl
      distinct := by rw [isNames]; decide +kernel
      noResult := by rw [isNames]; decide
      legal := isNames
      isPlain := fun expr isExpr => by
        cases isExpr
        rfl }
  have valid : ∃ goal, returnGoal [decl] ⟨"same", .ensures, "result == n", paramNames params⟩ =
      some goal ∧ goal.Valid [] := by
    rw [isNames]
    refine ⟨_, rfl, _, _, rfl, rfl, fun meaning _ values holds => ?_⟩
    exact holds _ mem_cons_self
  obtain ⟨_, generated, valid⟩ := valid
  have contract : (.ensures, "result == n") ∈ liquidPragmas [.liquid "Ensures" "result == n"] :=
    mem_singleton_self _
  have denote : Forall₂ (Denotes integerCode ⟨[], []⟩) [.int 3] [3] :=
    .cons (.plain nofun nofun) .nil
  have ran : execStmt integerHost noCalls 0 [(.named "n", 0)] body ⟨[.int 3], []⟩ =
      (.ok ([(.named "n", 0)], some (.int 3)), ⟨[.int 3, .int 3], [1]⟩) := rfl
  have models : Models integerCode noMeaning names integerHost noCalls :=
    models_integerHost (fun _ => rfl) nofun
  have holds := return_goal_sound declares contract generated valid
    (fun _ => ⟨describable, models, quiet_integerHost fun _ _ memory => .refl memory⟩)
    denote rfl ran rfl (.plain nofun nofun) nofun rfl
  rw [isNames] at holds
  exact ⟨ran, holds⟩

/-- A body that returns another value on the way is accepted, and its goal is valid. -/
theorem return_goal_misses_early_return :
    let ty : Ty := .integer .signed .width32
    let body : TStmt := .block
      (.ifStmt (.comparison .greaterThan (.paramVar ⟨"n"⟩ ty) (.paramVar ⟨"m"⟩ ty))
        (.returnStmt (.paramVar ⟨"m"⟩ ty)) .skip)
      (.returnStmt (.paramVar ⟨"n"⟩ ty))
    let decl : TypedDecl := .function ⟨1⟩ ⟨"first"⟩ [] [⟨⟨"n"⟩, ty⟩, ⟨⟨"m"⟩, ty⟩] ty body
      [.liquid "Requires" "n > 0", .liquid "Ensures" "result == n"]
    let source : TypedModule := ⟨⟨"Example"⟩, [decl]⟩
    let frame : Frame := [(.named "m", 1), (.named "n", 0)]
    let entry : Memory := ⟨[.int 2, .int 1], []⟩
    totality source = none ∧ checkModule source = none ∧
      (∃ goal, returnGoal source.decls ⟨"first", .ensures, "result == n", ["n", "m"]⟩ = some goal ∧
        goal.Valid []) ∧
      enter [] [⟨"n"⟩, ⟨"m"⟩] [.int 2, .int 1] ⟨[], []⟩ = (.ok frame, entry) ∧
      execStmt integerHost noCalls 0 frame body entry = (.ok (frame, some (.int 1)), entry) ∧
      ∃ pre post, readContract .requires "n > 0" = some pre ∧
        readContract .ensures "result == n" = some post ∧
        ∀ meaning : Interpretation,
          pre.Holds meaning (contractValues ["n", "m"] [2, 1] 1) ∧
            ¬ post.Holds meaning (contractValues ["n", "m"] [2, 1] 1) := by
  intro _ _ _ _ _ _
  refine ⟨rfl, rfl, ⟨_, rfl, ?_⟩, rfl, rfl, _, _, rfl, rfl, ?_⟩
  · refine ⟨_, _, rfl, rfl, fun meaning _ values holds => ?_⟩
    exact holds _ (mem_cons_of_mem _ mem_cons_self)
  · intro _
    exact ⟨show (2 : Int) > 0 by decide, show ¬ (1 : Int) = 2 by decide⟩

end AustralVM.Liquid.Constraints
