import AustralVM.EvaluationInvariants
import AustralVM.FormulaMeaning
import AustralVM.LiquidTerms

/-!
# Terms and the values of expressions

A value stands for an integer of the logic, a reference for what it refers to.  The
term of an expression has the value of the expression, if the expression is plain and
the variables that the environment binds still have the values of the expressions that
they are bound to.
-/

namespace AustralVM.Liquid

open Typed Stoppable List

/-! ## Memory that only grows -/

/-- The cells of a memory are kept, and cells may have been added. -/
def Extends (before after : Memory) : Prop := before.cells <+: after.cells

theorem Extends.refl (memory : Memory) : Extends memory memory := prefix_rfl

theorem Extends.trans (before : Extends first second) (after : Extends second third) :
    Extends first third := List.IsPrefix.trans before after

variable {before after : Memory} {value : Value}

theorem Extends.length_le (grows : Extends before after) :
    before.cells.length ≤ after.cells.length := List.IsPrefix.length_le grows

theorem Extends.getElem? (grows : Extends before after) {cell : Nat}
    (found : before.cells[cell]? = some value) : after.cells[cell]? = some value := by
  obtain ⟨_, isAfter⟩ := grows
  rw [← isAfter, getElem?_append_left (List.getElem?_eq_some_iff.mp found).1, found]

/-- The values of a memory are kept; a cell without one may have been given one. -/
def Fills (before after : Memory) : Prop :=
  ∀ (cell : Nat) (value : Value), before.cells[cell]? = some value → value ≠ .uninitialized →
    after.cells[cell]? = some value

theorem Extends.fills (grows : Extends before after) :
    Fills before after := fun _ _ found _ => grows.getElem? found

theorem Fills.valueAt (fills : Fills before after) (found : before.valueAt place = some value) :
    after.valueAt place = some value := by
  obtain ⟨⟨whole, inMemory, followed⟩, initialized⟩ := Memory.valueAt_eq_some_iff.mp found
  refine Memory.valueAt_eq_some_iff.mpr ⟨⟨whole, fills _ _ inMemory ?_, followed⟩, initialized⟩
  rintro rfl
  cases path : place.path with
  | nil =>
    rw [path] at followed
    cases followed
    exact initialized rfl
  | cons =>
    rw [path] at followed
    cases followed

theorem extends_alloc (allocated : alloc value before = (.ok cell, after)) :
    Extends before after ∧ cell = before.cells.length ∧ after.cells[cell]? = some value := by
  cases allocated
  exact ⟨prefix_append _ _, rfl, by simp⟩

/-! ## The integers that values stand for -/

section Denotation

variable (code : Value → Int)

/-- A value stands for an integer; a reference for what its target stands for. -/
inductive Denotes (memory : Memory) : Value → Int → Prop
  | plain {value : Value} (initialized : value ≠ .uninitialized)
      (isPlain : ∀ writable place, value ≠ .reference writable place) :
      Denotes memory value (code value)
  | through {writable : Bool} {place : Place} {value : Value} {number : Int}
      (found : memory.valueAt place = some value) (denotes : Denotes memory value number) :
      Denotes memory (.reference writable place) number

variable {code}

variable {value : Value} {number : Int} {memory : Memory}

theorem Denotes.mono (fills : Fills before after) (denotes : Denotes code before value number) :
    Denotes code after value number := by
  induction denotes with
  | plain initialized isPlain => exact .plain initialized isPlain
  | through found _ ih => exact .through (fills.valueAt found) ih

theorem Denotes.initialized (denotes : Denotes code memory value number) :
    value ≠ .uninitialized := by
  cases denotes with
  | plain initialized => exact initialized
  | through => exact nofun

theorem Denotes.target (denotes : Denotes code memory (.reference writable place) number) :
    ∃ value, memory.valueAt place = some value ∧ Denotes code memory value number := by
  cases denotes with
  | plain _ isPlain => exact absurd rfl (isPlain writable place)
  | through found denotes => exact ⟨_, found, denotes⟩

theorem Denotes.unique (denotesFirst : Denotes code memory value first)
    (denotesSecond : Denotes code memory value second) : first = second := by
  induction denotesFirst with
  | plain _ isPlain =>
    cases denotesSecond with
    | plain => rfl
    | @through writable place => exact absurd rfl (isPlain writable place)
  | through found _ ih =>
    obtain ⟨_, isTarget, denotes⟩ := denotesSecond.target
    cases found.symm.trans isTarget
    exact ih denotes

end Denotation

/-! ## Programs that the logic describes -/

def Arithmetic.apply : Arithmetic → Int → Int → Int
  | .add, lhs, rhs => lhs + rhs
  | .sub, lhs, rhs => lhs - rhs
  | .mul, lhs, rhs => lhs * rhs

theorem Arithmetic.value_term (operation : Arithmetic) (meaning : Interpretation)
    (values : Assignment) (lhs rhs : Term) : (operation.term lhs rhs).value meaning values =
      operation.apply (lhs.value meaning values) (rhs.value meaning values) := by
  cases operation <;> simp only [term, apply, Term.value]

/-- What the logic takes a call to compute: a pervasive operation, or the function
symbol of its name. -/
def Interpretation.ofCall (meaning : Interpretation) (name : SIdent) (args : List Int) : Int :=
  match args, arithmeticOperation name with
  | [lhs, rhs], some operation => operation.apply lhs rhs
  | args, _ => meaning.function name.name.string args

/-- A call adds cells at most, and its value stands for a function of what its
arguments stand for. -/
def Realizes (code : Value → Int) (call : Callee → List Value → Run Value) (callee : Callee)
    (function : List Int → Int) : Prop :=
  ∀ args numbers before value after, Forall₂ (Denotes code before) args numbers →
    call callee args before = (.ok value, after) →
    Extends before after ∧ Denotes code after value (function numbers)

/-- The machine and the calls do what the terms say: literals have their value, casts
change none, and calls compute what the logic takes them to compute. -/
structure Models (code : Value → Int) (meaning : Interpretation) (names : Callee → SIdent)
    (host : Host) (call : Callee → List Value → Run Value) : Prop where
  int : ∀ number, code (.int number) = number
  bool : ∀ value, code (.bool value) = meaning.bool value
  integer : ∀ text number, intOfString text = some number → host.integer text = some number
  cast : ∀ ty value result, host.cast ty value = some result → result = value
  calls : ∀ callee, Realizes code call callee (meaning.ofCall (names callee))

section Plain

variable (names : Callee → SIdent) (parts : Bool) (resolve : String → Option Bool)

mutual

/-- Expressions whose terms mean what they do: no negation, which is written as an
arithmetic one.  Unless the symbols of the logic are known to stand for what is read,
there are no constants, slots or elements, and calls are under their own names. -/
def plainWith : TExpr → Bool
  | .intConstant _ | .boolConstant _ | .paramVar _ _ => true
  | .temporary name _ | .localVar name _ => (resolve name.string).getD true
  | .cast expr _ | .deref expr => plainWith expr
  | .funcall id name args _ bindings =>
    (parts || names (.function id bindings) = qidentToSident name) && plainsWith args
  | .methodCall id name _ args _ bindings =>
    (parts || names (.method id bindings) = qidentToSident name) && plainsWith args
  | .slotAccessor expr _ _ => parts && plainWith expr
  | .arrayIndex expr index _ | .spanIndex expr index _ =>
    parts && (plainWith expr && plainWith index)
  | .negation _ => false
  | _ => parts

def plainsWith : List TExpr → Bool
  | [] => true
  | expr :: exprs => plainWith expr && plainsWith exprs

end

end Plain

def plainAt (names : Callee → SIdent) (parts : Bool) (temps : TempEnv) : Nat → TExpr → Bool
  | 0 => plainWith names parts fun name => (temps.lookup name).map fun _ => false
  | depth + 1 => plainWith names parts fun name =>
    (temps.lookup name).map (plainAt names parts temps depth)

def plain (names : Callee → SIdent) (temps : TempEnv) (expr : TExpr) : Bool :=
  plainAt names false temps temps.length expr

/-! ## The values of variables -/

/-- What is fixed while a body runs: the names of the parameters and what they stood
for on entry, the expressions that names are bound to, and whether constants, slots and
elements are read as well. -/
structure Reading where
  code : Value → Int
  meaning : Interpretation
  names : Callee → SIdent
  params : List String
  values : Assignment
  temps : TempEnv
  parts : Bool

namespace Reading

variable (reading : Reading)

/-- The reading, with constants, slots and elements. -/
def full : Reading := { reading with parts := true }

/-- A value is that of every plain term that an expression is written as. -/
def Matches (memory : Memory) (value : Value) (expr : TExpr) : Prop :=
  ∀ depth term vars, plainAt reading.names reading.parts reading.temps depth expr →
    termAt reading.temps depth expr = some (term, vars) → vars ⊆ reading.params →
    Denotes reading.code memory value (term.value reading.meaning reading.values)

/-- Parameters have the values they had on entry, and variables those of the
expressions that they are bound to. -/
structure Consistent (frame : Frame) (memory : Memory) : Prop where
  exist : ∀ var cell, frame.lookup var = some cell → cell < memory.cells.length
  params : ∀ var cell, frame.lookup var = some cell → var.name ∈ reading.params →
    ∃ value, memory.cells[cell]? = some value ∧
      Denotes reading.code memory value (reading.values var.name)
  temps : ∀ var cell value expr, frame.lookup var = some cell →
    memory.cells[cell]? = some value → value ≠ .uninitialized →
    reading.temps.lookup var.name = some expr → reading.Matches memory value expr

variable {reading}

theorem Matches.mono (fills : Fills before after) (isMatch : reading.Matches before value expr) :
    reading.Matches after value expr :=
  fun depth term vars isPlain isTerm inParams =>
    (isMatch depth term vars isPlain isTerm inParams).mono fills

theorem Consistent.mono {frame : Frame} (grows : Extends before after)
    (consistent : reading.Consistent frame before) : reading.Consistent frame after where
  exist := fun var cell found =>
    Nat.lt_of_lt_of_le (consistent.exist var cell found) grows.length_le
  params := by
    intro var cell found isParam
    obtain ⟨value, inMemory, denotes⟩ := consistent.params var cell found isParam
    exact ⟨value, grows.getElem? inMemory, denotes.mono grows.fills⟩
  temps := by
    intro var cell value expr found inMemory initialized isBound
    have inBefore : before.cells[cell]? = some value := by
      rw [getElem?_eq_getElem (consistent.exist var cell found)]
      have same := grows.getElem? (getElem?_eq_getElem (consistent.exist var cell found))
      rw [inMemory] at same
      exact same.symm
    exact (consistent.temps var cell value expr found inBefore initialized isBound).mono grows.fills

end Reading

/-! ## The values of expressions -/

theorem termValues_eq_map (meaning : Interpretation) (values : Assignment) (terms : List Term) :
    termValues meaning values terms = terms.map (Term.value meaning values) := by
  induction terms with
  | nil => rfl
  | cons _ _ ih => rw [termValues, ih, map_cons]

theorem arithmeticTerm_eq_some (isTerm : arithmeticTerm name args = some (term, vars)) :
    ∃ lhs rhs operation, args = [some lhs, some rhs] ∧
      arithmeticOperation (qidentToSident name) = some operation ∧
      term = operation.term lhs.1 rhs.1 ∧ vars = lhs.2 ++ rhs.2 := by
  rw [arithmeticTerm.eq_def] at isTerm
  split at isTerm
  · obtain ⟨operation, isOperation, same⟩ := Option.map_eq_some_iff.mp isTerm
    cases same
    exact ⟨_, _, operation, rfl, isOperation, rfl, rfl⟩
  · cases isTerm

theorem forall₂_of_mapM (mapped : list.mapM f = some images) :
    Forall₂ (fun item image => f item = some image) list images := by
  induction list generalizing images with
  | nil =>
    cases mapped
    exact .nil
  | cons _ _ ih =>
    rw [mapM_cons] at mapped
    obtain ⟨_, isFirst, rest⟩ := Option.bind_eq_some_iff.mp mapped
    obtain ⟨_, areOthers, isList⟩ := Option.bind_eq_some_iff.mp rest
    cases isList
    exact .cons isFirst (ih areOthers)

theorem callTerm_eq_some (isTerm : callTerm symbol args = some (term, vars)) :
    ∃ pairs : List (Term × List String), args = pairs.map some ∧
      term = .call symbol (pairs.map Prod.fst) ∧ vars = pairs.flatMap Prod.snd := by
  obtain ⟨pairs, allRendered, same⟩ := Option.map_eq_some_iff.mp isTerm
  cases same
  have same : Forall₂ Eq args (pairs.map some) :=
    forall₂_map_right_iff.mpr (forall₂_of_mapM allRendered)
  rw [forall₂_eq_eq_eq] at same
  exact ⟨pairs, same, rfl, rfl⟩

section Variables

/-- The variables that are counted for a term are names that it mentions. -/
def Counted (rendering : Rendering) : Prop :=
  ∀ term vars, rendering = some (term, vars) → ∀ var ∈ vars, term.Mentions var

theorem mentionedIn_iff : mentionedIn name terms ↔ ∃ term ∈ terms, term.Mentions name := by
  induction terms with
  | nil => simp [mentionedIn]
  | cons _ _ ih => simp [mentionedIn, ih]

theorem counted_callTerm (each : ∀ arg ∈ args, Counted arg) : Counted (callTerm symbol args) := by
  intro term vars isTerm var isVar
  obtain ⟨_, rfl, rfl, rfl⟩ := callTerm_eq_some isTerm
  obtain ⟨pair, isPair, inPair⟩ := mem_flatMap.mp isVar
  rw [Term.Mentions, mentionedIn_iff]
  exact ⟨pair.1, mem_map_of_mem isPair,
    each _ (mem_map_of_mem isPair) pair.1 pair.2 rfl var inPair⟩

theorem counted_arithmeticTerm (each : ∀ arg ∈ args, Counted arg) :
    Counted (arithmeticTerm name args) := by
  intro term vars isTerm var isVar
  obtain ⟨lhs, rhs, operation, rfl, -, rfl, rfl⟩ := arithmeticTerm_eq_some isTerm
  have mentioned : lhs.1.Mentions var ∨ rhs.1.Mentions var :=
    (mem_append.mp isVar).imp (each _ mem_cons_self lhs.1 lhs.2 rfl var)
      (each _ (mem_cons_of_mem _ mem_cons_self) rhs.1 rhs.2 rfl var)
  cases operation <;> simpa only [Arithmetic.term, Term.Mentions] using mentioned

variable {resolve : String → Option Rendering}

theorem counted_renderVariable
    (resolved : ∀ name rendering, resolve name = some rendering → Counted rendering)
    (name : String) : Counted (renderVariable resolve name) := by
  unfold renderVariable
  split
  · rename_i binding isBinding
    exact resolved name binding isBinding
  · rintro _ _ ⟨⟩ var isVar
    rw [Term.Mentions, mem_singleton.mp isVar]

mutual
theorem counted_render
    (resolved : ∀ name rendering, resolve name = some rendering → Counted rendering)
    (expr : TExpr) : Counted (render resolve expr) := by
  cases expr with unfold render
  | intConstant =>
    intro term vars isTerm
    obtain ⟨_, -, same⟩ := Option.map_eq_some_iff.mp isTerm
    cases same
    exact nofun
  | boolConstant =>
    rintro _ _ ⟨⟩
    exact nofun
  | temporary name | localVar name => exact counted_renderVariable resolved name.string
  | paramVar | constVar =>
    rintro _ _ ⟨⟩ var isVar
    rw [Term.Mentions, mem_singleton.mp isVar]
  | negation expr =>
    intro term vars isTerm var isVar
    obtain ⟨_, isOperand, same⟩ := Option.map_eq_some_iff.mp isTerm
    cases same
    rw [Term.Mentions]
    exact counted_render resolved expr _ _ isOperand var isVar
  | cast expr | deref expr => exact counted_render resolved expr
  | funcall _ _ args =>
    have each := counted_renders resolved args
    intro term vars isTerm
    rcases Option.or_eq_some_iff.mp isTerm with isArithmetic | ⟨-, isCall⟩
    · exact counted_arithmeticTerm each term vars isArithmetic
    · exact counted_callTerm each term vars isCall
  | methodCall _ _ _ args => exact counted_arithmeticTerm (counted_renders resolved args)
  | slotAccessor expr =>
    exact counted_callTerm (forall_mem_singleton.mpr (counted_render resolved expr))
  | arrayIndex expr index | spanIndex expr index =>
    exact counted_callTerm (forall_mem_cons.mpr ⟨counted_render resolved expr,
      forall_mem_singleton.mpr (counted_render resolved index)⟩)
  | nilConstant | floatConstant | stringConstant | funVar | varMethodCall | fptrCall
  | comparison | conjunction | disjunction | ifExpression | recordConstructor
  | unionConstructor | pointerSlotAccessor | embed | sizeOf => exact nofun
theorem counted_renders
    (resolved : ∀ name rendering, resolve name = some rendering → Counted rendering)
    (exprs : List TExpr) : ∀ rendering ∈ renders resolve exprs, Counted rendering := by
  cases exprs with rw [renders]
  | nil => exact nofun
  | cons expr exprs =>
    exact forall_mem_cons.mpr ⟨counted_render resolved expr, counted_renders resolved exprs⟩
end

theorem counted_termAt (temps : TempEnv) (depth : Nat) (expr : TExpr) :
    Counted (termAt temps depth expr) := by
  induction depth generalizing expr with
  | zero =>
    refine counted_render (fun name rendering isBinding => ?_) expr
    obtain ⟨_, -, rfl⟩ := Option.map_eq_some_iff.mp isBinding
    exact nofun
  | succ _ ih =>
    refine counted_render (fun name rendering isBinding => ?_) expr
    obtain ⟨bound, -, rfl⟩ := Option.map_eq_some_iff.mp isBinding
    exact ih bound

end Variables

section Negations

mutual

/-- A term with an arithmetic negation in it. -/
def Term.Negates : Term → Prop
  | .int _ | .real _ | .bool _ | .var _ _ => False
  | .add lhs rhs | .sub lhs rhs | .mul lhs rhs => lhs.Negates ∨ rhs.Negates
  | .neg _ => True
  | .ite condition consequent alternative =>
    condition.Negates ∨ consequent.Negates ∨ alternative.Negates
  | .call _ args => negatesIn args

def negatesIn : List Term → Prop
  | [] => False
  | term :: terms => term.Negates ∨ negatesIn terms

end

theorem negatesIn_of_mem (isMember : term ∈ terms) (negates : term.Negates) : negatesIn terms := by
  induction isMember with
  | head => exact .inl negates
  | tail _ _ ih => exact .inr ih

/-- A rendering without a negation in it. -/
def Unnegated (rendering : Rendering) : Prop :=
  ∃ term vars, rendering = some (term, vars) ∧ ¬ term.Negates

theorem unnegated_callTerm (unnegated : Unnegated (callTerm symbol args)) :
    ∀ arg ∈ args, Unnegated arg := by
  obtain ⟨_, _, isTerm, noNegation⟩ := unnegated
  obtain ⟨_, rfl, rfl, -⟩ := callTerm_eq_some isTerm
  intro arg isArg
  obtain ⟨pair, isPair, rfl⟩ := mem_map.mp isArg
  exact ⟨pair.1, pair.2, rfl,
    fun negates => noNegation (negatesIn_of_mem (mem_map_of_mem isPair) negates)⟩

theorem unnegated_arithmeticTerm (unnegated : Unnegated (arithmeticTerm name args)) :
    ∀ arg ∈ args, Unnegated arg := by
  obtain ⟨_, _, isTerm, noNegation⟩ := unnegated
  obtain ⟨lhs, rhs, operation, rfl, -, rfl, -⟩ := arithmeticTerm_eq_some isTerm
  have neither : ¬ (lhs.1.Negates ∨ rhs.1.Negates) := by
    cases operation <;> exact noNegation
  rw [not_or] at neither
  exact forall_mem_cons.mpr ⟨⟨lhs.1, lhs.2, rfl, neither.1⟩,
    forall_mem_singleton.mpr ⟨rhs.1, rhs.2, rfl, neither.2⟩⟩

variable {names : Callee → SIdent} {resolvePlain : String → Option Bool}
  {resolve : String → Option Rendering}

mutual
/-- Expressions that are written without a negation have none in what was written. -/
theorem plainWith_of_unnegated
    (resolved : ∀ name, Unnegated (renderVariable resolve name) →
      (resolvePlain name).getD true = true) (expr : TExpr)
    (unnegated : Unnegated (render resolve expr)) : plainWith names true resolvePlain expr = true := by
  cases expr with (unfold plainWith; unfold render at unnegated)
  | temporary name | localVar name => exact resolved name.string unnegated
  | cast expr | deref expr => exact plainWith_of_unnegated resolved expr unnegated
  | funcall _ _ args =>
    refine plainsWith_of_unnegated resolved args ?_
    obtain ⟨term, vars, isTerm, noNegation⟩ := unnegated
    rcases Option.or_eq_some_iff.mp isTerm with isArithmetic | ⟨-, isCall⟩
    · exact unnegated_arithmeticTerm ⟨term, vars, isArithmetic, noNegation⟩
    · exact unnegated_callTerm ⟨term, vars, isCall, noNegation⟩
  | methodCall _ _ _ args =>
    exact plainsWith_of_unnegated resolved args (unnegated_arithmeticTerm unnegated)
  | slotAccessor expr =>
    exact plainWith_of_unnegated resolved expr (unnegated_callTerm unnegated _ mem_cons_self)
  | arrayIndex expr index | spanIndex expr index =>
    obtain ⟨ofExpr, ofIndex⟩ := forall_mem_cons.mp (unnegated_callTerm unnegated)
    rw [Bool.true_and, plainWith_of_unnegated resolved expr ofExpr, Bool.true_and]
    exact plainWith_of_unnegated resolved index (ofIndex _ mem_cons_self)
  | negation =>
    obtain ⟨_, _, isTerm, noNegation⟩ := unnegated
    obtain ⟨_, -, same⟩ := Option.map_eq_some_iff.mp isTerm
    cases same
    exact absurd trivial noNegation
  | _ => rfl
theorem plainsWith_of_unnegated
    (resolved : ∀ name, Unnegated (renderVariable resolve name) →
      (resolvePlain name).getD true = true) (exprs : List TExpr)
    (unnegated : ∀ rendering ∈ renders resolve exprs, Unnegated rendering) :
    plainsWith names true resolvePlain exprs = true := by
  cases exprs with rw [plainsWith]
  | cons expr exprs =>
    obtain ⟨ofExpr, ofExprs⟩ := forall_mem_cons.mp unnegated
    rw [plainWith_of_unnegated resolved expr ofExpr, Bool.true_and]
    exact plainsWith_of_unnegated resolved exprs ofExprs
end

theorem plainAt_of_unnegated (names : Callee → SIdent) (temps : TempEnv) (depth : Nat) (expr : TExpr)
    (unnegated : Unnegated (termAt temps depth expr)) :
    plainAt names true temps depth expr = true := by
  induction depth generalizing expr with
  | zero =>
    refine plainWith_of_unnegated (fun name ofName => ?_) expr unnegated
    cases isBound : temps.lookup name with
    | none => rfl
    | some =>
      rw [renderVariable, isBound] at ofName
      obtain ⟨_, _, isTerm, -⟩ := ofName
      cases isTerm
  | succ _ ih =>
    refine plainWith_of_unnegated (fun name ofName => ?_) expr unnegated
    cases isBound : temps.lookup name with
    | none => rfl
    | some bound =>
      rw [renderVariable, isBound] at ofName
      exact ih bound ofName

end Negations

section Interpretation

variable (reading : Reading) (host : Host) (call : Callee → List Value → Run Value) (frame : Frame)

mutual

/-- The symbols of a term stand for what the evaluation of its expression reads:
constants under the last part of their names, the slots and elements that are accessed,
and calls under the names of what is called. -/
def Interprets : TExpr → Memory → Prop
  | .constVar name _, memory => ∀ value after, host.constant name memory = (.ok value, after) →
    Extends memory after ∧
      Denotes reading.code after value (reading.values (afterLastPoint (qidentDebugName name)))
  | .slotAccessor expr slot _, memory => Interprets expr memory ∧
    ∀ writable place after number,
      eval host call frame expr memory = (.ok (.reference writable place), after) →
      Denotes reading.code after (.reference writable place) number →
      Denotes reading.code after (.reference writable (place.slot slot))
        (reading.meaning.function ("__slot_" ++ slot.string) [number])
  | .arrayIndex expr index _, memory | .spanIndex expr index _, memory => Interprets expr memory ∧
    ∀ indexed between, eval host call frame expr memory = (.ok indexed, between) →
      Interprets index between ∧
      ∀ position after value number offset,
        eval host call frame index between = (.ok position, after) →
        Denotes reading.code after indexed number → Denotes reading.code after position offset →
        host.index indexed position after = some value →
        Denotes reading.code after value (reading.meaning.function "__index" [number, offset])
  | .cast expr _, memory | .deref expr, memory | .negation expr, memory => Interprets expr memory
  | .funcall id name args _ bindings, memory =>
    reading.names (.function id bindings) = qidentToSident name ∧ InterpretsAll args memory
  | .methodCall id name _ args _ bindings, memory =>
    reading.names (.method id bindings) = qidentToSident name ∧ InterpretsAll args memory
  | _, _ => True

def InterpretsAll : List TExpr → Memory → Prop
  | [], _ => True
  | expr :: exprs, memory => Interprets expr memory ∧
    ∀ value after, eval host call frame expr memory = (.ok value, after) →
      InterpretsAll exprs after

end

end Interpretation

section Evaluation

variable {reading : Reading} {host : Host} {call : Callee → List Value → Run Value} {frame : Frame}
  {resolvePlain : String → Option Bool} {resolve : String → Option Rendering}
  {memory after : Memory} {value : Value}

/-- An expression whose evaluation gives the value of its term. -/
def Evaluates (reading : Reading) (host : Host) (call : Callee → List Value → Run Value)
    (frame : Frame) (resolvePlain : String → Option Bool) (resolve : String → Option Rendering)
    (expr : TExpr) : Prop :=
  ∀ memory, reading.Consistent frame memory →
    (reading.parts → Interprets reading host call frame expr memory) → ∀ term vars value after,
    plainWith reading.names reading.parts resolvePlain expr →
    render resolve expr = some (term, vars) → vars ⊆ reading.params →
    eval host call frame expr memory = (.ok value, after) →
    Extends memory after ∧
      Denotes reading.code after value (term.value reading.meaning reading.values)

theorem evals_denotes
    (each : ∀ expr ∈ exprs, Evaluates reading host call frame resolvePlain resolve expr)
    (consistent : reading.Consistent frame memory)
    (interprets : reading.parts → InterpretsAll reading host call frame exprs memory)
    (allPlain : plainsWith reading.names reading.parts resolvePlain exprs)
    {pairs : List (Term × List String)} (rendered : renders resolve exprs = pairs.map some)
    (inParams : pairs.flatMap Prod.snd ⊆ reading.params)
    (ran : evals host call frame exprs memory = (.ok values, after)) :
    Extends memory after ∧ Forall₂ (Denotes reading.code after) values
      (pairs.map fun pair => pair.1.value reading.meaning reading.values) := by
  induction exprs generalizing memory pairs values with
  | nil =>
    rw [evals] at ran
    obtain ⟨rfl, rfl⟩ := pure_eq_ok.mp ran
    cases pairs with
    | nil => exact ⟨.refl _, .nil⟩
    | cons => cases rendered
  | cons expr _ ih =>
    rw [evals, bind_eq_ok] at ran
    obtain ⟨value, between, ranFirst, ran⟩ := ran
    obtain ⟨others, ranRest, rfl⟩ := bind_pure_eq_ok.mp ran
    cases pairs with
    | nil => cases rendered
    | cons pair =>
      rw [renders, map_cons, List.cons.injEq] at rendered
      rw [plainsWith, Bool.and_eq_true] at allPlain
      rw [flatMap_cons, append_subset] at inParams
      obtain ⟨grows, denotes⟩ := each expr mem_cons_self memory consistent
        (fun parts => (interprets parts).1) pair.1 pair.2
        value between allPlain.1 rendered.1 inParams.1 ranFirst
      obtain ⟨growsMore, others⟩ := ih (forall_mem_cons.mp each).2 (consistent.mono grows)
        (fun parts => (interprets parts).2 value between ranFirst)
        allPlain.2 rendered.2 inParams.2 ranRest
      exact ⟨grows.trans growsMore, .cons (denotes.mono growsMore.fills) others⟩

theorem Interpretation.ofCall_eq_apply {meaning : Interpretation}
    (isOperation : arithmeticOperation name = some operation) (lhs rhs : Int) :
    meaning.ofCall name [lhs, rhs] = operation.apply lhs rhs := by
  unfold ofCall
  rw [isOperation]

section

variable (models : Models reading.code reading.meaning reading.names host call)
  (each : ∀ expr ∈ args, Evaluates reading host call frame resolvePlain resolve expr)
  (consistent : reading.Consistent frame memory)
  (interprets : reading.parts → reading.names callee = qidentToSident name ∧
    InterpretsAll reading host call frame args memory)
  (isPlain : (reading.parts || reading.names callee = qidentToSident name) &&
    plainsWith reading.names reading.parts resolvePlain args)
  (ran : (evals host call frame args >>= call callee) memory = (.ok value, after))
include models each consistent interprets isPlain ran

theorem call_denotes {pairs : List (Term × List String)}
    (rendered : renders resolve args = pairs.map some)
    (inParams : pairs.flatMap Prod.snd ⊆ reading.params) : Extends memory after ∧ Denotes reading.code after value
      (reading.meaning.ofCall (qidentToSident name)
        (pairs.map fun pair => pair.1.value reading.meaning reading.values)) := by
  obtain ⟨values, between, ranArgs, ranCall⟩ := bind_eq_ok.mp ran
  rw [Bool.and_eq_true, Bool.or_eq_true, decide_eq_true_eq] at isPlain
  have named : reading.names callee = qidentToSident name :=
    isPlain.1.elim (fun parts => (interprets parts).1) id
  obtain ⟨grows, denote⟩ := evals_denotes each consistent (fun parts => (interprets parts).2)
    isPlain.2 rendered inParams ranArgs
  obtain ⟨growsMore, denotes⟩ := models.calls callee values _ between value after denote ranCall
  rw [named] at denotes
  exact ⟨grows.trans growsMore, denotes⟩

theorem arithmetic_denotes (isTerm : arithmeticTerm name (renders resolve args) = some (term, vars))
    (inParams : vars ⊆ reading.params) : Extends memory after ∧
      Denotes reading.code after value (term.value reading.meaning reading.values) := by
  obtain ⟨lhs, rhs, _, isArgs, isOperation, rfl, rfl⟩ := arithmeticTerm_eq_some isTerm
  have isRendered : renders resolve args = [lhs, rhs].map some := isArgs
  have denotes := call_denotes models each consistent interprets isPlain ran isRendered
    (by simpa using inParams)
  simpa [Interpretation.ofCall_eq_apply isOperation, Arithmetic.value_term] using denotes

end

theorem Interpretation.ofCall_eq_function {meaning : Interpretation}
    (isSymbol : args.length = 2 → arithmeticOperation name = none) :
    meaning.ofCall name args = meaning.function name.name.string args := by
  unfold ofCall
  split
  · rename_i isOperation
    rw [isSymbol rfl] at isOperation
    cases isOperation
  · rfl

theorem load_eq_ok (ran : load place memory = (.ok value, after)) :
    memory.valueAt place = some value ∧ after = memory := by
  obtain ⟨_, _, isMemory, ran⟩ := bind_eq_ok.mp ran
  obtain ⟨rfl, rfl⟩ := get_eq_ok.mp isMemory
  obtain ⟨found, rfl⟩ := ofOption_eq_ok.mp ran
  exact ⟨found, rfl⟩

theorem read_eq_ok (ran : frame.read var memory = (.ok value, after)) :
    after = memory ∧ ∃ cell, frame.lookup var = some cell ∧ memory.cells[cell]? = some value ∧
      value ≠ .uninitialized := by
  obtain ⟨cell, _, isCell, ran⟩ := bind_eq_ok.mp ran
  obtain ⟨found, rfl⟩ := ofOption_eq_ok.mp isCell
  obtain ⟨isValue, rfl⟩ := load_eq_ok ran
  obtain ⟨⟨_, inMemory, same⟩, initialized⟩ := Memory.valueAt_eq_some_iff.mp isValue
  cases same
  exact ⟨rfl, cell, found, inMemory, initialized⟩

theorem asReference_eq_ok (ran : asReference value memory = (.ok target, after)) :
    value = .reference target.1 target.2 ∧ after = memory := by
  cases value with
  | reference =>
    obtain ⟨rfl, rfl⟩ := pure_eq_ok.mp ran
    exact ⟨rfl, rfl⟩
  | uninitialized | unit | bool | int | string | function | data | external => cases ran

theorem castTo_denotes (models : Models reading.code reading.meaning reading.names host call)
    (denotes : Denotes reading.code memory operand number)
    (ran : castTo host ty operand memory = (.ok value, after)) :
    memory = after ∧ Denotes reading.code memory value number := by
  unfold castTo at ran
  split at ran
  · obtain ⟨rfl, rfl⟩ := pure_eq_ok.mp ran
    obtain ⟨_, found, denotes⟩ := denotes.target
    exact ⟨rfl, .through found denotes⟩
  · obtain ⟨made, rfl⟩ := ofOption_eq_ok.mp ran
    cases models.cast _ _ _ made
    exact ⟨rfl, denotes⟩

/-- What an environment has to say of the variables that are read. -/
def Reads (reading : Reading) (frame : Frame) (resolvePlain : String → Option Bool)
    (resolve : String → Option Rendering) : Prop :=
  ∀ var memory value after, reading.Consistent frame memory →
    frame.read var memory = (.ok value, after) → ∀ term vars,
    (resolvePlain var.name).getD true → renderVariable resolve var.name = some (term, vars) →
    vars ⊆ reading.params →
    Denotes reading.code memory value (term.value reading.meaning reading.values)

theorem evaluates_of_reads (models : Models reading.code reading.meaning reading.names host call)
    (reads : Reads reading frame resolvePlain resolve) (expr : TExpr) :
    Evaluates reading host call frame resolvePlain resolve expr := by
  cases expr with (
    intro memory consistent interprets term vars value after isPlain isTerm inParams ran
    unfold render at isTerm; unfold plainWith at isPlain; unfold Interprets at interprets)
  | intConstant text =>
    obtain ⟨number, isNumber, same⟩ := Option.map_eq_some_iff.mp isTerm
    cases same
    rw [eval, models.integer text number isNumber] at ran
    obtain ⟨rfl, rfl⟩ := pure_eq_ok.mp ran
    have denotes : Denotes reading.code memory (.int number) (reading.code (.int number)) :=
      .plain nofun nofun
    rw [models.int] at denotes
    exact ⟨.refl _, denotes⟩
  | boolConstant bool =>
    cases isTerm
    rw [eval] at ran
    obtain ⟨rfl, rfl⟩ := pure_eq_ok.mp ran
    have denotes : Denotes reading.code memory (.bool bool) (reading.code (.bool bool)) :=
      .plain nofun nofun
    rw [models.bool] at denotes
    exact ⟨.refl _, denotes⟩
  | paramVar name =>
    cases isTerm
    rw [eval] at ran
    obtain ⟨rfl, cell, found, inMemory, -⟩ := read_eq_ok ran
    obtain ⟨_, inCell, denotes⟩ := consistent.params (.named name.string) cell found
      (inParams mem_cons_self)
    cases inMemory.symm.trans inCell
    exact ⟨.refl _, denotes⟩
  | localVar | temporary =>
    rw [eval] at ran
    have denotes := reads _ memory value after consistent ran term vars isPlain isTerm inParams
    obtain ⟨rfl, -⟩ := read_eq_ok ran
    exact ⟨.refl _, denotes⟩
  | cast expr =>
    rw [eval, bind_eq_ok] at ran
    obtain ⟨operand, between, ranOperand, ran⟩ := ran
    obtain ⟨grows, denotes⟩ := evaluates_of_reads models reads expr memory consistent
      interprets term vars operand between isPlain isTerm inParams ranOperand
    obtain ⟨rfl, denotes⟩ := castTo_denotes models denotes ran
    exact ⟨grows, denotes⟩
  | deref expr =>
    rw [eval, bind_eq_ok] at ran
    obtain ⟨_, between, ranTarget, ran⟩ := ran
    obtain ⟨_, _, ranOperand, isReference⟩ := bind_eq_ok.mp ranTarget
    obtain ⟨rfl, rfl⟩ := asReference_eq_ok isReference
    obtain ⟨grows, denotes⟩ := evaluates_of_reads models reads expr memory consistent
      interprets term vars _ between isPlain isTerm inParams ranOperand
    obtain ⟨found, rfl⟩ := load_eq_ok ran
    obtain ⟨_, isTarget, denotes⟩ := denotes.target
    cases found.symm.trans isTarget
    exact ⟨grows, denotes⟩
  | funcall _ _ args =>
    have each := fun arg (_ : arg ∈ args) => evaluates_of_reads models reads arg
    rw [eval] at ran
    rcases Option.or_eq_some_iff.mp isTerm with isArithmetic | ⟨noArithmetic, isCall⟩
    · exact arithmetic_denotes models each consistent interprets isPlain ran isArithmetic inParams
    · obtain ⟨_, isRendered, rfl, rfl⟩ := callTerm_eq_some isCall
      have denotes := call_denotes models each consistent interprets isPlain ran isRendered inParams
      rw [isRendered] at noArithmetic
      rw [Interpretation.ofCall_eq_function] at denotes
      · rw [Term.value, termValues_eq_map, map_map]
        exact denotes
      · intro isPair
        rw [length_map] at isPair
        obtain ⟨_, _, rfl⟩ := length_eq_two.mp isPair
        exact Option.map_eq_none_iff.mp noArithmetic
  | methodCall _ _ _ args =>
    have each := fun arg (_ : arg ∈ args) => evaluates_of_reads models reads arg
    rw [eval] at ran
    exact arithmetic_denotes models each consistent interprets isPlain ran isTerm inParams
  | constVar name =>
    cases isTerm
    exact interprets isPlain value after ran
  | slotAccessor expr slot =>
    rw [Bool.and_eq_true] at isPlain
    obtain ⟨inner, access⟩ := interprets isPlain.1
    obtain ⟨_, isRendered, rfl, rfl⟩ := callTerm_eq_some isTerm
    obtain ⟨pair, rfl, isOperand⟩ := map_eq_singleton_iff.mp isRendered.symm
    rw [eval, bind_eq_ok] at ran
    obtain ⟨_, between, ranTarget, ran⟩ := ran
    obtain ⟨_, _, ranOperand, isReference⟩ := bind_eq_ok.mp ranTarget
    obtain ⟨rfl, rfl⟩ := asReference_eq_ok isReference
    obtain ⟨rfl, rfl⟩ := pure_eq_ok.mp ran
    obtain ⟨grows, denotes⟩ := evaluates_of_reads models reads expr memory consistent
      (fun _ => inner) pair.1 pair.2 _ _ isPlain.2 isOperand.symm (by simpa using inParams) ranOperand
    exact ⟨grows, access _ _ _ _ ranOperand denotes⟩
  | arrayIndex expr index | spanIndex expr index =>
    rw [Bool.and_eq_true, Bool.and_eq_true] at isPlain
    obtain ⟨inner, within⟩ := interprets isPlain.1
    obtain ⟨_, isRendered, rfl, rfl⟩ := callTerm_eq_some isTerm
    obtain ⟨indexed, rest, rfl, isIndexed, isRest⟩ := map_eq_cons_iff.mp isRendered.symm
    obtain ⟨position, rfl, isPosition⟩ := map_eq_singleton_iff.mp isRest
    rw [flatMap_cons, flatMap_singleton, append_subset] at inParams
    rw [eval, bind_eq_ok] at ran
    obtain ⟨first, between, ranIndexed, ran⟩ := ran
    obtain ⟨second, last, ranPosition, ran⟩ := bind_eq_ok.mp ran
    obtain ⟨_, _, isMemory, ran⟩ := bind_eq_ok.mp ran
    obtain ⟨rfl, rfl⟩ := get_eq_ok.mp isMemory
    obtain ⟨found, rfl⟩ := ofOption_eq_ok.mp ran
    obtain ⟨inPosition, access⟩ := within first between ranIndexed
    obtain ⟨grows, denotes⟩ := evaluates_of_reads models reads expr memory consistent
      (fun _ => inner) indexed.1 indexed.2 _ _ isPlain.2.1 isIndexed.symm inParams.1 ranIndexed
    obtain ⟨growsMore, denotesPosition⟩ := evaluates_of_reads models reads index between
      (consistent.mono grows) (fun _ => inPosition) position.1 position.2 _ _ isPlain.2.2
      isPosition.symm inParams.2 ranPosition
    exact ⟨grows.trans growsMore, access _ _ _ _ _ ranPosition (denotes.mono growsMore.fills)
      denotesPosition found⟩
  | negation => cases isPlain
  | nilConstant | floatConstant | stringConstant | funVar | varMethodCall | fptrCall | comparison
  | conjunction | disjunction | ifExpression | recordConstructor | unionConstructor
  | pointerSlotAccessor | embed | sizeOf => cases isTerm

theorem reads_of_bindings {plainly : TExpr → Bool} {rendering : TExpr → Rendering}
    (matching : ∀ memory value expr, reading.Matches memory value expr → ∀ term vars,
      plainly expr → rendering expr = some (term, vars) → vars ⊆ reading.params →
      Denotes reading.code memory value (term.value reading.meaning reading.values)) :
    Reads reading frame (fun name => (reading.temps.lookup name).map plainly)
      (fun name => (reading.temps.lookup name).map rendering) := by
  intro var memory value after consistent ran term vars isPlain isTerm inParams
  obtain ⟨rfl, cell, found, inMemory, initialized⟩ := read_eq_ok ran
  rw [renderVariable] at isTerm
  beta_reduce at isPlain
  cases isBound : reading.temps.lookup var.name with
  | none =>
    rw [isBound] at isTerm
    cases isTerm
    obtain ⟨_, inCell, denotes⟩ := consistent.params var cell found
      (inParams mem_cons_self)
    cases inMemory.symm.trans inCell
    exact denotes
  | some expr =>
    rw [isBound] at isTerm isPlain
    exact matching after value expr
      (consistent.temps var cell value expr found inMemory initialized isBound) term vars isPlain
      isTerm inParams

/-- An evaluation whose expression is interpreted gives the value of each of its terms. -/
theorem matches_of_interprets
    (models : Models reading.code reading.meaning reading.names host call)
    (consistent : reading.Consistent frame memory)
    (interprets : reading.parts → Interprets reading host call frame expr memory)
    (ran : eval host call frame expr memory = (.ok value, after)) :
    reading.Matches after value expr := by
  intro depth term vars isPlain isTerm inParams
  cases depth with
  | zero =>
    have reads : Reads reading frame (fun name => (reading.temps.lookup name).map fun _ => false)
        (fun name => (reading.temps.lookup name).map fun _ => none) :=
      reads_of_bindings fun _ _ _ _ _ _ isPlain => absurd isPlain Bool.false_ne_true
    exact (evaluates_of_reads models reads expr memory consistent interprets term vars value after
      isPlain isTerm inParams ran).2
  | succ depth =>
    have reads : Reads reading frame
        (fun name => (reading.temps.lookup name).map
          (plainAt reading.names reading.parts reading.temps depth))
        (fun name => (reading.temps.lookup name).map (termAt reading.temps depth)) :=
      reads_of_bindings fun memory value expr isMatch => isMatch depth
    exact (evaluates_of_reads models reads expr memory consistent interprets term vars value after
      isPlain isTerm inParams ran).2

/-- The machine and the calls do what plain terms say. -/
structure Reading.Describes (reading : Reading) (host : Host)
    (call : Callee → List Value → Run Value) : Prop extends
    Models reading.code reading.meaning reading.names host call where
  noParts : reading.parts = false

theorem eval_matches (describes : reading.Describes host call)
    (consistent : reading.Consistent frame memory)
    (ran : eval host call frame expr memory = (.ok value, after)) :
    reading.Matches after value expr :=
  matches_of_interprets describes.toModels consistent
    (fun parts => absurd (describes.noParts.symm.trans parts) Bool.false_ne_true) ran

end Evaluation

end AustralVM.Liquid
