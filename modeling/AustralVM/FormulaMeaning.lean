import AustralVM.LiquidTypes
import Mathlib.Logic.Basic

/-!
# What contracts mean

The meaning of terms and formulas over the integers, the only sort that the goals
have.  Function symbols, and what is not an integer (reals, booleans, the condition of
a conditional term, type annotations), are left to an interpretation.
-/

namespace AustralVM.Liquid

/-- The meaning of everything that is not integer arithmetic. -/
structure Interpretation where
  function : String → List Int → Int
  real : String → Int
  bool : Bool → Int
  truth : Int → Bool
  inhabits : Int → IndexedTy → Prop

abbrev Assignment := String → Int

section

variable (meaning : Interpretation) (values : Assignment)

mutual

def Term.value : Term → Int
  | .int value => value
  | .real literal => meaning.real literal
  | .bool value => meaning.bool value
  | .var name _ => values name
  | .add lhs rhs => lhs.value + rhs.value
  | .sub lhs rhs => lhs.value - rhs.value
  | .mul lhs rhs => lhs.value * rhs.value
  | .neg operand => - operand.value
  | .ite condition consequent alternative =>
    if meaning.truth condition.value then consequent.value else alternative.value
  | .call name args => meaning.function name (termValues args)

def termValues : List Term → List Int
  | [] => []
  | term :: terms => term.value :: termValues terms

end

mutual

def IndexedTy.value : IndexedTy → IndexedTy
  | .sort sort => .sort sort
  | .app name args => .app name (tyArgValues args)

def TyArg.value : TyArg → TyArg
  | .ty ty => .ty ty.value
  | .index term => .index (.int (term.value meaning values))

def tyArgValues : List TyArg → List TyArg
  | [] => []
  | arg :: args => arg.value :: tyArgValues args

end

def Relop.Holds : Relop → Int → Int → Prop
  | .eq, lhs, rhs => lhs = rhs
  | .ne, lhs, rhs => lhs ≠ rhs
  | .lt, lhs, rhs => lhs < rhs
  | .le, lhs, rhs => lhs ≤ rhs
  | .gt, lhs, rhs => lhs > rhs
  | .ge, lhs, rhs => lhs ≥ rhs

def Formula.Holds : Formula → Prop
  | .true => True
  | .false => False
  | .rel op lhs rhs => op.Holds (lhs.value meaning values) (rhs.value meaning values)
  | .not operand => ¬ operand.Holds
  | .and lhs rhs => lhs.Holds ∧ rhs.Holds
  | .or lhs rhs => lhs.Holds ∨ rhs.Holds
  | .implies lhs rhs => lhs.Holds → rhs.Holds
  | .ty term indexed => meaning.inhabits (term.value meaning values) (indexed.value meaning values)

end

/-! ## Substitution -/

section

variable {meaning : Interpretation} {values : Assignment}

/-- The values of the variables once terms have taken the place of some. -/
def Assignment.after (values : Assignment) (meaning : Interpretation)
    (terms : List (String × Term)) : Assignment := fun name =>
  match terms.lookup name with
  | some term => term.value meaning values
  | none => values name

mutual

theorem Term.value_substTerm (terms : List (String × Term)) : ∀ term : Term,
    (substTerm terms term).value meaning values =
      term.value meaning (values.after meaning terms)
  | .var name sort => by
      simp only [substTerm, Term.value, Assignment.after]
      cases terms.lookup name with
      | none => simp only [Option.getD_none, Term.value]
      | some => simp only [Option.getD_some]
  | .int _ | .real _ | .bool _ | .add _ _ | .sub _ _ | .mul _ _ | .neg _ | .ite _ _ _ | .call _ _ => by
      simp only [substTerm, Term.value, Term.value_substTerm terms, termValues_substTerms terms]

theorem termValues_substTerms (terms : List (String × Term)) : ∀ list : List Term,
    termValues meaning values (substTerms terms list) =
      termValues meaning (values.after meaning terms) list
  | [] => by simp only [substTerms, termValues]
  | term :: rest => by
      simp only [substTerms, termValues, Term.value_substTerm terms term,
        termValues_substTerms terms rest]

end

mutual

theorem IndexedTy.value_substTy (terms : List (String × Term)) : ∀ ty : IndexedTy,
    (substTy terms ty).value meaning values = ty.value meaning (values.after meaning terms)
  | .sort _ => by simp only [substTy, IndexedTy.value]
  | .app name args => by
      simp only [substTy, IndexedTy.value, tyArgValues_substTyArgs terms args]

theorem tyArgValues_substTyArgs (terms : List (String × Term)) : ∀ args : List TyArg,
    tyArgValues meaning values (substTyArgs terms args) =
      tyArgValues meaning (values.after meaning terms) args
  | [] => by simp only [substTyArgs, tyArgValues]
  | .ty _ :: args | .index _ :: args => by
      simp only [substTyArgs, substTyArg, tyArgValues, TyArg.value, IndexedTy.value_substTy terms,
        Term.value_substTerm, tyArgValues_substTyArgs terms args]

end

/-- A formula with terms for its variables says of the variables of the terms what the
formula says of the values of the terms. -/
theorem Formula.holds_substFormula (terms : List (String × Term)) (formula : Formula) :
    (substFormula terms formula).Holds meaning values ↔
      formula.Holds meaning (values.after meaning terms) := by
  induction formula with
  | true | false => simp only [substFormula, Formula.Holds]
  | rel => simp only [substFormula, Formula.Holds, Term.value_substTerm]
  | not _ ih => simp only [substFormula, Formula.Holds, ih]
  | and _ _ ihLeft ihRight | or _ _ ihLeft ihRight | implies _ _ ihLeft ihRight =>
    simp only [substFormula, Formula.Holds, ihLeft, ihRight]
  | ty => simp only [substFormula, Formula.Holds, Term.value_substTerm, IndexedTy.value_substTy]

end

/-! ## The names that a formula mentions -/

section

variable (name : String)

mutual

def Term.Mentions : Term → Prop
  | .int _ | .real _ | .bool _ => False
  | .var found _ => found = name
  | .add lhs rhs | .sub lhs rhs | .mul lhs rhs => lhs.Mentions ∨ rhs.Mentions
  | .neg operand => operand.Mentions
  | .ite condition consequent alternative =>
    condition.Mentions ∨ consequent.Mentions ∨ alternative.Mentions
  | .call _ args => mentionedIn args

def mentionedIn : List Term → Prop
  | [] => False
  | term :: terms => term.Mentions ∨ mentionedIn terms

end

mutual

def IndexedTy.Mentions : IndexedTy → Prop
  | .sort _ => False
  | .app _ args => mentionedInArgs args

def TyArg.Mentions : TyArg → Prop
  | .ty ty => ty.Mentions
  | .index term => term.Mentions name

def mentionedInArgs : List TyArg → Prop
  | [] => False
  | arg :: args => arg.Mentions ∨ mentionedInArgs args

end

def Formula.Mentions : Formula → Prop
  | .true | .false => False
  | .rel _ lhs rhs => lhs.Mentions name ∨ rhs.Mentions name
  | .not operand => operand.Mentions
  | .and lhs rhs | .or lhs rhs | .implies lhs rhs => lhs.Mentions ∨ rhs.Mentions
  | .ty term indexed => term.Mentions name ∨ indexed.Mentions name

end

section

set_option linter.unusedSectionVars false

variable {name : String} (notResult : name ≠ "result")
include notResult

theorem mem_addFree : name ∈ addFree names added ↔ name ∈ names ∨ added = name := by
  rw [addFree]
  split
  · rename_i known
    refine ⟨.inl, fun found => found.elim id ?_⟩
    rintro rfl
    exact known.resolve_right notResult
  · rw [List.mem_cons, or_comm, eq_comm]

mutual

theorem mem_freeVarsTerm : ∀ (term : Term) {names : List String},
    name ∈ freeVarsTerm names term ↔ name ∈ names ∨ term.Mentions name
  | .int _, _ | .real _, _ | .bool _, _ => by simp only [freeVarsTerm, Term.Mentions, or_false]
  | .var found sort, names => by simp only [freeVarsTerm, Term.Mentions, mem_addFree notResult]
  | .add _ _, _ | .sub _ _, _ | .mul _ _, _ | .neg _, _ | .ite _ _ _, _ | .call _ _, _ => by
      simp only [freeVarsTerm, Term.Mentions, mem_freeVarsTerm, mem_freeVarsTerms, or_assoc]

theorem mem_freeVarsTerms : ∀ (terms : List Term) {names : List String},
    name ∈ freeVarsTerms names terms ↔ name ∈ names ∨ mentionedIn name terms
  | [], names => by simp only [freeVarsTerms, mentionedIn, or_false]
  | term :: terms, names => by
      simp only [freeVarsTerms, mentionedIn, mem_freeVarsTerm, mem_freeVarsTerms terms, or_assoc]

end

mutual

theorem mem_freeVarsTy : ∀ (ty : IndexedTy) {names : List String},
    name ∈ freeVarsTy names ty ↔ name ∈ names ∨ ty.Mentions name
  | .sort _, _ => by simp only [freeVarsTy, IndexedTy.Mentions, or_false]
  | .app _ args, _ => by
      simp only [freeVarsTy, IndexedTy.Mentions, mem_freeVarsTyArgs args]

theorem mem_freeVarsTyArgs : ∀ (args : List TyArg) {names : List String},
    name ∈ freeVarsTyArgs names args ↔ name ∈ names ∨ mentionedInArgs name args
  | [], _ => by simp only [freeVarsTyArgs, mentionedInArgs, or_false]
  | .ty _ :: args, _ | .index _ :: args, _ => by
      simp only [freeVarsTyArgs, freeVarsTyArg, mentionedInArgs, TyArg.Mentions,
        mem_freeVarsTy, mem_freeVarsTerm notResult, mem_freeVarsTyArgs args, or_assoc]

end

theorem mem_unionNames :
    name ∈ unionNames first second ↔ name ∈ first ∨ name ∈ second := by
  rw [unionNames]
  induction second generalizing first with
  | nil => simp
  | cons _ _ ih => rw [List.foldl_cons, ih, mem_addFree notResult, List.mem_cons, or_assoc, eq_comm]

theorem mem_freeVars : name ∈ freeVars formula ↔ formula.Mentions name := by
  induction formula with
  | true | false => simp only [freeVars, Formula.Mentions, List.not_mem_nil]
  | rel =>
    simp only [freeVars, Formula.Mentions, mem_freeVarsTerm notResult, List.not_mem_nil, false_or]
  | not _ ih => simp only [freeVars, Formula.Mentions, ih]
  | and _ _ ihLeft ihRight | or _ _ ihLeft ihRight | implies _ _ ihLeft ihRight =>
    simp only [freeVars, Formula.Mentions, mem_unionNames notResult, ihLeft, ihRight]
  | ty =>
    simp only [freeVars, Formula.Mentions, mem_freeVarsTy notResult, mem_freeVarsTerm notResult,
      List.not_mem_nil, false_or]

end

/-! ### Values of the names that matter -/

section

variable {meaning : Interpretation} {first second : Assignment}

variable (first second) in
def Agree (names : String → Prop) : Prop := ∀ name, names name → first name = second name

theorem agree_or : Agree first second (fun name => P name ∨ Q name) ↔
    Agree first second P ∧ Agree first second Q := by
  simp only [Agree, or_imp, forall_and]

mutual

theorem Term.value_congr : ∀ term : Term, Agree first second (term.Mentions ·) →
    term.value meaning first = term.value meaning second
  | .int _, _ | .real _, _ | .bool _, _ => by simp only [Term.value]
  | .var found sort, same => by
      simp only [Term.value]
      exact same found (by simp only [Term.Mentions])
  | .add _ _, same | .sub _ _, same | .mul _ _, same | .neg _, same | .ite _ _ _, same
  | .call _ _, same => by
      simp only [Term.Mentions, agree_or] at same
      simp only [Term.value, Term.value_congr, termValues_congr, same]

theorem termValues_congr : ∀ terms : List Term, Agree first second (mentionedIn · terms) →
    termValues meaning first terms = termValues meaning second terms
  | [], _ => by simp only [termValues]
  | term :: terms, same => by
      simp only [mentionedIn, agree_or] at same
      simp only [termValues, Term.value_congr, termValues_congr terms, same]

end

mutual

theorem IndexedTy.value_congr : ∀ ty : IndexedTy, Agree first second (ty.Mentions ·) →
    ty.value meaning first = ty.value meaning second
  | .sort _, _ => by simp only [IndexedTy.value]
  | .app _ args, same => by
      simp only [IndexedTy.Mentions] at same
      simp only [IndexedTy.value, tyArgValues_congr args same]

theorem tyArgValues_congr : ∀ args : List TyArg, Agree first second (mentionedInArgs · args) →
    tyArgValues meaning first args = tyArgValues meaning second args
  | [], _ => by simp only [tyArgValues]
  | .ty _ :: args, same | .index _ :: args, same => by
      simp only [mentionedInArgs, TyArg.Mentions, agree_or] at same
      simp only [tyArgValues, TyArg.value, @Term.value_congr meaning first second,
        IndexedTy.value_congr, tyArgValues_congr args, same]

end

theorem Formula.holds_congr {formula : Formula} (same : Agree first second (formula.Mentions ·)) :
    formula.Holds meaning first ↔ formula.Holds meaning second := by
  induction formula with
  | true | false => simp only [Formula.Holds]
  | not _ ih => simp only [Formula.Holds, ih same]
  | and _ _ ihLeft ihRight | or _ _ ihLeft ihRight | implies _ _ ihLeft ihRight =>
    simp only [Formula.Mentions, agree_or] at same
    simp only [Formula.Holds, ihLeft same.1, ihRight same.2]
  | rel | ty =>
    simp only [Formula.Mentions, agree_or] at same
    simp only [Formula.Holds, @Term.value_congr meaning first second,
      @IndexedTy.value_congr meaning first second, same]

end

/-! ### Names after a substitution -/

section

variable {name : String} {terms : List (String × Term)}

def Replaces (terms : List (String × Term)) (replaced name : String) : Prop :=
  match terms.lookup replaced with
  | some term => term.Mentions name
  | none => replaced = name

mutual

theorem Term.mentions_substTerm : ∀ term : Term, (substTerm terms term).Mentions name ↔
    ∃ replaced, term.Mentions replaced ∧ Replaces terms replaced name
  | .int _ | .real _ | .bool _ => by simp only [substTerm, Term.Mentions, false_and, exists_false]
  | .var other sort => by
      simp only [substTerm, Term.Mentions, Replaces, exists_eq_left']
      cases terms.lookup other with
      | none => simp only [Option.getD_none, Term.Mentions]
      | some => simp only [Option.getD_some]
  | .add _ _ | .sub _ _ | .mul _ _ | .neg _ | .ite _ _ _ | .call _ _ => by
      simp only [substTerm, Term.Mentions, Term.mentions_substTerm, mentionedIn_substTerms,
        or_and_right, exists_or]

theorem mentionedIn_substTerms : ∀ list : List Term, mentionedIn name (substTerms terms list) ↔
    ∃ replaced, mentionedIn replaced list ∧ Replaces terms replaced name
  | [] => by simp only [substTerms, mentionedIn, false_and, exists_false]
  | term :: rest => by
      simp only [substTerms, mentionedIn, Term.mentions_substTerm, mentionedIn_substTerms rest,
        or_and_right, exists_or]

end

mutual

theorem IndexedTy.mentions_substTy : ∀ ty : IndexedTy, (substTy terms ty).Mentions name ↔
    ∃ replaced, ty.Mentions replaced ∧ Replaces terms replaced name
  | .sort _ => by simp only [substTy, IndexedTy.Mentions, false_and, exists_false]
  | .app _ args => by
      simp only [substTy, IndexedTy.Mentions, mentionedInArgs_substTyArgs args]

theorem mentionedInArgs_substTyArgs : ∀ args : List TyArg,
    mentionedInArgs name (substTyArgs terms args) ↔
      ∃ replaced, mentionedInArgs replaced args ∧ Replaces terms replaced name
  | [] => by simp only [substTyArgs, mentionedInArgs, false_and, exists_false]
  | .ty _ :: args | .index _ :: args => by
      simp only [substTyArgs, substTyArg, mentionedInArgs, TyArg.Mentions, Term.mentions_substTerm,
        IndexedTy.mentions_substTy, mentionedInArgs_substTyArgs args, or_and_right, exists_or]

end

theorem Formula.mentions_substFormula : (substFormula terms formula).Mentions name ↔
    ∃ replaced, formula.Mentions replaced ∧ Replaces terms replaced name := by
  induction formula with
  | true | false => simp only [substFormula, Formula.Mentions, false_and, exists_false]
  | not _ ih => simp only [substFormula, Formula.Mentions, ih]
  | and _ _ ihLeft ihRight | or _ _ ihLeft ihRight | implies _ _ ihLeft ihRight =>
    simp only [substFormula, Formula.Mentions, ihLeft, ihRight, or_and_right, exists_or]
  | rel | ty =>
    simp only [substFormula, Formula.Mentions, Term.mentions_substTerm, IndexedTy.mentions_substTy,
      or_and_right, exists_or]

end

end AustralVM.Liquid
