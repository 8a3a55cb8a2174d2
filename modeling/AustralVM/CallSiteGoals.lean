import AustralVM.CallSites
import AustralVM.ReturnGoals

/-!
# Goals about calls

The goal of a call states the callee's precondition over the actual arguments, as far
as the caller's parameters determine them.
-/

namespace AustralVM.Liquid.Constraints

open Typed Stoppable Prod Formula
open List hiding after

section Steps

variable {reading : Reading} {host : Host} {call : Typed.Callee → List Value → Run Value}
  {limit : Nat} {whole part : Point × TStmt} {frame : Frame} {memory : Memory}

/-! ## The bindings of a point -/

theorem mem_env_callsInStmt (isMember : binding ∈ (callsInStmt env acc stmt).2) :
    binding ∈ env ∨ (binding.1, some binding.2) ∈ binders stmt := by
  induction stmt generalizing env acc with simp only [callsInStmt] at isMember
  | letTmp =>
    rcases mem_cons.mp isMember with rfl | before
    · exact .inr (by rw [binders]; exact mem_cons_self)
    · exact .inl before
  | destructure _ _ _ _ ih =>
    rw [binders]
    exact (ih isMember).imp id (mem_append_right _)
  | borrow _ _ _ _ _ _ _ ih =>
    rw [binders]
    rcases ih isMember with before | inBody
    · rcases mem_bindBorrow before with before | here
      · exact .inl before
      · exact .inr (here ▸ mem_cons_self)
    · exact .inr (mem_cons_of_mem _ inBody)
  | block _ _ ihFirst ihSecond =>
    rw [binders, mem_append]
    rcases ihSecond isMember with before | inSecond
    · exact (ihFirst before).imp id .inl
    · exact .inr (.inr inSecond)
  | skip | letStmt | assignTmp | assignVar | initialAssign | returnStmt | discarding
  | assign | ifStmt | caseStmt | whileStmt | forStmt => exact .inl isMember

theorem mem_bindersWhens (isArm : arm ∈ whens)
    (isMember : binder ∈ slotBinders arm.bindings ++ binders arm.body) :
    binder ∈ bindersWhens whens := by
  induction whens with
  | nil => cases isArm
  | cons _ _ ih =>
    rw [bindersWhens]
    rcases mem_cons.mp isArm with rfl | inRest
    · exact mem_append_left _ isMember
    · exact mem_append_right _ (ih inRest)

theorem steady_of_mem (isArm : arm ∈ whens) (allSteady : steadyWhens whens) : steady arm.body := by
  induction whens with
  | nil => cases isArm
  | cons _ _ ih =>
    rw [steadyWhens, Bool.and_eq_true] at allSteady
    rcases mem_cons.mp isArm with rfl | inRest
    · exact allSteady.1
    · exact ih inRest allSteady.2

/-- All that a point knows, and all that a statement binds there, is so. -/
def Within (holds : Binder → Prop) (position : Point × TStmt) : Prop :=
  (∀ binding ∈ position.1.env, holds (binding.1, some binding.2)) ∧
    ∀ binder ∈ binders position.2, holds binder

theorem within_of_enters (within : Within holds whole)
    (enters : Enters host call limit whole part) : Within holds part := by
  obtain ⟨known, bound⟩ := within
  cases enters with rw [binders] at bound
  | letBody =>
    refine ⟨fun binding isMember => ?_, bound⟩
    exact (mem_bindHead isMember).elim (known binding) (bound _)
  | destructured | alternative =>
    exact ⟨known, fun binder isMember => bound binder (mem_append_right _ isMember)⟩
  | arm _ isArm =>
    exact ⟨known, fun binder isMember => bound binder
      (mem_bindersWhens (mem_of_find?_eq_some isArm) (mem_append_right _ isMember))⟩
  | whileBody => exact ⟨known, bound⟩
  | forBody => exact ⟨known, (forall_mem_cons.mp bound).2⟩
  | borrowBody =>
    refine ⟨fun binding isMember => ?_,
      (forall_mem_cons.mp bound).2⟩
    rcases mem_bindBorrow isMember with before | here
    · exact known binding before
    · exact here ▸ bound _ mem_cons_self
  | consequent | blockFirst =>
    exact ⟨known, fun binder isMember => bound binder (mem_append_left _ isMember)⟩
  | blockSecond =>
    refine ⟨fun binding isMember => ?_,
      fun binder isMember => bound binder (mem_append_right _ isMember)⟩
    rcases mem_env_callsInStmt isMember with before | inFirst
    · exact known binding before
    · exact bound _ (mem_append_left _ inFirst)

theorem within_of_entersAll (within : Within holds whole)
    (enters : Relation.ReflTransGen (Enters host call limit) whole part) : Within holds part := by
  induction enters with
  | refl => exact within
  | tail _ step ih => exact within_of_enters ih step

/-! ## The variables at a point -/

theorem borrowed_eq_ok (made : borrowed frame original mode memory = (.ok reference, between)) :
    Borrows frame memory original mode reference ∧ between = memory := by
  obtain ⟨_, _, isSource, made⟩ := bind_eq_ok.mp made
  obtain ⟨found, rfl⟩ := ofOption_eq_ok.mp isSource
  cases mode with
  | read =>
    obtain ⟨rfl, rfl⟩ := pure_eq_ok.mp made
    exact ⟨.read found, rfl⟩
  | write =>
    obtain ⟨rfl, rfl⟩ := pure_eq_ok.mp made
    exact ⟨.other nofun, rfl⟩
  | reborrow =>
    obtain ⟨⟨_, _⟩, _, isTarget, ended⟩ := bind_eq_ok.mp made
    obtain ⟨_, _, loaded, isReference⟩ := bind_eq_ok.mp isTarget
    obtain ⟨-, rfl⟩ := load_eq_ok loaded
    obtain ⟨-, rfl⟩ := asReference_eq_ok isReference
    dsimp only at ended
    split at ended
    · obtain ⟨rfl, rfl⟩ := pure_eq_ok.mp ended
      exact ⟨.other nofun, rfl⟩
    · cases ended

/-- An execution without assignments: the environment is true of the variables. -/
inductive Follows (reading : Reading) : Point × TStmt → Prop
  | steady {point : Point} {stmt : TStmt} (consistent : reading.Consistent point.frame point.memory)
      (isSteady : Liquid.steady stmt) : Follows reading (point, stmt)
  /-- The body of a variable that has no value yet. -/
  | declared {env : TempEnv} {frame : Frame} {before memory : Memory} {cell : Nat} {target : QIdent}
      {value : TExpr} {rest : TStmt} (consistent : reading.Consistent frame before)
      (allocated : alloc .uninitialized before = (.ok cell, memory))
      (isSteady : Liquid.steady rest) :
      Follows reading (⟨env, (.named target.original.string, cell) :: frame, memory⟩,
        .block (.initialAssign target value) rest)
  | initial {point : Point} {target : QIdent} {value : TExpr}
      (consistent : reading.Consistent point.frame point.memory) :
      Follows reading (point, .initialAssign target value)

theorem Follows.consistent (follows : Follows reading position)
    (fits : ∀ binder ∈ binders position.2, reading.Fits binder) :
    reading.Consistent position.1.frame position.1.memory := by
  cases follows with
  | steady consistent | initial consistent => exact consistent
  | declared consistent allocated =>
    simp only [binders, singleton_append] at fits
    exact consistent.declare (fits _ mem_cons_self) allocated

variable (models : reading.Describes host call)
  (quiet : Quiet host call)
include models quiet

theorem follows_of_enters (follows : Follows reading whole)
    (fits : ∀ binder ∈ binders whole.2, reading.Fits binder)
    (enters : Enters host call limit whole part) : Follows reading part := by
  cases follows with
  | steady consistent isSteady =>
    cases enters with rw [binders] at fits
    | letBody allocated =>
      obtain ⟨_, _, _, rfl, rfl, restSteady⟩ := steady_letStmt isSteady
      exact .declared consistent allocated restSteady
    | destructured ranValue ranSlots =>
      rw [steady] at isSteady
      have grows := extends_of_keeps (quiet.eval _ _) (.refl _) ranValue
      exact .steady (bindSlots_consistent (consistent.mono grows) (forall_mem_append.mp fits).1
        ranSlots) isSteady
    | consequent ran =>
      rw [steady, Bool.and_eq_true] at isSteady
      exact .steady (consistent.mono (quiet.extends_test ran)) isSteady.1
    | alternative ran =>
      rw [steady, Bool.and_eq_true] at isSteady
      exact .steady (consistent.mono (quiet.extends_test ran)) isSteady.2
    | arm ranParts isArm ranSlots =>
      rw [steady] at isSteady
      have isMember := mem_of_find?_eq_some isArm
      have grows := extends_of_keeps (quiet.parts _ _ _) (.refl _) ranParts
      exact .steady (bindSlots_consistent (consistent.mono grows)
        (fun binder isSlot => fits binder
          (mem_bindersWhens isMember (mem_append_left _ isSlot))) ranSlots)
        (steady_of_mem isMember isSteady)
    | @whileBody _ _ body _ _ rounds ran =>
      rw [steady] at isSteady
      have growsRounds := rounds.kept (adds_whileRound ((runsInPlace quiet body).1 isSteady) quiet)
        (.refl _)
      exact .steady (consistent.mono (growsRounds.trans (quiet.extends_test ran))) isSteady
    | @forBody point name start final body first last current cell started bounded counted between
        after ranFirst ranLast allocated rounds isCurrent again =>
      rw [steady] at isSteady
      have consistent := consistent.mono
        ((quiet.extends_number ranFirst).trans (quiet.extends_number ranLast))
      obtain ⟨grows, rfl, -⟩ := extends_alloc allocated
      have growsRounds := rounds.kept
        (adds_forRound ((runsInPlace quiet body).1 isSteady) (Nat.le_refl _)) grows
      obtain ⟨inMemory, rfl⟩ := counter_eq_ok isCurrent
      exact .steady (consistent.bindCounter (fits _ mem_cons_self) growsRounds inMemory) isSteady
    | borrowBody made allocated =>
      rw [steady] at isSteady
      obtain ⟨borrows, rfl⟩ := borrowed_eq_ok made
      exact .steady (consistent.bindBorrow (fits _ mem_cons_self) borrows allocated) isSteady
    | blockFirst =>
      rw [steady, Bool.and_eq_true] at isSteady
      exact .steady consistent isSteady.1
    | blockSecond ran =>
      rw [steady, Bool.and_eq_true] at isSteady
      exact .steady (consistent_of_steady models quiet isSteady.1 (forall_mem_append.mp fits).1
        consistent ran) isSteady.2
  | declared consistent allocated isSteady =>
    simp only [binders, singleton_append] at fits
    cases enters with
    | blockFirst => exact .initial (consistent.declare (fits _ mem_cons_self) allocated)
    | blockSecond ran =>
      obtain ⟨same, bound⟩ := initialAssign_eq_ok models quiet (fits _ mem_cons_self) consistent
        allocated ran
      cases same
      exact .steady bound isSteady
  | initial => cases enters

theorem follows_of_entersAll (follows : Follows reading whole) (within : Within reading.Fits whole)
    (enters : Relation.ReflTransGen (Enters host call limit) whole part) :
    Follows reading part := by
  induction enters with
  | refl => exact follows
  | tail before step ih =>
    exact follows_of_enters models quiet ih (within_of_entersAll within before).2 step

omit models in
theorem consistent_of_begins (follows : Follows reading position)
    (fits : ∀ binder ∈ binders position.2, reading.Fits binder)
    (begins : Begins host call limit position begun) :
    reading.Consistent position.1.frame begun.1 := by
  have consistent := follows.consistent fits
  cases begins with
  | first => exact consistent
  | assigned ran =>
    exact consistent.mono (extends_of_keeps
      ((quiet.eval _ _).bind fun value _ => adds_asReference value) (.refl _) ran)
  | final ran => exact consistent.mono (quiet.extends_number ran)
  | @condition _ _ body _ rounds =>
    cases follows with
    | steady _ isSteady =>
      rw [steady] at isSteady
      rw [binders] at fits
      exact consistent.mono (rounds.kept
        (adds_whileRound ((runsInPlace quiet body).1 isSteady) quiet) (.refl _))

theorem evals_matches (consistent : reading.Consistent frame memory)
    (ran : evals host call frame exprs memory = (.ok values, after)) :
    Extends memory after ∧ Forall₂ (reading.Matches after) values exprs := by
  induction exprs generalizing memory values with
  | nil =>
    rw [evals] at ran
    obtain ⟨rfl, rfl⟩ := pure_eq_ok.mp ran
    exact ⟨.refl _, .nil⟩
  | cons _ _ ih =>
    rw [evals, bind_eq_ok] at ran
    obtain ⟨_, _, ranFirst, ran⟩ := ran
    obtain ⟨_, ranRest, rfl⟩ := bind_pure_eq_ok.mp ran
    have grows := extends_of_keeps (quiet.eval _ _) (.refl memory) ranFirst
    obtain ⟨growsMore, areMatches⟩ := ih (consistent.mono grows) ranRest
    exact ⟨grows.trans growsMore,
      .cons ((eval_matches models consistent ranFirst).mono growsMore.fills) areMatches⟩

theorem consistent_of_computes {whole part : Memory × TExpr}
    (consistent : reading.Consistent frame whole.1)
    (computes : Computes host call frame whole part) : reading.Consistent frame part.1 := by
  cases computes with
  | operand _ ran => exact consistent.mono (evals_matches models quiet consistent ran).1
  | conjunct ran | disjunct ran | consequent ran | alternative ran =>
    exact consistent.mono (quiet.extends_test ran)

theorem consistent_of_reaches (consistent : reading.Consistent entry.frame entry.memory)
    (isSteady : steady body) (within : Within reading.Fits (entry, body))
    (reaches : Reaches host call limit entry body point expr) :
    reading.Consistent point.frame point.memory := by
  obtain ⟨_, _, _, enters, begins, computes⟩ := reaches
  have follows := follows_of_entersAll models quiet (.steady consistent isSteady) within enters
  have begun := consistent_of_begins quiet follows (within_of_entersAll within enters).2 begins
  generalize isEnd : (point.memory, expr) = part at computes
  have last : reading.Consistent point.frame part.1 := by
    clear isEnd
    induction computes with
    | refl => exact begun
    | tail _ step ih => exact consistent_of_computes models quiet ih step
  rw [← isEnd] at last
  exact last

end Steps

/-! ## The goal of a call -/

theorem lookup_zip_terms {assigns : String → Value → Prop} {same : Value → TExpr → Prop}
    {rendersTo : TExpr → Term × List String → Prop} {params : List String} {values : List Value}
    {actuals : List TExpr} {rendered : List (Term × List String)} {name : String} {term : Term}
    (assigned : Forall₂ assigns params values) (areSame : Forall₂ same values actuals)
    (areTerms : Forall₂ rendersTo actuals rendered)
    (found : (params.zip (rendered.map fst)).lookup name = some term) :
    ∃ value actual vars, assigns name value ∧ same value actual ∧ actual ∈ actuals ∧
      rendersTo actual (term, vars) := by
  induction assigned generalizing actuals rendered with
  | nil => cases found
  | @cons _ value _ _ assign _ ih =>
    cases areSame with
    | @cons _ actual _ actuals isSame areSame =>
      cases areTerms with
      | @cons _ pair _ rendered isTerm areTerms =>
        rw [map_cons, zip_cons_cons, lookup_cons] at found
        split at found
        · rename_i isName
          cases found
          cases eq_of_beq isName
          exact ⟨value, actual, pair.2, assign, isSame, mem_cons_self, isTerm⟩
        · obtain ⟨value, actual, vars, assign, isSame, isMember, isTerm⟩ :=
            ih areSame areTerms found
          exact ⟨value, actual, vars, assign, isSame, mem_cons_of_mem _ isMember, isTerm⟩

theorem forall₂_of_shared (implies : ∀ a b c, first a b → second c b → both a c)
    (areFirst : Forall₂ first as bs) (areSecond : Forall₂ second cs bs) : Forall₂ both as cs := by
  induction areFirst generalizing cs with
  | nil =>
    cases areSecond
    exact .nil
  | cons isFirst _ ih =>
    cases areSecond with
    | cons isSecond areSecond => exact .cons (implies _ _ _ isFirst isSecond) (ih areSecond)

theorem callsiteGoal_eq_some
    (generated : callsiteGoal caller callerParams callerReq decl index temps callee actuals =
      some goal) : ∃ source rendered formula, callee.requires = some source ∧
      actuals.mapM (termOf temps) = some rendered ∧ readContract .requires source = some formula ∧
      actuals.length = callee.params.length ∧
      (∀ name ∈ freeVars (substFormula (callee.params.zip (rendered.map fst)) formula),
        name ∈ callerParams) ∧ goal.assumes = callerReq.toList.map .contract ∧
      goal.body = .formula (substFormula (callee.params.zip (rendered.map fst)) formula) := by
  unfold callsiteGoal at generated
  split at generated
  · cases generated
  · rename_i sameLength
    obtain ⟨source, isSource, generated⟩ := Option.bind_eq_some_iff.mp generated
    obtain ⟨rendered, isRendered, generated⟩ := Option.bind_eq_some_iff.mp generated
    obtain ⟨formula, isFormula, generated⟩ := Option.bind_eq_some_iff.mp generated
    dsimp only at generated
    split at generated
    · cases generated
    · rename_i inScope
      cases generated
      refine ⟨source, rendered, formula, isSource, isRendered, isFormula,
        not_not.mp sameLength, fun name isFree => ?_, rfl, rfl⟩
      by_contra notParam
      exact inScope (any_eq_true.mpr ⟨name, isFree, decide_eq_true notParam⟩)

/-- No variable is assigned again, and no name is bound twice or hides a parameter or
the result. -/
structure Unassigned (params : List ValueParameter) (body : TStmt) : Prop where
  isSteady : steady body
  distinct : ("result" :: (paramNames params ++ (binders body).map fst)).Nodup
  legal : paramNames params = params.map fun param => param.name.string

section Caller

variable {params : List ValueParameter} {body : TStmt} {pragmas : List Pragma}
  {code : Value → Int} {meaning : Interpretation} {names : Typed.Callee → SIdent} {host : Host}
  {call : Typed.Callee → List Value → Run Value} {limit : Nat}

/-- At a call that is reached in a body that assigns nothing again the actual arguments
have the values of their terms. -/
theorem Unassigned.matches (unassigned : Unassigned params body)
    (models : Models code meaning names host call) (quiet : Quiet host call) (result : Int)
    (denote : Forall₂ (Denotes code memory) args numbers)
    (entered : enter [] (params.map (·.name)) args memory = (.ok frame, entry))
    (reaches : Reaches host call limit ⟨[], frame, entry⟩ body point expr)
    (ran : evals host call point.frame actuals point.memory = (.ok values, after)) :
    let reading : Reading := ⟨code, meaning, names, "result" :: paramNames params,
      contractValues (paramNames params) numbers result, point.env, false⟩
    Forall₂ (reading.Matches after) values actuals := by
  intro reading
  obtain ⟨notResult, distinct⟩ := nodup_cons.mp unassigned.distinct
  have within : Within (· ∈ binders body) (⟨[], frame, entry⟩, body) :=
    ⟨fun _ => (absurd · not_mem_nil), fun _ => id⟩
  have known : ∀ binding ∈ reading.temps, (binding.1, some binding.2) ∈ binders body := by
    obtain ⟨_, _, _, enters, -, -⟩ := reaches
    exact (within_of_entersAll within enters).1
  have fits : ∀ binder ∈ binders body, reading.Fits binder :=
    Reading.fits_of_nodup unassigned.distinct known
  have consistent : reading.Consistent frame entry :=
    enter_consistent_of_nodup unassigned.legal rfl distinct
      (fun isParam => notResult (mem_append_left _ isParam)) known denote entered
  have describes : reading.Describes host call := ⟨models, rfl⟩
  have atCall := consistent_of_reaches describes quiet consistent unassigned.isSteady
    ⟨fun _ => (absurd · not_mem_nil), fits⟩ reaches
  exact (evals_matches describes quiet atCall ran).2

/-- The formula of the goal speaks of the arguments: where it is true the precondition
holds of what their values stand for. -/
theorem holds_of_substituted {reading : Reading} {callee : Callee}
    {rendered : List (Term × List String)} {formula : Formula} {assigned : Assignment}
    (isParams : reading.params = "result" :: callerParams)
    (areMatches : Forall₂ (reading.Matches after) values actuals)
    (arePlain : ∀ actual ∈ actuals,
      plainAt reading.names reading.parts reading.temps reading.temps.length actual)
    (isRendered : actuals.mapM (termOf reading.temps) = some rendered)
    (inScope : ∀ name ∈ freeVars (substFormula (callee.params.zip (rendered.map fst)) formula),
      name ∈ callerParams) (isWf : checkWf1 formula ("result" :: callee.params) = [])
    (isResult : assigned "result" = reading.values "result")
    (assigns : Forall₂ (fun param value => ∀ number, Denotes reading.code after value number →
      assigned param = number) callee.params values)
    (holds : (substFormula (callee.params.zip (rendered.map fst)) formula).Holds
      reading.meaning reading.values) : formula.Holds reading.meaning assigned := by
  rw [holds_substFormula] at holds
  refine (holds_congr fun name isMentioned => ?_).mp holds
  rw [Assignment.after]
  have areTerms := forall₂_of_mapM isRendered
  split
  · rename_i term found
    obtain ⟨_, actual, vars, assign, isMatch, isActual, isTerm⟩ :=
      lookup_zip_terms assigns areMatches areTerms found
    refine (assign _ (isMatch _ term vars (arePlain actual isActual) isTerm ?_)).symm
    intro var isVar
    rw [isParams]
    by_cases isResult : var = "result"
    · exact isResult ▸ mem_cons_self
    · refine mem_cons_of_mem _ (inScope var ?_)
      refine (mem_freeVars isResult).mpr
        (mentions_substFormula.mpr ⟨name, isMentioned, ?_⟩)
      rw [Replaces, found]
      exact counted_termAt _ _ actual term vars isTerm var isVar
  · rename_i unbound
    by_cases isName : name = "result"
    · rw [isName, isResult]
    · have isFree := (mem_freeVars isName).mpr isMentioned
      have isBound := filter_eq_nil_iff.mp isWf name isFree
      simp only [decide_not, Bool.not_eq_true', decide_eq_false_iff_not, not_not,
        mem_cons, isName, false_or] at isBound
      have sameLength : (callee.params.zip (rendered.map fst)).map fst =
          callee.params := by
        refine map_fst_zip (Nat.le_of_eq ?_)
        rw [length_map, ← areTerms.length_eq, ← areMatches.length_eq, assigns.length_eq]
      obtain ⟨pair, isPair, rfl⟩ := mem_map.mp (sameLength.symm ▸ isBound)
      exact absurd (lookup_eq_none_iff.mp unbound pair isPair) (by simp)

/-- The callee's precondition is over its own parameters, which have names of their own. -/
structure Legible (callee : Callee) (formula : Formula) : Prop where
  distinct : ("result" :: callee.params).Nodup
  isWf : checkWf1 formula ("result" :: callee.params) = []

/-- A call that is reached is one the walk has found, and if its goal is valid over the
integers then the arguments have the callee's precondition: in every execution that
starts with the caller's precondition, provided that no variable is assigned again, no
name is bound twice, and the arguments are expressions whose terms mean what they do. -/
theorem callsite_goal_sound (unassigned : Unassigned params body)
    (models : Models code meaning names host call) (quiet : Quiet host call)
    {args : List Value} {numbers : List Int} {result : Int}
    {memory entry after : Memory} {frame : Frame}
    (denote : Forall₂ (Denotes code memory) args numbers)
    (entered : enter [] (params.map (·.name)) args memory = (.ok frame, entry))
    (requires : ∀ req formula, firstContract .requires pragmas = some req →
      readContract .requires req = some formula →
      formula.Holds meaning (contractValues (paramNames params) numbers result))
    {point : Point} {target : DeclId} {callName : QIdent} {actuals : List TExpr} {callRt : Ty}
    {bindings : TypeBindings} (reaches : Reaches host call limit ⟨[], frame, entry⟩ body point
      (.funcall target callName actuals callRt bindings))
    (arePlain : ∀ actual ∈ actuals, plain names point.env actual) {values : List Value}
    (ran : evals host call point.frame actuals point.memory = (.ok values, after))
    {actualNumbers : List Int} (denoteActuals : Forall₂ (Denotes code after) values actualNumbers) :
    ⟨some target, callName, actuals, point.env, callRt⟩ ∈ (callsInStmt [] [] body).1 ∧
      ∀ caller id index callee goal source formula,
        callsiteGoal caller (paramNames params) (firstContract .requires pragmas) id index
          point.env callee actuals = some goal → goal.Valid [] → callee.requires = some source →
        readContract .requires source = some formula → Legible callee formula →
        formula.Holds meaning (contractValues callee.params actualNumbers result) := by
  refine ⟨site_mem_of_reaches reaches, ?_⟩
  intro _ _ _ callee _ _ _ generated valid isSource isFormula legible
  obtain ⟨_, _, _, isSource', isRendered, isFormula', sameLength, inScope, isAssumes, isBody⟩ :=
    callsiteGoal_eq_some generated
  cases isSource.symm.trans isSource'
  cases isFormula.symm.trans isFormula'
  have areMatches := unassigned.matches models quiet result denote entered reaches ran
  obtain ⟨assumed, _, isAssumed, isStated, holds⟩ := valid
  rw [isBody] at isStated
  cases isStated
  have assumes : ∀ given ∈ assumed,
      given.Holds meaning (contractValues (paramNames params) numbers result) := by
    intro given isGiven
    obtain ⟨_, isAssertion, isRead⟩ := Comp.exists_input_of_mem (forall₂_of_mapM isAssumed) isGiven
    rw [isAssumes] at isAssertion
    obtain ⟨req, isReq, rfl⟩ := mem_map.mp isAssertion
    refine requires req given (Option.mem_toList.mp isReq) ?_
    rw [readContract_eq (.inl rfl)]
    exact isRead
  obtain ⟨noResult, once⟩ := nodup_cons.mp legible.distinct
  have lengths : callee.params.length = actualNumbers.length := by
    rw [← sameLength, ← areMatches.length_eq, denoteActuals.length_eq]
  have assigned := contractValues_of_nodup result once noResult lengths
  refine holds_of_substituted rfl areMatches arePlain isRendered inScope legible.isWf rfl ?_
    (holds meaning nofun _ assumes)
  refine forall₂_of_shared (fun param number value isNumber denotes other denotesOther => ?_)
    assigned denoteActuals
  rw [isNumber]
  exact denotes.unique denotesOther

end Caller

abbrev exampleName (name : String) : QIdent := ⟨⟨"Example"⟩, ⟨name⟩, ⟨name⟩⟩

/-- A variable that is passed on as it was made. -/
theorem callsite_goal_sound_at_let :
    let ty : Ty := .integer .signed .width32
    let callExpr : TExpr := .funcall ⟨1⟩ (exampleName "positive") [.localVar ⟨"x"⟩ ty] ty .empty
    let body : TStmt := .letStmt .immutable ⟨"x"⟩ ty (.block
      (.initialAssign (exampleName "x") (.paramVar ⟨"n"⟩ ty)) (.returnStmt callExpr))
    let frame : Frame := [(.named "n", 0)]
    let inner : Frame := (.named "x", 1) :: frame
    let last : Memory := ⟨[.int 2, .int 2], [1]⟩
    let env : TempEnv := [("x", .paramVar ⟨"n"⟩ ty)]
    Reaches integerHost noCalls 0 ⟨[], frame, ⟨[.int 2], []⟩⟩ body ⟨env, inner, last⟩ callExpr ∧
      (rel .gt (.var "p" none) (.int 0)).Holds noMeaning (contractValues ["p"] [2] 0) := by
  intro ty callExpr body frame inner last env
  let params : List ValueParameter := [⟨⟨"n"⟩, ty⟩]
  let pragmas : List Pragma := [.liquid "Requires" "n > 0"]
  let callee : Callee := ⟨"positive", ["p"], some "p > 0"⟩
  have isNames : paramNames params = ["n"] := by decide +kernel
  have unassigned : Unassigned params body :=
    { isSteady := rfl
      distinct := by rw [isNames]; decide +kernel
      legal := isNames }
  have reaches : Reaches integerHost noCalls 0 ⟨[], frame, ⟨[.int 2], []⟩⟩ body ⟨env, inner, last⟩
      callExpr := by
    refine ⟨last, .returnStmt callExpr, (last, callExpr), ?_, .first rfl, .refl⟩
    have made : Enters integerHost noCalls 0 (⟨[], frame, ⟨[.int 2], []⟩⟩, body)
        (⟨env, inner, ⟨[.int 2, .uninitialized], []⟩⟩, _) := .letBody rfl
    have initialized : execStmt integerHost noCalls 0 inner
        (.initialAssign (exampleName "x") (.paramVar ⟨"n"⟩ ty)) ⟨[.int 2, .uninitialized], []⟩ = (.ok (inner, none), last) := rfl
    exact .tail (.tail .refl made) (.blockSecond initialized)
  have requires : ∀ req formula, firstContract .requires pragmas = some req →
      readContract .requires req = some formula →
      formula.Holds noMeaning (contractValues (paramNames params) [2] 0) := by
    rw [isNames]
    rintro _ _ ⟨⟩ ⟨⟩
    exact show (2 : Int) > 0 by decide
  have generated : ∃ goal, callsiteGoal "caller" (paramNames params)
      (firstContract .requires pragmas) ⟨2⟩ 0 env callee [.localVar ⟨"x"⟩ ty] = some goal ∧
      goal.Valid [] := by
    rw [isNames]
    exact ⟨_, rfl, _, _, rfl, rfl, fun meaning _ values holds => holds _ mem_cons_self⟩
  obtain ⟨goal, generated, valid⟩ := generated
  have legible : Legible callee (.rel .gt (.var "p" none) (.int 0)) := ⟨by decide, rfl⟩
  have denote (memory : Memory) : Forall₂ (Denotes integerCode memory) [.int 2] [2] :=
    .cons (.plain nofun nofun) .nil
  have entered : enter [] (params.map (·.name)) [.int 2] ⟨[], []⟩ =
      (.ok frame, ⟨[.int 2], []⟩) := rfl
  have ran : evals integerHost noCalls inner [.localVar ⟨"x"⟩ ty] last = (.ok [.int 2], last) := rfl
  let names : Typed.Callee → SIdent := fun _ => ⟨⟨"Example"⟩, ⟨"positive"⟩⟩
  have models : Models integerCode noMeaning names integerHost noCalls :=
    models_integerHost (fun _ => rfl) nofun
  have sound := callsite_goal_sound unassigned models
    (quiet_integerHost fun _ _ memory => .refl memory) (denote _) entered requires reaches
    (forall_mem_singleton.mpr rfl) ran (denote last)
  exact ⟨reaches, sound.2 "caller" ⟨2⟩ 0 callee goal "p > 0" _ generated valid rfl rfl legible⟩

/-- A variable that is assigned again: its goal is about the value it was made with. -/
theorem callsite_goal_misses_assignment :
    let ty : Ty := .integer .signed .width32
    let callExpr : TExpr := .funcall ⟨1⟩ (exampleName "positive") [.localVar ⟨"x"⟩ ty] ty .empty
    let body : TStmt := .letStmt .mutable ⟨"x"⟩ ty (.block
      (.initialAssign (exampleName "x") (.paramVar ⟨"n"⟩ ty))
      (.block (.assignVar (exampleName "x") (.paramVar ⟨"m"⟩ ty)) (.returnStmt callExpr)))
    let positive : TypedDecl := .function ⟨1⟩ ⟨"positive"⟩ [] [⟨⟨"p"⟩, ty⟩] ty
      (.returnStmt (.paramVar ⟨"p"⟩ ty)) [.liquid "Requires" "p > 0"]
    let caller : TypedDecl := .function ⟨2⟩ ⟨"caller"⟩ [] [⟨⟨"n"⟩, ty⟩, ⟨⟨"m"⟩, ty⟩] ty body
      [.liquid "Requires" "n > 0"]
    let source : TypedModule := ⟨⟨"Example"⟩, [positive, caller]⟩
    let frame : Frame := [(.named "m", 1), (.named "n", 0)]
    let inner : Frame := (.named "x", 2) :: frame
    let last : Memory := ⟨[.int 2, .int (-5), .int (-5)], [2, 2]⟩
    let env : TempEnv := [("x", .paramVar ⟨"n"⟩ ty)]
    totality source = none ∧ checkModule source = none ∧
      (∃ callee goal, calleeOf source.decls ⟨1⟩ = some callee ∧
        callsiteGoal "caller" ["n", "m"] (some "n > 0") ⟨2⟩ 0 env callee [.localVar ⟨"x"⟩ ty] =
          some goal ∧ goal.Valid []) ∧
      enter [] [⟨"n"⟩, ⟨"m"⟩] [.int 2, .int (-5)] ⟨[], []⟩ =
        (.ok frame, ⟨[.int 2, .int (-5)], []⟩) ∧
      Reaches integerHost noCalls 0 ⟨[], frame, ⟨[.int 2, .int (-5)], []⟩⟩ body ⟨env, inner, last⟩
        callExpr ∧
      evals integerHost noCalls inner [.localVar ⟨"x"⟩ ty] last = (.ok [.int (-5)], last) ∧
      ∃ pre post, readContract .requires "n > 0" = some pre ∧
        readContract .requires "p > 0" = some post ∧
        ∀ meaning : Interpretation, pre.Holds meaning (contractValues ["n", "m"] [2, -5] 0) ∧
          ¬ post.Holds meaning (contractValues ["p"] [-5] 0) := by
  intro ty callExpr body positive _ _ frame inner last env
  refine ⟨rfl, rfl, ?_, rfl, ?_, rfl, _, _, rfl, rfl, ?_⟩
  · refine ⟨⟨"positive", ["p"], some "p > 0"⟩, _, ?_, rfl, ?_⟩
    · have isName : paramNames [⟨⟨"p"⟩, ty⟩] = ["p"] := by decide +kernel
      rw [← isName]
      rfl
    · exact ⟨_, _, rfl, rfl, fun meaning _ values holds => holds _ mem_cons_self⟩
  · refine ⟨last, .returnStmt callExpr, (last, callExpr), ?_, .first rfl, .refl⟩
    have made : Enters integerHost noCalls 0 (⟨[], frame, ⟨[.int 2, .int (-5)], []⟩⟩, body)
        (⟨env, inner, ⟨[.int 2, .int (-5), .uninitialized], []⟩⟩, _) := .letBody rfl
    have initialized : execStmt integerHost noCalls 0 inner
        (.initialAssign (exampleName "x") (.paramVar ⟨"n"⟩ ty))
        ⟨[.int 2, .int (-5), .uninitialized], []⟩ =
        (.ok (inner, none), ⟨[.int 2, .int (-5), .int 2], [2]⟩) := rfl
    have assigned : execStmt integerHost noCalls 0 inner
        (.assignVar (exampleName "x") (.paramVar ⟨"m"⟩ ty)) ⟨[.int 2, .int (-5), .int 2], [2]⟩ = (.ok (inner, none), last) := rfl
    exact .tail (.tail (.tail .refl made) (.blockSecond initialized)) (.blockSecond assigned)
  · intro _
    exact ⟨show (2 : Int) > 0 by decide, show ¬ (-5 : Int) > 0 by decide⟩

end AustralVM.Liquid.Constraints
