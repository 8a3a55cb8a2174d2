import AustralVM.ExceptRules
import AustralVM.TypeMatch

/-!
# Failures of matching

Types that do not match are a type error, and the search for an instance skips
an instance whose matching ends in one.  The lists of arguments of two types are
paired by `List.map2`, though, which raises `Invalid_argument` on lists of different
lengths: that exception is not caught and ends the compilation.  It does so exactly if
the matching comes to such lists.
-/

namespace AustralVM

open TypeBindings Except List

/-- The computation ends the compilation. -/
abbrev Aborts (computation : Comp α) : Prop := computation = .error .invalidArgument

@[simp] theorem not_aborts_ok : ¬ Aborts (.ok value : Comp α) := by rintro ⟨⟩

@[simp] theorem not_aborts_pure : ¬ Aborts (pure value : Comp α) := by rintro ⟨⟩

@[simp] theorem not_aborts_australRaise : ¬ Aborts (australRaise kind text : Comp α) := by rintro ⟨⟩

theorem aborts_bind {computation : Comp α} {next : α → Comp β} : Aborts (computation >>= next) ↔
    Aborts computation ∨ ∃ value, computation = .ok value ∧ Aborts (next value) := bind_eq_error

theorem aborts_both {first second : Comp Bool} :
    Aborts (do if ← first then second else return false) ↔
      Aborts first ∨ first = .ok true ∧ Aborts second := by
  rw [aborts_bind, Bool.exists_bool]
  simp

/-! ## Equality of types -/

mutual
/-- Comparing the types comes to lists of different lengths. -/
def EqualMispairs : Ty → Ty → Prop
  | .namedType name args _, .namedType name' args' _ =>
    equalQident name name' ∧ (args.length ≠ args'.length ∨ SomeMispair args args')
  | .fnPtr args rt, .fnPtr args' rt' => args.length ≠ args'.length ∨ SomeMispair args args' ∨
      equalTys args args' = .ok true ∧ EqualMispairs rt rt'
  | .readRef ty region, .readRef ty' region' | .writeRef ty region, .writeRef ty' region'
  | .span ty region, .span ty' region' | .spanMut ty region, .spanMut ty' region' =>
    EqualMispairs ty ty' ∨ equalTy ty ty' = .ok true ∧ EqualMispairs region region'
  | .address ty, .address ty' | .pointer ty, .pointer ty' => EqualMispairs ty ty'
  | _, _ => False
/-- The pairs are compared up to the first that differs. -/
def SomeMispair : List Ty → List Ty → Prop
  | ty :: tys, ty' :: tys' =>
    EqualMispairs ty ty' ∨ equalTy ty ty' = .ok true ∧ SomeMispair tys tys'
  | _, _ => False
end

mutual
theorem aborts_equalTy {a b : Ty} : Aborts (equalTy a b) ↔ EqualMispairs a b := by
  cases a with
  | namedType _ args =>
    cases b with
    | namedType _ args' =>
      rw [equalTy, EqualMispairs, ← aborts_equalTys]
      split_ifs with sameName sameLength
      · simp [sameName, sameLength, aborts_both]
      · simp [sameName, sameLength]
      · simp [sameName]
    | _ => simp [equalTy, EqualMispairs]
  | fnPtr args rt =>
    cases b with
    | fnPtr args' rt' =>
      rw [equalTy, EqualMispairs, ← aborts_equalTys, ← aborts_equalTy]
      split_ifs with sameLength
      · simp [sameLength, aborts_both]
      · simp [sameLength]
    | _ => simp [equalTy, EqualMispairs]
  | readRef ty | writeRef ty | span ty | spanMut ty =>
    cases b <;> simp [equalTy, EqualMispairs, aborts_both, ← aborts_equalTy]
  | address ty | pointer ty => cases b <;> simp [equalTy, EqualMispairs, ← aborts_equalTy]
  | _ => cases b <;> simp [equalTy, EqualMispairs]

theorem aborts_equalTys {tys tys' : List Ty} :
    Aborts (equalTys tys tys') ↔ SomeMispair tys tys' := by
  cases tys with
  | nil => simp [equalTys, SomeMispair]
  | cons =>
    cases tys' with
    | nil => simp [equalTys, SomeMispair]
    | cons => rw [equalTys, SomeMispair, aborts_both, aborts_equalTy, aborts_equalTys]
end

/-! ## Bindings -/

/-- A variable is bound again, to a type whose comparison with the one it has comes to
lists of different lengths. -/
def Clashes (first second : TypeBindings) : Prop :=
  ∃ before typaram ty after bindings was,
    first.entries ++ second.entries = before ++ (typaram, ty) :: after ∧
      empty.addBindings before = .ok bindings ∧ bindings.getBinding typaram = some was ∧
      EqualMispairs ty was

theorem aborts_addBinding : Aborts (addBinding bindings typaram ty) ↔
    ∃ was, bindings.getBinding typaram = some was ∧ EqualMispairs ty was := by
  rw [addBinding]
  split
  · rename_i was bound
    rw [aborts_bind, Bool.exists_bool]
    simp [aborts_equalTy, typaramRedefinition, bound]
  · rename_i absent
    simp only [absent, reduceCtorEq, false_and, exists_false, iff_false]
    split
    · simp
    · rw [aborts_bind, not_or]
      refine ⟨by cases ty <;> rintro ⟨⟩, ?_⟩
      rintro ⟨_, _, aborts⟩
      split_ifs at aborts <;> cases aborts

theorem addBindings_eq_foldlM : addBindings bindings pairs =
    pairs.foldlM (fun bindings pair => bindings.addBinding pair.1 pair.2) bindings := by
  induction pairs generalizing bindings with
  | nil => rfl
  | cons pair pairs ih => rw [addBindings, foldlM_cons, funext fun bindings => ih]

theorem aborts_mergeBindings : Aborts (mergeBindings first second) ↔ Clashes first second := by
  have merged : mergeBindings first second = empty.addBindings (first.entries ++ second.entries) := by
    simp only [mergeBindings, addBindings_eq_foldlM, foldlM_append]
  rw [merged, addBindings_eq_foldlM, Aborts, foldlM_eq_error]
  change (∃ before item after state, _ ∧ _ ∧ Aborts _) ↔ _
  simp only [← addBindings_eq_foldlM, Prod.exists, aborts_addBinding, Clashes, exists_and_left]

/-! ## Types -/

namespace Ty

/-- The types are made in one way of parts that are matched. -/
def sameHead : Ty → Ty → Bool
  | .namedType name _ _, .namedType name' _ _ => name = name'
  | .readRef _ _, .readRef _ _ | .writeRef _ _, .writeRef _ _ | .span _ _, .span _ _
  | .spanMut _ _, .spanMut _ _ | .address _, .address _ | .pointer _, .pointer _
  | .fnPtr _ _, .fnPtr _ _ => true
  | _, _ => false

/-- How the bindings of the parts become those of the type: the arguments of a name or
a function pointer are added one after the other to none, the two parts of a reference
to each other. -/
def mergeOrder (all : List TypeBindings) : Ty → TypeBindings × List TypeBindings
  | .namedType _ _ _ | .fnPtr _ _ => (empty, all)
  | _ => (all.headD empty, all.tail)

end Ty

variable {ctx : MatchCtx}

theorem matchType_of_sameHead (same : a.sameHead b) :
    matchType ctx a b = (do
      let order := a.mergeOrder (← matchTypes ctx a.parts b.parts)
      order.2.foldlM mergeBindings order.1) := by
  cases a with
  | namedType =>
    cases b with
    | namedType =>
      rw [matchType, if_pos (of_decide_eq_true same), matchTypeList]
      rfl
    | _ => cases same
  | fnPtr =>
    cases b with
    | fnPtr =>
      rw [matchType, matchTypeList]
      rfl
    | _ => cases same
  | readRef | writeRef | span | spanMut | address | pointer =>
    cases b <;> try cases same
    simp [matchType, matchTypes, Ty.parts, Ty.mergeOrder, ok_bind]
  | _ => cases same

theorem not_aborts_of_differ (notTyVar : a.isTyVar = false)
    (differ : a.sameHead b = false) : ¬ Aborts (matchType ctx a b) := by
  cases a with
  | tyVar => cases notTyVar
  | integer | regionTy =>
    cases b <;> simp only [matchType] <;> first | split_ifs <;> rintro ⟨⟩ | rintro ⟨⟩
  | _ => cases b <;> simp_all [matchType, Ty.sameHead, typeMismatch, err]

abbrev Matches (ctx : MatchCtx) (a b : Ty) : Prop := ∃ bindings, matchType ctx a b = .ok bindings

theorem aborts_matchTypes : Aborts (matchTypes ctx tys tys') ↔
    Breaks (Matches ctx) (fun ty ty' => Aborts (matchType ctx ty ty')) tys tys' := by
  induction tys generalizing tys' with
  | nil =>
    cases tys' with
    | nil =>
      rw [matchTypes]
      constructor <;> rintro ⟨⟩
    | cons =>
      rw [matchTypes]
      · exact iff_of_true rfl .left
      · simp
      · simp
  | cons ty tys ih =>
    cases tys' with
    | nil =>
      rw [matchTypes]
      · exact iff_of_true rfl .right
      · simp
      · simp
    | cons ty' tys' =>
      simp only [matchTypes, aborts_bind, breaks_cons, ← ih, not_aborts_pure, and_false,
        exists_false, or_false, exists_and_right]

/-- The module is there, and sees the instances. -/
def MatchCtx.Sees (ctx : MatchCtx) (instances : List Decl) : Prop :=
  ∃ record, ctx.env.getModuleByName ctx.moduleName = some record ∧
    ctx.env.visibleInstances record.id = .ok instances

/-- Matching the types comes to lists of different lengths: those of the parts, if the
pairs before them match; those of types that one variable is bound to; or, for a
variable whose constraints before one are met, those of the argument of an instance. -/
inductive Mispairs (ctx : MatchCtx) (instances : List Decl) : Ty → Ty → Prop
  | part (same : a.sameHead b)
      (breaks : Breaks (Matches ctx) (Mispairs ctx instances) a.parts b.parts) :
      Mispairs ctx instances a b
  | bound (same : a.sameHead b) (matching : matchTypes ctx a.parts b.parts = .ok matched)
      (order : (a.mergeOrder matched).2 = before ++ added :: rest)
      (merged : before.foldlM mergeBindings (a.mergeOrder matched).1 = .ok bindings)
      (clashes : Clashes bindings added) : Mispairs ctx instances a b
  | search (notTyVar : b.isTyVar = false) (constrained : tyvar.constraints = before ++ name :: rest)
      (met : checkTypeImplementsConstraints ctx tyvar b before = .ok ())
      (found : ctx.env.getDeclByName name = .ok (some (.typeClass typeclass modId vis title param)))
      (named : ctx.env.getDeclNameOrDie typeclass = .ok text)
      (visible : .instanceDecl inst ∈ instances) (isInstance : inst.typeclassId = typeclass)
      (mispairs : Mispairs ctx instances inst.argument b) : Mispairs ctx instances (.tyVar tyvar) b

theorem aborts_of_parts (notTyVar : a.isTyVar = false)
    (each : ∀ part ∈ b.parts, ∀ a, Aborts (matchType ctx a part) ↔ Mispairs ctx instances a part) :
    Aborts (matchType ctx a b) ↔ Mispairs ctx instances a b := by
  have within : Aborts (matchTypes ctx a.parts b.parts) ↔
      Breaks (Matches ctx) (Mispairs ctx instances) a.parts b.parts := by
    rw [aborts_matchTypes]
    exact breaks_congr fun part _ part' member => each part' member part
  by_cases same : a.sameHead b
  · rw [matchType_of_sameHead same, aborts_bind, within]
    constructor
    · rintro (breaks | ⟨all, matched, aborts⟩)
      · exact .part same breaks
      · obtain ⟨before, added, after, bindings, order, merged, aborts⟩ := foldlM_eq_error.mp aborts
        exact .bound same matched order merged (aborts_mergeBindings.mp aborts)
    · rintro (⟨-, breaks⟩ | ⟨-, matched, order, merged, clashes⟩ | _)
      · exact .inl breaks
      · exact .inr ⟨_, matched, foldlM_eq_error.mpr
          ⟨_, _, _, _, order, merged, aborts_mergeBindings.mpr clashes⟩⟩
      · cases notTyVar
  · rw [Bool.not_eq_true] at same
    refine iff_of_false (not_aborts_of_differ notTyVar same) ?_
    rintro (⟨same', -⟩ | ⟨same', -, -, -, -⟩ | _)
    · exact Bool.false_ne_true (same.symm.trans same')
    · exact Bool.false_ne_true (same.symm.trans same')
    · cases notTyVar

/-! ## Instances -/

theorem aborts_catchAustralError {computation : Comp TypeBindings} :
    Aborts (catchAustralError inst computation) ↔ Aborts computation := by
  cases computation with
  | ok => constructor <;> rintro ⟨⟩
  | error exn =>
    cases exn with
    | australError => constructor <;> rintro ⟨⟩
    | invalidArgument => exact iff_of_true rfl rfl

theorem instanceCandidate_eq_error
    (fails : instanceCandidate ctx.env ctx.moduleName b typeclass decl = .error other) :
    other = .invalidArgument := by
  cases decl with
  | instanceDecl inst =>
    rw [instanceCandidate] at fails
    split_ifs at fails
    unfold catchAustralError at fails
    split at fails <;> cases fails
    rfl
  | _ => cases fails

theorem aborts_getInstance (sees : ctx.Sees instances) :
    Aborts (getInstance ctx.env ctx.moduleName b typeclass) ↔
      (∃ text, ctx.env.getDeclNameOrDie typeclass = .ok text) ∧
        ∃ inst, .instanceDecl inst ∈ instances ∧ inst.typeclassId = typeclass ∧
          Aborts (matchType ctx inst.argument b) := by
  obtain ⟨record, found, visible⟩ := sees
  have named : ¬ Aborts (ctx.env.getDeclNameOrDie typeclass) := by
    rw [Env.getDeclNameOrDie]
    split
    · split <;> rintro ⟨⟩
    · rintro ⟨⟩
  have selects (candidates) : ¬ Aborts (selectInstance candidates) := by
    unfold selectInstance
    split <;> rintro ⟨⟩
  rw [getInstance_eq, found, aborts_bind, or_iff_right named, exists_and_right, optionGet, ok_bind,
    visible, ok_bind, aborts_bind]
  refine and_congr_right fun _ => (or_iff_left ?_).trans ?_
  · rintro ⟨_, _, aborts⟩
    exact selects _ aborts
  rw [Aborts, mapM_eq_error fun _ _ _ => instanceCandidate_eq_error]
  constructor
  · rintro ⟨decl, member, aborts⟩
    cases decl with
    | instanceDecl inst =>
      rw [instanceCandidate] at aborts
      split_ifs at aborts with isInstance
      exact ⟨inst, member, isInstance, aborts_catchAustralError.mp aborts⟩
    | _ => cases aborts
  · rintro ⟨inst, member, isInstance, aborts⟩
    refine ⟨.instanceDecl inst, member, ?_⟩
    rw [instanceCandidate, if_pos isInstance]
    exact aborts_catchAustralError.mpr aborts

theorem aborts_tryConstraint : Aborts (tryConstraint ctx tyvar b name) ↔
    ∃ typeclass modId vis title param,
      ctx.env.getDeclByName name = .ok (some (.typeClass typeclass modId vis title param)) ∧
        Aborts (getInstance ctx.env ctx.moduleName b typeclass) := by
  have found : ¬ Aborts (ctx.env.getDeclByName name) := by
    rw [Env.getDeclByName]
    split <;> rintro ⟨⟩
  rw [tryConstraint, aborts_bind, or_iff_right found]
  constructor
  · rintro ⟨_ | decl, isFound, aborts⟩
    · cases aborts
    · cases decl with
      | typeClass =>
        refine ⟨_, _, _, _, _, isFound, (aborts_bind.mp aborts).resolve_right ?_⟩
        rintro ⟨_ | _, -, aborts⟩ <;> cases aborts
      | _ => cases aborts
  · rintro ⟨_, _, _, _, _, isFound, aborts⟩
    exact ⟨_, isFound, aborts_bind.mpr (.inl aborts)⟩

theorem aborts_constraints :
    Aborts (checkTypeImplementsConstraints ctx tyvar b constraints) ↔
      ∃ before name rest, constraints = before ++ name :: rest ∧
        checkTypeImplementsConstraints ctx tyvar b before = .ok () ∧
        Aborts (tryConstraint ctx tyvar b name) := by
  have loop (constraints : List SIdent) : checkTypeImplementsConstraints ctx tyvar b constraints =
      constraints.foldlM (fun _ name => tryConstraint ctx tyvar b name) () := by
    rw [checkTypeImplementsConstraints]
    induction constraints with
    | nil => rfl
    | cons _ _ ih => rw [List.forM, ih, foldlM_cons]
  simp only [loop]
  refine foldlM_eq_error.trans ⟨?_, ?_⟩
  · rintro ⟨before, name, rest, _, aborts⟩
    exact ⟨before, name, rest, aborts⟩
  · rintro ⟨before, name, rest, aborts⟩
    exact ⟨before, name, rest, (), aborts⟩

theorem not_aborts_addBinding_empty : ¬ Aborts (empty.addBinding typaram ty) := by
  rw [aborts_addBinding]
  rintro ⟨_, ⟨⟩, _⟩

theorem aborts_matchTypeVar (notTyVar : b.isTyVar = false) :
    Aborts (matchTypeVar ctx tyvar b) ↔
      Aborts (checkTypeImplementsConstraints ctx tyvar b tyvar.constraints) := by
  rw [matchTypeVar.eq_def]
  split
  · cases notTyVar
  · rw [aborts_bind]
    refine or_iff_left ?_
    rintro ⟨_, _, aborts⟩
    exact not_aborts_addBinding_empty aborts

theorem aborts_matchType (sees : ctx.Sees instances) :
    Aborts (matchType ctx a b) ↔ Mispairs ctx instances a b := by
  induction b using Ty.induction_parts generalizing a with
  | step b ih =>
    have ofParts (a : Ty) (notTyVar : a.isTyVar = false) :
        Aborts (matchType ctx a b) ↔ Mispairs ctx instances a b :=
      aborts_of_parts notTyVar fun part member a => ih part member
    cases a with
    | tyVar tyvar =>
      rw [matchType]
      cases isTyVar : b.isTyVar with
      | true =>
        cases b with
        | tyVar =>
          rw [matchTypeVar]
          refine iff_of_false ?_ ?_
          · split_ifs
            · rintro ⟨⟩
            · exact not_aborts_addBinding_empty
          · rintro (⟨same, -⟩ | ⟨same, -, -, -, -⟩ | ⟨notTyVar, -, -, -, -, -, -, -⟩)
            · cases same
            · cases same
            · cases notTyVar
        | _ => cases isTyVar
      | false =>
        rw [aborts_matchTypeVar isTyVar, aborts_constraints]
        constructor
        · rintro ⟨before, name, rest, constrained, met, aborts⟩
          obtain ⟨typeclass, _, _, _, _, found, aborts⟩ := (aborts_tryConstraint).mp aborts
          obtain ⟨⟨_, named⟩, inst, visible, isInstance, aborts⟩ := (aborts_getInstance sees).mp aborts
          exact .search isTyVar constrained met found named visible isInstance
            ((ofParts _ inst.argumentNotTyVar).mp aborts)
        · rintro (⟨same, -⟩ | ⟨same, -, -, -, -⟩ |
            ⟨-, constrained, met, found, named, visible, isInstance, mispairs⟩)
          · cases same
          · cases same
          · exact ⟨_, _, _, constrained, met, aborts_tryConstraint.mpr ⟨_, _, _, _, _, found,
              (aborts_getInstance sees).mpr ⟨⟨_, named⟩, _, visible, isInstance,
                (ofParts _ (InstanceDecl.argumentNotTyVar _)).mpr mispairs⟩⟩⟩
    | _ => exact ofParts _ rfl

def oneModuleEnv : Env :=
  { emptyEnv with mods := [⟨⟨1⟩, ⟨"Example"⟩, []⟩] }

end AustralVM
