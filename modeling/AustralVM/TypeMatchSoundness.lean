import AustralVM.CallCheck

/-!
# What a successful match means

Matching walks a pattern and a type together.  Everything a successful match
guarantees is about the places where a variable of the pattern meets a part of
the type: which of these meetings the bindings record, which constraint checks
they passed, and when replacing the variables gives the type back.
-/

namespace AustralVM

open TypeBindings AustralVM.Comp List Ty

mutual
/-- The places where a variable of the pattern meets a part of the type. -/
@[grind =] def meetings : Ty → Ty → List (TypeVar × Ty)
  | .tyVar tyvar, b => [(tyvar, b)]
  | .namedType _ args _, .namedType _ args' _ => meetingsList args args'
  | .readRef ty region, .readRef ty' region' => meetings ty ty' ++ meetings region region'
  | .writeRef ty region, .writeRef ty' region' => meetings ty ty' ++ meetings region region'
  | .span ty region, .span ty' region' => meetings ty ty' ++ meetings region region'
  | .spanMut ty region, .spanMut ty' region' => meetings ty ty' ++ meetings region region'
  | .address ty, .address ty' => meetings ty ty'
  | .pointer ty, .pointer ty' => meetings ty ty'
  | .fnPtr args rt, .fnPtr args' rt' => meetings rt rt' ++ meetingsList args args'
  | _, _ => []
/-- The meetings of two lists of types, position by position. -/
def meetingsList : List Ty → List Ty → List (TypeVar × Ty)
  | ty :: tys, ty' :: tys' => meetings ty ty' ++ meetingsList tys tys'
  | _, _ => []
end

/-- The variable meets itself: the type is the variable of the same name,
universe and provenance. -/
def meetsItself (tyvar : TypeVar) : Ty → Bool
  | .tyVar tyvar' => sameTyVar tyvar tyvar'
  | _ => false

/-- Replacing variables gives the type back, up to universes. -/
@[simp] def GivesBack (ty ty' : Ty) (replacement : TypeBindings) : Prop :=
  (replaceVariables replacement ty).withoutUniverses = ty'.withoutUniverses

/-- What successful matching establishes about its bindings and its meetings.
`instantiates` is the statement that replacing variables gives the type back. -/
structure Explains (ctx : MatchCtx) (bindings : TypeBindings) (meets : List (TypeVar × Ty))
    (instantiates : TypeBindings → Prop) : Prop where
  /-- A variable that meets another type is bound to that type. -/
  bound : ∀ tyvar ty, (tyvar, ty) ∈ meets → meetsItself tyvar ty = false →
    ∃ ty', (tyvarToTyparam tyvar, ty') ∈ bindings.entries ∧
      ty.withoutAliases = ty'.withoutAliases
  /-- Every binding records a meeting of its variable with another type. -/
  met : ∀ typaram ty, (typaram, ty) ∈ bindings.entries →
    ∃ tyvar, typaram = tyvarToTyparam tyvar ∧ (tyvar, ty) ∈ meets ∧
      meetsItself tyvar ty = false
  /-- The constraints were checked wherever a variable meets a type that is not
  a variable. -/
  checked : ∀ tyvar ty, (tyvar, ty) ∈ meets → ty.isTyVar = false →
    checkTypeImplementsConstraints ctx tyvar ty tyvar.constraints = .ok ()
  /-- Replacing variables gives the type back exactly when it does so at every
  meeting. -/
  instantiates_iff : ∀ replacement, instantiates replacement ↔
    ∀ tyvar ty, (tyvar, ty) ∈ meets → GivesBack (.tyVar tyvar) ty replacement

namespace Explains

variable {ctx : MatchCtx} {instantiates : TypeBindings → Prop}

theorem nil (always : ∀ replacement, instantiates replacement) :
    Explains ctx empty [] instantiates where
  bound := by simp
  met := by simp [empty]
  checked := by simp
  instantiates_iff := by simp [always]

theorem congr (explains : Explains ctx bindings meets instantiates)
    (same : ∀ replacement, instantiates' replacement ↔ instantiates replacement) :
    Explains ctx bindings meets instantiates' :=
  { explains with
    instantiates_iff := fun replacement =>
      (same replacement).trans (explains.instantiates_iff replacement) }

theorem merge (explainsFirst : Explains ctx first meets instantiates)
    (explainsSecond : Explains ctx second meets' instantiates')
    (mergedEq : mergeBindings first second = .ok merged) : Explains ctx merged (meets ++ meets')
      (fun replacement => instantiates replacement ∧ instantiates' replacement) := by
  obtain ⟨fromEither, coversFirst, coversSecond⟩ := mergeBindings_eq_ok mergedEq
  refine ⟨?_, ?_, ?_, ?_⟩
  · intro tyvar ty member other
    rcases mem_append.mp member with inFirst | inSecond
    · obtain ⟨_, entry, same⟩ := explainsFirst.bound tyvar ty inFirst other
      obtain ⟨ty'', entry', same'⟩ := coversFirst _ _ entry
      exact ⟨ty'', entry', same.trans same'⟩
    · obtain ⟨_, entry, same⟩ := explainsSecond.bound tyvar ty inSecond other
      obtain ⟨ty'', entry', same'⟩ := coversSecond _ _ entry
      exact ⟨ty'', entry', same.trans same'⟩
  · intro typaram ty entry
    rcases mem_append.mp (fromEither entry) with inFirst | inSecond
    · obtain ⟨tyvar, key, member, other⟩ := explainsFirst.met typaram ty inFirst
      exact ⟨tyvar, key, mem_append_left _ member, other⟩
    · obtain ⟨tyvar, key, member, other⟩ := explainsSecond.met typaram ty inSecond
      exact ⟨tyvar, key, mem_append_right _ member, other⟩
  · intro tyvar ty member notTyVar
    rcases mem_append.mp member with inFirst | inSecond
    · exact explainsFirst.checked tyvar ty inFirst notTyVar
    · exact explainsSecond.checked tyvar ty inSecond notTyVar
  · intro _
    rw [explainsFirst.instantiates_iff, explainsSecond.instantiates_iff]
    simp only [mem_append, or_imp, forall_and]

end Explains

variable {ctx : MatchCtx} {tyvar : TypeVar} {ty : Ty} {bindings : TypeBindings}
  {meets : List (TypeVar × Ty)} {instantiates : TypeBindings → Prop}

theorem matchTypeVar_explains (matched : matchTypeVar ctx tyvar ty = .ok bindings) :
    Explains ctx bindings [(tyvar, ty)] (GivesBack (.tyVar tyvar) ty) := by
  -- Both kinds of type end in the same binding, so it is treated once.
  have explains_of_bound
      (other : meetsItself tyvar ty = false)
      (checked : ty.isTyVar = false →
        checkTypeImplementsConstraints ctx tyvar ty tyvar.constraints = .ok ())
      (added : empty.addBinding (tyvarToTyparam tyvar) ty = .ok bindings) :
      Explains ctx bindings [(tyvar, ty)] (GivesBack (.tyVar tyvar) ty) := by
    rcases addBinding_eq_ok added with ⟨was, bound, _, _⟩ | ⟨_, entriesEq⟩
    · cases bound
    · refine ⟨?_, ?_, ?_, by simp⟩
      · intro _ ty' member _
        obtain ⟨rfl, rfl⟩ := by simpa using member
        exact ⟨ty', by simp [entriesEq], rfl⟩
      · intro _ _ entry
        obtain ⟨rfl, rfl⟩ := by simpa [entriesEq, empty] using entry
        exact ⟨tyvar, rfl, by simp, other⟩
      · intro _ _ member notTyVar
        obtain ⟨rfl, rfl⟩ := by simpa using member
        exact checked notTyVar
  unfold matchTypeVar at matched
  split at matched
  · next tyvar' =>
    split_ifs at matched with same
    · obtain rfl : empty = bindings := by simpa using matched
      refine ⟨?_, by simp [empty], ?_, by simp⟩
      · intro _ _ member other
        obtain ⟨rfl, rfl⟩ := by simpa using member
        simp [meetsItself, same] at other
      · intro _ _ member notTyVar
        obtain ⟨rfl, rfl⟩ := by simpa using member
        simp [isTyVar] at notTyVar
    · exact explains_of_bound (by simpa [meetsItself] using same) (by simp [isTyVar]) matched
  · next notTyVar =>
    obtain ⟨_, constraintsHold, added⟩ := bind_eq_ok.mp matched
    refine explains_of_bound ?_ (fun _ => constraintsHold) added
    cases ty <;> simp_all [meetsItself]

/-- The match of two lists is explained element by element; the fold merges the
bindings into those explained already. -/
private theorem matchTypes_explains
    (elementwise : ∀ ty ∈ tys, ∀ ty' bindings, matchType ctx ty ty' = .ok bindings →
      Explains ctx bindings (meetings ty ty') (GivesBack ty ty'))
    (matchedEq : matchTypes ctx tys tys' = .ok matched)
    (explainsStart : Explains ctx start meets instantiates)
    (folded : matched.foldlM mergeBindings start = .ok bindings) :
    Explains ctx bindings (meets ++ meetingsList tys tys') (fun replacement =>
      instantiates replacement ∧ (replaceVariablesList replacement tys).map withoutUniverses =
          tys'.map withoutUniverses) := by
  induction tys generalizing tys' matched start meets instantiates with
  | nil =>
    cases tys' with
    | nil =>
      obtain rfl : [] = matched := by simpa [matchTypes] using matchedEq
      obtain rfl : start = bindings := by simpa using folded
      simpa [meetingsList, replaceVariablesList] using explainsStart
    | cons => simp [matchTypes] at matchedEq
  | cons ty _ ih =>
    cases tys' with
    | nil => simp [matchTypes] at matchedEq
    | cons ty' =>
      rw [matchTypes] at matchedEq
      obtain ⟨head, headMatched, tailMatched⟩ := bind_eq_ok.mp matchedEq
      obtain ⟨tail, tailResult, listEq⟩ := bind_eq_ok.mp tailMatched
      obtain rfl : head :: tail = matched := by simpa using listEq
      rw [foldlM_cons] at folded
      obtain ⟨_, merged, restFolded⟩ := bind_eq_ok.mp folded
      have explainsHead := elementwise ty mem_cons_self ty' head headMatched
      have explainsAll := ih (forall_mem_cons.mp elementwise).2
        tailResult (explainsStart.merge explainsHead merged) restFolded
      rw [append_assoc] at explainsAll
      exact explainsAll.congr (by simp [replaceVariablesList, and_assoc])

private theorem matchTypeList_explains
    (elementwise : ∀ ty ∈ tys, ∀ ty' bindings, matchType ctx ty ty' = .ok bindings →
      Explains ctx bindings (meetings ty ty') (GivesBack ty ty'))
    (matched : matchTypeList ctx tys tys' = .ok bindings) :
    Explains ctx bindings (meetingsList tys tys') (fun replacement =>
      (replaceVariablesList replacement tys).map withoutUniverses = tys'.map withoutUniverses) := by
  rw [matchTypeList] at matched
  obtain ⟨_, partsMatched, folded⟩ := bind_eq_ok.mp matched
  have explainsNothing : Explains ctx empty [] fun _ => True := Explains.nil fun _ => trivial
  have explainsAll := matchTypes_explains elementwise partsMatched explainsNothing folded
  simpa using explainsAll

theorem matchType_explains {a b : Ty} {bindings : TypeBindings}
    (matched : matchType ctx a b = .ok bindings) :
    Explains ctx bindings (meetings a b) (GivesBack a b) := by
  cases a with
  | tyVar =>
    rw [matchType] at matched
    simpa [meetings] using matchTypeVar_explains matched
  | namedType _ args =>
    cases b with
    | namedType =>
      rw [matchType] at matched
      split_ifs at matched with namesEqual
      · subst namesEqual
        have explainsArgs := matchTypeList_explains
          (fun arg (_ : arg ∈ args) _ _ => matchType_explains) matched
        rw [meetings]
        refine explainsArgs.congr fun replacement => ?_
        rw [GivesBack, replaceVariables]
        split_ifs <;> simp [canon, canonList_eq_map]
      · simp [typeMismatch] at matched
    | _ => simp [matchType, typeMismatch] at matched
  | fnPtr args =>
    cases b with
    | fnPtr =>
      rw [matchType] at matched
      have explainsAll := matchTypeList_explains (forall_mem_cons.mpr
        ⟨fun _ _ => matchType_explains, fun arg (_ : arg ∈ args) _ _ => matchType_explains⟩) matched
      rw [meetingsList] at explainsAll
      rw [meetings]
      refine explainsAll.congr fun replacement => ?_
      simp [replaceVariables, replaceVariablesList, canon, canonList_eq_map, and_comm]
    | _ => simp [matchType, typeMismatch] at matched
  | readRef | writeRef | span | spanMut =>
    cases b <;> simp only [matchType, typeMismatch, australRaise_ne_ok] at matched
    obtain ⟨_, tyMatched, rest⟩ := bind_eq_ok.mp matched
    obtain ⟨_, regionMatched, merged⟩ := bind_eq_ok.mp rest
    have explainsBoth := (matchType_explains tyMatched).merge
      (matchType_explains regionMatched) merged
    exact explainsBoth.congr (by simp [replaceVariables, canon])
  | address | pointer =>
    cases b <;> simp only [matchType, typeMismatch, australRaise_ne_ok] at matched
    exact (matchType_explains matched).congr (by simp [replaceVariables, canon])
  | integer | regionTy =>
    cases b <;> simp only [matchType, typeMismatch, australRaise_ne_ok] at matched
    split_ifs at matched with same
    · obtain rfl : empty = bindings := by simpa using matched
      exact Explains.nil (by simp [replaceVariables, canon, same])
    · simp at matched
  | monoTy => simp [matchType] at matched
  | unit | boolean | singleFloat | doubleFloat =>
    cases b <;> simp only [matchType, typeMismatch, australRaise_ne_ok] at matched
    obtain rfl : empty = bindings := by simpa using matched
    exact Explains.nil (by simp [replaceVariables])

/-- The meetings of a parameter with an argument; a numeric constant taken at
the parameter's type meets no variable. -/
def argumentMeetings (ty : Ty) (expr : TExpr) : List (TypeVar × Ty) :=
  match argumentTy ty expr with
  | .ok actual => meetings ty actual
  | .error _ => []

def callMeetings (params : List ValueParameter) (args : List TExpr) : List (TypeVar × Ty) :=
  (List.zipWith (fun param arg => argumentMeetings param.ty arg) params args).flatten

/-- The arguments are passed at the types of the parameters, instantiated. -/
def ArgumentsInstantiate (replacement : TypeBindings) (params : List ValueParameter)
    (args : List TExpr) : Prop :=
  Forall₂ (fun param arg => ∃ actual, argumentTy param.ty arg = .ok actual ∧
    (replaceVariables replacement param.ty).withoutUniverses = actual.withoutUniverses)
    params args

private theorem explains_of_constant (taken : argumentTy ty expr = .ok ty)
    (noMeetings : meetings ty ty = [])
    (unchanged : ∀ replacement, replaceVariables replacement ty = ty) :
    Explains ctx empty (argumentMeetings ty expr) (fun replacement =>
      ∃ actual, argumentTy ty expr = .ok actual ∧ GivesBack ty actual replacement) := by
  have noArgumentMeetings : argumentMeetings ty expr = [] := by
    simp [argumentMeetings, taken, noMeetings]
  rw [noArgumentMeetings]
  exact Explains.nil fun replacement => ⟨ty, taken, by simp [unchanged]⟩

private theorem matchIntTypeWithValue_eq_ok
    (matched : matchIntTypeWithValue signedness width value = .ok bindings) : empty = bindings := by
  obtain ⟨_, _, fitting⟩ := bind_eq_ok.mp matched
  split_ifs at fitting
  · simpa using fitting
  · simp at fitting

theorem matchTypeWithValue_explains (matched : matchTypeWithValue ctx ty expr = .ok bindings) :
    Explains ctx bindings (argumentMeetings ty expr) (fun replacement =>
      ∃ actual, argumentTy ty expr = .ok actual ∧ GivesBack ty actual replacement) := by
  unfold matchTypeWithValue at matched
  split at matched
  · rw [← matchIntTypeWithValue_eq_ok matched]
    exact explains_of_constant (by simp [argumentTy]) (by simp [meetings])
      (by simp [replaceVariables])
  · rw [← matchIntTypeWithValue_eq_ok matched]
    exact explains_of_constant (by simp [argumentTy]) (by simp [meetings])
      (by simp [replaceVariables])
  iterate 4
    obtain rfl : empty = bindings := by simpa using matched
    exact explains_of_constant (by simp [argumentTy]) (by simp [meetings])
      (by simp [replaceVariables])
  · obtain ⟨actual, typed, matchedType⟩ := bind_eq_ok.mp matched
    have taken : argumentTy ty expr = .ok actual := by
      unfold argumentTy
      split <;> first | exact typed | grind
    have meetingsEq : argumentMeetings ty expr = meetings ty actual := by
      simp [argumentMeetings, taken]
    rw [meetingsEq]
    exact (matchType_explains matchedType).congr (by simp [taken])

private theorem checkArguments_explains (explainsStart : Explains ctx start meets instantiates)
    (checked : checkArguments ctx start params args = .ok bindings) :
    Explains ctx bindings (meets ++ callMeetings params args) (fun replacement =>
      instantiates replacement ∧ ArgumentsInstantiate replacement params args) := by
  induction params generalizing args start meets instantiates with
  | nil =>
    cases args with
    | nil =>
      obtain rfl : start = bindings := by simpa [checkArguments] using checked
      simpa [callMeetings, ArgumentsInstantiate] using explainsStart
    | cons => simp [checkArguments] at checked
  | cons _ _ ih =>
    cases args with
    | nil => simp [checkArguments] at checked
    | cons =>
      rw [checkArguments] at checked
      obtain ⟨_, matchedEq, rest⟩ := bind_eq_ok.mp checked
      obtain ⟨_, mergedEq, restChecked⟩ := bind_eq_ok.mp rest
      have explainsArgument := matchTypeWithValue_explains matchedEq
      have explainsAll := ih (explainsStart.merge explainsArgument mergedEq) restChecked
      rw [append_assoc] at explainsAll
      exact explainsAll.congr (by simp [ArgumentsInstantiate, and_assoc])

theorem checkArgumentList_explains
    (checked : checkArgumentList ctx name params args = .ok bindings) :
    Explains ctx bindings (callMeetings params args) (fun replacement =>
      ArgumentsInstantiate replacement params args) := by
  obtain ⟨_, _, argumentsChecked⟩ := bind_eq_ok.mp checked
  have explainsNothing : Explains ctx empty [] fun _ => True := Explains.nil fun _ => trivial
  simpa using checkArguments_explains explainsNothing argumentsChecked

/-! ## When the bindings give the type back -/

theorem replaceVariables_tyVar_of_mem (entry : (tyvarToTyparam tyvar, ty) ∈ bindings.entries) :
    replaceVariables bindings (.tyVar tyvar) = ty := by
  simp [replaceVariables, getBinding_eq_some.mpr entry]

theorem replaceVariables_tyVar_of_unbound
    (unbound : ∀ ty, (tyvarToTyparam tyvar, ty) ∉ bindings.entries) :
    replaceVariables bindings (.tyVar tyvar) = .tyVar tyvar := by
  have noBinding : bindings.getBinding (tyvarToTyparam tyvar) = none := by
    rw [Option.eq_none_iff_forall_ne_some]
    exact fun ty bound => unbound ty (getBinding_eq_some.mp bound)
  simp [replaceVariables, noBinding]

theorem TypeVar.canon_eq_iff : tyvar.canon = tyvar'.canon ↔
      sameTyVar tyvar tyvar' = true ∧ tyvar.constraints = tyvar'.constraints := by
  simp [← equalTypeVar_eq_true, equalTypeVar, sameTyVar, and_assoc]

theorem meetsItself_of_withoutUniverses_eq (same : sameTyVar tyvar tyvar' = true)
    (equal : ty.withoutUniverses = (tyVar tyvar').withoutUniverses) :
    meetsItself tyvar ty = true := by
  cases ty with
  | tyVar tyvar'' =>
    have canonEq : tyvar''.canon = tyvar'.canon := by simpa [canon] using equal
    have sameLast := (TypeVar.canon_eq_iff.mp canonEq).1
    simp only [meetsItself, sameTyVar, Bool.and_eq_true, decide_eq_true_eq,
      equalQident_eq_true] at same sameLast ⊢
    obtain ⟨⟨nameEq, univEq⟩, sourceEq⟩ := same
    obtain ⟨⟨nameEq', univEq'⟩, sourceEq'⟩ := sameLast
    exact ⟨⟨nameEq.trans nameEq'.symm, univEq.trans univEq'.symm⟩, sourceEq.trans sourceEq'.symm⟩
  | _ => simp [canon] at equal

/-- A variable that meets itself somewhere has the same constraints there, and
meets nothing but itself. -/
def OnlyMeetItself (meets : List (TypeVar × Ty)) : Prop :=
  ∀ tyvar tyvar', (tyvar, .tyVar tyvar') ∈ meets → sameTyVar tyvar tyvar' = true →
    tyvar.constraints = tyvar'.constraints ∧
      ∀ ty, (tyvar, ty) ∈ meets → meetsItself tyvar ty = true

/-- The bindings of a match give the type back exactly when no variable that
meets itself meets anything else. -/
theorem Explains.instantiates_bindings_iff (explains : Explains ctx bindings meets instantiates) :
    instantiates bindings ↔ OnlyMeetItself meets := by
  rw [explains.instantiates_iff]
  constructor
  · intro replaced tyvar tyvar' member same
    -- A binding of the variable would have replaced it by something else.
    have unbound : ∀ ty, (tyvarToTyparam tyvar, ty) ∉ bindings.entries := by
      intro _ entry
      obtain ⟨_, key, _, other⟩ := explains.met _ _ entry
      obtain rfl := tyvarToTyparam_inj.mp key
      have replacedHere := replaced tyvar _ member
      rw [GivesBack, replaceVariables_tyVar_of_mem entry] at replacedHere
      simp [meetsItself_of_withoutUniverses_eq same replacedHere] at other
    refine ⟨?_, ?_⟩
    · have unchanged := replaced tyvar _ member
      rw [GivesBack, replaceVariables_tyVar_of_unbound unbound] at unchanged
      have canonEq : tyvar.canon = tyvar'.canon := by simpa [canon] using unchanged
      exact (TypeVar.canon_eq_iff.mp canonEq).2
    · intro ty meeting
      by_contra other
      obtain ⟨ty', entry, _⟩ := explains.bound tyvar ty meeting (by simpa using other)
      exact unbound ty' entry
  · intro onlyItself tyvar ty member
    cases itself : meetsItself tyvar ty with
    | false =>
      obtain ⟨_, entry, same⟩ := explains.bound tyvar ty member itself
      rw [GivesBack, replaceVariables_tyVar_of_mem entry]
      exact (withoutUniverses_eq_of_withoutAliases_eq same).symm
    | true =>
      cases ty with
      | tyVar tyvar' =>
        obtain ⟨constraintsEq, noOther⟩ := onlyItself tyvar tyvar' member itself
        have unbound : ∀ ty, (tyvarToTyparam tyvar, ty) ∉ bindings.entries := by
          intro ty entry
          obtain ⟨_, key, meeting, other⟩ := explains.met _ _ entry
          obtain rfl := tyvarToTyparam_inj.mp key
          simp [noOther ty meeting] at other
        rw [GivesBack, replaceVariables_tyVar_of_unbound unbound]
        simpa [canon] using TypeVar.canon_eq_iff.mpr ⟨itself, constraintsEq⟩
      | _ => simp [meetsItself] at itself

/-- In every successful match, and in every call whose arguments are accepted,
replacing the variables by the bindings gives the type back, up to universes,
exactly when no variable that meets itself meets anything else. -/
theorem match_instantiates_iff_onlyMeetItself (ctx : MatchCtx) :
    (∀ a b bindings, matchType ctx a b = .ok bindings →
      ((replaceVariables bindings a).withoutUniverses = b.withoutUniverses ↔
        OnlyMeetItself (meetings a b))) ∧
    (∀ name params args bindings, checkArgumentList ctx name params args = .ok bindings →
      (ArgumentsInstantiate bindings params args ↔ OnlyMeetItself (callMeetings params args))) :=
  ⟨fun _ _ _ matched => (matchType_explains matched).instantiates_bindings_iff,
    fun _ _ _ _ checked => (checkArgumentList_explains checked).instantiates_bindings_iff⟩

/-- The type variable of a generic function `f` with one free type parameter. -/
def functionTyvar : TypeVar :=
  ⟨⟨"T"⟩, .free, ⟨⟨"Example"⟩, ⟨"f"⟩, ⟨"f"⟩⟩, []⟩

/-- A function type whose two parameters have the type of the variable, and one
of its instances. -/
theorem match_instantiates_at_unit : ∃ bindings,
      matchType ⟨emptyEnv, ⟨"Example"⟩⟩ (.fnPtr [.tyVar functionTyvar] (.tyVar functionTyvar))
        (.fnPtr [.unit] .unit) = .ok bindings ∧ (replaceVariables bindings
        (.fnPtr [.tyVar functionTyvar] (.tyVar functionTyvar))).withoutUniverses =
        (fnPtr [.unit] .unit).withoutUniverses := by
  refine exists_ok_and (by decide +kernel) fun bindings matched => ?_
  refine ((match_instantiates_iff_onlyMeetItself _).1 _ _ _ matched).mpr ?_
  intro _ _ member
  simp [meetings, meetingsList] at member

/-- A recursive call `f(x, true)` in the body of `f[T: Free](x: T, y: T)` is
accepted, although the first argument has type `T` and the call is made at
`Boolean`. -/
theorem recursive_call_argument_mistyped : ∃ bindings,
      checkArgumentList ⟨emptyEnv, ⟨"Example"⟩⟩ ⟨"f"⟩
        [⟨⟨"x"⟩, .tyVar functionTyvar⟩, ⟨⟨"y"⟩, .tyVar functionTyvar⟩]
        [.paramVar ⟨"x"⟩ (.tyVar functionTyvar), .boolConstant true] = .ok bindings ∧
      ¬ ArgumentsInstantiate bindings [⟨⟨"x"⟩, .tyVar functionTyvar⟩, ⟨⟨"y"⟩, .tyVar functionTyvar⟩]
        [.paramVar ⟨"x"⟩ (.tyVar functionTyvar), .boolConstant true] ∧ ∃ bindings',
        matchType ⟨emptyEnv, ⟨"Example"⟩⟩
          (.fnPtr [.tyVar functionTyvar, .tyVar functionTyvar] .unit)
          (.fnPtr [.tyVar functionTyvar, .boolean] .unit) = .ok bindings' ∧
        (replaceVariables bindings'
          (.fnPtr [.tyVar functionTyvar, .tyVar functionTyvar] .unit)).withoutUniverses ≠
          (fnPtr [.tyVar functionTyvar, .boolean] .unit).withoutUniverses := by
  have itself : sameTyVar functionTyvar functionTyvar = true := by decide
  refine exists_ok_and (by decide +kernel) fun _ checked => ⟨fun instantiated => ?_,
    exists_ok_and (by decide +kernel) fun _ matched replaced => ?_⟩
  · have onlyItself :=
      (checkArgumentList_explains checked).instantiates_bindings_iff.mp instantiated
    have other := (onlyItself functionTyvar functionTyvar
      (by simp [callMeetings, argumentMeetings, argumentTy, getType, meetings]) itself).2 .boolean
      (by simp [callMeetings, argumentMeetings, argumentTy, getType, meetings])
    simp [meetsItself] at other
  · have onlyItself := (matchType_explains matched).instantiates_bindings_iff.mp replaced
    have other := (onlyItself functionTyvar functionTyvar
      (by simp [meetings, meetingsList]) itself).2 .boolean (by simp [meetings, meetingsList])
    simp [meetsItself] at other

/-! ## When the bound parameters satisfy their constraints -/

/-- An instance of the named typeclass for the type is visible where matching
happens. -/
def HasVisibleInstance (ctx : MatchCtx) (ty : Ty) (typeclassName : SIdent) : Prop :=
  ∃ id modId vis name param record instances,
    ctx.env.getDeclByName typeclassName = .ok (some (.typeClass id modId vis name param)) ∧
    ctx.env.getModuleByName ctx.moduleName = some record ∧
    ctx.env.visibleInstances record.id = .ok instances ∧
    ∃ inst bindings, .instanceDecl inst ∈ instances ∧ inst.typeclassId = id ∧
      matchType ctx inst.argument ty = .ok bindings

/-- A type satisfies a constraint: a variable by carrying it, any other type by
having a visible instance. -/
def SatisfiesConstraint (ctx : MatchCtx) (ty : Ty) (typeclassName : SIdent) : Prop :=
  match ty with
  | .tyVar tyvar => typeclassName ∈ tyvar.constraints
  | ty => HasVisibleInstance ctx ty typeclassName

theorem tryConstraint_eq_ok (tried : tryConstraint ctx tyvar ty typeclassName = .ok ()) :
    HasVisibleInstance ctx ty typeclassName := by
  rw [tryConstraint] at tried
  obtain ⟨_, declared, resolved⟩ := bind_eq_ok.mp tried
  split at resolved
  · next id modId vis name param =>
    obtain ⟨found, foundEq, accepted⟩ := bind_eq_ok.mp resolved
    cases found with
    | none => simp [unsatisfiedConstraint] at accepted
    | some result =>
      obtain ⟨inst, bindings⟩ := result
      obtain ⟨record, instances, moduleFound, visible, member, ofClass, matched⟩ :=
        getInstance_eq_some foundEq
      exact ⟨id, modId, vis, name, param, record, instances, declared, moduleFound, visible,
        inst, bindings, member, ofClass, matched⟩
  · simp at resolved
  · simp at resolved

theorem satisfiesConstraint_of_checked (notTyVar : ty.isTyVar = false)
    (checked : checkTypeImplementsConstraints ctx tyvar ty tyvar.constraints = .ok ())
    (required : typeclassName ∈ tyvar.constraints) : SatisfiesConstraint ctx ty typeclassName := by
  rw [checkTypeImplementsConstraints, forM_eq_ok] at checked
  have visible := tryConstraint_eq_ok (checked typeclassName required)
  cases ty <;> simp_all [SatisfiesConstraint, isTyVar]

/-- Wherever a variable of the pattern meets another variable, that variable
carries its constraints. -/
def VariablesImplement (meets : List (TypeVar × Ty)) : Prop :=
  ∀ tyvar tyvar', (tyvar, .tyVar tyvar') ∈ meets → sameTyVar tyvar tyvar' = false →
    checkTyvarImplementsConstraints tyvar.constraints tyvar'.constraints = true

/-- In every successful match, the bound parameters satisfy their constraints
exactly when every variable met by a different variable implements them. -/
theorem bound_satisfy_constraints_iff (ctx : MatchCtx) (a b : Ty) (bindings : TypeBindings)
    (matched : matchType ctx a b = .ok bindings) :
    (∀ typaram ty, bindings.getBinding typaram = some ty →
      ∀ typeclassName ∈ typaram.constraints, SatisfiesConstraint ctx ty typeclassName) ↔
      VariablesImplement (meetings a b) := by
  have explains := matchType_explains matched
  constructor
  · intro satisfied tyvar tyvar' member different
    obtain ⟨ty, entry, same⟩ := explains.bound tyvar _ member (by simpa [meetsItself] using different)
    have satisfiedHere := satisfied _ ty (getBinding_eq_some.mpr entry)
    cases ty with
    | tyVar tyvar'' =>
      have canonEq : tyvar'.canon = tyvar''.canon := by simpa [canon] using same
      have constraintsEq := (TypeVar.canon_eq_iff.mp canonEq).2
      simpa [checkTyvarImplementsConstraints, constraintsEq, SatisfiesConstraint,
        tyvarToTyparam] using satisfiedHere
    | _ => simp [canon] at same
  · intro implement typaram ty bound typeclassName required
    obtain ⟨tyvar, rfl, member, other⟩ := explains.met typaram ty (getBinding_eq_some.mp bound)
    cases ty with
    | tyVar tyvar' =>
      have implemented := implement tyvar tyvar' member (by simpa [meetsItself] using other)
      simp only [checkTyvarImplementsConstraints, all_eq_true] at implemented
      simpa [SatisfiesConstraint] using implemented typeclassName required
    | _ => exact satisfiesConstraint_of_checked rfl (explains.checked tyvar _ member rfl) required

/-- The name of a typeclass `Printable`. -/
def printableName : SIdent := ⟨⟨"Example"⟩, ⟨"Printable"⟩⟩

/-- The type variable of a generic function `show` that requires `Printable`. -/
def showTyvar : TypeVar :=
  ⟨⟨"T"⟩, .free, ⟨⟨"Example"⟩, ⟨"show"⟩, ⟨"show"⟩⟩, [printableName]⟩

/-- The type variable of a generic caller, with the given constraints. -/
def callerTyvar (constraints : List SIdent) : TypeVar :=
  ⟨⟨"U"⟩, .free, ⟨⟨"Example"⟩, ⟨"caller"⟩, ⟨"caller"⟩⟩, constraints⟩

/-- A caller whose own variable requires `Printable` may call `show` at it. -/
theorem bound_satisfy_constraints_at_printable : ∃ bindings,
      matchType ⟨emptyEnv, ⟨"Example"⟩⟩ (.tyVar showTyvar) (.tyVar (callerTyvar [printableName])) =
        .ok bindings ∧ ∀ typaram ty, bindings.getBinding typaram = some ty →
        ∀ typeclassName ∈ typaram.constraints,
          SatisfiesConstraint ⟨emptyEnv, ⟨"Example"⟩⟩ ty typeclassName := by
  refine exists_ok_and (by decide +kernel) fun bindings matched => ?_
  refine (bound_satisfy_constraints_iff _ _ _ _ matched).mpr ?_
  intro _ _ member _
  obtain ⟨rfl, rfl⟩ := by simpa [meetings] using member
  decide

/-- A caller whose variable has no constraints is accepted as well: `show` is
bound to a variable that does not implement `Printable`. -/
theorem unconstrained_variable_accepted : ∃ bindings,
      matchType ⟨emptyEnv, ⟨"Example"⟩⟩ (.tyVar showTyvar) (.tyVar (callerTyvar [])) =
        .ok bindings ∧ ∃ ty, bindings.getBinding (tyvarToTyparam showTyvar) = some ty ∧
        printableName ∈ (tyvarToTyparam showTyvar).constraints ∧
        ¬ SatisfiesConstraint ⟨emptyEnv, ⟨"Example"⟩⟩ ty printableName := by
  refine exists_ok_and (by decide +kernel) fun bindings matched => ?_
  obtain ⟨ty, entry, same⟩ := (matchType_explains matched).bound showTyvar
    (.tyVar (callerTyvar [])) (by simp [meetings]) (by decide)
  refine ⟨ty, getBinding_eq_some.mpr entry, by decide, ?_⟩
  cases ty with
  | tyVar tyvar =>
    have canonEq : (callerTyvar []).canon = tyvar.canon := by simpa [canon] using same
    have noConstraints := (TypeVar.canon_eq_iff.mp canonEq).2
    simp [SatisfiesConstraint, ← noConstraints, callerTyvar]
  | _ => simp [canon] at same

end AustralVM
