import AustralVM.Errors

/-!
# Bindings of type parameters

A set of bindings maps type parameters to types.  The compiler keeps it in a
map keyed by the parameter's name, universe, source and constraints; here it is
an association list that carries the proof that no parameter is bound twice.
-/

namespace AustralVM

open AustralVM.Comp List

def universeString : Universe → String
  | .free => "Free"
  | .linear => "Linear"
  | .type => "Type"
  | .region => "Region"

/-- The universe of a type.  A monomorphized type has none without the
environment, so the question is an internal error. -/
def typeUniverse : Ty → Comp Universe
  | .unit | .boolean | .integer _ _ | .singleFloat | .doubleFloat => .ok .free
  | .namedType _ _ univ => .ok univ
  | .regionTy _ => .ok .region
  | .readRef _ _ | .span _ _ => .ok .free
  | .writeRef _ _ | .spanMut _ _ => .ok .linear
  | .tyVar tyvar => .ok tyvar.univ
  | .address _ | .pointer _ | .fnPtr _ _ => .ok .free
  | .monoTy _ => internalErr "You shouldn't be asking for the type_universe of a MonoTy"

/-- The universe an argument counts as when the universe of an application is
recomputed: a monomorphized argument counts as `Type`. -/
def argUniverseForEffective (ty : Ty) : Universe :=
  match typeUniverse ty with
  | .ok univ => univ
  | .error _ => .type

def anyArgIsLinear (args : List Ty) : Bool :=
  args.any fun arg => argUniverseForEffective arg = .linear

def anyArgIsType (args : List Ty) : Bool :=
  args.any fun arg => argUniverseForEffective arg = .type

def universeCompatible (param arg : Universe) : Bool :=
  match param with
  | .free => arg = .free
  | .linear => arg = .linear
  | .type => arg = .free || arg = .linear || arg = .type
  | .region => arg = .region

/-- The equality derived for type variables: their sources are compared without
the local alias. -/
def equalTypeVar (first second : TypeVar) : Bool :=
  first.name = second.name && first.univ = second.univ &&
    equalQident first.source second.source && first.constraints = second.constraints

mutual
/-- Equality of types, universes of named types included. -/
def equalTy : Ty → Ty → Comp Bool
  | .unit, .unit => .ok true
  | .boolean, .boolean => .ok true
  | .integer signedness width, .integer signedness' width' =>
    .ok (signedness = signedness' && width = width')
  | .singleFloat, .singleFloat => .ok true
  | .doubleFloat, .doubleFloat => .ok true
  | .namedType name args univ, .namedType name' args' univ' =>
    if equalQident name name' then
      if args.length = args'.length then do
        if ← equalTys args args' then
          return univ = univ'
        else
          return false
      else
        .error .invalidArgument
    else
      .ok false
  | .regionTy region, .regionTy region' => .ok (region = region')
  | .readRef ty region, .readRef ty' region' => do
    if ← equalTy ty ty' then equalTy region region' else return false
  | .writeRef ty region, .writeRef ty' region' => do
    if ← equalTy ty ty' then equalTy region region' else return false
  | .span ty region, .span ty' region' => do
    if ← equalTy ty ty' then equalTy region region' else return false
  | .spanMut ty region, .spanMut ty' region' => do
    if ← equalTy ty ty' then equalTy region region' else return false
  | .tyVar tyvar, .tyVar tyvar' => .ok (equalTypeVar tyvar tyvar')
  | .address ty, .address ty' => equalTy ty ty'
  | .pointer ty, .pointer ty' => equalTy ty ty'
  | .fnPtr args rt, .fnPtr args' rt' =>
    if args.length = args'.length then do
      if ← equalTys args args' then equalTy rt rt' else return false
    else
      .error .invalidArgument
  | .monoTy id, .monoTy id' => .ok (id = id')
  | _, _ => .ok false
/-- `List.for_all` of `equalTy` over two lists of one length. -/
def equalTys : List Ty → List Ty → Comp Bool
  | ty :: tys, ty' :: tys' => do
    if ← equalTy ty ty' then equalTys tys tys' else return false
  | _, _ => .ok true
end

def QIdent.canon (name : QIdent) : QIdent :=
  { name with localName := name.original }

/-- The type variable with its source's alias dropped. -/
def TypeVar.canon (tyvar : TypeVar) : TypeVar :=
  { tyvar with source := tyvar.source.canon }

mutual
/-- A type with the aliases of its names dropped and the universes of its named
types changed by a function. -/
def Ty.canon (change : Universe → Universe) : Ty → Ty
  | .namedType name args univ => .namedType name.canon (canonList change args) (change univ)
  | .readRef ty region => .readRef (ty.canon change) (region.canon change)
  | .writeRef ty region => .writeRef (ty.canon change) (region.canon change)
  | .span ty region => .span (ty.canon change) (region.canon change)
  | .spanMut ty region => .spanMut (ty.canon change) (region.canon change)
  | .tyVar tyvar => .tyVar tyvar.canon
  | .address ty => .address (ty.canon change)
  | .pointer ty => .pointer (ty.canon change)
  | .fnPtr args rt => .fnPtr (canonList change args) (rt.canon change)
  | .unit => .unit
  | .boolean => .boolean
  | .integer signedness width => .integer signedness width
  | .singleFloat => .singleFloat
  | .doubleFloat => .doubleFloat
  | .regionTy region => .regionTy region
  | .monoTy id => .monoTy id
/-- `List.map` of `Ty.canon`. -/
def Ty.canonList (change : Universe → Universe) : List Ty → List Ty
  | [] => []
  | ty :: tys => ty.canon change :: canonList change tys
end

open Ty

abbrev Ty.withoutAliases : Ty → Ty := canon id

/-- The type up to the aliases of its names and the universe annotations of its
named types. -/
abbrev Ty.withoutUniverses : Ty → Ty := canon fun _ => .free

theorem Ty.canonList_eq_map (change : Universe → Universe) (tys : List Ty) :
    canonList change tys = tys.map (canon change) := by
  induction tys with
  | nil => rfl
  | cons _ _ ih => simp [canonList, ih]

theorem Ty.canon_canon (change change' : Universe → Universe) (ty : Ty) :
    (ty.canon change).canon change' = ty.canon (change' ∘ change) := by
  induction ty using induction_parts with
  | step ty ih =>
    cases ty with simp only [parts, forall_mem_cons] at ih
    | namedType =>
      simp only [canon, canonList_eq_map, map_map, namedType.injEq]
      exact ⟨rfl, map_congr_left ih, rfl⟩
    | fnPtr =>
      simp only [canon, canonList_eq_map, map_map, fnPtr.injEq]
      exact ⟨map_congr_left ih.2, ih.1⟩
    | _ => simp [canon, TypeVar.canon, QIdent.canon, ih]

theorem Ty.withoutUniverses_eq_of_withoutAliases_eq {first second : Ty}
    (equal : first.withoutAliases = second.withoutAliases) :
    first.withoutUniverses = second.withoutUniverses := by
  have congruent := congrArg withoutUniverses equal
  simpa [withoutAliases, withoutUniverses, canon_canon] using congruent

theorem equalQident_eq_true : equalQident first second = true ↔ first.canon = second.canon := by
  cases first
  cases second
  simp [equalQident, QIdent.canon]

theorem equalTypeVar_eq_true : equalTypeVar first second = true ↔ first.canon = second.canon := by
  cases first
  cases second
  simp [equalTypeVar, TypeVar.canon, equalQident_eq_true, and_assoc]

mutual
theorem equalTy_ok_true {first second : Ty} (equal : equalTy first second = .ok true) :
    first.withoutAliases = second.withoutAliases := by
  cases first with
  | namedType _ _ univ =>
    cases second with
    | namedType _ _ univ' =>
      simp only [equalTy] at equal
      split_ifs at equal with namesEqual lengthEq
      · obtain ⟨argsAgree, argsResult, universesAgree⟩ := bind_eq_ok.mp equal
        cases argsAgree with
        | false => simp at universesAgree
        | true =>
          have sameUniverse : univ = univ' := by simpa using universesAgree
          have sameArgs := equalTys_ok_true lengthEq argsResult
          simp [canon, equalQident_eq_true.mp namesEqual, sameArgs, sameUniverse]
      · simp at equal
    | _ => simp [equalTy] at equal
  | fnPtr _ rt =>
    cases second with
    | fnPtr _ rt' =>
      simp only [equalTy] at equal
      split_ifs at equal with lengthEq
      obtain ⟨argsAgree, argsResult, rtAgrees⟩ := bind_eq_ok.mp equal
      cases argsAgree with
      | false => simp at rtAgrees
      | true =>
        have sameArgs := equalTys_ok_true lengthEq argsResult
        have sameRt : equalTy rt rt' = .ok true := by simpa using rtAgrees
        simp [canon, sameArgs, equalTy_ok_true sameRt]
    | _ => simp [equalTy] at equal
  | readRef | writeRef | span | spanMut =>
    cases second <;> simp only [equalTy, Except.ok.injEq, reduceCtorEq] at equal
    obtain ⟨tyAgrees, tyResult, regionAgrees⟩ := bind_eq_ok.mp equal
    cases tyAgrees with
    | false => simp at regionAgrees
    | true =>
      rw [if_pos rfl] at regionAgrees
      simp [canon, equalTy_ok_true tyResult, equalTy_ok_true regionAgrees]
  | address | pointer =>
    cases second <;> simp only [equalTy, Except.ok.injEq, reduceCtorEq] at equal
    simp [canon, equalTy_ok_true equal]
  | tyVar =>
    cases second <;> simp only [equalTy, Except.ok.injEq, reduceCtorEq] at equal
    simpa [canon] using equalTypeVar_eq_true.mp equal
  | _ => cases second <;> simp_all [equalTy, canon]
theorem equalTys_ok_true {tys tys' : List Ty} (lengthEq : tys.length = tys'.length)
    (equal : equalTys tys tys' = .ok true) : canonList id tys = canonList id tys' := by
  match tys, tys', lengthEq with
  | [], [], _ => rfl
  | ty :: tys, ty' :: tys', lengthEq =>
    simp only [equalTys, bind_eq_ok] at equal
    obtain ⟨headsEqual, headResult, tailResult⟩ := equal
    cases headsEqual with
    | false => simp at tailResult
    | true =>
      rw [if_pos rfl] at tailResult
      simp only [canonList, List.cons.injEq]
      exact ⟨equalTy_ok_true headResult, equalTys_ok_true (Nat.succ.inj lengthEq) tailResult⟩
end

structure TypeBindings where
  entries : List (TypeParameter × Ty)
  nodupKeys : (entries.map Prod.fst).Nodup
  deriving Repr

namespace TypeBindings

def empty : TypeBindings := ⟨[], nodup_nil⟩

def getBinding (bindings : TypeBindings) (typaram : TypeParameter) : Option Ty :=
  bindings.entries.lookup typaram

variable {typaram : TypeParameter} {bindings bindings' : TypeBindings} {ty : Ty}

private theorem not_mem_keys_of_lookup_eq_none {entries : List (TypeParameter × Ty)}
    (absent : entries.lookup typaram = none) : typaram ∉ entries.map Prod.fst := by
  rw [lookup_eq_none_iff] at absent
  intro member
  obtain ⟨entry, entryMember, entryKey⟩ := mem_map.mp member
  simpa [entryKey] using absent entry entryMember

/-- The bindings with an unbound parameter bound. -/
def insert (bindings : TypeBindings) (typaram : TypeParameter) (ty : Ty)
    (absent : bindings.getBinding typaram = none) : TypeBindings :=
  ⟨(typaram, ty) :: bindings.entries,
    nodup_cons.mpr ⟨not_mem_keys_of_lookup_eq_none absent, bindings.nodupKeys⟩⟩

def typaramRedefinition (typaram : TypeParameter) (was redef : Ty) : Comp TypeBindings :=
  australRaise .typeError
    [.text "The type parameter ", .code typaram.name.string,
      .text " cannot be bound to both ", .type was, .text " and ", .type redef]

def typaramWrongUniverse (typaram : TypeParameter) (ty : Ty) (expected actual : Universe) :
    Comp TypeBindings :=
  australRaise .typeError
    [.text "The type parameter ", .code typaram.name.string, .text " must be ",
      .code (universeString expected), .text " but ", .type ty, .text " is ",
      .code (universeString actual)]

/-- Bind a parameter.  A second binding has to agree with the first; a new one
has to be in the parameter's universe, unless its type is monomorphized. -/
def addBinding (bindings : TypeBindings) (typaram : TypeParameter) (ty : Ty) :
    Comp TypeBindings :=
  match bound : bindings.getBinding typaram with
  | some was => do
    if ← equalTy ty was then
      return bindings
    else
      typaramRedefinition typaram was ty
  | none =>
    match ty with
    | .monoTy id => .ok (bindings.insert typaram (.monoTy id) bound)
    | ty => do
      let actual ← typeUniverse ty
      if universeCompatible typaram.univ actual then
        return bindings.insert typaram ty bound
      else
        typaramWrongUniverse typaram ty typaram.univ actual

def addBindings (bindings : TypeBindings) : List (TypeParameter × Ty) → Comp TypeBindings
  | (typaram, ty) :: rest => do addBindings (← bindings.addBinding typaram ty) rest
  | [] => .ok bindings

def mergeBindings (first second : TypeBindings) : Comp TypeBindings := do
  let merged ← empty.addBindings first.entries
  merged.addBindings second.entries

theorem lookup_eq_some_iff_mem [DecidableEq Key] {entries : List (Key × Value)}
    (nodup : (entries.map Prod.fst).Nodup) {key : Key} {value : Value} :
    entries.lookup key = some value ↔ (key, value) ∈ entries := by
  induction entries with
  | nil => simp
  | cons entry entries ih =>
    obtain ⟨other, _⟩ := entry
    obtain ⟨keyFresh, tailNodup⟩ := nodup_cons.mp nodup
    by_cases keyEq : key = other
    · subst keyEq
      have notLater : (key, value) ∉ entries := fun member =>
        keyFresh (mem_map.mpr ⟨_, member, rfl⟩)
      simp [notLater, eq_comm]
    · have keyNe : (key == other) = false := by simpa using keyEq
      simp [lookup_cons, keyNe, keyEq, ih tailNodup]

theorem getBinding_eq_some :
    bindings.getBinding typaram = some ty ↔ (typaram, ty) ∈ bindings.entries :=
  lookup_eq_some_iff_mem bindings.nodupKeys

/-- What a successful `addBinding` does: it finds an equal binding and changes
nothing, or it adds the pair as a new entry. -/
theorem addBinding_eq_ok (added : bindings.addBinding typaram ty = .ok bindings') :
    (∃ was, bindings.getBinding typaram = some was ∧
      ty.withoutAliases = was.withoutAliases ∧ bindings' = bindings) ∨
    (bindings.getBinding typaram = none ∧
      bindings'.entries = (typaram, ty) :: bindings.entries) := by
  unfold addBinding at added
  split at added
  · next was bound =>
    obtain ⟨agree, agreeResult, kept⟩ := bind_eq_ok.mp added
    cases agree with
    | false => simp [typaramRedefinition] at kept
    | true =>
      obtain rfl : bindings = bindings' := by simpa using kept
      exact .inl ⟨was, bound, equalTy_ok_true agreeResult, rfl⟩
  · next absent =>
    refine .inr ⟨absent, ?_⟩
    split at added
    · simp only [Except.ok.injEq] at added
      simp [← added, insert]
    · obtain ⟨_, _, inserted⟩ := bind_eq_ok.mp added
      split_ifs at inserted
      · simp only [pure_eq_ok] at inserted
        simp [← inserted, insert]
      · simp [typaramWrongUniverse] at inserted

/-- How one set of bindings covers a list of pairs: every pair is bound, up to
aliases, in the larger set. -/
def Covers (bindings : TypeBindings) (pairs : List (TypeParameter × Ty)) : Prop :=
  ∀ typaram ty, (typaram, ty) ∈ pairs →
    ∃ ty', (typaram, ty') ∈ bindings.entries ∧ ty.withoutAliases = ty'.withoutAliases

private theorem addBinding_entries (added : bindings.addBinding typaram ty = .ok bindings') :
    bindings.entries ⊆ bindings'.entries ∧ bindings'.entries ⊆ (typaram, ty) :: bindings.entries ∧
      bindings'.Covers [(typaram, ty)] := by
  rcases addBinding_eq_ok added with ⟨was, bound, same, rfl⟩ | ⟨_, entriesEq⟩
  · refine ⟨List.Subset.refl _, subset_cons_self _ _, ?_⟩
    intro _ _ member
    obtain ⟨rfl, rfl⟩ := by simpa using member
    exact ⟨was, getBinding_eq_some.mp bound, same⟩
  · rw [entriesEq]
    refine ⟨subset_cons_self _ _, List.Subset.refl _, ?_⟩
    intro _ ty' member
    obtain ⟨rfl, rfl⟩ := by simpa using member
    exact ⟨ty', by simp [entriesEq], rfl⟩

/-- What a successful `addBindings` does: it keeps every entry, adds no entry
that is not in the list, and covers the list. -/
theorem addBindings_eq_ok (added : bindings.addBindings pairs = .ok bindings') :
    bindings.entries ⊆ bindings'.entries ∧ bindings'.entries ⊆ pairs ++ bindings.entries ∧
      bindings'.Covers pairs := by
  induction pairs generalizing bindings with
  | nil =>
    obtain rfl : bindings = bindings' := by simpa [addBindings] using added
    exact ⟨List.Subset.refl _, by simp, by simp [Covers]⟩
  | cons pair _ ih =>
    obtain ⟨typaram, ty⟩ := pair
    obtain ⟨middle, firstAdded, restAdded⟩ := bind_eq_ok.mp added
    obtain ⟨keepsFirst, fromFirst, coversFirst⟩ := addBinding_entries firstAdded
    obtain ⟨keepsRest, fromRest, coversRest⟩ := ih restAdded
    refine ⟨List.Subset.trans keepsFirst keepsRest, ?_, ?_⟩
    · intro entry member
      have inMiddle := mem_append.mp (fromRest member)
      have inFirst : entry ∈ middle.entries → entry = (typaram, ty) ∨ entry ∈ bindings.entries :=
        fun inMiddle => by simpa using fromFirst inMiddle
      simp only [cons_append, mem_cons, mem_append]
      tauto
    · intro typaram' ty' member
      rcases mem_cons.mp member with equal | inRest
      · obtain ⟨ty'', inMiddle, same⟩ := coversFirst typaram' ty' (by simp [equal])
        exact ⟨ty'', keepsRest inMiddle, same⟩
      · exact coversRest typaram' ty' inRest

theorem mergeBindings_eq_ok (mergedEq : mergeBindings first second = .ok merged) :
    merged.entries ⊆ first.entries ++ second.entries ∧
      merged.Covers first.entries ∧ merged.Covers second.entries := by
  obtain ⟨_, firstAdded, secondAdded⟩ := bind_eq_ok.mp mergedEq
  obtain ⟨_, fromFirst, coversFirst⟩ := addBindings_eq_ok firstAdded
  obtain ⟨keepsMiddle, fromSecond, coversSecond⟩ := addBindings_eq_ok secondAdded
  refine ⟨?_, ?_, coversSecond⟩
  · intro _ member
    rcases mem_append.mp (fromSecond member) with inSecond | inMiddle
    · exact mem_append_right _ inSecond
    · have inFirst := fromFirst inMiddle
      exact mem_append_left _ (by simpa [empty] using inFirst)
  · intro typaram ty member
    obtain ⟨ty', inMiddle, same⟩ := coversFirst typaram ty member
    exact ⟨ty', keepsMiddle inMiddle, same⟩

end TypeBindings

mutual
/-- Replace the bound variables of a type, recomputing the universe of named
types declared in the `Type` universe. -/
@[grind =] def replaceVariables (bindings : TypeBindings) : Ty → Ty
  | .namedType name args univ =>
    let args' := replaceVariablesList bindings args
    if univ = .type then
      .namedType name args'
        (if anyArgIsLinear args' then .linear
          else if anyArgIsType args' then .type
          else .free)
    else
      .namedType name args' univ
  | .tyVar tyvar =>
    match bindings.getBinding (tyvarToTyparam tyvar) with
    | some ty => ty
    | none => .tyVar tyvar
  | .readRef ty region => .readRef (replaceVariables bindings ty) (replaceVariables bindings region)
  | .writeRef ty region =>
    .writeRef (replaceVariables bindings ty) (replaceVariables bindings region)
  | .span ty region => .span (replaceVariables bindings ty) (replaceVariables bindings region)
  | .spanMut ty region => .spanMut (replaceVariables bindings ty) (replaceVariables bindings region)
  | .address ty => .address (replaceVariables bindings ty)
  | .pointer ty => .pointer (replaceVariables bindings ty)
  | .fnPtr args rt => .fnPtr (replaceVariablesList bindings args) (replaceVariables bindings rt)
  | .unit => .unit
  | .boolean => .boolean
  | .integer signedness width => .integer signedness width
  | .singleFloat => .singleFloat
  | .doubleFloat => .doubleFloat
  | .regionTy region => .regionTy region
  | .monoTy id => .monoTy id
/-- `List.map` of `replaceVariables`. -/
def replaceVariablesList (bindings : TypeBindings) : List Ty → List Ty
  | [] => []
  | ty :: tys => replaceVariables bindings ty :: replaceVariablesList bindings tys
end

end AustralVM
