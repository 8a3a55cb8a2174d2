import AustralVM.CpsLowering
import AustralVM.CpsSemantics
import AustralVM.CSemantics

/-!
# The arms of a `case` statement on the two routes

The C backend switches on the tag of the scrutinee.  The CPS lowering puts the
tag into the variable `__match_tag` and turns the arms into conditionals one
after another, each of which compares that variable anew.  Every case statement
uses the same variable, so an arm that runs a case statement of its own may leave
another number in it.  What an arm may leave there is read off its text, for any
nesting of case statements in it.
-/

namespace AustralVM

open BitVec (ofNat)
open Option (some)
open CGen (bind_eq_ok)

variable {ω ω' : Type}

/-! ## The arms that run -/

/-- The positions of the conditionals that run, in order. -/
def armsRun (host : CpsHost ω') (limit : Nat) : CpsStmt → Nat → CpsState ω' → List Nat
  | .block (.ifStmt condition body _) rest, position, state =>
    match testIn host condition state with
    | some (true, state) =>
      position :: match exec host limit body state with
        | some (.next state) => armsRun host limit rest (position + 1) state
        | _ => []
    | some (false, state) => armsRun host limit rest (position + 1) state
    | none => []
  | _, _, _ => []

/-- The arms that run in a lowered case statement: the scrutinee and its tag are
loaded, and then the arms are tried. -/
def caseArmsRunCps (host : CpsHost ω') (limit : Nat) : CpsStmt → CpsState ω' → List Nat
  | .block scrutinee (.block tag arms), state =>
    match exec host limit (.block scrutinee tag) state with
    | some (.next state) => armsRun host limit arms 0 state
    | _ => []
  | _, _ => []

/-- The tag that a generated case statement switches on, and the state then. -/
def caseTagC (cHost : CHost ω) (limit : Nat) : CStmt → CState ω → Option (Int × CState ω)
  | .block [scrutinee, .switch accessor _], state =>
    match execC cHost limit scrutinee state with
    | some (.next state) =>
      match evalC cHost accessor state with
      | some (.int _ tag, state) => some (tag, state)
      | _ => none
    | _ => none
  | _, _ => none

/-- The arm that a generated case statement runs. -/
def caseArmsRunC (cHost : CHost ω) (limit : Nat) (stmt : CStmt) (state : CState ω) : List Nat :=
  match stmt, caseTagC cHost limit stmt state with
  | .block [_, .switch _ cases], some (tag, state) => (selectedCase cHost cases tag state).toList
  | _, _ => []

/-! ## What the variable may hold -/

/-- The words that `__match_tag` may hold once a variable has been set. -/
def setVariable (name : String) (tags : Set Word) : Set Word :=
  {tag | tags.Nonempty ∧ (tag ∈ tags ∨ name = "__match_tag")}

def setVariables (names : List String) (tags : Set Word) : Set Word :=
  names.foldl (fun tags name => setVariable name tags) tags

/-- What any number of rounds may lead to. -/
def afterRounds (round : Set Word → Set Word) (tags : Set Word) : Set Word :=
  {tag | ∃ count, tag ∈ round^[count] tags}

def renames (bindings : List MonoBinding) : List String :=
  bindings.map fun binding => binding.rename.string

/-- The variable that the code of an assignment sets. -/
def assignedVariable : CpsExpr → String
  | .var name => name
  | _ => "__assign_target"

section TagsAfter

variable (tables : CpsTables)

def armWord (scrutineeTy : MonoTy) (arm : MTypedWhen MStmt) (position : Nat) : Word :=
  ofNat 64 (tables.armNumber scrutineeTy arm.name position)

def armWords (scrutineeTy : MonoTy) (whens : List (MTypedWhen MStmt)) : Set Word :=
  {tag | ∃ position arm, whens[position]? = some arm ∧ tag = armWord tables scrutineeTy arm position}

mutual

/-- The words that `__match_tag` may hold when a statement goes on, given those
that it may hold before.  A case statement puts the number of one of its arms
there, and then every arm runs whose number it is when the arm is reached. -/
def tagsAfter : MStmt → Set Word → Set Word
  | .skip, tags | .discarding _, tags => tags
  | .letStmt name _ body, tags => tagsAfter body (setVariable name.string tags)
  | .borrow _ rename _ _ _ body _, tags => tagsAfter body (setVariable rename.string tags)
  | .destructure bindings _ body, tags =>
    tagsAfter body (setVariables ("__destructure_tmp" :: renames bindings) tags)
  | .assign lvalue _, tags => setVariable (assignedVariable (convertExpr tables lvalue)) tags
  | .assignVar name _, tags | .initialAssign name _, tags =>
    setVariable name.original.string tags
  | .letTmp name _ _, tags | .assignTmp name _, tags => setVariable name.string tags
  | .ifStmt _ consequent alternative, tags => tagsAfter consequent tags ∪ tagsAfter alternative tags
  | .caseStmt scrutinee whens _, tags =>
    tagsAfterArms (getExprType scrutinee) whens 0
      {tag | tags.Nonempty ∧ tag ∈ armWords tables (getExprType scrutinee) whens}
  | .whileStmt _ body, tags => afterRounds (tagsAfter body) tags
  | .forStmt name _ _ body, tags =>
    afterRounds (fun tags => setVariable name.string (tagsAfter body tags))
      (setVariable name.string tags)
  | .block first second, tags => tagsAfter second (tagsAfter first tags)
  | .returnStmt _, _ => ∅

def tagsAfterArms (scrutineeTy : MonoTy) : List (MTypedWhen MStmt) → Nat → Set Word → Set Word
  | [], _, tags => tags
  | ⟨name, bindings, body⟩ :: whens, position, tags =>
    let word := ofNat 64 (tables.armNumber scrutineeTy name position)
    tagsAfterArms scrutineeTy whens (position + 1)
      (tagsAfter body (setVariables (renames bindings) (tags ∩ {word})) ∪ tags \ {word})

end

/-- The words that `__match_tag` may hold after an arm that is run at a number. -/
def tagsAfterArm (arm : MTypedWhen MStmt) (number : Nat) : Set Word :=
  tagsAfter tables arm.body (setVariables (renames arm.bindings) {ofNat 64 number})

end TagsAfter

/-! ## Case statements that find their arm -/

section CasesMatch

variable (host : CpsHost ω') (limit : Nat)

/-- If the code goes on, it does so in a state with the property. -/
def After (code : CpsStmt) (property : CpsState ω' → Prop) (entry : CpsState ω') : Prop :=
  ∀ leaving, exec host limit code entry = some (.next leaving) → property leaving

def AfterAll (codes : List CpsStmt) (property : CpsState ω' → Prop) : CpsState ω' → Prop :=
  codes.foldr (After host limit) property

def EachRound (condition : CpsExpr) (body : CpsStmt) (property : CpsState ω' → Prop)
    (entry : CpsState ω') : Prop :=
  ∀ state ∈ rounds (testIn host condition) (exec host limit body) limit entry, property state

variable (tables : CpsTables)

def destructureLoads (bindings : List MonoBinding) (value : MExpr) : List CpsStmt :=
  .letStmt "__destructure_tmp" (convertExpr tables value) .skip ::
    bindings.map fun binding => loadSlot binding.rename.string "__destructure_tmp"
      (tables.slotOffset (getExprType value) binding.name)

mutual

/-- In the run of a statement, every case statement that is reached finds the
number of one of its arms: values have the tags of their types. -/
def CasesMatch : MStmt → CpsState ω' → Prop
  | .letStmt name ty body =>
    After host limit (.letStmt name.string (zeroValue (monoTyToCpsType ty)) .skip)
      (CasesMatch body)
  | .borrow _ rename _ _ _ body _ =>
    After host limit (.letStmt rename.string (.intLit 0) .skip) (CasesMatch body)
  | .destructure bindings value body =>
    AfterAll host limit (destructureLoads tables bindings value) (CasesMatch body)
  | .ifStmt condition consequent alternative => fun entry =>
    ∀ holds state, testIn host (convertExpr tables condition) entry = some (holds, state) →
      if holds then CasesMatch consequent state else CasesMatch alternative state
  | .caseStmt scrutinee whens _ =>
    AfterAll host limit [.letStmt "__match_scrutinee" (convertExpr tables scrutinee) .skip,
        tagLoad (getExprType scrutinee)] fun entry =>
      entry.vars "__match_tag" ∈ armWords tables (getExprType scrutinee) whens ∧
        CasesMatchArms (getExprType scrutinee) whens 0 entry
  | .whileStmt condition body =>
    EachRound host limit (convertExpr tables condition) (convertStmt tables body) (CasesMatch body)
  | .forStmt name start final body =>
    After host limit (.letStmt name.string (convertExpr tables start) .skip)
      (EachRound host limit (.binary .cmpLt (.var name.string) (convertExpr tables final))
        (.block (convertStmt tables body)
          (.assign name.string (.binary .add (.var name.string) (.intLit 1)))) (CasesMatch body))
  | .block first second => fun entry =>
    CasesMatch first entry ∧ After host limit (convertStmt tables first) (CasesMatch second) entry
  | _ => fun _ => True

def CasesMatchArms (scrutineeTy : MonoTy) :
    List (MTypedWhen MStmt) → Nat → CpsState ω' → Prop
  | [], _ => fun _ => True
  | ⟨name, bindings, body⟩ :: whens, position => fun entry =>
    let number := tables.armNumber scrutineeTy name position
    (entry.vars "__match_tag" = ofNat 64 number →
        AfterAll host limit (caseBindings "__match_scrutinee" bindings) (CasesMatch body) entry) ∧
      After host limit (armStmt number bindings (convertStmt tables body))
        (CasesMatchArms scrutineeTy whens (position + 1)) entry

end

end CasesMatch

section TagsLead

variable (host : CpsHost ω') (limit : Nat)

/-- From the states with the property, code takes the one set of words in
`__match_tag` to the other. -/
def TagsLead (code : CpsStmt) (property : CpsState ω' → Prop) (before after : Set Word) : Prop :=
  ∀ entry leaving, property entry → entry.vars "__match_tag" ∈ before →
    exec host limit code entry = some (.next leaving) → leaving.vars "__match_tag" ∈ after

variable {host limit} {before between after : Set Word} {property : CpsState ω' → Prop}

theorem mem_setVariable {state : CpsState ω'} (held : state.vars "__match_tag" ∈ before)
    (name : String) (word : Word) :
    (state.set name word).vars "__match_tag" ∈ setVariable name before := by
  refine ⟨⟨_, held⟩, ?_⟩
  by_cases same : name = "__match_tag"
  · exact .inr same
  · rw [CpsState.vars_set_of_ne _ (Ne.symm same)]
    exact .inl held

theorem vars_of_evalIn (evaluated : evalIn host expr state = some (word, state')) :
    state'.vars = state.vars := by
  obtain ⟨_, -, same⟩ := Option.map_eq_some_iff.mp evaluated
  obtain ⟨-, rfl⟩ := Prod.mk.inj same
  rfl

theorem vars_of_testIn (tested : testIn host condition state = some (holds, state')) :
    state'.vars = state.vars := by
  obtain ⟨⟨_, _⟩, evaluated, same⟩ := Option.map_eq_some_iff.mp tested
  obtain ⟨-, rfl⟩ := Prod.mk.inj same
  exact vars_of_evalIn evaluated

theorem testIn_tag (number : Nat) (state : CpsState ω') :
    testIn host (.binary .cmpEq (.var "__match_tag") (wordLit number)) state =
      some (state.vars "__match_tag" == ofNat 64 number, state) := by
  simp only [testIn, evalIn, evalExpr, wordLit, CpsBinop.compute]
  by_cases equal : state.vars "__match_tag" = ofNat 64 number <;> simp [wordOfBool, equal]

namespace TagsLead

theorem skip : TagsLead host limit .skip property before before := by
  intro _ _ _ held ran
  cases ran
  exact held

theorem discard : TagsLead host limit (.discard value) property before before := by
  intro _ _ _ held ran
  obtain ⟨⟨_, _⟩, evaluated, rest⟩ := Option.bind_eq_some_iff.mp ran
  rw [← vars_of_evalIn evaluated] at held
  cases rest
  exact held

theorem returnStmt : TagsLead host limit (.returnStmt value) property before ∅ := by
  intro _ _ _ _ ran
  obtain ⟨_, -, stops⟩ := Option.map_eq_some_iff.mp ran
  cases stops

theorem assign :
    TagsLead host limit (.assign name value) property before (setVariable name before) := by
  intro _ _ _ held ran
  obtain ⟨⟨word, _⟩, evaluated, rest⟩ := Option.bind_eq_some_iff.mp ran
  rw [← vars_of_evalIn evaluated] at held
  cases rest
  exact mem_setVariable held name word

theorem letStmt (body : TagsLead host limit code property (setVariable name before) after) :
    TagsLead host limit (.letStmt name value code)
      (After host limit (.letStmt name value .skip) property) before after := by
  intro _ _ later held ran
  obtain ⟨⟨word, _⟩, evaluated, rest⟩ := Option.bind_eq_some_iff.mp ran
  rw [← vars_of_evalIn evaluated] at held
  refine body _ _ (later _ ?_) (mem_setVariable held name word) rest
  rw [exec, evaluated]
  rfl

theorem letTmp :
    TagsLead host limit (.letStmt name value .skip) property before (setVariable name before) :=
  fun _ _ _ => letStmt skip _ _ fun _ _ => trivial

theorem block (first : TagsLead host limit code property before between)
    (second : TagsLead host limit code' property' between after) :
    TagsLead host limit (.block code code')
      (fun entry => property entry ∧ After host limit code property' entry) before after := by
  intro _ _ both held ran
  obtain ⟨ending, firstRan, rest⟩ := Option.bind_eq_some_iff.mp ran
  cases ending with
  | next => exact second _ _ (both.2 _ firstRan) (first _ _ both.1 held firstRan) rest
  | stop => cases rest

theorem following (first : TagsLead host limit code (fun _ => True) before between)
    (second : TagsLead host limit code' property between after) :
    TagsLead host limit (.block code code') (After host limit code property) before after :=
  fun entry leaving later => block first second entry leaving ⟨trivial, later⟩

theorem ifStmt (consequent : TagsLead host limit code property before after)
    (alternative : TagsLead host limit code' property' before after') :
    TagsLead host limit (.ifStmt condition code code')
      (fun entry => ∀ holds state, testIn host condition entry = some (holds, state) →
        if holds then property state else property' state) before (after ∪ after') := by
  intro _ _ either held ran
  obtain ⟨⟨holds, _⟩, tested, rest⟩ := Option.bind_eq_some_iff.mp ran
  have present := either _ _ tested
  rw [← vars_of_testIn tested] at held
  cases holds with
  | true => exact .inl (consequent _ _ present held rest)
  | false => exact .inr (alternative _ _ present held rest)

/-- Induction on the rounds that are left, for every set the next one begins with. -/
theorem whileStmt {round : Set Word → Set Word}
    (body : ∀ tags, TagsLead host limit code property tags (round tags)) :
    TagsLead host limit (.whileStmt condition code) (EachRound host limit condition code property)
      before (afterRounds round before) := by
  suffices ∀ (left : Nat) (before : Set Word) (entry leaving : CpsState ω'),
      (∀ state ∈ rounds (testIn host condition) (exec host limit code) left entry,
        property state) → entry.vars "__match_tag" ∈ before →
      iterate (testIn host condition) (exec host limit code) left entry = some (.next leaving) →
      leaving.vars "__match_tag" ∈ afterRounds round before from
    fun entry leaving => this limit before entry leaving
  intro left
  induction left with
  | zero =>
    intro _ _ _ _ _ ran
    cases ran
  | succ left ih =>
    intro before entry leaving each held ran
    obtain ⟨⟨holds, state⟩, tested, continued⟩ := Option.bind_eq_some_iff.mp ran
    rw [← vars_of_testIn tested] at held
    cases holds with
    | false =>
      cases continued
      exact ⟨0, held⟩
    | true =>
      obtain ⟨ending, ranBody, others⟩ := Option.bind_eq_some_iff.mp continued
      cases ending with
      | stop => cases others
      | next following =>
        rw [rounds_of_next tested ranBody] at each
        have first := body _ _ _ (each _ List.mem_cons_self) held ranBody
        obtain ⟨count, reached⟩ :=
          ih _ _ _ (fun _ later => each _ (List.mem_cons_of_mem _ later)) first others
        exact ⟨count + 1, reached⟩

theorem arm (body : TagsLead host limit code property (before ∩ {ofNat 64 number}) after) :
    TagsLead host limit
      (.ifStmt (.binary .cmpEq (.var "__match_tag") (wordLit number)) code .skip)
      (fun entry => entry.vars "__match_tag" = ofNat 64 number → property entry)
      before (after ∪ before \ {ofNat 64 number}) := by
  intro entry _ selected held ran
  rw [exec, testIn_tag] at ran
  by_cases equal : entry.vars "__match_tag" = ofNat 64 number
  · rw [equal, beq_self_eq_true] at ran
    exact .inl (body _ _ (selected equal) ⟨held, equal⟩ ran)
  · rw [beq_eq_false_iff_ne.mpr equal] at ran
    cases ran
    exact .inr ⟨held, equal⟩

theorem loads {names : List String} (loads : List.Forall₂ (fun load name =>
      ∃ value, load = CpsStmt.letStmt name value .skip) codes names)
    (body : TagsLead host limit code property (setVariables names before) after) :
    TagsLead host limit (blockOf codes code) (AfterAll host limit codes property) before after := by
  induction loads generalizing before with
  | nil => exact body
  | cons load _ ih =>
    obtain ⟨_, rfl⟩ := load
    exact following letTmp (ih body)

end TagsLead

variable {tables : CpsTables}

theorem loads_caseBindings (tmp : String) (bindings : List MonoBinding) :
    List.Forall₂ (fun load name => ∃ value, load = CpsStmt.letStmt name value .skip)
      (caseBindings tmp bindings) (renames bindings) := by
  refine List.forall₂_iff_get.mpr ⟨by simp [caseBindings, renames], fun position _ _ => ?_⟩
  simp [caseBindings, renames, loadSlot]

theorem loads_destructure (bindings : List MonoBinding) (value : MExpr) :
    List.Forall₂ (fun load name => ∃ value, load = CpsStmt.letStmt name value .skip)
      (destructureLoads tables bindings value) ("__destructure_tmp" :: renames bindings) := by
  refine .cons ⟨_, rfl⟩ ?_
  rw [renames, List.forall₂_map_left_iff, List.forall₂_map_right_iff, List.forall₂_same]
  exact fun _ _ => ⟨_, rfl⟩

theorem exists_tagLoad (ty : MonoTy) : ∃ value, tagLoad ty = .letStmt "__match_tag" value .skip := by
  cases ty <;> exact ⟨_, rfl⟩

mutual

/-- The lowered code of a statement leaves a word that its text says it may leave:
by induction on the nesting of statements. -/
theorem tagsLead_convertStmt (tags : Set Word) : ∀ stmt : MStmt,
    TagsLead host limit (convertStmt tables stmt) (CasesMatch host limit tables stmt) tags
      (tagsAfter tables stmt tags)
  | .skip => .skip
  | .discarding _ => .discard
  | .letStmt _ _ body => .letStmt (tagsLead_convertStmt _ body)
  | .borrow _ _ _ _ _ body _ => .letStmt (tagsLead_convertStmt _ body)
  | .destructure bindings value body =>
    .loads (loads_destructure bindings value) (tagsLead_convertStmt _ body)
  | .assign lvalue _ => by
    rw [convertStmt, tagsAfter]
    cases convertExpr tables lvalue <;> exact .assign
  | .assignVar _ _ => .assign
  | .initialAssign _ _ => .assign
  | .assignTmp _ _ => .assign
  | .letTmp _ _ _ => .letTmp
  | .ifStmt _ consequent alternative =>
    .ifStmt (tagsLead_convertStmt tags consequent) (tagsLead_convertStmt tags alternative)
  | .caseStmt scrutinee whens _ => by
    refine .loads (.cons ⟨_, rfl⟩ (.cons (exists_tagLoad _) .nil)) ?_
    intro entry leaving found held ran
    obtain ⟨_, nonempty, -⟩ := held.1
    exact tagsLead_convertWhens _ 0 _ whens entry leaving found.2 ⟨nonempty, found.1⟩ ran
  | .whileStmt _ body => .whileStmt fun tags => tagsLead_convertStmt tags body
  | .forStmt _ _ _ body => .following .letTmp (.whileStmt fun tags entry leaving found =>
    TagsLead.block (tagsLead_convertStmt tags body) .assign entry leaving
      ⟨found, fun _ _ => trivial⟩)
  | .block first second =>
    .block (tagsLead_convertStmt tags first) (tagsLead_convertStmt _ second)
  | .returnStmt _ => .returnStmt

theorem tagsLead_convertWhens (scrutineeTy : MonoTy) (position : Nat) (tags : Set Word) :
    ∀ whens : List (MTypedWhen MStmt),
      TagsLead host limit (blockOf (convertWhens tables scrutineeTy whens position) .skip)
        (CasesMatchArms host limit tables scrutineeTy whens position) tags
        (tagsAfterArms tables scrutineeTy whens position tags)
  | [] => .skip
  | ⟨_, bindings, body⟩ :: whens =>
    .block (.arm (.loads (loads_caseBindings _ bindings) (tagsLead_convertStmt _ body)))
      (tagsLead_convertWhens scrutineeTy (position + 1) _ whens)

end

end TagsLead

/-! ## Conditionals one after another -/

section Arms

variable (host : CpsHost ω') (limit : Nat) (tables : CpsTables) (scrutineeTy : MonoTy)

def armsFrom (whens : List (MTypedWhen MStmt)) (position : Nat) : CpsStmt :=
  blockOf (convertWhens tables scrutineeTy whens position) .skip

def armBody (arm : MTypedWhen MStmt) : CpsStmt :=
  blockOf (caseBindings "__match_scrutinee" arm.bindings) (convertStmt tables arm.body)

variable {host limit tables scrutineeTy}

def Numbered (tables : CpsTables) (scrutineeTy : MonoTy) (whens : List (MTypedWhen MStmt))
    (position : Nat) : Prop :=
  ∀ index arm, whens[index]? = some arm →
    tables.armNumber scrutineeTy arm.name (position + index) = position + index

variable {arm : MTypedWhen MStmt} {whens : List (MTypedWhen MStmt)} {position : Nat}
  {state : CpsState ω'}

theorem Numbered.tail (numbered : Numbered tables scrutineeTy (arm :: whens) position) :
    Numbered tables scrutineeTy whens (position + 1) := by
  intro index other found
  have shifted := numbered (index + 1) other found
  rwa [Nat.add_comm index 1, ← Nat.add_assoc] at shifted

theorem armsRun_cons (numbered : Numbered tables scrutineeTy (arm :: whens) position)
    (state : CpsState ω') :
    armsRun host limit (armsFrom tables scrutineeTy (arm :: whens) position) position state =
      if state.vars "__match_tag" = ofNat 64 position then
        position :: match exec host limit (armBody tables arm) state with
          | some (.next state) =>
            armsRun host limit (armsFrom tables scrutineeTy whens (position + 1)) (position + 1)
              state
          | _ => []
      else armsRun host limit (armsFrom tables scrutineeTy whens (position + 1)) (position + 1)
          state := by
  have number := numbered 0 arm rfl
  rw [Nat.add_zero] at number
  obtain ⟨_, _, _⟩ := arm
  rw [armsFrom, convertWhens, blockOf, List.foldr_cons, armStmt, armsRun, number, testIn_tag]
  by_cases equal : state.vars "__match_tag" = ofNat 64 position
  · simp only [equal, beq_self_eq_true, if_true]
    rfl
  · simp only [equal, if_false, beq_eq_false_iff_ne.mpr equal]
    rfl

theorem armsRun_eq_nil (numbered : Numbered tables scrutineeTy whens position)
    (other : ∀ number, position ≤ number → number < position + whens.length →
      state.vars "__match_tag" ≠ ofNat 64 number) :
    armsRun host limit (armsFrom tables scrutineeTy whens position) position state = [] := by
  induction whens generalizing position with
  | nil => rfl
  | cons _ _ ih =>
    rw [List.length_cons] at other
    rw [armsRun_cons numbered, if_neg (other position le_rfl (by omega))]
    apply ih numbered.tail
    intro number _ _
    exact other number (by omega) (by omega)

/-- The first arm that runs is the one with the number in the variable, and the
later ones are tried in the state that it leaves. -/
theorem armsRun_of_number (numbered : Numbered tables scrutineeTy whens position)
    (few : position + whens.length ≤ 2 ^ 64) (found : whens[index]? = some arm)
    (number : state.vars "__match_tag" = ofNat 64 (position + index)) :
    armsRun host limit (armsFrom tables scrutineeTy whens position) position state =
      (position + index) :: match exec host limit (armBody tables arm) state with
        | some (.next state) =>
          armsRun host limit
            (armsFrom tables scrutineeTy (whens.drop (index + 1)) (position + index + 1))
            (position + index + 1) state
        | _ => [] := by
  induction whens generalizing position index with
  | nil => cases found
  | cons first whens ih =>
    rw [armsRun_cons numbered]
    cases index with
    | zero =>
      obtain rfl : first = arm := some.inj found
      rw [Nat.add_zero] at number ⊢
      rw [if_pos number]
      rfl
    | succ index =>
      rw [List.length_cons] at few
      rw [List.getElem?_cons_succ] at found
      have inside : index < whens.length := (List.getElem?_eq_some_iff.mp found).1
      have differs : state.vars "__match_tag" ≠ ofNat 64 position := by
        rw [number]
        intro equal
        have same := congrArg BitVec.toNat equal
        rw [BitVec.toNat_ofNat, BitVec.toNat_ofNat, Nat.mod_eq_of_lt (by omega),
          Nat.mod_eq_of_lt (by omega)] at same
        omega
      have shift : position + 1 + index = position + (index + 1) := by omega
      rw [if_neg differs, ih numbered.tail (by omega) found (by rw [number, shift]), shift]
      rfl

/-- Exactly one arm runs, the one at a position, exactly if the variable has its
number at entry and, when the arm has gone on, the number of no later arm. -/
theorem armsRun_eq_singleton_iff (numbered : Numbered tables scrutineeTy whens 0)
    (few : whens.length ≤ 2 ^ 64) (found : whens[index]? = some arm) :
    armsRun host limit (armsFrom tables scrutineeTy whens 0) 0 state = [index] ↔
      state.vars "__match_tag" = ofNat 64 index ∧
        ∀ after, exec host limit (armBody tables arm) state = some (.next after) →
          ∀ number, index < number → number < whens.length →
            after.vars "__match_tag" ≠ ofNat 64 number := by
  have numberedFrom : ∀ start, Numbered tables scrutineeTy (whens.drop start) start := by
    intro start position other later
    rw [List.getElem?_drop] at later
    simpa using numbered (start + position) other later
  have ofNumber : ∀ {position : Nat} {other : MTypedWhen MStmt} {present : CpsState ω'},
      whens[position]? = some other →
      present.vars "__match_tag" = ofNat 64 position →
      (armsRun host limit (armsFrom tables scrutineeTy whens 0) 0 present).head? = some position := by
    intro _ _ _ later _
    rw [armsRun_of_number numbered (by omega) later (by rwa [Nat.zero_add]), Nat.zero_add]
    rfl
  by_cases number : state.vars "__match_tag" = ofNat 64 index
  · rw [armsRun_of_number numbered (by omega) found (by rwa [Nat.zero_add])]
    simp only [Nat.zero_add, List.cons.injEq, true_and, number]
    split
    · rename_i after goesOn
      simp only [goesOn, some.injEq, Ending.next.injEq, forall_eq']
      constructor
      · intro none position _ _ same
        obtain ⟨other, present⟩ : ∃ other, (whens.drop (index + 1))[position - (index + 1)]? =
            some other := by
          rw [List.getElem?_drop]
          exact ⟨_, List.getElem?_eq_getElem (by omega)⟩
        rw [armsRun_of_number (numberedFrom (index + 1)) (by simp; omega) present
          (by rw [same]; congr 1; omega)] at none
        cases none
      · intro others
        apply armsRun_eq_nil (numberedFrom (index + 1))
        intro position above below
        rw [List.length_drop] at below
        exact others position above (by omega)
    · rename_i leaves
      refine iff_of_true rfl fun after goesOn => ?_
      exact absurd goesOn (leaves after)
  · refine iff_of_false ?_ fun both => number both.1
    intro one
    by_cases others : ∃ position < whens.length,
        state.vars "__match_tag" = ofNat 64 position
    · obtain ⟨position, inside, same⟩ := others
      have head := ofNumber (List.getElem?_eq_getElem inside) same
      rw [one] at head
      obtain rfl : index = position := some.inj head
      exact number same
    · push Not at others
      rw [armsRun_eq_nil numbered (by simpa using others)] at one
      cases one

end Arms

/-! ## The statement -/

section Statement

variable {cHost : CHost ω} {host : CpsHost ω'} {limit counter next index : Nat} {tables : CpsTables}
  {scrutinee : MExpr} {whens : List (MTypedWhen MStmt)} {kind : CaseRef}

theorem findUnionCaseOffset_of_nodup
    (distinct : (cases.map fun unionCase => unionCase.name.string).Nodup)
    (found : cases[index]? = some unionCase) (same : target.string = unionCase.name.string)
    (current : Nat) : findUnionCaseOffset cases target current = current + index := by
  induction cases generalizing index current with
  | nil => cases found
  | cons first cases ih =>
    rw [List.map_cons, List.nodup_cons] at distinct
    rw [findUnionCaseOffset]
    cases index with
    | zero =>
      obtain rfl : first = unionCase := some.inj found
      rw [if_pos same.symm, Nat.add_zero]
    | succ =>
      rw [List.getElem?_cons_succ] at found
      have differs : first.name.string ≠ target.string := by
        intro equal
        apply distinct.1
        rw [equal, same]
        exact List.mem_map_of_mem (List.mem_of_getElem? found)
      rw [if_neg differs, ih distinct.2 found]
      omega

/-- The front end orders the arms as the cases of the union, which have different
names. -/
def ArmsMatch (tables : CpsTables) (ty : MonoTy) (whens : List (MTypedWhen MStmt)) : Prop :=
  ∀ id cases, ty = .namedType id → tables.unionLayouts.lookup id = some cases →
    (whens.map fun arm => arm.name.string) = (cases.map fun unionCase => unionCase.name.string) ∧
      (cases.map fun unionCase => unionCase.name.string).Nodup

theorem ArmsMatch.numbered (arms : ArmsMatch tables ty whens) : Numbered tables ty whens 0 := by
  intro index arm found
  rw [Nat.zero_add]
  unfold CpsTables.armNumber
  split
  · rename_i id
    split
    · rename_i cases registered
      obtain ⟨names, distinct⟩ := arms id cases rfl registered
      have name : (cases.map fun unionCase => unionCase.name.string)[index]? =
          some arm.name.string := by
        rw [← names, List.getElem?_map, found]
        rfl
      rw [List.getElem?_map] at name
      obtain ⟨_, present, same⟩ := Option.map_eq_some_iff.mp name
      rw [findUnionCaseOffset_of_nodup distinct present same.symm, Nat.zero_add]
    · rfl
  · rfl

def comparedWord (host : CpsHost ω') (ty : MonoTy) (word : Word) (world : ω') : Word :=
  match ty with
  | .namedType _ => host.load word world
  | _ => word

def armsEntry (state : CpsState ω') (word compared : Word) : CpsState ω' :=
  (state.set "__match_scrutinee" word).set "__match_tag" compared

theorem caseArmsRunCps_convertStmt
    (evaluated : evalIn host (convertExpr tables scrutinee) k = some (word, k')) :
    caseArmsRunCps host limit (convertStmt tables (.caseStmt scrutinee whens kind)) k =
      armsRun host limit (armsFrom tables (getExprType scrutinee) whens 0) 0
        (armsEntry k' word (comparedWord host (getExprType scrutinee) word k'.world)) := by
  have loaded : exec host limit
      (.block (.letStmt "__match_scrutinee" (convertExpr tables scrutinee) .skip)
        (tagLoad (getExprType scrutinee))) k =
      some (.next (armsEntry k' word
        (comparedWord host (getExprType scrutinee) word k'.world))) := by
    rw [exec, exec, evaluated]
    simp only [Option.bind_eq_bind, Option.bind_some, exec, Ending.andThen]
    generalize getExprType scrutinee = ty
    cases ty <;>
      simp [tagLoad, comparedWord, exec, evalIn, evalExpr, evalExprs, applyCall, applyTailCall,
        wordLit, armsEntry, CpsState.set]
  rw [convertStmt, caseArmsRunCps, loaded]
  rfl

theorem genWhens_labels (generated : genWhens ty tmp kind whens counter = .ok (cases, next)) :
    List.Forall₂ (fun arm entry => unionTagValue ty arm.name = .ok entry.1) whens cases := by
  induction whens generalizing counter next cases with
  | nil =>
    obtain ⟨rfl, -⟩ := CGen.pure_eq_ok.mp generated
    exact .nil
  | cons _ _ ih =>
    obtain ⟨_, _, tagged, rest⟩ := bind_eq_ok.mp generated
    obtain ⟨_, _, -, rest⟩ := bind_eq_ok.mp rest
    obtain ⟨_, _, -, rest⟩ := bind_eq_ok.mp rest
    obtain ⟨_, _, generatedOthers, rest⟩ := bind_eq_ok.mp rest
    obtain ⟨rfl, -⟩ := CGen.pure_eq_ok.mp rest
    exact .cons (CGen.liftM_eq_ok.mp tagged).1 (ih generatedOthers)

theorem exists_switch_of_genStmt
    (generated : genStmt (.caseStmt scrutinee whens kind) counter = .ok (stmt, next)) :
    ∃ ty first accessor cases, scrutinee.getType = .ok ty ∧
      stmt = .block [first, .switch accessor cases] ∧
      List.Forall₂ (fun arm entry => unionTagValue ty arm.name = .ok entry.1) whens cases := by
  obtain ⟨ty, _, typed, rest⟩ := bind_eq_ok.mp generated
  obtain ⟨_, _, -, rest⟩ := bind_eq_ok.mp rest
  obtain ⟨cases, _, generatedWhens, rest⟩ := bind_eq_ok.mp rest
  obtain ⟨_, _, -, rest⟩ := bind_eq_ok.mp rest
  obtain ⟨_, _, -, rest⟩ := bind_eq_ok.mp rest
  obtain ⟨rfl, -⟩ := CGen.pure_eq_ok.mp rest
  exact ⟨ty, _, _, cases, (CGen.liftM_eq_ok.mp typed).1, rfl, genWhens_labels generatedWhens⟩

/-- The enumerator of each arm's case has the arm's position as its value: the
enumeration lists the cases in their order. -/
def EnumeratorsAre (cHost : CHost ω) (scrutinee : MExpr) (whens : List (MTypedWhen MStmt))
    (state : CState ω) : Prop :=
  ∀ (ty : MonoTy) (label : CExpr) (position : Nat) (inside : position < whens.length),
    scrutinee.getType = .ok ty → unionTagValue ty whens[position].name = .ok label →
      labelC cHost label state = some (position : Int)

theorem caseArmsRunC_eq
    (generated : genStmt (.caseStmt scrutinee whens kind) counter = .ok (stmt, next))
    (inside : index < whens.length) (tag : caseTagC cHost limit stmt c = some ((index : Int), c'))
    (enumerators : EnumeratorsAre cHost scrutinee whens c') :
    caseArmsRunC cHost limit stmt c = [index] := by
  obtain ⟨ty, _, _, cases, typed, rfl, labels⟩ := exists_switch_of_genStmt generated
  obtain ⟨_, labelAt⟩ := List.forall₂_iff_get.mp labels
  have position : ∀ (position : Nat) (below : position < cases.length),
      labelC cHost cases[position].1 c' = some (position : Int) := fun position below =>
    enumerators ty _ position (by omega) typed (labelAt position (by omega) below)
  have selected : selectedCase cHost cases index c' = some index := by
    rw [selectedCase, List.findIdx?_eq_some_iff_getElem]
    refine ⟨by omega, by rw [position index, beq_self_eq_true], fun other before => ?_⟩
    rw [position other]
    simp only [beq_iff_eq, some.injEq]
    omega
  simp only [caseArmsRunC, tag, selected]
  rfl

end Statement

/-! ## A union with two cases -/

def lampType : MonoTy := .namedType ⟨0⟩

def lampTables : CpsTables :=
  { CpsTables.initial fun _ => none with unionLayouts := [(⟨0⟩, [⟨⟨"Off"⟩, []⟩, ⟨⟨"On"⟩, []⟩])] }

def lampOff : CValue := .struct [("tag", .int .int 0), ("data", .struct [("Off", .struct [])])]

/-- A lamp in one temporary, which is off, and another that is on. -/
def lampStateC : CState Unit :=
  .ofList [("_t0", lampOff),
    ("_t1", .struct [("tag", .int .int 1), ("data", .struct [("On", .struct [])])])]

def lampStateCps : CpsState Unit := .ofList [("_t0", 16), ("_t1", 24)]

def lampHostC : CHost Unit where
  call _ _ _ := none
  callPointer _ _ _ := none
  other expr _ state :=
    match expr with
    | .var "mono_0_tag_Off" => some (.int .int 0, state)
    | .var "mono_0_tag_On" => some (.int .int 1, state)
    | _ => none

def lampHostCps : CpsHost Unit :=
  { CpsHost.bare with load := fun address _ => if address = 24 then 1 else 0 }

def lampArms (off on : MStmt) : List (MTypedWhen MStmt) := [⟨⟨"Off"⟩, [], off⟩, ⟨⟨"On"⟩, [], on⟩]

def lampCase (lamp : String) (off on : MStmt) : MStmt :=
  .caseStmt (.temporary ⟨lamp⟩ lampType) (lampArms off on) .casePlain

theorem lampArmsMatch (off on : MStmt) : ArmsMatch lampTables lampType (lampArms off on) := by
  intro _ cases union registered
  cases union
  cases registered
  exact ⟨rfl, by decide⟩

theorem lampEnumeratorsAre (off on : MStmt) (state : CState Unit)
    (offFree : state.vars "mono_0_tag_Off" = none) (onFree : state.vars "mono_0_tag_On" = none) :
    EnumeratorsAre lampHostC (.temporary ⟨"_t0"⟩ lampType) (lampArms off on) state := by
  intro _ label position inside typed labelled
  cases typed
  match position with
  | 0 =>
    obtain rfl : CExpr.var "mono_0_tag_Off" = label := Except.ok.inj labelled
    simp [labelC, evalC, offFree, lampHostC]
  | 1 =>
    obtain rfl : CExpr.var "mono_0_tag_On" = label := Except.ok.inj labelled
    simp [labelC, evalC, onFree, lampHostC]

/-- A case statement that returns if the lamp is on leaves the number of a lamp
that is off. -/
theorem tagsAfter_lampCase_subset (lamp : String) (value : MExpr) (tags : Set Word) :
    tagsAfter lampTables (lampCase lamp .skip (.returnStmt value)) tags ⊆ {0} := by
  rintro tag (leftByReturn | ⟨leftByFirst, notOn⟩)
  · cases leftByReturn
  obtain ⟨-, rfl⟩ | ⟨⟨-, position, arm, inside, rfl⟩, notOff⟩ := leftByFirst
  · rfl
  match position with
  | 0 =>
    cases inside
    exact absurd rfl notOff
  | 1 =>
    cases inside
    exact absurd rfl notOn

def quietLamp : MStmt := lampCase "_t0" .skip (.returnStmt .nilConstant)

theorem casesMatch_quietLamp (state : CpsState Unit) :
    CasesMatch lampHostCps 0 lampTables quietLamp state := by
  intro first loaded entry tagged
  cases loaded
  cases tagged
  refine ⟨?_, ⟨fun _ => trivial, fun _ _ => ⟨fun _ => trivial, fun _ _ => trivial⟩⟩⟩
  by_cases on : state.vars "_t0" + 0 = 24
  · exact ⟨1, _, rfl, if_pos on⟩
  · exact ⟨0, _, rfl, if_neg on⟩

def lampSwitch (tmp : String) (off on : CStmt) : CStmt :=
  .block [.letStmt tmp (.namedType "mono_0") (some (.var "_t0")),
    .switch (.structAccessor (.var tmp) "tag")
      [(.var "mono_0_tag_Off", .explicitBlock [off]), (.var "mono_0_tag_On", .explicitBlock [on])]]

end AustralVM
