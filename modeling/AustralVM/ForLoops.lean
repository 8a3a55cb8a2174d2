import AustralVM.CpsLowering
import AustralVM.CpsSemantics
import AustralVM.CSemantics

/-!
# `for` loops on the two routes

The C backend renders a `for` statement as a loop that runs as long as the index
is at most the final bound, compared as `size_t`.  The CPS lowering makes a loop
that runs as long as the index is below the final bound, compared as a signed
word.  The rounds of the two loops are compared for bodies that run alike.

The front end casts the bounds to `Index` and puts them into temporaries.  The two
routes may already give a bound different values: the lowering turns an integer
literal of `2 ^ 63` or more into 0.
-/

namespace AustralVM

open Option BitVec CIntType

/-! ## The rounds of the two loops -/

def monoIndexType : MonoTy := .integer .unsigned .widthIndex

/-- A `for` statement as the front end leaves it. -/
def liftedFor (name tmpInitial tmpFinal : Identifier) (initial final : MExpr) (body : MStmt) :
    MStmt :=
  .block (.letTmp tmpInitial monoIndexType (.cast initial monoIndexType))
    (.block (.letTmp tmpFinal monoIndexType (.cast final monoIndexType))
      (.forStmt name (.temporary tmpInitial monoIndexType) (.temporary tmpFinal monoIndexType)
        body))

def cIndexType : CTy := .namedType "au_index_t"

/-- The C rendering of a `for` statement. -/
def cFor (name tmpInitial tmpFinal : Identifier) (initial final : CExpr) (body : CStmt) : CStmt :=
  .block [.letStmt (genIdent tmpInitial) cIndexType (some (.cast initial cIndexType)),
    .block [.letStmt (genIdent tmpFinal) cIndexType (some (.cast final cIndexType)),
      .explicitBlock [
        .letStmt (genIdent name) (.namedType "size_t") (some (.var (genIdent tmpInitial))),
        .forStmt (genIdent name) (.var (genIdent tmpFinal)) body]]]

variable {ω ω' : Type}

/-- The states in which the first rounds of a `for` statement begin. -/
def forRoundsC (cHost : CHost ω) (limit count : Nat) : CStmt → CState ω → List (CState ω)
  | .block [initial, .block [final, .explicitBlock [start, .forStmt name bound body]]], state =>
    match execListC cHost limit [initial, final, start] state with
    | some (.next state) =>
      rounds (forTestC cHost name bound) (forRoundC name (execC cHost limit body)) count state
    | _ => []
  | _, _ => []

/-- The states in which the first rounds of a lowered `for` statement begin. -/
def forRoundsCps (host : CpsHost ω') (limit count : Nat) : CpsStmt → CpsState ω' →
    List (CpsState ω')
  | .block initial (.block final (.block start (.whileStmt condition body))), state =>
    match exec host limit (.block initial (.block final start)) state with
    | some (.next state) => rounds (testIn host condition) (exec host limit body) count state
    | _ => []
  | _, _ => []

def CState.word (state : CState ω) (name : String) : Option Word :=
  match state.vars name with
  | some (.int _ value) => some (BitVec.ofInt 64 value)
  | _ => none

def forIndicesC (cHost : CHost ω) (limit count : Nat) (name : Identifier) (stmt : CStmt)
    (state : CState ω) : List (Option Word) :=
  (forRoundsC cHost limit count stmt state).map fun state => state.word (genIdent name)

def forIndicesCps (host : CpsHost ω') (limit count : Nat) (name : Identifier) (stmt : CpsStmt)
    (state : CpsState ω') : List (Option Word) :=
  (forRoundsCps host limit count stmt state).map fun state => some (state.vars name.string)

theorem genStmt_liftedFor (generated : genStmt body counter = .ok (cBody, next))
    (isInitial : genExp initial = .ok cInitial) (isFinal : genExp final = .ok cFinal) :
    genStmt (liftedFor name tmpInitial tmpFinal initial final body) counter =
      .ok (cFor name tmpInitial tmpFinal cInitial cFinal cBody, next) := by
  have indexType : genType monoIndexType = .ok cIndexType := rfl
  simp [liftedFor, genStmt, cFor, generated, genExp, isInitial, isFinal, indexType,
    CGen.bind_eq_ok, CGen.liftM_eq_ok, CGen.pure_eq_ok, -bind_pure_comp]

/-! ## Rounds that run alike -/

/-- Both states have the index in the loop's variable, and each has a final bound in
its temporary. -/
structure AtIndex (name tmpFinal : Identifier) (index final lowFinal : Word) (c : CState ω)
    (k : CpsState ω') : Prop where
  cIndex : c.vars (genIdent name) = some (.int .unsignedLong index.toNat)
  cpsIndex : k.vars name.string = index
  cFinal : c.vars (genIdent tmpFinal) = some (.int .unsignedLong final.toNat)
  cpsFinal : k.vars tmpFinal.string = lowFinal

/-- A loop's body runs alike on the two routes, at every index: from related
states it goes on in related states, with the index and the bounds as they were,
or it leaves the loop on both routes. -/
structure BodyAlike (cHost : CHost ω) (host : CpsHost ω') (limit : Nat) (cBody : CStmt)
    (cpsBody : CpsStmt) (name tmpFinal : Identifier) (final lowFinal : Word)
    (Related : CState ω → CpsState ω' → Prop) : Prop where
  run : ∀ index c k, Related c k → AtIndex name tmpFinal index final lowFinal c k →
    Option.Rel
      (Ending.Rel (fun c k => Related c k ∧ AtIndex name tmpFinal index final lowFinal c k)
        fun _ _ => True)
      (execC cHost limit cBody c) (exec host limit cpsBody k)
  setIndex : ∀ index c k, Related c k →
    Related (c.declare (genIdent name) (.int .unsignedLong index.toNat)) (k.set name.string index)

section Rounds

variable {cHost : CHost ω} {host : CpsHost ω'} {limit : Nat} {cBody : CStmt} {cpsBody : CpsStmt}
  {name tmpFinal : Identifier} {index final lowFinal : Word} {Related : CState ω → CpsState ω' → Prop}
  {c : CState ω} {k : CpsState ω'}

theorem wrap_unsignedLong_toNat (word : Word) :
    unsignedLong.wrap (word.toNat : Int) = word.toNat := by
  have below : (word.toNat : Int) < 2 ^ 64 := by exact_mod_cast word.isLt
  exact Int.emod_eq_of_lt (Int.natCast_nonneg _) below

def cpsForCondition (name tmpFinal : Identifier) : CpsExpr :=
  .binary .cmpLt (.var name.string) (.var tmpFinal.string)

def cpsForRound (name : Identifier) (body : CpsStmt) : CpsStmt :=
  .block body (.assign name.string (.binary .add (.var name.string) (.intLit 1)))

section

variable (at_ : AtIndex name tmpFinal index final lowFinal c k)
include at_

theorem forTestC_eq :
    forTestC cHost (genIdent name) (.var (genIdent tmpFinal)) c =
      some (decide (index ≤ final), c) := by
  have compared : ((index.toNat : Int) ≤ final.toNat) ↔ index ≤ final := by
    rw [le_def]
    exact Int.ofNat_le
  have same : unsignedLong.common .unsignedLong = .unsignedLong := rfl
  rw [forTestC, testC, evalC, evalC_var at_.cIndex]
  simp only [bind_eq_bind, bind_some, evalC_var at_.cFinal, compareC, same,
    wrap_unsignedLong_toNat, ComparisonOperator.holds, compared]
  by_cases le : index ≤ final <;> simp [CValue.truth, CValue.ofBool, le]

theorem forTestC_of_le (cHost : CHost ω) (le : index ≤ final) :
    forTestC cHost (genIdent name) (.var (genIdent tmpFinal)) c = some (true, c) := by
  rw [forTestC_eq at_, decide_eq_true le]

theorem testIn_eq :
    testIn host (cpsForCondition name tmpFinal) k = some (index.slt lowFinal, k) := by
  simp only [testIn, evalIn, cpsForCondition, evalExpr, at_.cpsIndex, at_.cpsFinal,
    CpsBinop.compute]
  cases compared : index.slt lowFinal <;> simp [wordOfBool, compared]

theorem testIn_of_slt (host : CpsHost ω') (slt : index.slt lowFinal = true) :
    testIn host (cpsForCondition name tmpFinal) k = some (true, k) := by
  rw [testIn_eq at_, slt]

end

theorem wrap_succ (word : Word) :
    unsignedLong.wrap ((word.toNat : Int) + 1) = (word + 1).toNat := by
  simp [wrap, unsignedLong, toNat_add]

variable (tmpFinal_ne : tmpFinal.string ≠ name.string)

include tmpFinal_ne in
theorem AtIndex.succ (at_ : AtIndex name tmpFinal index final lowFinal c k) :
    AtIndex name tmpFinal (index + 1) final lowFinal
      (c.declare (genIdent name) (.int .unsignedLong (index + 1).toNat))
      (k.set name.string (index + 1)) where
  cIndex := c.vars_declare_self _ _
  cpsIndex := k.vars_set_self _ _
  cFinal := (c.vars_declare_of_ne tmpFinal_ne _).trans at_.cFinal
  cpsFinal := (k.vars_set_of_ne tmpFinal_ne _).trans at_.cpsFinal

include tmpFinal_ne in
theorem BodyAlike.round
    (alike : BodyAlike cHost host limit cBody cpsBody name tmpFinal final lowFinal Related)
    (related : Related c k) (at_ : AtIndex name tmpFinal index final lowFinal c k) :
    Option.Rel
      (Ending.Rel (fun c k => Related c k ∧ AtIndex name tmpFinal (index + 1) final lowFinal c k)
        fun _ _ => True) (forRoundC (genIdent name) (execC cHost limit cBody) c)
      (exec host limit (cpsForRound name cpsBody) k) := by
  rw [forRoundC, cpsForRound, exec]
  refine Ending.andThen_rel (alike.run index c k related at_) ?_
  intro c' k' after
  obtain ⟨relatedAfter, atAfter⟩ := after
  have incremented : incrementC (genIdent name) c' =
      some (c'.declare (genIdent name) (.int .unsignedLong (index + 1).toNat)) := by
    rw [incrementC, atAfter.cIndex, ← wrap_succ]
  have assigned : exec host limit
      (.assign name.string (.binary .add (.var name.string) (.intLit 1))) k' =
      some (.next (k'.set name.string (index + 1))) := by
    simp [exec, evalIn, evalExpr, CpsBinop.compute, atAfter.cpsIndex]
  rw [incremented, assigned]
  exact .some (.next ⟨alike.setIndex _ _ _ relatedAfter, atAfter.succ tmpFinal_ne⟩)

/-- The rounds from an index to a final bound, if no round leaves the loop and the index
does not start again at 0. -/
def cRange (index final : Word) : Nat := final.toNat + 1 - index.toNat

def cpsRange (index final : Word) : Nat := (final.toInt - index.toInt).toNat

theorem cRange_pos : 0 < cRange index final ↔ index ≤ final := by
  rw [cRange, le_def]
  omega

theorem cpsRange_pos : 0 < cpsRange index final ↔ index.slt final = true := by
  rw [cpsRange, slt_iff_toInt_lt]
  omega

theorem cRange_succ (le : index ≤ final) (ends : final ≠ allOnes 64) :
    cRange index final = cRange (index + 1) final + 1 := by
  have leNat := le_def.mp le
  have below : final.toNat ≠ 2 ^ 64 - 1 := fun last => ends (eq_of_toNat_eq (by simpa using last))
  have := final.isLt
  have succ : (index + 1).toNat = index.toNat + 1 := by
    rw [toNat_add]
    exact Nat.mod_eq_of_lt (by simp; omega)
  rw [cRange, cRange, succ]
  omega

theorem cpsRange_succ (slt : index.slt final = true) :
    cpsRange index final = cpsRange (index + 1) final + 1 := by
  rw [slt_iff_toInt_lt] at slt
  have := index.le_toInt
  have := final.toInt_lt
  have succ : (index + 1).toInt = index.toInt + 1 := by
    rw [toInt_add]
    exact Int.bmod_eq_of_le (by simp; omega) (by simp; omega)
  rw [cpsRange, cpsRange, succ]
  omega

abbrev cRound (cHost : CHost ω) (limit : Nat) (name : Identifier) (cBody : CStmt) :
    CState ω → Option (CEnding ω) :=
  forRoundC (genIdent name) (execC cHost limit cBody)

abbrev cRounds (cHost : CHost ω) (limit : Nat) (name tmpFinal : Identifier) (cBody : CStmt) :
    Nat → CState ω → List (CState ω) :=
  rounds (forTestC cHost (genIdent name) (.var (genIdent tmpFinal))) (cRound cHost limit name cBody)

/-- The rounds of the lowered loop from a state on. -/
abbrev cpsRounds (host : CpsHost ω') (limit : Nat) (name tmpFinal : Identifier)
    (cpsBody : CpsStmt) : Nat → CpsState ω' → List (CpsState ω') :=
  rounds (testIn host (cpsForCondition name tmpFinal)) (exec host limit (cpsForRound name cpsBody))

/-- The two loops have the same indices, however many rounds are looked at. -/
def SameIndices (cHost : CHost ω) (host : CpsHost ω') (limit : Nat) (name tmpFinal : Identifier)
    (cBody : CStmt) (cpsBody : CpsStmt) (c : CState ω) (k : CpsState ω') : Prop :=
  ∀ count,
    (cRounds cHost limit name tmpFinal cBody count c).map (fun c => c.word (genIdent name)) =
      (cpsRounds host limit name tmpFinal cpsBody count k).map fun k => some (k.vars name.string)

section

variable (at_ : AtIndex name tmpFinal index final lowFinal c k)
include at_

theorem AtIndex.word_eq : c.word (genIdent name) = some (k.vars name.string) := by
  rw [CState.word, at_.cIndex, at_.cpsIndex]
  simp

theorem sameIndices_of_round (le : index ≤ final) (slt : index.slt lowFinal = true)
    (cGoesOn : cRound cHost limit name cBody c = some (.next c'))
    (cpsGoesOn : exec host limit (cpsForRound name cpsBody) k = some (.next k')) :
    SameIndices cHost host limit name tmpFinal cBody cpsBody c k ↔
      SameIndices cHost host limit name tmpFinal cBody cpsBody c' k' := by
  have cHolds := forTestC_of_le at_ cHost le
  have cpsHolds := testIn_of_slt at_ host slt
  constructor
  · intro same count
    have more := same (count + 1)
    rw [cRounds, cpsRounds, rounds_of_next cHolds cGoesOn, rounds_of_next cpsHolds cpsGoesOn] at more
    exact (List.cons_eq_cons.mp more).2
  · intro same count
    cases count with
    | zero => rfl
    | succ count =>
      rw [cRounds, cpsRounds, rounds_of_next cHolds cGoesOn, rounds_of_next cpsHolds cpsGoesOn,
        List.map_cons, List.map_cons, at_.word_eq]
      exact congrArg _ (same count)

theorem sameIndices_of_last (le : index ≤ final) (slt : index.slt lowFinal = true)
    (cLeaves : ¬ Ending.GoesOn (cRound cHost limit name cBody c))
    (cpsLeaves : ¬ Ending.GoesOn (exec host limit (cpsForRound name cpsBody) k)) :
    SameIndices cHost host limit name tmpFinal cBody cpsBody c k := by
  intro count
  cases count with
  | zero => rfl
  | succ =>
    rw [cRounds, cpsRounds, rounds_of_not_goesOn (forTestC_of_le at_ cHost le) cLeaves,
      rounds_of_not_goesOn (testIn_of_slt at_ host slt) cpsLeaves, List.map_singleton,
      List.map_singleton, at_.word_eq]

theorem cRounds_of_not_le (cHost : CHost ω) (limit : Nat) (cBody : CStmt) (count : Nat)
    (above : ¬ index ≤ final) : cRounds cHost limit name tmpFinal cBody count c = [] := by
  apply rounds_of_not_test
  rw [forTestC_eq at_, decide_eq_false above]
  simp

theorem cpsRounds_of_not_slt (host : CpsHost ω') (limit : Nat) (cpsBody : CpsStmt) (count : Nat)
    (notSlt : ¬ index.slt lowFinal = true) :
    cpsRounds host limit name tmpFinal cpsBody count k = [] := by
  apply rounds_of_not_test
  rw [testIn_eq at_, eq_false_of_ne_true notSlt]
  simp

end

variable (alike : BodyAlike cHost host limit cBody cpsBody name tmpFinal final lowFinal Related)
  (related : Related c k) (at_ : AtIndex name tmpFinal index final lowFinal c k)
include alike related at_

include tmpFinal_ne in
/-- From one index on, the indices are the same exactly if both loops end after as many
rounds, or a round that both make leaves the loop.  By induction on the rounds of the
lowered loop. -/
theorem sameIndices_iff : SameIndices cHost host limit name tmpFinal cBody cpsBody c k ↔
      cRange index final = cpsRange index lowFinal ∧ final ≠ allOnes 64 ∨
        ∃ state ∈ cRounds cHost limit name tmpFinal cBody (cpsRange index lowFinal) c,
          ¬ Ending.GoesOn (cRound cHost limit name cBody state) := by
  induction isRange : cpsRange index lowFinal generalizing index c k with
  | zero =>
    have cpsDone : ∀ count, cpsRounds host limit name tmpFinal cpsBody count k = [] :=
      fun count => cpsRounds_of_not_slt at_ host limit cpsBody count fun slt => by
        have := cpsRange_pos.mpr slt
        omega
    simp only [rounds, List.not_mem_nil, false_and, exists_false, or_false]
    constructor
    · intro same
      by_contra differ
      have le : index ≤ final := by
        by_contra above
        refine differ ⟨by_contra fun some => above (cRange_pos.mp (by omega)), ?_⟩
        rintro rfl
        exact above (le_def.mpr (by have := index.isLt; simp; omega))
      have first := same 1
      rw [cpsDone, cRounds, rounds_of_test (forTestC_of_le at_ cHost le)] at first
      cases first
    · rintro ⟨none, -⟩ count
      rw [cpsDone, cRounds_of_not_le at_ cHost limit cBody count fun le => by
        have := cRange_pos.mpr le
        omega]
      rfl
  | succ _ ih =>
    have slt : index.slt lowFinal = true := cpsRange_pos.mp (by omega)
    by_cases le : index ≤ final
    · have cHolds := forTestC_of_le at_ cHost le
      rcases Ending.goesOn_or_leaves (alike.round tmpFinal_ne related at_) with
        ⟨c', k', cGoesOn, cpsGoesOn, relatedNext, atNext⟩ | ⟨cLeaves, cpsLeaves⟩
      · have next := cpsRange_succ slt
        rw [sameIndices_of_round at_ le slt cGoesOn cpsGoesOn, ih relatedNext atNext (by omega),
          cRounds, rounds_of_next cHolds cGoesOn]
        have goesOn : Ending.GoesOn (cRound cHost limit name cBody c) := ⟨c', cGoesOn⟩
        simp only [List.mem_cons, exists_eq_or_imp, goesOn, not_true_eq_false, false_or]
        refine or_congr_left (and_congr_left fun ends => ?_)
        have := cRange_succ le ends
        omega
      · refine iff_of_true (sameIndices_of_last at_ le slt cLeaves cpsLeaves) (.inr ⟨c, ?_, cLeaves⟩)
        rw [cRounds, rounds_of_not_goesOn cHolds cLeaves]
        exact List.mem_singleton_self c
    · have none : cRange index final = 0 := by
        by_contra some
        exact le (cRange_pos.mp (by omega))
      rw [none, cRounds_of_not_le at_ cHost limit cBody _ le]
      refine iff_of_false (fun same => ?_) (by simp)
      have first := same 1
      rw [cRounds_of_not_le at_ cHost limit cBody _ le, cpsRounds,
        rounds_of_test (testIn_of_slt at_ host slt)] at first
      cases first

end Rounds

/-! ## The statement -/

/-- What a bound is on each route; evaluating it changes nothing. -/
structure BoundIs (cHost : CHost ω) (host : CpsHost ω') (tables : CpsTables) (bound : MExpr)
    (value lowered : Word) (c : CState ω) (k : CpsState ω') : Prop where
  c : ∃ cBound, genExp bound = .ok cBound ∧
    evalC cHost (.cast cBound cIndexType) c = some (.int .unsignedLong value.toNat, c)
  cps : evalExpr host k.vars (convertExpr tables bound) k.world = some (lowered, k.world)

def CState.setWord (c : CState ω) (name : Identifier) (word : Word) : CState ω :=
  c.declare (genIdent name) (.int .unsignedLong word.toNat)

def CpsState.setWord (k : CpsState ω') (name : Identifier) (word : Word) : CpsState ω' :=
  k.set name.string word

section Statement

variable {cHost : CHost ω} {host : CpsHost ω'} {tables : CpsTables} {limit : Nat}
  {name tmpInitial tmpFinal : Identifier} {initial final : MExpr}
  {start lowStart last lowLast : Word} {c : CState ω} {k : CpsState ω'}

theorem execC_letWord (name : Identifier) (isIndex : ty = cIndexType ∨ ty = .namedType "size_t")
    (evaluates : evalC cHost value c = some (.int .unsignedLong word.toNat, c)) :
    execC cHost limit (.letStmt (genIdent name) ty (some value)) c =
      some (.next (c.setWord name word)) := by
  have converted : CValue.convertTo ty (.int .unsignedLong word.toNat) =
      .int .unsignedLong (unsignedLong.wrap word.toNat) := by
    rcases isIndex with rfl | rfl <;> rfl
  rw [execC, evaluates]
  simp only [bind_eq_bind, bind_some, converted, wrap_unsignedLong_toNat]
  rfl

theorem forRoundsC_cFor (apart : tmpInitial.string ≠ tmpFinal.string) (limit count : Nat)
    (cBody : CStmt)
    (isStart : evalC cHost (.cast cInitial cIndexType) c =
      some (.int .unsignedLong start.toNat, c))
    (isLast : evalC cHost (.cast cFinal cIndexType) (c.setWord tmpInitial start) =
      some (.int .unsignedLong last.toNat, c.setWord tmpInitial start)) :
    forRoundsC cHost limit count (cFor name tmpInitial tmpFinal cInitial cFinal cBody) c =
      cRounds cHost limit name tmpFinal cBody count
        (((c.setWord tmpInitial start).setWord tmpFinal last).setWord name start) := by
  have kept : ((c.setWord tmpInitial start).setWord tmpFinal last).vars (genIdent tmpInitial) =
      some (.int .unsignedLong start.toNat) :=
    ((c.setWord tmpInitial start).vars_declare_of_ne apart _).trans (c.vars_declare_self _ _)
  simp only [cFor, forRoundsC, execListC, execC_letWord _ (.inl rfl) isStart,
    execC_letWord _ (.inl rfl) isLast, execC_letWord name (.inr rfl) (evalC_var kept),
    Ending.andThen, bind_eq_bind, bind_some]

theorem exec_letWord (name : Identifier)
    (evaluates : evalExpr host k.vars value k.world = some (word, k.world)) :
    exec host limit (.letStmt name.string value .skip) k = some (.next (k.setWord name word)) := by
  simp only [exec, evalIn, evaluates, map_some, bind_eq_bind, bind_some]
  rfl

theorem forRoundsCps_convertStmt (apart : tmpInitial.string ≠ tmpFinal.string)
    (limit count : Nat) (body : MStmt)
    (isStart : evalExpr host k.vars (convertExpr tables initial) k.world =
      some (lowStart, k.world))
    (isLast : evalExpr host (k.setWord tmpInitial lowStart).vars (convertExpr tables final) k.world =
      some (lowLast, k.world)) :
    forRoundsCps host limit count
        (convertStmt tables (liftedFor name tmpInitial tmpFinal initial final body)) k =
      cpsRounds host limit name tmpFinal (convertStmt tables body) count
        (((k.setWord tmpInitial lowStart).setWord tmpFinal lowLast).setWord name lowStart) := by
  have kept : ((k.setWord tmpInitial lowStart).setWord tmpFinal lowLast).vars tmpInitial.string =
      lowStart :=
    ((k.setWord tmpInitial lowStart).vars_set_of_ne apart _).trans (k.vars_set_self _ _)
  have isIndex : evalExpr host ((k.setWord tmpInitial lowStart).setWord tmpFinal lowLast).vars
      (.var tmpInitial.string) k.world = some (lowStart, k.world) := by
    rw [evalExpr, kept]
  simp only [liftedFor, convertStmt, convertExpr]
  rw [forRoundsCps, exec, exec_letWord tmpInitial isStart, bind_eq_bind, bind_some, Ending.andThen,
    exec, exec_letWord tmpFinal isLast, bind_eq_bind, bind_some, Ending.andThen,
    exec_letWord name isIndex]
  rfl

variable (tmpFinal_ne : tmpFinal.string ≠ name.string)
include tmpFinal_ne

theorem atIndex_setWord (index : Word) (c : CState ω) (k : CpsState ω') :
    AtIndex name tmpFinal index last lowLast ((c.setWord tmpFinal last).setWord name index)
      ((k.setWord tmpFinal lowLast).setWord name index) where
  cIndex := CState.vars_declare_self ..
  cpsIndex := CpsState.vars_set_self ..
  cFinal := (CState.vars_declare_of_ne _ tmpFinal_ne _).trans (c.vars_declare_self _ _)
  cpsFinal := (CpsState.vars_set_of_ne _ tmpFinal_ne _).trans (k.vars_set_self _ _)

/-- Loops that begin with different indices have the same ones exactly if they have none. -/
theorem sameIndices_of_ne (differ : start ≠ lowStart) :
    SameIndices cHost host limit name tmpFinal cBody cpsBody
        ((c.setWord tmpFinal last).setWord name start)
        ((k.setWord tmpFinal lowLast).setWord name lowStart) ↔
      cRange start last = 0 ∧ cpsRange lowStart lowLast = 0 := by
  have atC : AtIndex name tmpFinal start last lowLast _ _ := atIndex_setWord tmpFinal_ne start c k
  have atCps : AtIndex name tmpFinal lowStart last lowLast _ _ :=
    atIndex_setWord tmpFinal_ne lowStart c k
  constructor
  · intro same
    have first := same 1
    by_cases le : start ≤ last
    · rw [cRounds, rounds_of_test (forTestC_of_le atC cHost le)] at first
      by_cases slt : lowStart.slt lowLast = true
      · rw [cpsRounds, rounds_of_test (testIn_of_slt atCps host slt)] at first
        have equal : some start = some lowStart := by
          simpa only [atC.word_eq, atC.cpsIndex, atCps.cpsIndex] using (List.cons.inj first).1
        exact absurd (some.inj equal) differ
      · rw [cpsRounds_of_not_slt atCps host limit cpsBody _ slt] at first
        cases first
    · rw [cRounds_of_not_le atC cHost limit cBody _ le] at first
      have notSlt : ¬ lowStart.slt lowLast = true := by
        intro slt
        rw [cpsRounds, rounds_of_test (testIn_of_slt atCps host slt)] at first
        cases first
      rw [← cRange_pos] at le
      rw [← cpsRange_pos] at notSlt
      omega
  · rintro ⟨cNone, cpsNone⟩ count
    rw [cRounds_of_not_le atC cHost limit cBody count (by rw [← cRange_pos]; omega),
      cpsRounds_of_not_slt atCps host limit cpsBody count (by rw [← cpsRange_pos]; omega)]
    rfl

end Statement

def loopIndex : Identifier := ⟨"i"⟩

def loopInitial : Identifier := ⟨"_t0"⟩

def loopFinal : Identifier := ⟨"_t1"⟩

/-- A loop from 0 to 2. -/
def loopToTwo (body : MStmt) : MStmt :=
  liftedFor loopIndex loopInitial loopFinal (.intConstant "0") (.intConstant "2") body

def loopTables : CpsTables := .initial fun _ => none

theorem boundIs_literal (text : String) (word : Word)
    (isC : integerConstant text = some (CIntType.int, (word.toNat : Int)))
    (isCps : int64OfString text = some word) (c : CState Unit) (k : CpsState Unit) :
    BoundIs .bare .bare loopTables (.intConstant text) word word c k where
  c := by
    refine ⟨.int text, rfl, ?_⟩
    rw [evalC, evalC, isC]
    exact congrArg (fun value => some (CValue.int unsignedLong value, c))
      (wrap_unsignedLong_toNat word)
  cps := by rw [convertExpr, isCps]; rfl

end AustralVM
