import AustralVM.GuardedCells
import AustralVM.TotalityCheck

/-!
# The values of refined parameters

A contract speaks of the values that the parameters had on entry.  The gate looks
for assignments to them and for mutable borrows of them; a reborrow of a parameter
that is itself a write reference is not looked for.  Cells that no write reference
points into, and no variable but the refined ones stands for, are left alone by every
statement that the gate lets through.
-/

namespace AustralVM.Typed

open Stoppable Liquid
open List hiding after

variable {guarded : Set Nat} {entry : Memory} {refined : List String}

/-! ## The scan -/

/-- A scan adds refined names to those it starts with. -/
def Finds (refined before after : List String) : Prop :=
  ∃ found, after = before ++ found ∧ found ⊆ refined

theorem Finds.refl (names : List String) : Finds refined names names :=
  ⟨[], (append_nil names).symm, nil_subset refined⟩

theorem Finds.trans (first : Finds refined before between) (second : Finds refined between after) :
    Finds refined before after := by
  obtain ⟨found, rfl, isFound⟩ := first
  obtain ⟨more, rfl, isMore⟩ := second
  exact ⟨found ++ more, append_assoc .., append_subset.mpr ⟨isFound, isMore⟩⟩

theorem Finds.eq_nil (finds : Finds refined before after) (none : after = []) : before = [] := by
  obtain ⟨_, rfl, -⟩ := finds
  exact (append_eq_nil_iff.mp none).1

theorem finds_hit (acc : List String) (name : String) :
    Finds refined acc (hit refined acc name) := by
  rw [hit]
  split
  · rename_i isNew
    exact ⟨[name], rfl, cons_subset.mpr ⟨isNew.1, nil_subset refined⟩⟩
  · exact .refl acc

theorem finds_mutatedInWhens_of_bodies (bodies : ∀ arm ∈ whens, ∀ acc : List String,
      Finds refined acc (mutatedIn refined acc arm.body)) (acc : List String) :
    Finds refined acc (mutatedInWhens refined acc whens) := by
  induction whens generalizing acc with
  | nil =>
    rw [mutatedInWhens]
    exact .refl acc
  | cons arm _ ih =>
    obtain ⟨name, bindings, body⟩ := arm
    rw [mutatedInWhens]
    exact (bodies ⟨name, bindings, body⟩ mem_cons_self acc).trans
      (ih (forall_mem_cons.mp bodies).2 _)

theorem finds_mutatedIn (stmt : TStmt) :
    ∀ acc : List String, Finds refined acc (mutatedIn refined acc stmt) := by
  induction stmt with (intro acc; unfold mutatedIn)
  | skip | letTmp | assignTmp | discarding | returnStmt => exact .refl acc
  | letStmt _ _ _ _ ih | destructure _ _ _ _ ih | whileStmt _ _ ih | forStmt _ _ _ _ ih =>
    exact ih acc
  | assignVar | initialAssign => exact finds_hit acc _
  | assign =>
    split
    · exact finds_hit acc _
    · exact .refl acc
  | ifStmt _ _ _ ihConsequent ihAlternative => exact (ihConsequent acc).trans (ihAlternative _)
  | block _ _ ihFirst ihSecond => exact (ihFirst acc).trans (ihSecond _)
  | borrow _ _ _ _ _ _ mode ih =>
    cases mode with
    | write => exact (finds_hit acc _).trans (ih _)
    | read | reborrow => exact ih acc
  | caseStmt _ _ _ ih => exact finds_mutatedInWhens_of_bodies ih acc

theorem notMem_of_hit_eq_nil (none : hit refined [] name = []) : name ∉ refined := by
  intro isRefined
  rw [hit, if_pos ⟨isRefined, not_mem_nil⟩] at none
  cases none

theorem eq_nil_of_mutatedIn_eq_nil (none : mutatedIn refined acc stmt = []) : acc = [] :=
  (finds_mutatedIn stmt acc).eq_nil none

theorem eq_nil_of_mutatedInWhens_eq_nil (none : mutatedInWhens refined acc whens = []) : acc = [] :=
  (finds_mutatedInWhens_of_bodies (fun arm _ => finds_mutatedIn arm.body) acc).eq_nil none

/-! ## Statements -/

def Names (refined : List String) (guarded : Set Nat) (frame : Frame) : Prop :=
  ∀ var cell, (var, cell) ∈ frame → cell ∈ guarded → ∃ name ∈ refined, var = .named name

theorem Names.cons (names : Names refined guarded frame) (outside : cell ∉ guarded) :
    Names refined guarded ((var, cell) :: frame) := by
  intro other otherCell isMember inside
  rcases mem_cons.mp isMember with same | before
  · cases same
    exact absurd inside outside
  · exact names other otherCell before inside

theorem Names.notMem_of_lookup (names : Names refined guarded frame)
    (found : frame.lookup var = some cell) (unrefined : ∀ name ∈ refined, var ≠ .named name) :
    cell ∉ guarded := by
  intro inside
  obtain ⟨_, _, split, -⟩ := lookup_eq_some_iff.mp found
  obtain ⟨name, isRefined, same⟩ := names var cell (by rw [split]; simp) inside
  exact unrefined name isRefined same

theorem leaves_write (names : Names refined guarded frame)
    (unrefined : ∀ name ∈ refined, var ≠ .named name) (clean : value.Clean guarded) :
    Leaves guarded entry (fun _ => True) (frame.write var value) :=
  (keeps_cellOf frame var).bind fun _ found =>
    leaves_store (names.notMem_of_lookup found unrefined) clean

theorem leaves_bindSlots (picked : ∀ name value, pick name = some value → value.Clean guarded)
    (names : Names refined guarded frame) (bindings : List TypedBinding) :
    Leaves guarded entry (Names refined guarded) (bindSlots pick frame bindings) := by
  induction bindings generalizing frame with
  | nil => exact keeps_pure names
  | cons _ _ ih =>
    rw [bindSlots]
    refine Keeps.bind (keeps_ofOption fun value found => picked _ value found)
      fun value clean => ?_
    exact (leaves_alloc clean).bind fun cell outside => ih (names.cons outside)

theorem leaves_scrutinee (kind : CaseRef) (clean : value.Clean guarded) : Leaves guarded entry
      (fun parts => ∀ name part, parts.2 name = some part → part.Clean guarded)
      (scrutinee kind value) := by
  cases kind with
  | casePlain =>
    cases value with
    | data tag =>
      cases tag with
      | some =>
        rw [scrutinee]
        refine keeps_pure ?_
        intro _ _ found place isReference
        exact clean place (Value.references_of_lookup found isReference)
      | none => exact keeps_stop
    | uninitialized | unit | bool | int | string | function | reference | external =>
      exact keeps_stop
  | caseRef =>
    rw [scrutinee]
    refine (keeps_asReference clean).bind fun target outside => ?_
    refine (leaves_load target.2).bind fun whole _ => ?_
    split
    · refine keeps_pure fun name part found => ?_
      obtain ⟨_, -, rfl⟩ := Option.map_eq_some_iff.mp found
      exact clean_slot outside
    · exact keeps_stop

section Execution

variable {host : Host} {call : Callee → List Value → Run Value}

/-- A returned value carries no right to write a guarded cell. -/
def Returns (guarded : Set Nat) (returned : Option Value) : Prop :=
  ∀ value, returned = some value → value.Clean guarded

/-- What a statement leaves behind: the variables of the rest of the block, and a value
if it returned. -/
def Ends (refined : List String) (guarded : Set Nat) (result : Frame × Option Value) : Prop :=
  Names refined guarded result.1 ∧ Returns guarded result.2

theorem returns_none : Returns guarded none := by
  intro _ returned
  cases returned

theorem leaves_execArm (picked : ∀ name value, pick name = some value → value.Clean guarded)
    (names : Names refined guarded frame)
    (bodies : ∀ arm ∈ whens, ∀ frame, Names refined guarded frame →
      mutatedIn refined [] arm.body = [] →
      Leaves guarded entry (Ends refined guarded) (execStmt host call limit frame arm.body))
    (unmutated : mutatedInWhens refined [] whens = []) :
    Leaves guarded entry (Returns guarded) (execArm host call limit frame tag pick whens) := by
  induction whens with
  | nil =>
    rw [execArm]
    exact keeps_stop
  | cons arm _ ih =>
    obtain ⟨_, bindings, _⟩ := arm
    rw [mutatedInWhens] at unmutated
    have first := eq_nil_of_mutatedInWhens_eq_nil unmutated
    rw [first] at unmutated
    rw [execArm]
    split
    · refine (leaves_bindSlots picked names bindings).bind fun inner innerNames => ?_
      exact (bodies _ mem_cons_self inner innerNames first).bind
        fun result ends => keeps_pure ends.2
    · exact ih (forall_mem_cons.mp bodies).2 unmutated

theorem leaves_exec (confined : host.Confined) (calls : CallsLeave guarded entry call)
    (limit : Nat) (stmt : TStmt) : ∀ frame, Names refined guarded frame →
      mutatedIn refined [] stmt = [] →
      Leaves guarded entry (Ends refined guarded) (execStmt host call limit frame stmt) := by
  have value (frame : Frame) (expr : TExpr) :
      Leaves guarded entry (Value.Clean guarded) (eval host call frame expr) :=
    (confined.preserved calls).eval frame expr
  have test (frame : Frame) (expr : TExpr) :
      Leaves guarded entry (fun _ => True) (eval host call frame expr >>= asBool) :=
    (value frame expr).bind fun result _ => keeps_asBool result
  have number (frame : Frame) (expr : TExpr) :
      Leaves guarded entry (fun _ => True) (eval host call frame expr >>= asInt) :=
    (value frame expr).bind fun result _ => keeps_asInt result
  induction stmt with (intro frame names unmutated; rw [execStmt])
  | skip => exact keeps_pure ⟨names, returns_none⟩
  | letStmt _ _ _ _ ih =>
    refine (leaves_alloc (clean_of_references_eq_nil rfl)).bind fun cell outside => ?_
    exact (ih _ (names.cons outside) unmutated).bind
      fun result ends => keeps_pure ⟨names, ends.2⟩
  | destructure _ bindings expr _ ih =>
    refine (value frame expr).bind fun whole clean => ?_
    refine (leaves_bindSlots ?_ names bindings).bind fun inner innerNames => ?_
    · intro _ _ found place isReference
      exact clean place (Value.references_slot found isReference)
    exact (ih inner innerNames unmutated).bind fun result ends => keeps_pure ⟨names, ends.2⟩
  | assign lvalue expr =>
    refine ((value frame lvalue).bind fun target clean => keeps_asReference clean).bind
      fun target outside => ?_
    refine (value frame expr).bind fun new clean => ?_
    split
    · rename_i writable
      exact (leaves_store (outside_of_clean outside writable) clean).bind
        fun _ _ => keeps_pure ⟨names, returns_none⟩
    · exact keeps_stop
  | assignVar _ expr | initialAssign _ expr =>
    refine (value frame expr).bind fun new clean => ?_
    have unrefined := notMem_of_hit_eq_nil unmutated
    refine (leaves_write names ?_ clean).bind fun _ _ => keeps_pure ⟨names, returns_none⟩
    rintro _ isRefined ⟨⟩
    exact unrefined isRefined
  | ifStmt condition _ _ ihConsequent ihAlternative =>
    rw [mutatedIn] at unmutated
    have first := eq_nil_of_mutatedIn_eq_nil unmutated
    rw [first] at unmutated
    refine (test frame condition).bind fun holds _ => ?_
    split
    · exact (ihConsequent frame names first).bind fun _ ends => keeps_pure ⟨names, ends.2⟩
    · exact (ihAlternative frame names unmutated).bind fun _ ends => keeps_pure ⟨names, ends.2⟩
  | caseStmt expr _ kind ih =>
    refine ((value frame expr).bind fun whole clean => leaves_scrutinee kind clean).bind
      fun parts picked => ?_
    exact (leaves_execArm picked names ih unmutated).bind
      fun returned clean => keeps_pure ⟨names, clean⟩
  | whileStmt condition _ ih =>
    refine (keeps_loop ((test frame condition).bind fun holds _ => ?_) limit).bind
      fun _ clean => keeps_pure ⟨names, clean⟩
    split
    · refine (ih frame names unmutated).bind fun result ends => keeps_pure ?_
      intro _ found value isValue
      subst isValue
      obtain ⟨_, isReturned, ⟨⟩⟩ := Option.map_eq_some_iff.mp found
      exact ends.2 value isReturned
    · refine keeps_pure ?_
      rintro _ ⟨⟩
      exact returns_none
  | forStmt _ start final _ ih =>
    refine (number frame start).bind fun first _ => ?_
    refine (number frame final).bind fun last _ => ?_
    refine (leaves_alloc (clean_of_references_eq_nil rfl)).bind fun cell outside => ?_
    refine (keeps_loop (((leaves_load _).bind fun value _ => keeps_asInt value).bind
      fun current _ => ?_) limit).bind fun _ clean => keeps_pure ⟨names, clean⟩
    split
    · refine (ih _ (names.cons outside) unmutated).bind fun result ends => ?_
      obtain ⟨_, returned⟩ := result
      cases returned with
      | some =>
        refine keeps_pure ?_
        rintro _ ⟨⟩
        exact ends.2
      | none =>
        exact (leaves_store outside (clean_of_references_eq_nil rfl)).bind
          fun _ _ => keeps_pure (by rintro _ ⟨⟩)
    · refine keeps_pure ?_
      rintro _ ⟨⟩
      exact returns_none
  | borrow _ rename _ _ _ body mode ih =>
    refine (keeps_cellOf frame _).bind fun source found => ?_
    have inner (reference : Value) (clean : reference.Clean guarded)
        (unmutated : mutatedIn refined [] body = []) :
        Leaves guarded entry (Ends refined guarded) (do
          let cell ← alloc reference
          let result ← execStmt host call limit ((.named rename.string, cell) :: frame) body
          pure (frame, result.2)) :=
      (leaves_alloc clean).bind fun cell outside =>
        (ih _ (names.cons outside) unmutated).bind fun result ends => keeps_pure ⟨names, ends.2⟩
    cases mode with
    | read =>
      refine inner _ (clean_reference fun writable => ?_) unmutated
      exact absurd writable Bool.false_ne_true
    | write =>
      rw [mutatedIn] at unmutated
      have direct := eq_nil_of_mutatedIn_eq_nil unmutated
      have unrefined := notMem_of_hit_eq_nil direct
      rw [direct] at unmutated
      have outside : source ∉ guarded := by
        refine names.notMem_of_lookup found ?_
        rintro _ isRefined ⟨⟩
        exact unrefined isRefined
      exact inner _ (clean_reference fun _ => outside) unmutated
    | reborrow =>
      refine ((leaves_load _).bind fun value clean => keeps_asReference clean).bind
        fun target outside => ?_
      dsimp only
      split
      · rename_i isWritable
        exact inner _ (clean_reference fun _ => outside_of_clean outside isWritable) unmutated
      · exact keeps_stop
  | block _ _ ihFirst ihSecond =>
    rw [mutatedIn] at unmutated
    have firstUnmutated := eq_nil_of_mutatedIn_eq_nil unmutated
    rw [firstUnmutated] at unmutated
    refine (ihFirst frame names firstUnmutated).bind fun result ends => ?_
    obtain ⟨inner, returned⟩ := result
    cases returned with
    | some => exact keeps_pure ends
    | none => exact ihSecond inner ends.1 unmutated
  | discarding expr => exact (value frame expr).bind fun _ _ => keeps_pure ⟨names, returns_none⟩
  | returnStmt expr =>
    refine (value frame expr).bind fun result clean => keeps_pure ⟨names, ?_⟩
    rintro _ ⟨⟩
    exact clean
  | letTmp _ _ expr =>
    refine (value frame expr).bind fun initial clean => ?_
    exact (leaves_alloc clean).bind fun cell outside => keeps_pure ⟨names.cons outside, returns_none⟩
  | assignTmp _ expr =>
    refine (value frame expr).bind fun new clean => ?_
    refine (leaves_write names ?_ clean).bind fun _ _ => keeps_pure ⟨names, returns_none⟩
    exact fun _ _ same => Variable.noConfusion same

/-! ## Calls -/

theorem mutatedIn_nil (acc : List String) (stmt : TStmt) : mutatedIn [] acc stmt = acc := by
  obtain ⟨_, isFound, none⟩ := finds_mutatedIn stmt acc
  rw [isFound, subset_nil.mp none, append_nil]

theorem leaves_enter (params : List Identifier) (clean : ∀ arg ∈ args, arg.Clean guarded)
    (names : Names refined guarded frame) :
    Leaves guarded entry (Names refined guarded) (enter frame params args) := by
  induction params generalizing frame args with
  | nil =>
    cases args with
    | nil => exact keeps_pure names
    | cons => exact keeps_stop
  | cons _ _ ih =>
    cases args with
    | nil => exact keeps_stop
    | cons arg =>
      rw [enter]
      exact (leaves_alloc (clean arg mem_cons_self)).bind fun cell outside =>
        ih (forall_mem_cons.mp clean).2
          (names.cons outside)

/-- A callee has variables of its own, none of which stands for a guarded cell, so
nothing is asked of its body. -/
theorem leaves_callAt (confined : host.Confined) (program : Program) (depth : Nat) :
    CallsLeave guarded entry (callAt host program depth) := by
  induction depth with
  | zero =>
    intro _ _ _
    exact keeps_stop
  | succ depth ih =>
    intro callee args clean
    rw [callAt]
    cases program callee with
    | none => exact confined.foreign guarded entry callee args clean
    | some code =>
      refine (leaves_enter code.params clean (nofun : Names [] guarded [])).bind
        fun frame names => ?_
      refine (leaves_exec confined ih depth code.body frame names (mutatedIn_nil [] _)).bind
        fun result ends => keeps_pure ?_
      obtain ⟨_, returned⟩ := result
      cases returned with
      | none => exact clean_of_references_eq_nil rfl
      | some value => exact ends.2 value rfl

end Execution

/-! ## The body of an accepted function -/

def Memory.Refers (memory : Memory) (source target : Nat) : Prop :=
  ∃ value, memory.cells[source]? = some value ∧
    ∃ writable place, (writable, place) ∈ value.references ∧ place.cell = target

/-- The cells that the values of some variables are spread over: their own, and those
that are reached from them through references. -/
def contractCells (refined : List String) (frame : Frame) (memory : Memory) : Set Nat :=
  {cell | ∃ name ∈ refined, ∃ root, (.named name, root) ∈ frame ∧
    Relation.ReflTransGen memory.Refers root cell}

/-- No value refers to a cell that does not exist. -/
def Closed (memory : Memory) (args : List Value) : Prop :=
  ∀ value ∈ memory.cells ++ args, ∀ reference ∈ value.references,
    reference.2.cell < memory.cells.length

theorem enter_eq_ok {params : List Identifier} {args : List Value} {frame inner : Frame}
    {memory entry : Memory} (entered : enter frame params args memory = (.ok inner, entry)) :
    entry.cells = memory.cells ++ args ∧
      ∃ fresh : Frame, inner = fresh ++ frame ∧ (fresh.map Prod.snd).Nodup ∧
        ∀ bound ∈ fresh, memory.cells.length ≤ bound.2 ∧ bound.2 < entry.cells.length := by
  induction params generalizing frame args memory with
  | nil =>
    cases args with
    | nil =>
      obtain ⟨rfl, rfl⟩ := pure_eq_ok.mp entered
      exact ⟨(append_nil _).symm, [], rfl, nodup_nil, nofun⟩
    | cons => cases entered
  | cons param _ ih =>
    cases args with
    | nil => cases entered
    | cons =>
      rw [enter, bind_eq_ok] at entered
      obtain ⟨cell, _, allocated, entered⟩ := entered
      cases allocated
      obtain ⟨cells, fresh, rfl, nodup, bounds⟩ := ih entered
      simp only [length_append, length_singleton] at bounds
      have isLast : memory.cells.length < entry.cells.length := by
        rw [cells]
        simp
      refine ⟨by rw [cells, append_assoc, singleton_append],
        fresh ++ [(.named param.string, memory.cells.length)], by simp, ?_, ?_⟩
      · rw [map_append, nodup_append]
        refine ⟨nodup, nodup_singleton _, ?_⟩
        intro _ isMember _ isOther _
        obtain ⟨bound, isBound, rfl⟩ := mem_map.mp isMember
        rw [map_singleton, mem_singleton] at isOther
        have above := (bounds bound isBound).1
        omega
      · intro bound isMember
        rcases mem_append.mp isMember with later | isFirst
        · have above := bounds bound later
          omega
        · cases mem_singleton.mp isFirst
          exact ⟨le_refl _, isLast⟩

section Entry

variable {params : List Identifier} {args : List Value} {frame : Frame} {memory entry : Memory}

variable (closed : Closed memory args)
include closed

theorem lt_of_refers (cells : entry.cells = memory.cells ++ args)
    (refers : entry.Refers source target) : target < memory.cells.length := by
  obtain ⟨value, found, writable, place, isReference, rfl⟩ := refers
  rw [cells] at found
  exact closed value (mem_of_getElem? found) (writable, place) isReference

theorem names_contractCells (entered : enter [] params args memory = (.ok frame, entry)) :
    Names refined (contractCells refined frame entry) frame := by
  obtain ⟨cells, _, isFrame, nodup, bounds⟩ := enter_eq_ok entered
  rw [append_nil] at isFrame
  subst isFrame
  rintro _ _ isBound ⟨name, isRefined, _, isRoot, reaches⟩
  refine ⟨name, isRefined, ?_⟩
  rcases Relation.ReflTransGen.cases_tail reaches with same | ⟨between, -, refers⟩
  · subst same
    have bothBound := inj_on_of_nodup_map nodup isBound isRoot rfl
    exact congrArg Prod.fst bothBound
  · have old := lt_of_refers closed cells refers
    have new := (bounds _ isBound).1
    omega

theorem guards_contractCells (entered : enter [] params args memory = (.ok frame, entry))
    (unaliased : ∀ value ∈ memory.cells ++ args, value.Clean (contractCells refined frame entry)) :
    Guards (contractCells refined frame entry) entry { entry with writes := [] } := by
  obtain ⟨cells, _, isFrame, -, bounds⟩ := enter_eq_ok entered
  rw [append_nil] at isFrame
  subst isFrame
  refine ⟨?_, fun _ _ => rfl, ?_, nofun⟩
  · rintro _ ⟨_, -, _, isRoot, reaches⟩
    rcases Relation.ReflTransGen.cases_tail reaches with same | ⟨between, -, refers⟩
    · subst same
      exact (bounds _ isRoot).2
    · have old := lt_of_refers closed cells refers
      rw [cells, length_append]
      omega
  · intro value isMember
    rw [cells] at isMember
    exact unaliased value isMember

end Entry

theorem mutatedIn_of_accepted {id : DeclId} {body : TStmt} {pragmas : List Pragma}
    (accepted : checkDecl tables
      (.function id name typarams params returnType body pragmas) = none) :
    mutatedIn (refinedParams params pragmas) [] body = [] := by
  rw [checkDecl, checkFunction] at accepted
  split at accepted
  · cases accepted
  · assumption

/-- In a function that the gate accepts, and that is entered with no write reference into
what the parameters of its contracts hold or refer to, no execution of the body changes
or writes any of it, whether it returns or stops. -/
theorem accepted_body_keeps_contract_values {source : TypedModule} {id : DeclId}
    {name : Identifier} {typarams : List TypeParameter} {params : List ValueParameter}
    {returnType : Ty} {body : TStmt} {pragmas : List Pragma}
    (accepted : checkDecl (gateTables source)
      (.function id name typarams params returnType body pragmas) = none)
    {host : Host} (confined : host.Confined) (program : Program) (depth limit : Nat)
    {args : List Value} {memory entry : Memory} {frame : Frame} (closed : Closed memory args)
    (entered : enter [] (params.map (·.name)) args memory = (.ok frame, entry))
    (unaliased : ∀ value ∈ memory.cells ++ args,
      value.Clean (contractCells (refinedParams params pragmas) frame entry)) :
    ∀ cell ∈ contractCells (refinedParams params pragmas) frame entry,
      let final := (execStmt host (callAt host program depth) limit frame body
        { entry with writes := [] }).2
      final.cells[cell]? = entry.cells[cell]? ∧ cell ∉ final.writes := by
  intro cell inside final
  have kept : Guards (contractCells (refinedParams params pragmas) frame entry) entry final :=
    (leaves_exec confined (leaves_callAt confined program depth) limit body frame
      (names_contractCells closed entered) (mutatedIn_of_accepted accepted) _
      (guards_contractCells closed entered unaliased)).1
  exact ⟨kept.same cell inside, fun written => kept.unwritten cell written inside⟩

/-- A host without foreign code, constants or arrays, and with one literal. -/
def bareHost : Host where
  constant := fun _ => stop .stuck
  integer := fun text => if text = "0" then some 0 else none
  float := fun _ => .external 0
  cast := fun _ _ => none
  compare := fun _ _ _ => none
  index := fun _ _ _ => none
  sizeOf := fun _ => .int 0
  embed := fun _ _ _ => stop .stuck
  foreign := fun _ _ => stop .stuck

theorem bareHost_confined : bareHost.Confined where
  constant := fun _ _ _ => keeps_stop
  float := fun _ _ => clean_of_references_eq_nil rfl
  cast := nofun
  index := nofun
  sizeOf := fun _ _ => clean_of_references_eq_nil rfl
  embed := fun _ _ _ _ _ _ => keeps_stop
  foreign := fun _ _ _ _ _ => keeps_stop

/-- A parameter that is borrowed for reading and returned through the borrow. -/
theorem accepted_body_keeps_contract_values_at_read :
    let ty : Ty := .integer .signed .width32
    let body : TStmt := .borrow ⟨"n"⟩ ⟨"r"⟩ ⟨"R"⟩ ty (.readRef ty (.regionTy ⟨0⟩))
      (.returnStmt (.deref (.localVar ⟨"r"⟩ (.readRef ty (.regionTy ⟨0⟩))))) .read
    let frame : Frame := [(.named "n", 0)]
    let entry : Memory := ⟨[.int 3], []⟩
    let final := (execStmt bareHost (callAt bareHost (fun _ => none) 0) 0 frame body entry).2
    final.cells[0]? = entry.cells[0]? ∧ 0 ∉ final.writes := by
  intro ty body frame entry _
  have accepted : checkDecl (gateTables ⟨⟨"Example"⟩, []⟩) (.function ⟨1⟩ ⟨"same"⟩ []
      [⟨⟨"n"⟩, ty⟩] ty body [.liquid "Requires" "n > 0"]) = none := rfl
  have refined : refinedParams [⟨⟨"n"⟩, ty⟩] [.liquid "Requires" "n > 0"] = ["n"] := by
    decide +kernel
  have closed : Closed ⟨[], []⟩ [.int 3] := by
    intro _ isMember _ isReference
    cases mem_singleton.mp isMember
    cases isReference
  have inside : 0 ∈ contractCells ["n"] frame entry := ⟨"n", mem_cons_self, 0, mem_cons_self, .refl⟩
  refine accepted_body_keeps_contract_values accepted bareHost_confined (fun _ => none) 0 0 closed
    rfl ?_ 0 (refined ▸ inside)
  intro _ isMember
  cases mem_singleton.mp isMember
  exact clean_of_references_eq_nil rfl

/-- A parameter that is a write reference is named by a contract, reborrowed, and written
through the reborrow. -/
theorem accepted_body_changes_reborrowed_parameter :
    let ty : Ty := .integer .signed .width32
    let writeTy : Ty := .writeRef ty (.regionTy ⟨0⟩)
    let params : List ValueParameter := [⟨⟨"p"⟩, writeTy⟩]
    let pragmas : List Pragma := [.liquid "Requires" "p > 0"]
    let body : TStmt := .block
      (.borrow ⟨"p"⟩ ⟨"r"⟩ ⟨"R"⟩ writeTy writeTy
        (.assign (.localVar ⟨"r"⟩ writeTy) (.intConstant "0")) .reborrow)
      (.returnStmt .nilConstant)
    let decl : TypedDecl := .function ⟨1⟩ ⟨"clear"⟩ [] params .unit body pragmas
    let source : TypedModule := ⟨⟨"Example"⟩, [decl]⟩
    let memory : Memory := ⟨[.int 5], []⟩
    let args : List Value := [.reference true ⟨0, []⟩]
    let frame : Frame := [(.named "p", 1)]
    let entry : Memory := ⟨[.int 5, .reference true ⟨0, []⟩], []⟩
    let run := execStmt bareHost (callAt bareHost (fun _ => none) 0) 0 frame body entry
    totality source = none ∧ isContracted decl ∧ checkDecl (gateTables source) decl = none ∧
      refinedParams params pragmas = ["p"] ∧ Closed memory args ∧
      enter [] (params.map (·.name)) args memory = (.ok frame, entry) ∧
      0 ∈ contractCells ["p"] frame entry ∧
      run.1 = .ok (frame, some .unit) ∧ entry.cells[0]? = some (.int 5) ∧
      run.2.cells[0]? = some (.int 0) := by
  intro _ _ _ _ _ _ _ _ _ _ _ _
  refine ⟨rfl, rfl, rfl, by decide +kernel, ?_, rfl, ?_, rfl, rfl, rfl⟩
  · intro _ isMember _ isReference
    rcases mem_cons.mp isMember with rfl | isArgument
    · cases isReference
    · cases mem_singleton.mp isArgument
      cases mem_singleton.mp isReference
      exact Nat.zero_lt_one
  · refine ⟨"p", mem_cons_self, 1, mem_cons_self, .single ?_⟩
    exact ⟨_, rfl, true, ⟨0, []⟩, mem_cons_self, rfl⟩

end AustralVM.Typed
