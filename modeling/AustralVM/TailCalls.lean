import AustralVM.CodeExecution

/-!
# Returned calls

The reader has two emitters for a call: one for a call within an expression, and one
for a call that a function returns directly.  Whatever bytes they read, they read the
same callee and the same arguments, and the code that they emit returns the same with
the same effects unless the callee is the constructor of unions.
-/

namespace AustralVM

open ByteParser

/-! ## Both paths -/

/-- A returned value that is computed like any other one. -/
def emitReturnValue (emitValue : List String → CpsParser Code) (vars : List String) :
    CpsParser (CodeBlock × List String) := do
  let value ← emitValue vars
  pure (.ret value, vars)

/-- What both paths read: the callee and its arguments. -/
def readCall (ctx : EmitContext) (vars : List String) (fuel : Nat) :
    CpsParser (String × List Code) := do
  let name ← readString ctx.lossy
  let count ← readU32
  let args ← times count (emitExpr ctx vars fuel)
  pure (name, args)

/-- What is returned, and which effects there are, if the code that was read runs; and what
is left to read. -/
def returned {ω : Type} (host : CodeHost ω) (limit : Nat) (state : CpsState ω)
    (read : Except String ((CodeBlock × List String) × List UInt8)) :
    Except String (Option (CpsEnding ω) × List UInt8) :=
  read.map fun result => (runBlock host limit result.1.1 state, result.2)

/-- Both paths make the same of a returned call, whatever it runs with.  The bytes are those
behind the opcode of the call, which takes one level of nesting on the general path. -/
def SameReturn (ctx : EmitContext) (vars : List String) (fuel : Nat) (bytes : List UInt8) : Prop :=
  ∀ (ω : Type) (host : CodeHost ω) (limit : Nat) (state : CpsState ω),
    returned host limit state
        (emitReturn ctx (fun vars => emitExpr ctx vars fuel) vars (0x04 :: bytes)) =
      returned host limit state
        (emitReturnValue (fun vars => emitExpr ctx vars (fuel + 1)) vars (0x04 :: bytes))

section Paths

variable (ctx : EmitContext) (vars : List String) (fuel : Nat) (bytes : List UInt8)

/-- A call with an emitter for it, as a returned value. -/
def emitReturned (finish : String → List Code → Except String Code) :
    CpsParser (CodeBlock × List String) := do
  let (name, args) ← readCall ctx vars fuel
  let code ← ByteParser.ofExcept (finish name args)
  pure (.ret code, vars)

theorem emitApp_bind (finish : String → List Code → Except String Code) :
    (emitApp ctx.lossy (emitExpr ctx vars fuel) finish >>= fun code =>
      pure (CpsBlock.ret code, vars)) = emitReturned ctx vars fuel finish := by
  simp only [emitApp, emitReturned, readCall, bind_assoc, pure_bind]

theorem emitReturn_call : emitReturn ctx (fun vars => emitExpr ctx vars fuel) vars (0x04 :: bytes) =
      emitReturned ctx vars fuel (emitTailCall ctx) bytes := by
  rw [emitReturn_app, emitApp_bind]

theorem emitReturnValue_call :
    emitReturnValue (fun vars => emitExpr ctx vars (fuel + 1)) vars (0x04 :: bytes) =
      emitReturned ctx vars fuel (emitCall ctx) bytes := by
  rw [← emitApp_bind]
  rfl

end Paths

/-! ## Code that gives a value -/

section Gives

variable {ω : Type} {host : CodeHost ω} {vars : String → Word}

variable (host vars) in
/-- The code computes a value whatever the world is like. -/
def Gives (code : Code) : Prop := ∀ world, ∃ result, evalCode host vars code world = some result

theorem evalCodes_gives (each : ∀ code ∈ codes, Gives host vars code) (world : ω) :
    ∃ values after, evalCodes host vars codes world = some (values, after) ∧
      values.length = codes.length := by
  induction codes generalizing world with
  | nil => exact ⟨[], world, rfl, rfl⟩
  | cons _ _ ih =>
    obtain ⟨first, others⟩ := List.forall_mem_cons.mp each
    obtain ⟨⟨value, between⟩, isValue⟩ := first world
    obtain ⟨values, after, areValues, long⟩ := ih others between
    refine ⟨value :: values, after, ?_, congrArg (· + 1) long⟩
    simp only [evalCodes, isValue, areValues, Option.bind_eq_bind, Option.bind_some]

theorem Gives.slotGet (each : ∀ arg ∈ args, Gives host vars arg) (enough : 2 ≤ args.length) :
    Gives host vars (.slotGet args) := by
  intro world
  obtain ⟨values, _, areValues, long⟩ := evalCodes_gives each world
  match values, long with
  | pointer :: offset :: rest, _ => simp [evalCode, areValues]
  | [_], long => simp at long; omega
  | [], long => simp at long; omega

theorem Gives.recordNew (each : ∀ arg ∈ args, Gives host vars arg) (enough : 1 ≤ args.length) :
    Gives host vars (.recordNew args) := by
  intro world
  obtain ⟨values, _, areValues, long⟩ := evalCodes_gives each world
  match values, long with
  | size :: fields, _ => simp [evalCode, areValues]
  | [], long => simp at long; omega

theorem Gives.unionNew (each : ∀ arg ∈ args, Gives host vars arg) (enough : 2 ≤ args.length) :
    Gives host vars (.unionNew args) := by
  intro world
  obtain ⟨values, _, areValues, long⟩ := evalCodes_gives each world
  match values, long with
  | size :: tag :: fields, _ => simp [evalCode, areValues]
  | [_], long => simp at long; omega
  | [], long => simp at long; omega

end Gives

/-- A host with every function except a constructor of unions. -/
def CodeHost.unionless : CodeHost Unit :=
  ⟨CpsHost.bare.toCpsMemory,
    fun target _ _ => if target.name = "__union_new" then none else some (0, ())⟩

section Emitted

variable {ctx : EmitContext} {env : String → Word} {emitOperand : CpsParser Code}

theorem name_target (name : String) : (ctx.target name).name = name := by
  rw [EmitContext.target, callTarget]
  split <;> rfl

theorem gives_emitCall (each : ∀ arg ∈ args, Gives .unionless env arg)
    (emitted : emitCall ctx name args = .ok code) : Gives .unionless env code := by
  obtain ⟨_, _, rest⟩ := Comp.bind_eq_ok.mp emitted
  split_ifs at rest with isSlot isRecord isUnion
  · obtain ⟨_, enough, equal⟩ := Comp.bind_eq_ok.mp rest
    cases equal
    exact .slotGet each (requireArgs_eq_ok.mp enough)
  · obtain ⟨_, enough, equal⟩ := Comp.bind_eq_ok.mp rest
    cases equal
    exact .recordNew each (requireArgs_eq_ok.mp enough)
  · obtain ⟨_, enough, equal⟩ := Comp.bind_eq_ok.mp rest
    cases equal
    exact .unionNew each (requireArgs_eq_ok.mp enough)
  · cases rest
    intro world
    obtain ⟨values, after, areValues, -⟩ := evalCodes_gives each world
    have called : CodeHost.unionless.call (ctx.target name) values after = some (0, ()) := by
      simp [CodeHost.unionless, name_target, isUnion]
    refine ⟨(0, ()), ?_⟩
    rw [evalCode, areValues]
    exact called

theorem gives_binary (operands : Returns (Gives .unionless env) emitOperand)
    (gives : ∀ lhs rhs, Gives .unionless env lhs → Gives .unionless env rhs →
      Gives .unionless env (instruction lhs rhs)) :
    Returns (Gives .unionless env) (emitBinary emitOperand instruction) := by
  refine operands.bind fun lhs lhsGives => operands.bind fun rhs rhsGives => ?_
  exact returns_pure (gives lhs rhs lhsGives rhsGives)

theorem gives_of_eval (lhsGives : Gives .unionless env lhs) (rhsGives : Gives .unionless env rhs)
    (compute : Word → Word → Word) (evaluates : ∀ world, evalCode .unionless env code world = (do
      let (left, world) ← evalCode .unionless env lhs world
      let (right, world) ← evalCode .unionless env rhs world
      some (compute left right, world))) : Gives .unionless env code := by
  intro world
  obtain ⟨⟨left, between⟩, isLeft⟩ := lhsGives world
  obtain ⟨⟨right, after⟩, isRight⟩ := rhsGives between
  refine ⟨(compute left right, after), ?_⟩
  simp only [evaluates, isLeft, isRight, Option.bind_eq_bind, Option.bind_some]

theorem gives_icmp (operands : Returns (Gives .unionless env) emitOperand) (condition : IntCC) :
    Returns (Gives .unionless env) (emitBinary emitOperand (.icmp condition)) := by
  refine gives_binary operands fun lhs rhs lhsGives rhsGives => ?_
  refine gives_of_eval lhsGives rhsGives
    (fun left right => wordOfBool (condition.compute left right)) fun world => ?_
  rw [evalCode]

theorem gives_unary (operands : Returns (Gives .unionless env) emitOperand)
    (compute : Word → Unit → Word)
    (evaluates : ∀ operand world, evalCode .unionless env (instruction operand) world = (do
      let (value, world) ← evalCode .unionless env operand world
      some (compute value world, world))) :
    Returns (Gives .unionless env) (emitUnary emitOperand instruction) := by
  refine operands.bind fun operand operandGives => returns_pure fun world => ?_
  obtain ⟨⟨value, after⟩, isValue⟩ := operandGives world
  refine ⟨(compute value after, after), ?_⟩
  rw [evaluates, isValue]
  rfl

theorem gives_opcode (vars : List String) (operands : Returns (Gives .unionless env) emitOperand)
    (opcode : UInt8) : Returns (Gives .unionless env) (emitOpcode ctx vars emitOperand opcode) := by
  unfold emitOpcode
  split
  case h_1 =>
      rw [map_eq_pure_bind]
      exact .after fun value => returns_pure fun world => ⟨_, by rw [evalCode]⟩
  case h_2 =>
      refine .after fun name => returns_ofExcept fun code found => ?_
      split at found
      · cases found
        exact fun world => ⟨_, by rw [evalCode]⟩
      · cases found
  case h_3 =>
      refine .after fun name => Returns.after fun count => ?_
      refine (operands.times count).bind fun args each => ?_
      exact returns_ofExcept fun code emitted => gives_emitCall each emitted
  case h_13 =>
      exact gives_unary operands (fun value _ => ~~~value) fun operand world => by rw [evalCode]
  case h_14 =>
      exact gives_unary operands CodeHost.unionless.load fun operand world => by rw [evalCode]
  case h_15 =>
      rw [map_eq_pure_bind]
      exact .after fun value => returns_pure fun world => ⟨_, by rw [evalCode]⟩
  case h_16 => exact returns_fail _
  case h_4 =>
      refine gives_binary operands fun lhs rhs lhsGives rhsGives => ?_
      exact gives_of_eval lhsGives rhsGives (· + ·) fun world => by rw [evalCode]
  case h_5 =>
      refine gives_binary operands fun lhs rhs lhsGives rhsGives => ?_
      exact gives_of_eval lhsGives rhsGives (· - ·) fun world => by rw [evalCode]
  case h_12 =>
      refine gives_binary operands fun lhs rhs lhsGives rhsGives => ?_
      exact gives_of_eval lhsGives rhsGives (· * ·) fun world => by rw [evalCode]
  all_goals exact gives_icmp operands _

theorem gives_expr (vars : List String) (fuel : Nat) :
    Returns (Gives .unionless env) (emitExpr ctx vars fuel) := by
  induction fuel with
  | zero => exact returns_fail _
  | succ _ ih => exact .after fun opcode => gives_opcode vars ih opcode

end Emitted

/-! ## Agreement -/

section Agreement

variable (ctx : EmitContext) (vars : List String) (fuel : Nat) (bytes : List UInt8)

theorem gives_readCall :
    Returns (fun call => ∀ arg ∈ call.2, Gives .unionless env arg) (readCall ctx vars fuel) := by
  refine .after fun name => Returns.after fun count => ?_
  exact ((gives_expr vars fuel).times count).bind fun args each => returns_pure each

theorem emitReturned_of_read (read : readCall ctx vars fuel bytes = .ok ((name, args), rest))
    (finish : String → List Code → Except String Code) : emitReturned ctx vars fuel finish bytes =
      (finish name args).map fun code => ((CpsBlock.ret code, vars), rest) := by
  rw [emitReturned, bind_ok read]
  dsimp only
  cases finish name args with
  | error => rfl
  | ok => rfl

theorem permits_unionNew : ctx.permits "__union_new" = .ok () := by
  have isInternal : hasPrefix "__" "__union_new" = true := by decide
  rw [EmitContext.permits, checkCallPermission, isInternal]
  rfl

theorem emitTailCall_unionNew (args : List Code) :
    emitTailCall ctx "__union_new" args = .ok (.call (ctx.target "__union_new") args) := by
  rw [emitTailCall, permits_unionNew]
  rfl

theorem emitCall_unionNew (args : List Code) :
    emitCall ctx "__union_new" args = (requireArgs 2 args).map fun _ => .unionNew args := by
  rw [emitCall, permits_unionNew]
  cases requireArgs 2 args with
  | error => rfl
  | ok => rfl

theorem evalCode_call_unionNew :
    evalCode .unionless env (.call (ctx.target "__union_new") args) () = none := by
  rw [evalCode]
  cases evalCodes CodeHost.unionless env args () with
  | none => rfl
  | some => simp [CodeHost.unionless, name_target]

theorem not_sameReturn_of_unionNew
    (read : readCall ctx vars fuel bytes = .ok (("__union_new", args), rest)) :
    ¬ SameReturn ctx vars fuel bytes := by
  intro same
  let env : String → Word := fun _ => 0
  have agree := same Unit .unionless 0 ⟨env, ()⟩
  rw [emitReturn_call, emitReturnValue_call, emitReturned_of_read _ _ _ _ read,
    emitReturned_of_read _ _ _ _ read, emitTailCall_unionNew, emitCall_unionNew] at agree
  have each : ∀ arg ∈ args, Gives .unionless env arg := gives_readCall ctx vars fuel bytes _ _ read
  cases enough : requireArgs 2 args with
  | error =>
    rw [enough] at agree
    cases agree
  | ok =>
    obtain ⟨_, given⟩ := Gives.unionNew each (requireArgs_eq_ok.mp enough) ()
    have run : runBlock .unionless 0 (.ret (.unionNew args)) ⟨env, ()⟩ =
        runBlock .unionless 0 (.ret (.call (ctx.target "__union_new") args)) ⟨env, ()⟩ := by
      rw [enough] at agree
      exact (congrArg Prod.fst (Except.ok.inj agree)).symm
    rw [runBlock, runBlock, given, evalCode_call_unionNew] at run
    cases run

/-- The two paths agree on a returned call exactly when it is none of the constructor of
unions. -/
theorem sameReturn_iff : SameReturn ctx vars fuel bytes ↔
      ∀ name args rest, readCall ctx vars fuel bytes = .ok ((name, args), rest) →
        name ≠ "__union_new" := by
  constructor
  · rintro same _ _ _ read rfl
    exact not_sameReturn_of_unionNew ctx vars fuel bytes read same
  · intro notUnion _ _ _ _
    rw [emitReturn_call, emitReturnValue_call]
    cases read : readCall ctx vars fuel bytes with
    | error => simp only [emitReturned, bind_error read]
    | ok result =>
      obtain ⟨⟨name, args⟩, rest⟩ := result
      rw [emitReturned_of_read _ _ _ _ read, emitReturned_of_read _ _ _ _ read,
        emitCall_of_ne (notUnion name args rest read)]

end Agreement

/-- A function that returns a new union: sixteen bytes with the first tag. -/
def returnedUnion : List UInt8 :=
  writeString "__union_new" ++ (writeU32 2 ++ (0x01 :: (writeI64 16 ++ (0x01 :: writeI64 0))))

theorem returned_union_differs :
    ¬ SameReturn ⟨.replacing, .initial, [], "run", ""⟩ [] 2 returnedUnion := by
  have read : readCall ⟨.replacing, .initial, [], "run", ""⟩ [] 2 returnedUnion =
      .ok (("__union_new", [.iconst 16, .iconst 0]), []) := by
    rfl
  exact not_sameReturn_of_unionNew _ _ _ _ read

end AustralVM
