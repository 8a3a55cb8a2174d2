import AustralVM.CpsReader

/-!
# Calls across the kernel boundary are authorized

The reader asks for a permission in each of the places where it emits a call.
So in every binary that it accepts, a call of a kernel or Rust symbol that the
binary does not define is one that the engine allows.
-/

namespace AustralVM

open Auth ByteParser List

/-! ## What a permission says -/

/-- Every call among those of some code has a permission. -/
def AllPermitted (ctx : EmitContext) (calls : List (CallTarget × Nat)) : Prop :=
  ∀ call ∈ calls, ctx.permits call.1.name = .ok ()

theorem isPrefixOf_eq_false_of_ne {rest rest' text : List Char} (ne : first ≠ second)
    (starts : (first :: rest).isPrefixOf text) : (second :: rest').isPrefixOf text = false := by
  cases text with
  | nil => rfl
  | cons head =>
    obtain rfl : first = head := by
      simp only [isPrefixOf_cons_cons, Bool.and_eq_true, beq_iff_eq] at starts
      exact starts.1
    rw [isPrefixOf_cons_cons, beq_false_of_ne ne.symm, Bool.false_and]

theorem not_builtin_of_isGated (gated : isGated callee) :
    (hasPrefix "__" callee || hasPrefix "au_" callee) = false := by
  have start : ('u' :: 'k' :: ['_']).isPrefixOf callee.toList ∨
      ('u' :: 'z' :: ['_']).isPrefixOf callee.toList ∨
      ('r' :: 's' :: ['_']).isPrefixOf callee.toList := by
    simpa [isGated, hasPrefix, or_assoc] using gated
  have apart : ('_' :: ['_']).isPrefixOf callee.toList = false ∧
      ('a' :: 'u' :: ['_']).isPrefixOf callee.toList = false := by
    rcases start with has | has | has <;>
      exact ⟨isPrefixOf_eq_false_of_ne (by decide) has, isPrefixOf_eq_false_of_ne (by decide) has⟩
  simpa [hasPrefix] using apart

theorem allow_of_checkCallPermission
    (permitted : checkCallPermission auth caller moduleName callee = .ok ())
    (gated : isGated callee) (other : caller ≠ callee) :
    auth.engine (effectivePrincipal auth caller moduleName) "Call" callee = .ok .allow := by
  have exempt : (hasPrefix "__" callee || hasPrefix "au_" callee || caller = callee) = false := by
    rw [not_builtin_of_isGated gated, decide_eq_false other, Bool.or_self]
  rw [checkCallPermission, exempt, gated] at permitted
  simp only [AuthState.check] at permitted
  cases decision : auth.engine (effectivePrincipal auth caller moduleName) "Call" callee with
  | error => simp [decision] at permitted
  | ok answer =>
    cases answer with
    | allow => rfl
    | deny => simp [decision] at permitted

/-! ## Emitted calls have permissions -/

theorem AllPermitted.append (permitted : AllPermitted ctx calls)
    (othersPermitted : AllPermitted ctx others) : AllPermitted ctx (calls ++ others) :=
  forall_mem_append.mpr ⟨permitted, othersPermitted⟩

theorem allPermitted_nil (ctx : EmitContext) : AllPermitted ctx [] := by simp [AllPermitted]

theorem Code.callsList_eq_flatMap (codes : List Code) :
    Code.callsList codes = codes.flatMap Code.calls := by
  induction codes with
  | nil => rfl
  | cons _ _ ih => rw [Code.callsList, ih, flatMap_cons]

section Emission

variable {ctx : EmitContext} {args : List Code} {name : String} {code : Code}
  {emitOperand : CpsParser Code}

theorem allPermitted_callsList (each : ∀ arg ∈ args, AllPermitted ctx arg.calls) :
    AllPermitted ctx (Code.callsList args) := by
  rw [Code.callsList_eq_flatMap]
  intro call inCalls
  obtain ⟨arg, inArgs, inArg⟩ := mem_flatMap.mp inCalls
  exact each arg inArgs call inArg

theorem EmitContext.name_target (ctx : EmitContext) (name : String) :
    (ctx.target name).name = name := by
  rw [EmitContext.target, callTarget]
  split <;> rfl

theorem allPermitted_call (permitted : ctx.permits name = .ok ())
    (each : ∀ arg ∈ args, AllPermitted ctx arg.calls) :
    AllPermitted ctx (Code.call (ctx.target name) args).calls := by
  rw [Code.calls]
  apply (allPermitted_callsList each).append
  simpa [AllPermitted, ctx.name_target] using permitted

/-- What is emitted for a call has its arguments, and is the call itself only
with a permission. -/
def IsCallOf (ctx : EmitContext) (name : String) (args : List Code) (code : Code) : Prop :=
  ctx.permits name = .ok () ∧ (code = .slotGet args ∨ code = .recordNew args ∨
    code = .unionNew args ∨ code = .call (ctx.target name) args)

theorem eq_of_requireArgs (emitted : (do requireArgs needed args; pure made) = .ok code) :
    code = made := by
  obtain ⟨_, -, emitted⟩ := Comp.bind_eq_ok.mp emitted
  exact (Except.ok.inj emitted).symm

theorem isCallOf_emitCall (emitted : emitCall ctx name args = .ok code) :
    IsCallOf ctx name args code := by
  obtain ⟨_, permitted, emitted⟩ := Comp.bind_eq_ok.mp emitted
  refine ⟨permitted, ?_⟩
  split_ifs at emitted
  · exact .inl (eq_of_requireArgs emitted)
  · exact .inr (.inl (eq_of_requireArgs emitted))
  · exact .inr (.inr (.inl (eq_of_requireArgs emitted)))
  · exact .inr (.inr (.inr (Except.ok.inj emitted).symm))

theorem isCallOf_emitTailCall (emitted : emitTailCall ctx name args = .ok code) :
    IsCallOf ctx name args code := by
  obtain ⟨_, permitted, emitted⟩ := Comp.bind_eq_ok.mp emitted
  refine ⟨permitted, ?_⟩
  split_ifs at emitted
  · exact .inl (eq_of_requireArgs emitted)
  · exact .inr (.inl (eq_of_requireArgs emitted))
  · exact .inr (.inr (.inr (Except.ok.inj emitted).symm))

theorem IsCallOf.permitted (isCall : IsCallOf ctx name args code)
    (each : ∀ arg ∈ args, AllPermitted ctx arg.calls) : AllPermitted ctx code.calls := by
  obtain ⟨permitted, rfl | rfl | rfl | rfl⟩ := isCall
  · exact allPermitted_callsList each
  · exact allPermitted_callsList each
  · exact allPermitted_callsList each
  · exact allPermitted_call permitted each

/-- Whatever is read, the calls of the code have permissions. -/
abbrev EmitsPermitted (ctx : EmitContext) (emit : CpsParser Code) : Prop :=
  Returns (fun code => AllPermitted ctx code.calls) emit

theorem emitsPermitted_app
    (finishes : ∀ name args code, finish name args = .ok code → IsCallOf ctx name args code)
    (operands : EmitsPermitted ctx emitOperand) :
    EmitsPermitted ctx (emitApp ctx.lossy emitOperand finish) := by
  refine .after fun name => Returns.after fun count => ?_
  refine (operands.times count).bind fun args each => ?_
  exact returns_ofExcept fun code emitted => (finishes name args code emitted).permitted each

theorem emitsPermitted_binary (operands : EmitsPermitted ctx emitOperand)
    (calls : ∀ lhs rhs, (instruction lhs rhs).calls = lhs.calls ++ rhs.calls) :
    EmitsPermitted ctx (emitBinary emitOperand instruction) := by
  refine operands.bind fun lhs lhsPermitted => operands.bind fun rhs rhsPermitted => ?_
  apply returns_pure
  rw [calls]
  exact lhsPermitted.append rhsPermitted

theorem emitsPermitted_unary (operands : EmitsPermitted ctx emitOperand)
    (calls : ∀ operand, (instruction operand).calls = operand.calls) :
    EmitsPermitted ctx (emitUnary emitOperand instruction) := by
  refine operands.bind fun operand permitted => returns_pure ?_
  rw [calls]
  exact permitted

theorem emitsPermitted_map (parser : CpsParser α)
    (calls : ∀ value, (instruction value).calls = []) :
    EmitsPermitted ctx (instruction <$> parser) := by
  rw [map_eq_pure_bind]
  refine .after fun value => returns_pure ?_
  rw [calls]
  exact allPermitted_nil ctx

theorem emitsPermitted_var (vars : List String) : EmitsPermitted ctx (emitVar ctx vars) := by
  refine .after fun name => returns_ofExcept fun code found => ?_
  split at found
  · cases found
    exact allPermitted_nil ctx
  · cases found

theorem emitsPermitted_opcode (vars : List String) (operands : EmitsPermitted ctx emitOperand)
    (opcode : UInt8) : EmitsPermitted ctx (emitOpcode ctx vars emitOperand opcode) := by
  unfold emitOpcode
  split
  case h_1 => exact emitsPermitted_map readI64 fun value => rfl
  case h_2 => exact emitsPermitted_var vars
  case h_3 => exact emitsPermitted_app (fun name args code => isCallOf_emitCall) operands
  case h_13 => exact emitsPermitted_unary operands fun operand => rfl
  case h_14 => exact emitsPermitted_unary operands fun operand => rfl
  case h_15 => exact emitsPermitted_map readSized fun bytes => rfl
  case h_16 => exact returns_fail _
  all_goals exact emitsPermitted_binary operands fun lhs rhs => rfl

theorem emitsPermitted_expr (ctx : EmitContext) (vars : List String) (fuel : Nat) :
    EmitsPermitted ctx (emitExpr ctx vars fuel) := by
  induction fuel with
  | zero => exact returns_fail _
  | succ _ ih => exact .after fun opcode => emitsPermitted_opcode vars ih opcode

/-! ## Statements -/

/-- Whatever is read, the calls of the block have permissions. -/
abbrev BlockPermitted (ctx : EmitContext) (emit : CpsParser (CodeBlock × List String)) : Prop :=
  Returns (fun block => AllPermitted ctx (block.1.collect Code.calls)) emit

section Statements

variable {emitValue : List String → CpsParser Code} {emitList : BlockParser}
  (values : ∀ vars, EmitsPermitted ctx (emitValue vars))
  (lists : ∀ vars, BlockPermitted ctx (emitList vars)) (vars : List String)

include lists in
theorem blockPermitted_rest {finish : CodeBlock → CodeBlock} (permitted : AllPermitted ctx calls)
    (collects : ∀ rest, (finish rest).collect Code.calls = calls ++ rest.collect Code.calls) :
    BlockPermitted ctx (emitList vars >>= fun tail => pure (finish tail.1, tail.2)) := by
  refine (lists vars).bind fun tail restPermitted => returns_pure ?_
  rw [collects]
  exact permitted.append restPermitted

include values in
theorem blockPermitted_return : BlockPermitted ctx (emitReturn ctx emitValue vars) := by
  refine .after fun opcode => ?_
  split
  · refine .after fun _ => ?_
    refine (emitsPermitted_app (fun name args code => isCallOf_emitTailCall) (values vars)).bind ?_
    exact fun value permitted => returns_pure permitted
  · exact (values vars).bind fun value permitted => returns_pure permitted

include values lists in
theorem blockPermitted_if : BlockPermitted ctx (emitIf emitValue emitList vars) := by
  refine (values vars).bind fun condition conditionPermitted => ?_
  refine .after fun thenData => Returns.after fun elseData => ?_
  refine ((lists vars).inside thenData).bind fun thenBlock thenPermitted => ?_
  refine ((lists thenBlock.2).inside elseData).bind fun elseBlock elsePermitted => ?_
  apply blockPermitted_rest lists elseBlock.2
    (conditionPermitted.append (thenPermitted.append elsePermitted))
  intro _
  simp only [CpsBlock.collect, append_assoc]

include values lists in
theorem blockPermitted_while : BlockPermitted ctx (emitWhile emitValue emitList vars) := by
  refine (values vars).bind fun condition conditionPermitted => Returns.after fun bodyData => ?_
  refine ((lists vars).inside bodyData).bind fun body bodyPermitted => ?_
  apply blockPermitted_rest lists body.2 (conditionPermitted.append bodyPermitted)
  intro _
  simp only [CpsBlock.collect, append_assoc]

include lists in
theorem casesPermitted (count : Nat) (vars : List String) :
    Returns (fun cases => AllPermitted ctx (cases.1.collect Code.calls))
      (emitCases emitList count vars) := by
  induction count generalizing vars with
  | zero => exact returns_pure (allPermitted_nil ctx)
  | succ _ ih =>
    refine .after fun value => Returns.after fun bodyData => ?_
    refine ((lists vars).inside bodyData).bind fun body bodyPermitted => ?_
    refine (ih body.2).bind fun rest restPermitted => returns_pure ?_
    exact bodyPermitted.append restPermitted

include values lists in
theorem blockPermitted_match : BlockPermitted ctx (emitMatch emitValue emitList vars) := by
  refine (values vars).bind fun condition conditionPermitted => Returns.after fun count => ?_
  refine (casesPermitted lists count vars).bind fun cases casesPermitted => ?_
  refine .after fun defaultData => ?_
  refine ((lists cases.2).inside defaultData).bind fun default defaultPermitted => ?_
  apply blockPermitted_rest lists default.2
    (conditionPermitted.append (casesPermitted.append defaultPermitted))
  intro _
  simp only [CpsBlock.collect, append_assoc]

include values lists in
theorem blockPermitted_def : BlockPermitted ctx (emitDef ctx emitValue emitList vars) := by
  refine .after fun name => (values vars).bind fun value valuePermitted => ?_
  exact blockPermitted_rest lists (declareVar vars name) valuePermitted fun rest => rfl

include values lists in
theorem blockPermitted_store : BlockPermitted ctx (emitStore emitValue emitList vars) := by
  refine (values vars).bind fun pointer pointerPermitted => ?_
  refine (values vars).bind fun value valuePermitted => ?_
  apply blockPermitted_rest lists vars (pointerPermitted.append valuePermitted)
  intro _
  simp only [CpsBlock.collect, append_assoc]

include values lists in
theorem blockPermitted_discard : BlockPermitted ctx (emitDiscard emitValue emitList vars) := by
  refine (values vars).bind fun value valuePermitted => ?_
  exact blockPermitted_rest lists vars valuePermitted fun rest => rfl

include values lists in
theorem blockPermitted_stmt (opcode : UInt8) :
    BlockPermitted ctx (emitStmt ctx emitValue emitList vars opcode) := by
  unfold emitStmt
  split
  case h_1 => exact .after fun _ => blockPermitted_return values vars
  case h_2 => exact .after fun _ => blockPermitted_if values lists vars
  case h_3 => exact .after fun _ => blockPermitted_while values lists vars
  case h_4 => exact .after fun _ => blockPermitted_match values lists vars
  case h_5 => exact .after fun _ => blockPermitted_def values lists vars
  case h_6 => exact .after fun _ => blockPermitted_store values lists vars
  case h_7 => exact blockPermitted_discard values lists vars

end Statements

theorem blockPermitted_stmtList (ctx : EmitContext) (fuel : Nat) (vars : List String) :
    BlockPermitted ctx (emitStmtList ctx fuel vars) := by
  induction fuel generalizing vars with
  | zero => exact returns_fail _
  | succ fuel ih =>
    refine .after fun opcode => ?_
    cases opcode with
    | none => exact returns_pure (allPermitted_nil ctx)
    | some opcode =>
      exact blockPermitted_stmt (fun vars => emitsPermitted_expr ctx vars fuel) ih
        vars opcode

end Emission

/-! ## Whole binaries -/

theorem emitFunction_eq_ok (emitted : emitFunction ctx header = .ok function) :
    function.name = header.name ∧
      AllPermitted { ctx with callerName := header.name } (function.body.collect Code.calls) := by
  obtain ⟨⟨⟨_, _⟩, _⟩, read, emitted⟩ := Comp.bind_eq_ok.mp emitted
  cases emitted
  exact ⟨rfl, blockPermitted_stmtList _ _ _ _ _ _ read⟩

/-- In a binary that the reader accepts, every call of a kernel or Rust symbol
that the binary does not define is one that the engine allows. -/
theorem accepted_kernel_calls_allowed (cranelift : Cranelift) (lossy : Utf8Lossy)
    (auth : AuthState) (jit : Jit) (data : List UInt8) (result : CompiledCps)
    (accepted : compileCpsToClif cranelift lossy auth jit data = .ok result)
    (function : EmittedFunction) (inProgram : function ∈ result.program.functions)
    (call : CallTarget × Nat) (inBody : call ∈ function.body.collect Code.calls)
    (gated : isGated call.1.name)
    (notDefined : ∀ other ∈ result.program.functions, other.name ≠ call.1.name) :
    auth.engine (effectivePrincipal auth function.name result.program.moduleName) "Call"
      call.1.name = .ok .allow := by
  obtain ⟨⟨⟨_, _⟩, _⟩, -, accepted⟩ := Comp.bind_eq_ok.mp accepted
  obtain ⟨_, emitted, accepted⟩ := Comp.bind_eq_ok.mp accepted
  obtain ⟨_, -, accepted⟩ := Comp.bind_eq_ok.mp accepted
  cases accepted
  obtain ⟨_, -, emittedHere⟩ := Comp.exists_input_of_mem (Comp.mapM_eq_ok.mp emitted) inProgram
  obtain ⟨sameName, permitted⟩ := emitFunction_eq_ok emittedHere
  have permission := permitted call inBody
  rw [EmitContext.permits, ← sameName] at permission
  -- A call of the caller itself is exempt, but then the binary defines it.
  exact allow_of_checkCallPermission permission gated (notDefined function inProgram)

/-- A function that calls the kernel within an argument of its returned call. -/
def versionTwice : FunctionDef :=
  ⟨"run", [], .i64, .returnStmt (.app "double" [.app "uk_version" []])⟩

def versionTwiceData : List UInt8 :=
  match serializeFunctions (some "Demo") [versionTwice] with
  | .ok data => data
  | .error _ => []

def versionTwiceProgram : CpsProgram :=
  ⟨"Demo", [⟨"run", [],
    .ret (.call (.imported "double") [.call (.imported "uk_version") []])⟩]⟩

theorem accepted_kernel_calls_allowed_at_versionTwice :
    AuthState.engine ⟨some allowAll, .new, none⟩ "Demo" "Call" "uk_version" = .ok .allow :=
  accepted_kernel_calls_allowed .obliging .replacing ⟨some allowAll, .new, none⟩ ⟨[], []⟩
    versionTwiceData ⟨versionTwiceProgram, [], ⟨[⟨.imported, "double", 1⟩,
      ⟨.imported, "uk_version", 0⟩, ⟨.exported, "run", 0⟩], ["run"]⟩⟩
    rfl _ mem_cons_self (.imported "uk_version", 0) (by decide) (by decide)
    (by decide)

end AustralVM
