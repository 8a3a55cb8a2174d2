import AustralVM.CpsReader

/-!
# What the reader makes of a serialized program

The serializer and the reader of CPS binaries are two programs.  Here each
expression and statement gets the instruction it names, and the reader's result
on the serialized form is computed from the syntax alone.
-/

namespace AustralVM

open Auth ByteParser AustralVM.Comp
open Bool (and_eq_true)
open List hiding count comp_map

/-! ## The operations a program names -/

def CpsBinop.instruction : CpsBinop → Code → Code → Code
  | .cmpLt => .icmp .signedLessThan
  | .cmpGt => .icmp .signedGreaterThan
  | .cmpLte => .icmp .signedLessThanOrEqual
  | .cmpGte => .icmp .signedGreaterThanOrEqual
  | .cmpEq => .icmp .equal
  | .cmpNeq => .icmp .notEqual
  | .and => .logicalAnd
  | .or => .logicalOr
  | .add => .iadd
  | .sub => .isub
  | .mul => .imul

def OcamlFloat.literalValue (value : OcamlFloat) : BitVec 64 :=
  match value.literal with
  | .ok literal => literal
  | .error _ => 0

/-- The operation that a call names: an access of memory or a call. -/
def namedCall (nameMap : List String) (name : String) (args : List Code) : Code :=
  if name = "__slot_get" ∨ name = "__ptr_slot_get" then .slotGet args
  else if name = "__record_new" then .recordNew args
  else if name = "__union_new" then .unionNew args
  else .call (callTarget nameMap name) args

mutual

def namedCode (nameMap : List String) : CpsExpr → Code
  | .intLit value => .iconst value
  | .boolLit value => .iconst (if value then 1 else 0)
  | .floatLit value => .fconst value
  | .stringLit bytes => .span bytes
  | .var name => .useVar name
  | .app name args => namedCall nameMap name (namedCodes nameMap args)
  | .deref pointer => .load (namedCode nameMap pointer)
  | .binary op lhs rhs => op.instruction (namedCode nameMap lhs) (namedCode nameMap rhs)
  | .not operand => .logicalNot (namedCode nameMap operand)

def namedCodes (nameMap : List String) : List CpsExpr → List Code
  | [] => []
  | expr :: exprs => namedCode nameMap expr :: namedCodes nameMap exprs

end

mutual

/-- A statement in front of a list, up to the first return. -/
def flatten : CpsStmt → CpsBlock CpsExpr → CpsBlock CpsExpr
  | .skip, rest => rest
  | .letStmt name value body, rest => .defVar name value (flatten body rest)
  | .assign name value, rest => .defVar name value rest
  | .store pointer value, rest => .store pointer value rest
  | .ifStmt condition thenBranch elseBranch, rest =>
    .branch condition (flatten thenBranch .done) (flatten elseBranch .done) rest
  | .whileStmt condition body, rest => .loop condition (flatten body .done) rest
  | .matchStmt condition cases default, rest =>
    .switch condition (flattenCases cases) (flatten default .done) rest
  | .block first second, rest => flatten first (flatten second rest)
  | .discard value, rest => .eval value rest
  | .returnStmt value, _ => .ret value

def flattenCases : List (BitVec 64 × CpsStmt) → CpsCases CpsExpr
  | [] => .nil
  | (value, body) :: cases => .cons value (flatten body .done) (flattenCases cases)

end

mutual

def CpsBlock.map {α β : Type} (f : α → β) : CpsBlock α → CpsBlock β
  | .done => .done
  | .ret value => .ret (f value)
  | .defVar name value rest => .defVar name (f value) (rest.map f)
  | .store pointer value rest => .store (f pointer) (f value) (rest.map f)
  | .eval value rest => .eval (f value) (rest.map f)
  | .branch condition thenBlock elseBlock rest =>
    .branch (f condition) (thenBlock.map f) (elseBlock.map f) (rest.map f)
  | .loop condition body rest => .loop (f condition) (body.map f) (rest.map f)
  | .switch condition cases default rest =>
    .switch (f condition) (cases.map f) (default.map f) (rest.map f)

def CpsCases.map {α β : Type} (f : α → β) : CpsCases α → CpsCases β
  | .nil => .nil
  | .cons value body rest => .cons value (body.map f) (rest.map f)

end

/-- The statements of a function's body that the reader comes to. -/
def FunctionDef.readBody (function : FunctionDef) : CpsBlock CpsExpr :=
  flatten function.body .done

def namedFunction (nameMap : List String) (function : FunctionDef) : EmittedFunction :=
  ⟨function.name, function.params, function.readBody.map (namedCode nameMap)⟩

def namedProgram (moduleName : Option String) (functions : List FunctionDef) : CpsProgram :=
  ⟨moduleName.getD "", functions.map (namedFunction (functions.map FunctionDef.name))⟩

/-! ## Widths of fields -/

def fitsText (text : String) : Bool := (utf8 text).length < 2 ^ 32

def OcamlFloat.fits : OcamlFloat → Bool
  | .nan | .infinity _ => false
  | .finite mantissa exponent _ => inRange (rounded mantissa exponent)

mutual

/-- Names and payloads are within the fields they are written to. -/
@[grind =] def fitsExpr : CpsExpr → Bool
  | .intLit _ | .boolLit _ => true
  | .floatLit value => value.fits
  | .stringLit bytes => bytes.length < 2 ^ 32
  | .var name => fitsText name
  | .app name args => fitsText name && decide (args.length < 2 ^ 32) && fitsExprs args
  | .deref pointer => fitsExpr pointer
  | .binary _ lhs rhs => fitsExpr lhs && fitsExpr rhs
  | .not operand => fitsExpr operand

def fitsExprs : List CpsExpr → Bool
  | [] => true
  | expr :: exprs => fitsExpr expr && fitsExprs exprs

end

/-- The length of a nested statement is within its field. -/
def isSized (stmt : CpsStmt) : Bool :=
  match serializeCpsStmt stmt with
  | .ok data => data.length < 2 ^ 32
  | .error _ => false

mutual

@[grind =] def fitsStmt : CpsStmt → Bool
  | .skip => true
  | .letStmt name value body => fitsText name && fitsExpr value && fitsStmt body
  | .assign name value => fitsText name && fitsExpr value
  | .store pointer value => fitsExpr pointer && fitsExpr value
  | .ifStmt condition thenBranch elseBranch =>
    fitsExpr condition && (fitsStmt thenBranch && isSized thenBranch) &&
      (fitsStmt elseBranch && isSized elseBranch)
  | .whileStmt condition body => fitsExpr condition && (fitsStmt body && isSized body)
  | .matchStmt condition cases default =>
    fitsExpr condition && decide (cases.length < 2 ^ 32) && fitsCases cases &&
      (fitsStmt default && isSized default)
  | .block first second => fitsStmt first && fitsStmt second
  | .discard value => fitsExpr value
  | .returnStmt value => fitsExpr value

def fitsCases : List (BitVec 64 × CpsStmt) → Bool
  | [] => true
  | (_, body) :: cases => (fitsStmt body && isSized body) && fitsCases cases

end

def FunctionDef.fits (function : FunctionDef) : Bool :=
  fitsText function.name && decide (function.params.length < 2 ^ 32) &&
    function.params.all fitsText && (fitsStmt function.body && isSized function.body)

def fitsFunctions (moduleName : Option String) (functions : List FunctionDef) : Bool :=
  moduleName.all fitsText && decide (functions.length < 2 ^ 32) &&
    functions.all FunctionDef.fits

/-! ## Bound variables -/

mutual

@[grind =] def boundExpr (vars : List String) : CpsExpr → Bool
  | .intLit _ | .boolLit _ | .floatLit _ | .stringLit _ => true
  | .var name => name ∈ vars
  | .app _ args => boundExprs vars args
  | .deref pointer => boundExpr vars pointer
  | .binary _ lhs rhs => boundExpr vars lhs && boundExpr vars rhs
  | .not operand => boundExpr vars operand

def boundExprs (vars : List String) : List CpsExpr → Bool
  | [] => true
  | expr :: exprs => boundExpr vars expr && boundExprs vars exprs

end

mutual

/-- The variables after a block, in the order of the text. -/
@[grind =] def CpsBlock.after {α : Type} : CpsBlock α → List String → List String
  | .done, vars => vars
  | .ret _, vars => vars
  | .defVar name _ rest, vars => rest.after (declareVar vars name)
  | .store _ _ rest, vars => rest.after vars
  | .eval _ rest, vars => rest.after vars
  | .branch _ thenBlock elseBlock rest, vars => rest.after (elseBlock.after (thenBlock.after vars))
  | .loop _ body rest, vars => rest.after (body.after vars)
  | .switch _ cases default rest, vars => rest.after (default.after (cases.after vars))

@[grind =] def CpsCases.after {α : Type} : CpsCases α → List String → List String
  | .nil, vars => vars
  | .cons _ body rest, vars => rest.after (body.after vars)

end

mutual

/-- Every variable that the block uses is a parameter or defined before in the
text. -/
@[grind =] def CpsBlock.bound : CpsBlock CpsExpr → List String → Bool
  | .done, _ => true
  | .ret value, vars => boundExpr vars value
  | .defVar name value rest, vars => boundExpr vars value && rest.bound (declareVar vars name)
  | .store pointer value rest, vars =>
    boundExpr vars pointer && boundExpr vars value && rest.bound vars
  | .eval value rest, vars => boundExpr vars value && rest.bound vars
  | .branch condition thenBlock elseBlock rest, vars =>
    boundExpr vars condition && thenBlock.bound vars && elseBlock.bound (thenBlock.after vars) &&
      rest.bound (elseBlock.after (thenBlock.after vars))
  | .loop condition body rest, vars =>
    boundExpr vars condition && body.bound vars && rest.bound (body.after vars)
  | .switch condition cases default rest, vars =>
    boundExpr vars condition && cases.bound vars && default.bound (cases.after vars) &&
      rest.bound (default.after (cases.after vars))

@[grind =] def CpsCases.bound : CpsCases CpsExpr → List String → Bool
  | .nil, _ => true
  | .cons _ body rest, vars => body.bound vars && rest.bound (body.after vars)

end

/-! ## The reader's result -/

mutual

/-- What the reader makes of a serialized expression. -/
@[grind =] def readExpr (ctx : EmitContext) : CpsExpr → Except String Code
  | .intLit value => .ok (.iconst value)
  | .boolLit value => .ok (.iconst (if value then 1 else 0))
  | .floatLit value => .ok (.iconst value.literalValue)
  | .stringLit bytes => .ok (.span bytes)
  | .var name => .ok (.useVar name)
  | .app name args => readExprs ctx args >>= emitCall ctx name
  | .deref pointer => Code.load <$> readExpr ctx pointer
  | .binary op lhs rhs =>
    if op = .and ∨ op = .or then .error (unknownOpcode op.opcode)
    else do
      let lhs ← readExpr ctx lhs
      let rhs ← readExpr ctx rhs
      pure (op.instruction lhs rhs)
  | .not operand => Code.bnot <$> readExpr ctx operand

def readExprs (ctx : EmitContext) : List CpsExpr → Except String (List Code)
  | [] => .ok []
  | expr :: exprs => do
    let first ← readExpr ctx expr
    let rest ← readExprs ctx exprs
    pure (first :: rest)

end

/-- What the reader makes of a returned expression. -/
def readTail (ctx : EmitContext) : CpsExpr → Except String Code
  | .app name args => readExprs ctx args >>= emitTailCall ctx name
  | expr => readExpr ctx expr

mutual

/-- Compute the values of a block in order, the returned ones apart. -/
@[grind =] def CpsBlock.traverse {α β : Type} (value tail : α → Except String β) :
    CpsBlock α → Except String (CpsBlock β)
  | .done => .ok .done
  | .ret result => .ret <$> tail result
  | .defVar name result rest => do
    let result ← value result
    let rest ← rest.traverse value tail
    pure (.defVar name result rest)
  | .store pointer result rest => do
    let pointer ← value pointer
    let result ← value result
    let rest ← rest.traverse value tail
    pure (.store pointer result rest)
  | .eval result rest => do
    let result ← value result
    let rest ← rest.traverse value tail
    pure (.eval result rest)
  | .branch condition thenBlock elseBlock rest => do
    let condition ← value condition
    let thenBlock ← thenBlock.traverse value tail
    let elseBlock ← elseBlock.traverse value tail
    let rest ← rest.traverse value tail
    pure (.branch condition thenBlock elseBlock rest)
  | .loop condition body rest => do
    let condition ← value condition
    let body ← body.traverse value tail
    let rest ← rest.traverse value tail
    pure (.loop condition body rest)
  | .switch condition cases default rest => do
    let condition ← value condition
    let cases ← cases.traverse value tail
    let default ← default.traverse value tail
    let rest ← rest.traverse value tail
    pure (.switch condition cases default rest)

@[grind =] def CpsCases.traverse {α β : Type} (value tail : α → Except String β) :
    CpsCases α → Except String (CpsCases β)
  | .nil => .ok .nil
  | .cons number body rest => do
    let body ← body.traverse value tail
    let rest ← rest.traverse value tail
    pure (.cons number body rest)

end

/-- What the reader makes of a list of statements. -/
def readBlock (ctx : EmitContext) (block : CpsBlock CpsExpr) : Except String CodeBlock :=
  block.traverse (readExpr ctx) (readTail ctx)

/-! ## Fields are read back -/

theorem yields_readU32 (fits : value < 2 ^ 32) :
    Yields readU32 (writeU32 value) (.ok value) := yields_number "EOF" fits

theorem yields_readI64 (value : BitVec 64) : Yields readI64 (writeI64 value) (.ok value) := by
  have number : Yields (ByteParser.number "EOF" 8) (writeI64 value) (.ok value.toNat) :=
    yields_number "EOF" value.isLt
  have mapped := number.map_ok (BitVec.ofNat 64)
  rwa [BitVec.ofNat_toNat, BitVec.setWidth_eq] at mapped

theorem yields_readSized (fits : data.length < 2 ^ 32) :
    Yields readSized (writeSized data) (.ok data) :=
  (yields_readU32 fits).andThen (yields_take "EOF" data rfl)

theorem yields_readString (lossy : Utf8Lossy) (fits : fitsText text) :
    Yields (readString lossy) (writeString text) (.ok text) := by
  have mapped := (yields_readSized (of_decide_eq_true fits)).map_ok lossy.decode
  rwa [lossy.decode_utf8] at mapped

/-! ## Expressions are read back -/

/-- The bytes are the serialized expression, and the reader's result on them is
the computed one. -/
structure ExprReads (ctx : EmitContext) (expr : CpsExpr) (bytes : List UInt8) : Prop where
  written : serializeCpsExpr expr = .ok bytes
  yields : ∀ vars fuel, boundExpr vars expr → bytes.length ≤ fuel →
    Yields (emitExpr ctx vars fuel) bytes (readExpr ctx expr)

section Expressions

variable {ctx : EmitContext} {expr : CpsExpr} {args : List CpsExpr}

theorem ExprReads.of_opcode (written : serializeCpsExpr expr = .ok (opcode :: operands))
    (yields : ∀ vars fuel, boundExpr vars expr → operands.length ≤ fuel →
      Yields (emitOpcode ctx vars (emitExpr ctx vars fuel) opcode) operands (readExpr ctx expr)) :
    ExprReads ctx expr (opcode :: operands) := by
  refine ⟨written, fun vars fuel bound enough => ?_⟩
  obtain ⟨fuel, rfl⟩ := Nat.exists_eq_add_of_lt (Nat.lt_of_lt_of_le (Nat.succ_pos _) enough)
  rw [Nat.zero_add] at enough ⊢
  exact (yields_byte "EOF" opcode).andThen (yields vars fuel bound (Nat.le_of_succ_le_succ enough))

theorem OcamlFloat.literal_of_fits {value : OcamlFloat} (fits : value.fits) :
    value.literal = .ok value.literalValue := by
  cases value with
  | nan => cases fits
  | infinity => cases fits
  | finite => rfl

theorem yields_emitApp {name : String} {bytes : List UInt8} {emitArg : CpsParser Code}
    (fitsName : fitsText name) (fitsCount : args.length < 2 ^ 32)
    (yields : Yields (times args.length emitArg) bytes (readExprs ctx args))
    (finish : String → List Code → Except String Code) : Yields (emitApp ctx.lossy emitArg finish)
      (writeString name ++ (writeU32 args.length ++ bytes))
      (readExprs ctx args >>= finish name) := by
  apply (yields_readString ctx.lossy fitsName).andThen
  apply (yields_readU32 fitsCount).andThen
  exact yields.finish fun codes found => yields_ofExcept _

theorem emitOpcode_binary {op : CpsBinop} (notLogical : ¬ (op = .and ∨ op = .or))
    (vars : List String) (emitOperand : CpsParser Code) :
    emitOpcode ctx vars emitOperand op.opcode = emitBinary emitOperand op.instruction := by
  cases op <;> first | rfl | simp at notLogical

theorem emitOpcode_logical {op : CpsBinop} (logical : op = .and ∨ op = .or)
    (vars : List String) (emitOperand : CpsParser Code) :
    emitOpcode ctx vars emitOperand op.opcode = fail (unknownOpcode op.opcode) := by
  rcases logical with rfl | rfl <;> rfl

mutual
theorem exists_exprReads (ctx : EmitContext) {expr : CpsExpr} (fits : fitsExpr expr) :
    ∃ bytes, ExprReads ctx expr bytes := by
  cases expr with
  | intLit value =>
    exact ⟨_, .of_opcode rfl fun vars fuel bound enough => (yields_readI64 value).map_ok _⟩
  | boolLit => exact ⟨_, .of_opcode rfl fun vars fuel bound enough => (yields_readI64 _).map_ok _⟩
  | floatLit value =>
    have written : serializeCpsExpr (.floatLit value) =
        .ok (0x01 :: writeI64 value.literalValue) := by
      rw [serializeCpsExpr, value.literal_of_fits fits]
      rfl
    exact ⟨_, .of_opcode written fun vars fuel bound enough => (yields_readI64 _).map_ok _⟩
  | stringLit =>
    refine ⟨_, .of_opcode rfl fun vars fuel bound enough => ?_⟩
    exact (yields_readSized (of_decide_eq_true fits)).map_ok _
  | var =>
    refine ⟨_, .of_opcode rfl fun vars fuel bound enough => ?_⟩
    apply (yields_readString ctx.lossy fits).finish
    intro _ same
    cases same
    rw [if_pos (of_decide_eq_true bound)]
    exact yields_ofExcept _
  | app =>
    rw [fitsExpr, and_eq_true, and_eq_true] at fits
    obtain ⟨⟨fitsName, fitsCount⟩, fitsArgs⟩ := fits
    obtain ⟨_, written, yields⟩ := exists_argsRead ctx fitsArgs
    refine ⟨_, .of_opcode (by rw [serializeCpsExpr, written]; rfl) fun vars fuel bound enough => ?_⟩
    simp only [length_append] at enough
    exact yields_emitApp fitsName (of_decide_eq_true fitsCount)
      (yields vars fuel bound (by omega)) (emitCall ctx)
  | deref | not =>
    rw [fitsExpr] at fits
    obtain ⟨_, reads⟩ := exists_exprReads ctx fits
    refine ⟨_, .of_opcode (by rw [serializeCpsExpr, reads.written]; rfl) ?_⟩
    exact fun vars fuel bound enough => (reads.yields vars fuel bound enough).finish
      fun code found => yields_pure _
  | binary op =>
    rw [fitsExpr, and_eq_true] at fits
    obtain ⟨lhsBytes, lhsReads⟩ := exists_exprReads ctx fits.1
    obtain ⟨rhsBytes, rhsReads⟩ := exists_exprReads ctx fits.2
    refine ⟨_, .of_opcode (by rw [serializeCpsExpr, lhsReads.written, rhsReads.written]; rfl)
      fun vars fuel bound enough => ?_⟩
    rw [boundExpr, and_eq_true] at bound
    rw [length_append] at enough
    rw [readExpr]
    split
    · rename_i logical
      rw [emitOpcode_logical logical]
      exact yields_fail _ _
    · rename_i notLogical
      rw [emitOpcode_binary notLogical]
      apply (lhsReads.yields vars fuel bound.1 (by omega)).bind
      intro lhsCode _
      apply (rhsReads.yields vars fuel bound.2 (by omega)).finish
      intro rhsCode _
      exact yields_pure (op.instruction lhsCode rhsCode)
theorem exists_argsRead (ctx : EmitContext) {args : List CpsExpr} (fits : fitsExprs args) :
    ∃ bytes, serializeCpsExprs args = .ok bytes ∧
      ∀ vars fuel, boundExprs vars args → bytes.length ≤ fuel →
        Yields (times args.length (emitExpr ctx vars fuel)) bytes (readExprs ctx args) := by
  cases args with
  | nil => exact ⟨[], rfl, fun vars fuel bound enough => yields_pure []⟩
  | cons =>
    rw [fitsExprs, and_eq_true] at fits
    obtain ⟨first, reads⟩ := exists_exprReads ctx fits.1
    obtain ⟨rest, written, yields⟩ := exists_argsRead ctx fits.2
    refine ⟨first ++ rest, ?_, fun vars fuel bound enough => ?_⟩
    · rw [serializeCpsExprs, reads.written, written]
      rfl
    · rw [boundExprs, and_eq_true] at bound
      rw [length_append] at enough
      apply (reads.yields vars fuel bound.1 (by omega)).bind
      intro code _
      apply (yields vars fuel bound.2 (by omega)).finish
      intro codes _
      exact yields_pure (code :: codes)
end

end Expressions

/-! ## Lists of statements are read back -/

/-- On the bytes the reader's result is the computed one of the block. -/
def BlockReads (ctx : EmitContext) (bytes : List UInt8) (block : CpsBlock CpsExpr) : Prop :=
  ∀ fuel vars, bytes.length < fuel → block.bound vars →
    outcome (emitStmtList ctx fuel vars) bytes =
      (fun code => (code, block.after vars)) <$> readBlock ctx block

section Statements

variable {ctx : EmitContext} {rest bytes conditionBytes : List UInt8} {block : CpsBlock CpsExpr}
  {vars : List String} {value condition : CpsExpr} {stmt : CpsStmt}

theorem reads_done (ctx : EmitContext) : BlockReads ctx [] .done := by
  intro _ _ enough _
  obtain ⟨_, rfl⟩ := Nat.exists_eq_add_of_lt enough
  rfl

theorem BlockReads.of_opcode
    (statement : (List String → CpsParser Code) → BlockParser → BlockParser)
    (emits : ∀ emitValue emitList vars, emitStmt ctx emitValue emitList vars opcode =
      readU8 >>= fun _ => statement emitValue emitList vars)
    (reads : ∀ fuel vars, rest.length < fuel → block.bound vars →
      outcome (statement (fun vars => emitExpr ctx vars fuel) (emitStmtList ctx fuel) vars) rest =
        (fun code => (code, block.after vars)) <$> readBlock ctx block) :
    BlockReads ctx (opcode :: rest) block := by
  intro fuel vars enough bound
  obtain ⟨fuel, rfl⟩ := Nat.exists_eq_add_of_lt (Nat.lt_of_le_of_lt (Nat.zero_le _) enough)
  rw [Nat.zero_add] at enough ⊢
  change outcome (emitStmt ctx _ (emitStmtList ctx fuel) vars opcode) (opcode :: rest) = _
  rw [emits]
  exact reads fuel vars (Nat.lt_of_succ_lt_succ enough) bound

theorem BlockReads.finish (reads : BlockReads ctx rest block) (enough : rest.length < fuel)
    (bound : block.bound vars) (finish : CodeBlock → CodeBlock) :
    outcome (emitStmtList ctx fuel vars >>= fun tail => pure (finish tail.1, tail.2)) rest =
      (fun code => (code, block.after vars)) <$>
        (readBlock ctx block >>= fun code => pure (finish code)) := by
  rw [outcome_bind_pure fun tail : CodeBlock × List String => (finish tail.1, tail.2),
    reads fuel vars enough bound, ← map_eq_pure_bind, ← comp_map, ← comp_map]
  rfl

theorem reads_defVar (fitsName : fitsText name) (valueReads : ExprReads ctx value bytes)
    (reads : BlockReads ctx rest block) :
    BlockReads ctx (0x03 :: (writeString name ++ (bytes ++ rest))) (.defVar name value block) := by
  refine BlockReads.of_opcode (emitDef ctx) (fun _ _ _ => rfl) fun fuel vars enough bound => ?_
  rw [CpsBlock.bound, and_eq_true] at bound
  simp only [length_append] at enough
  rw [emitDef, (yields_readString ctx.lossy fitsName).outcome_ok,
    (valueReads.yields vars fuel bound.1 (by omega)).outcome_bind, CpsBlock.after, readBlock,
    CpsBlock.traverse, map_bind]
  refine bind_congr fun code => ?_
  exact reads.finish (by omega) bound.2 (.defVar name code)

theorem reads_store (pointerReads : ExprReads ctx pointer pointerBytes)
    (valueReads : ExprReads ctx value valueBytes) (reads : BlockReads ctx rest block) :
    BlockReads ctx (0x30 :: (pointerBytes ++ (valueBytes ++ rest))) (.store pointer value block) := by
  refine BlockReads.of_opcode emitStore (fun _ _ _ => rfl) fun fuel vars enough bound => ?_
  rw [CpsBlock.bound, and_eq_true, and_eq_true] at bound
  obtain ⟨⟨boundPointer, boundValue⟩, boundRest⟩ := bound
  simp only [length_append] at enough
  rw [emitStore, (pointerReads.yields vars fuel boundPointer (by omega)).outcome_bind,
    CpsBlock.after, readBlock, CpsBlock.traverse, map_bind]
  refine bind_congr fun pointerCode => ?_
  rw [(valueReads.yields vars fuel boundValue (by omega)).outcome_bind, map_bind]
  refine bind_congr fun valueCode => ?_
  exact reads.finish (by omega) boundRest (.store pointerCode valueCode)

theorem reads_branch (conditionReads : ExprReads ctx condition conditionBytes)
    (thenReads : BlockReads ctx thenData thenBlock) (thenSized : thenData.length < 2 ^ 32)
    (elseReads : BlockReads ctx elseData elseBlock) (elseSized : elseData.length < 2 ^ 32)
    (reads : BlockReads ctx rest block) :
    BlockReads ctx (0x08 :: (conditionBytes ++ (writeSized thenData ++ (writeSized elseData ++ rest))))
      (.branch condition thenBlock elseBlock block) := by
  refine BlockReads.of_opcode emitIf (fun _ _ _ => rfl) fun fuel vars enough bound => ?_
  simp only [CpsBlock.bound, and_eq_true] at bound
  obtain ⟨⟨⟨boundCondition, boundThen⟩, boundElse⟩, boundRest⟩ := bound
  simp only [writeSized, length_append] at enough
  rw [emitIf, (conditionReads.yields vars fuel boundCondition (by omega)).outcome_bind,
    CpsBlock.after, readBlock, CpsBlock.traverse, map_bind]
  refine bind_congr fun conditionCode => ?_
  rw [(yields_readSized thenSized).outcome_ok, (yields_readSized elseSized).outcome_ok,
    outcome_inside_bind, thenReads fuel vars (by omega) boundThen, bind_map_left, map_bind]
  refine bind_congr fun thenCode => ?_
  rw [outcome_inside_bind, elseReads fuel _ (by omega) boundElse, bind_map_left, map_bind]
  refine bind_congr fun elseCode => ?_
  exact reads.finish (by omega) boundRest (.branch conditionCode thenCode elseCode)

theorem reads_loop (conditionReads : ExprReads ctx condition conditionBytes)
    (bodyReads : BlockReads ctx bodyData body) (bodySized : bodyData.length < 2 ^ 32)
    (reads : BlockReads ctx rest block) :
    BlockReads ctx (0x09 :: (conditionBytes ++ (writeSized bodyData ++ rest)))
      (.loop condition body block) := by
  refine BlockReads.of_opcode emitWhile (fun _ _ _ => rfl) fun fuel vars enough bound => ?_
  simp only [CpsBlock.bound, and_eq_true] at bound
  obtain ⟨⟨boundCondition, boundBody⟩, boundRest⟩ := bound
  simp only [writeSized, length_append] at enough
  rw [emitWhile, (conditionReads.yields vars fuel boundCondition (by omega)).outcome_bind,
    CpsBlock.after, readBlock, CpsBlock.traverse, map_bind]
  refine bind_congr fun conditionCode => ?_
  rw [(yields_readSized bodySized).outcome_ok, outcome_inside_bind,
    bodyReads fuel vars (by omega) boundBody, bind_map_left, map_bind]
  refine bind_congr fun bodyCode => ?_
  exact reads.finish (by omega) boundRest (.loop conditionCode bodyCode)

def CasesRead (ctx : EmitContext) (count : Nat) (bytes : List UInt8) (cases : CpsCases CpsExpr) :
    Prop :=
  ∀ fuel vars, bytes.length < fuel → cases.bound vars →
    Yields (emitCases (emitStmtList ctx fuel) count vars) bytes
      ((fun code => (code, cases.after vars)) <$> cases.traverse (readExpr ctx) (readTail ctx))

theorem casesRead_nil (ctx : EmitContext) : CasesRead ctx 0 [] .nil :=
  fun _ vars _ _ => yields_pure (CpsCases.nil, vars)

theorem casesRead_cons {count : Nat} {value : BitVec 64} (bodyReads : BlockReads ctx bodyData body)
    (bodySized : bodyData.length < 2 ^ 32) (casesRead : CasesRead ctx count bytes cases) :
    CasesRead ctx (count + 1) (writeI64 value ++ (writeSized bodyData ++ bytes))
      (.cons value body cases) := by
  intro fuel vars enough bound
  rw [CpsCases.bound, and_eq_true] at bound
  simp only [writeSized, length_append] at enough
  apply (yields_readI64 value).andThen
  apply (yields_readSized bodySized).andThen
  rw [CpsCases.traverse, map_bind, CpsCases.after]
  have inner := bodyReads fuel vars (by omega) bound.1
  have tails : ∀ code, Yields
      (emitCases (emitStmtList ctx fuel) count (body.after vars) >>= fun tail =>
        pure (CpsCases.cons value code tail.1, tail.2)) bytes
      ((fun code => (code, cases.after (body.after vars))) <$>
        (cases.traverse (readExpr ctx) (readTail ctx) >>= fun tail =>
          pure (CpsCases.cons value code tail))) := by
    intro code
    rw [map_bind]
    have last := (casesRead fuel (body.after vars) (by omega) bound.2).finish fun tail found =>
      yields_pure (ε := String) (CpsCases.cons value code tail.1, tail.2)
    rw [bind_map_left] at last
    exact last
  exact Yields.inside_bind inner tails

theorem reads_switch {count : Nat} {default : CpsBlock CpsExpr}
    (conditionReads : ExprReads ctx condition conditionBytes) (fitsCount : count < 2 ^ 32)
    (casesRead : CasesRead ctx count casesBytes cases)
    (defaultReads : BlockReads ctx defaultData default)
    (defaultSized : defaultData.length < 2 ^ 32) (reads : BlockReads ctx rest block) :
    BlockReads ctx (0x0A :: (conditionBytes ++
        (writeU32 count ++ (casesBytes ++ (writeSized defaultData ++ rest)))))
      (.switch condition cases default block) := by
  refine BlockReads.of_opcode emitMatch (fun _ _ _ => rfl) fun fuel vars enough bound => ?_
  simp only [CpsBlock.bound, and_eq_true] at bound
  obtain ⟨⟨⟨boundCondition, boundCases⟩, boundDefault⟩, boundRest⟩ := bound
  simp only [writeSized, length_append] at enough
  rw [emitMatch, (conditionReads.yields vars fuel boundCondition (by omega)).outcome_bind,
    CpsBlock.after, readBlock, CpsBlock.traverse, map_bind]
  refine bind_congr fun conditionCode => ?_
  rw [(yields_readU32 fitsCount).outcome_ok,
    (casesRead fuel vars (by omega) boundCases).outcome_bind, bind_map_left, map_bind]
  refine bind_congr fun casesCode => ?_
  rw [(yields_readSized defaultSized).outcome_ok, outcome_inside_bind,
    defaultReads fuel _ (by omega) boundDefault, bind_map_left, map_bind]
  refine bind_congr fun defaultCode => ?_
  exact reads.finish (by omega) boundRest (.switch conditionCode casesCode defaultCode)

def CpsExpr.opcode : CpsExpr → UInt8
  | .intLit _ | .boolLit _ | .floatLit _ => 0x01
  | .stringLit _ => 0x21
  | .var _ => 0x02
  | .app _ _ => 0x04
  | .deref _ => 0x20
  | .binary op _ _ => op.opcode
  | .not _ => 0x19

theorem CpsExpr.opcode_ne_app (notApp : ∀ name args, value ≠ .app name args) :
    value.opcode ≠ 0x04 := by
  cases value with
  | app name args => exact absurd rfl (notApp name args)
  | binary op => cases op <;> nofun
  | _ => nofun

theorem exists_operands (written : serializeCpsExpr expr = .ok bytes) :
    ∃ operands, bytes = expr.opcode :: operands := by
  cases expr with
  | intLit | boolLit | stringLit | var => exact ⟨_, (Except.ok.inj written).symm⟩
  | floatLit | app | deref | not =>
    obtain ⟨_, -, written⟩ := bind_eq_ok.mp written
    exact ⟨_, (Except.ok.inj written).symm⟩
  | binary =>
    obtain ⟨_, -, written⟩ := bind_eq_ok.mp written
    obtain ⟨_, -, written⟩ := bind_eq_ok.mp written
    exact ⟨_, (Except.ok.inj written).symm⟩

theorem emitStmt_opcode (expr : CpsExpr) (emitValue : List String → CpsParser Code)
    (emitList : BlockParser) (vars : List String) :
    emitStmt ctx emitValue emitList vars expr.opcode = emitDiscard emitValue emitList vars := by
  cases expr with
  | binary op => cases op <;> rfl
  | _ => rfl

theorem reads_eval (valueReads : ExprReads ctx value bytes) (reads : BlockReads ctx rest block) :
    BlockReads ctx (bytes ++ rest) (.eval value block) := by
  obtain ⟨_, same⟩ := exists_operands valueReads.written
  intro fuel vars enough bound
  rw [CpsBlock.bound, and_eq_true] at bound
  obtain ⟨fuel, rfl⟩ := Nat.exists_eq_add_of_lt (Nat.lt_of_le_of_lt (Nat.zero_le _) enough)
  rw [Nat.zero_add] at enough ⊢
  have begins : outcome (emitStmtList ctx (fuel + 1) vars) (bytes ++ rest) =
      outcome (emitDiscard (fun vars => emitExpr ctx vars fuel) (emitStmtList ctx fuel) vars)
        (bytes ++ rest) := by
    rw [same, ← emitStmt_opcode value]
    rfl
  have nonempty : 0 < bytes.length := by simp [same]
  rw [length_append] at enough
  rw [begins, emitDiscard, (valueReads.yields vars fuel bound.1 (by omega)).outcome_bind,
    CpsBlock.after, readBlock, CpsBlock.traverse, map_bind]
  refine bind_congr fun code => ?_
  exact reads.finish (by omega) bound.2 (.eval code)

theorem yields_emitReturn_of_ne (written : serializeCpsExpr value = .ok bytes)
    (notApp : value.opcode ≠ 0x04) (yields : Yields (emitValue vars) bytes result) :
    Yields (emitReturn ctx emitValue vars) bytes
      ((fun code => (CpsBlock.ret code, vars)) <$> result) := by
  obtain ⟨_, same⟩ := exists_operands written
  have plain : Yields (emitValue vars >>= fun code => pure (CpsBlock.ret code, vars)) bytes
      ((fun code => (CpsBlock.ret code, vars)) <$> result) := by
    rw [map_eq_pure_bind]
    exact yields.finish fun code found => yields_pure (CpsBlock.ret code, vars)
  intro rest
  have other : ¬ (some value.opcode = some 0x04) := fun same => notApp (Option.some.inj same)
  rw [← plain rest, emitReturn, peek_bind, same, cons_append, head?_cons, if_neg other]

theorem emitReturn_app (emitValue : List String → CpsParser Code) (vars : List String)
    (bytes : List UInt8) : emitReturn ctx emitValue vars (0x04 :: bytes) =
      (emitApp ctx.lossy (emitValue vars) (emitTailCall ctx) >>= fun code =>
        pure (CpsBlock.ret code, vars)) bytes := by
  rw [emitReturn, peek_bind, head?_cons, if_pos rfl]
  rfl

theorem yields_emitReturn (fits : fitsExpr value) (valueReads : ExprReads ctx value bytes)
    (bound : boundExpr vars value) (enough : bytes.length ≤ fuel) :
    Yields (emitReturn ctx (fun vars => emitExpr ctx vars fuel) vars) bytes
      ((fun code => (CpsBlock.ret code, vars)) <$> readTail ctx value) := by
  have plain := valueReads.yields vars fuel bound enough
  cases value with
  | app name args =>
    rw [fitsExpr, and_eq_true, and_eq_true] at fits
    obtain ⟨⟨fitsName, fitsCount⟩, fitsArgs⟩ := fits
    obtain ⟨argBytes, written, yields⟩ := exists_argsRead ctx fitsArgs
    obtain rfl : 0x04 :: (writeString name ++ (writeU32 args.length ++ argBytes)) = bytes := by
      have same := valueReads.written
      rw [serializeCpsExpr, written] at same
      exact Except.ok.inj same
    simp only [length_cons, length_append] at enough
    have called := yields_emitApp fitsName (of_decide_eq_true fitsCount)
      (yields vars fuel bound (by omega)) (emitTailCall ctx)
    rw [readTail, map_eq_pure_bind]
    intro rest
    rw [cons_append, emitReturn_app]
    exact (called.finish fun code found => yields_pure (CpsBlock.ret code, vars)) rest
  | _ => exact yields_emitReturn_of_ne valueReads.written (CpsExpr.opcode_ne_app nofun) plain

theorem reads_ret (fits : fitsExpr value) (valueReads : ExprReads ctx value bytes) :
    BlockReads ctx (0x07 :: (bytes ++ rest)) (.ret value) := by
  refine BlockReads.of_opcode (fun emitValue _ => emitReturn ctx emitValue) (fun _ _ _ => rfl)
    fun fuel vars enough bound => ?_
  rw [length_append] at enough
  rw [(yields_emitReturn fits valueReads bound (by omega)).outcome, readBlock, CpsBlock.traverse,
    ← comp_map]
  rfl

/-- The bytes are the serialized statement, and the reader comes from them to
what follows. -/
structure StmtReads (ctx : EmitContext) (stmt : CpsStmt) (bytes : List UInt8) : Prop where
  written : serializeCpsStmt stmt = .ok bytes
  reads : ∀ rest block, BlockReads ctx rest block →
    BlockReads ctx (bytes ++ rest) (flatten stmt block)

theorem StmtReads.nested (reads : StmtReads ctx stmt bytes) :
    BlockReads ctx bytes (flatten stmt .done) := by
  have whole := reads.reads [] .done (reads_done ctx)
  rwa [append_nil] at whole

theorem StmtReads.sized (reads : StmtReads ctx stmt bytes) (sized : isSized stmt) :
    bytes.length < 2 ^ 32 := by
  rw [isSized, reads.written] at sized
  exact of_decide_eq_true sized

mutual
theorem exists_stmtReads (ctx : EmitContext) {stmt : CpsStmt} (fits : fitsStmt stmt) :
    ∃ bytes, StmtReads ctx stmt bytes := by
  cases stmt with simp only [fitsStmt, and_eq_true, decide_eq_true_eq] at fits
  | skip => exact ⟨[], rfl, fun rest block reads => reads⟩
  | letStmt =>
    obtain ⟨_, valueReads⟩ := exists_exprReads ctx fits.1.2
    obtain ⟨_, bodyReads⟩ := exists_stmtReads ctx fits.2
    refine ⟨_, by rw [serializeCpsStmt, valueReads.written, bodyReads.written]; rfl,
      fun rest block reads => ?_⟩
    simp only [cons_append, append_assoc]
    exact reads_defVar fits.1.1 valueReads (bodyReads.reads rest block reads)
  | assign =>
    obtain ⟨_, valueReads⟩ := exists_exprReads ctx fits.2
    refine ⟨_, by rw [serializeCpsStmt, valueReads.written]; rfl, fun rest block reads => ?_⟩
    simp only [cons_append, append_assoc]
    exact reads_defVar fits.1 valueReads reads
  | store =>
    obtain ⟨_, pointerReads⟩ := exists_exprReads ctx fits.1
    obtain ⟨_, valueReads⟩ := exists_exprReads ctx fits.2
    refine ⟨_, by rw [serializeCpsStmt, pointerReads.written, valueReads.written]; rfl,
      fun rest block reads => ?_⟩
    simp only [cons_append, append_assoc]
    exact reads_store pointerReads valueReads reads
  | ifStmt =>
    obtain ⟨⟨fitsCondition, fitsThen, sizedThen⟩, fitsElse, sizedElse⟩ := fits
    obtain ⟨_, conditionReads⟩ := exists_exprReads ctx fitsCondition
    obtain ⟨_, thenReads⟩ := exists_stmtReads ctx fitsThen
    obtain ⟨_, elseReads⟩ := exists_stmtReads ctx fitsElse
    refine ⟨_, by
      rw [serializeCpsStmt, conditionReads.written, thenReads.written, elseReads.written]; rfl,
      fun rest block reads => ?_⟩
    simp only [cons_append, append_assoc]
    exact reads_branch conditionReads thenReads.nested (thenReads.sized sizedThen)
      elseReads.nested (elseReads.sized sizedElse) reads
  | whileStmt =>
    obtain ⟨fitsCondition, fitsBody, sizedBody⟩ := fits
    obtain ⟨_, conditionReads⟩ := exists_exprReads ctx fitsCondition
    obtain ⟨_, bodyReads⟩ := exists_stmtReads ctx fitsBody
    refine ⟨_, by rw [serializeCpsStmt, conditionReads.written, bodyReads.written]; rfl,
      fun rest block reads => ?_⟩
    simp only [cons_append, append_assoc]
    exact reads_loop conditionReads bodyReads.nested (bodyReads.sized sizedBody) reads
  | matchStmt =>
    obtain ⟨⟨⟨fitsCondition, fitsCount⟩, fitsCases⟩, fitsDefault, sizedDefault⟩ := fits
    obtain ⟨_, conditionReads⟩ := exists_exprReads ctx fitsCondition
    obtain ⟨_, casesWritten, casesRead⟩ := exists_casesRead ctx fitsCases
    obtain ⟨_, defaultReads⟩ := exists_stmtReads ctx fitsDefault
    refine ⟨_, by
      rw [serializeCpsStmt, conditionReads.written, casesWritten, defaultReads.written]; rfl,
      fun rest block reads => ?_⟩
    simp only [cons_append, append_assoc]
    exact reads_switch conditionReads fitsCount casesRead defaultReads.nested
      (defaultReads.sized sizedDefault) reads
  | block =>
    obtain ⟨_, firstReads⟩ := exists_stmtReads ctx fits.1
    obtain ⟨_, secondReads⟩ := exists_stmtReads ctx fits.2
    refine ⟨_, by rw [serializeCpsStmt, firstReads.written, secondReads.written]; rfl,
      fun rest block reads => ?_⟩
    rw [append_assoc]
    exact firstReads.reads _ _ (secondReads.reads rest block reads)
  | discard =>
    obtain ⟨valueBytes, valueReads⟩ := exists_exprReads ctx fits
    exact ⟨valueBytes, valueReads.written, fun rest block reads => reads_eval valueReads reads⟩
  | returnStmt =>
    obtain ⟨_, valueReads⟩ := exists_exprReads ctx fits
    refine ⟨_, by rw [serializeCpsStmt, valueReads.written]; rfl, fun rest block reads => ?_⟩
    exact reads_ret fits valueReads
theorem exists_casesRead (ctx : EmitContext) {cases : List (BitVec 64 × CpsStmt)}
    (fits : fitsCases cases) : ∃ bytes, serializeCpsCases cases = .ok bytes ∧
      CasesRead ctx cases.length bytes (flattenCases cases) := by
  match cases with
  | [] => exact ⟨[], rfl, casesRead_nil ctx⟩
  | (value, body) :: cases =>
    simp only [fitsCases, and_eq_true] at fits
    obtain ⟨_, bodyReads⟩ := exists_stmtReads ctx fits.1.1
    obtain ⟨_, written, casesRead⟩ := exists_casesRead ctx fits.2
    refine ⟨_, by rw [serializeCpsCases, bodyReads.written, written]; rfl, ?_⟩
    exact casesRead_cons bodyReads.nested (bodyReads.sized fits.1.2) casesRead
end

end Statements

/-! ## Functions are read back -/

def FunctionDef.bodyData (function : FunctionDef) : List UInt8 :=
  match serializeCpsStmt function.body with
  | .ok data => data
  | .error _ => []

def FunctionDef.header (function : FunctionDef) : FunctionHeader :=
  ⟨function.name, function.params, function.bodyData⟩

section Functions

variable {lossy : Utf8Lossy} {function : FunctionDef}

theorem FunctionDef.stmtReads (ctx : EmitContext) (fits : function.fits) :
    StmtReads ctx function.body function.bodyData := by
  simp only [FunctionDef.fits, and_eq_true] at fits
  obtain ⟨bytes, reads⟩ := exists_stmtReads ctx fits.2.1
  have same : function.bodyData = bytes := by rw [FunctionDef.bodyData, reads.written]
  rwa [same]

theorem yields_params (lossy : Utf8Lossy) (fits : params.all fitsText) :
    Yields (times params.length (readString lossy)) (params.flatMap writeString) (.ok params) := by
  have each : ∀ param ∈ params, Yields (readString lossy) (writeString param) (pure param) :=
    fun param inParams => yields_readString lossy (all_eq_true.mp fits param inParams)
  have all := yields_times each
  rwa [mapM_pure, map_id'] at all

theorem yields_readFunctionHeader (lossy : Utf8Lossy) (auth : AuthState) (fits : function.fits) :
    ∃ bytes, serializeFunctionDef function = .ok bytes ∧
      Yields (readFunctionHeader lossy) bytes (.ok function.header) := by
  have reads := function.stmtReads ⟨lossy, auth, [], "", ""⟩ fits
  simp only [FunctionDef.fits, and_eq_true, decide_eq_true_eq] at fits
  obtain ⟨⟨⟨fitsName, fitsCount⟩, fitsParams⟩, _, sizedBody⟩ := fits
  refine ⟨_, by rw [serializeFunctionDef, reads.written]; rfl, ?_⟩
  apply (yields_readString lossy fitsName).andThen
  apply (yields_readU32 fitsCount).andThen
  apply (yields_params lossy fitsParams).andThen
  apply (yields_byte "EOF" function.returnType.code).andThen
  exact (yields_readSized (reads.sized sizedBody)).andFinish (yields_pure function.header)

theorem yields_readHeaders (lossy : Utf8Lossy) (auth : AuthState) {functions : List FunctionDef}
    (fits : functions.all FunctionDef.fits) :
    ∃ written, functions.mapM serializeFunctionDef = .ok written ∧
      Yields (times functions.length (readFunctionHeader lossy)) written.flatten
        (.ok (functions.map FunctionDef.header)) := by
  induction functions with
  | nil => exact ⟨[], rfl, yields_pure []⟩
  | cons _ _ ih =>
    rw [all_cons, and_eq_true] at fits
    obtain ⟨bytes, writtenFirst, yieldsFirst⟩ := yields_readFunctionHeader lossy auth fits.1
    obtain ⟨written, writtenRest, yieldsRest⟩ := ih fits.2
    refine ⟨bytes :: written, ?_, ?_⟩
    · rw [mapM_cons, writtenFirst, writtenRest]
      rfl
    · rw [flatten_cons]
      apply yieldsFirst.andThen
      exact yieldsRest.andFinish (yields_pure _)

theorem yields_readModuleName (lossy : Utf8Lossy) (fits : moduleName.all fitsText) :
    Yields (readModuleName lossy) (writeHeader moduleName) (.ok (moduleName.getD "")) := by
  cases moduleName with
  | none => exact (yields_readU32 (by decide)).andFinish (yields_pure "")
  | some => exact (yields_readU32 (by decide)).andThen (yields_readString lossy fits)

theorem yields_readTable (lossy : Utf8Lossy) (auth : AuthState) {moduleName : Option String}
    (fits : fitsFunctions moduleName functions) :
    ∃ bytes, serializeFunctions moduleName functions = .ok bytes ∧ Yields (readTable lossy) bytes
        (.ok (moduleName.getD "", functions.map FunctionDef.header)) := by
  simp only [fitsFunctions, and_eq_true, decide_eq_true_eq] at fits
  obtain ⟨⟨fitsName, fitsCount⟩, fitsEach⟩ := fits
  obtain ⟨_, serialized, yields⟩ := yields_readHeaders lossy auth fitsEach
  refine ⟨_, by rw [serializeFunctions, serialized]; rfl, ?_⟩
  apply (yields_readModuleName lossy fitsName).andThen
  apply (yields_readU32 fitsCount).andThen
  exact yields.andFinish (yields_pure _)

theorem emitFunction_header (ctx : EmitContext) (fits : function.fits)
    (bound : function.readBody.bound function.params) : emitFunction ctx function.header =
      (fun body => ⟨function.name, function.params, body⟩) <$>
        readBlock { ctx with callerName := function.name } function.readBody := by
  have reads := (function.stmtReads { ctx with callerName := function.name } fits).nested
    (function.bodyData.length + 1) function.params (Nat.lt_succ_self _) bound
  have emitted : emitFunction ctx function.header =
      (fun pair : CodeBlock × List String => ⟨function.name, function.params, pair.1⟩) <$>
        outcome (emitStmtList { ctx with callerName := function.name }
          (function.bodyData.length + 1) function.params) function.bodyData := by
    rw [outcome, ← comp_map, map_eq_pure_bind]
    rfl
  rw [emitted, reads, ← comp_map]
  rfl

end Functions

/-! ## When the result is the named operation -/

/-- How many arguments the reader needs for a call. -/
def neededArgs (name : String) : Nat :=
  if name = "__slot_get" ∨ name = "__ptr_slot_get" then 2
  else if name = "__record_new" then 1
  else if name = "__union_new" then 2
  else 0

mutual

/-- There is no logical operator, every call is permitted and has the arguments
that the reader needs. -/
def ReadableExpr (ctx : EmitContext) : CpsExpr → Prop
  | .intLit _ | .boolLit _ | .stringLit _ | .var _ => True
  -- a float literal is written as an integer literal
  | .floatLit _ => False
  | .app name args =>
    ReadableExprs ctx args ∧ ctx.permits name = .ok () ∧ neededArgs name ≤ args.length
  | .deref pointer => ReadableExpr ctx pointer
  | .binary op lhs rhs => ¬ (op = .and ∨ op = .or) ∧ ReadableExpr ctx lhs ∧ ReadableExpr ctx rhs
  | .not _ => False

def ReadableExprs (ctx : EmitContext) : List CpsExpr → Prop
  | [] => True
  | expr :: exprs => ReadableExpr ctx expr ∧ ReadableExprs ctx exprs

end

/-- A returned value is in addition not the constructor of a union. -/
def ReadableTail (ctx : EmitContext) : CpsExpr → Prop
  | .app name args => name ≠ "__union_new" ∧ ReadableExpr ctx (.app name args)
  | expr => ReadableExpr ctx expr

mutual

/-- The values of a block have a property, the returned ones another. -/
def CpsBlock.All {α : Type} (value tail : α → Prop) : CpsBlock α → Prop
  | .done => True
  | .ret result => tail result
  | .defVar _ result rest => value result ∧ rest.All value tail
  | .store pointer result rest => value pointer ∧ value result ∧ rest.All value tail
  | .eval result rest => value result ∧ rest.All value tail
  | .branch condition thenBlock elseBlock rest =>
    value condition ∧ thenBlock.All value tail ∧ elseBlock.All value tail ∧ rest.All value tail
  | .loop condition body rest => value condition ∧ body.All value tail ∧ rest.All value tail
  | .switch condition cases default rest =>
    value condition ∧ cases.All value tail ∧ default.All value tail ∧ rest.All value tail

def CpsCases.All {α : Type} (value tail : α → Prop) : CpsCases α → Prop
  | .nil => True
  | .cons _ body rest => body.All value tail ∧ rest.All value tail

end

section Readable

variable {ctx : EmitContext} {args : List Code} {name : String}

theorem requireArgs_eq_ok : requireArgs needed args = .ok result ↔ needed ≤ args.length := by
  rw [requireArgs]
  split <;> simp_all

theorem emitCall_eq_ok_iff : emitCall ctx name args = .ok (namedCall ctx.nameMap name named) ↔
      args = named ∧ ctx.permits name = .ok () ∧ neededArgs name ≤ args.length := by
  rw [emitCall, Comp.bind_eq_ok, namedCall, neededArgs]
  split_ifs <;>
    simp [map_eq_ok, Unique.exists_iff, requireArgs_eq_ok, EmitContext.target, and_comm, and_assoc]

theorem emitCall_of_ne (notUnion : name ≠ "__union_new") :
    emitCall ctx name args = emitTailCall ctx name args := by
  simp only [emitTailCall, emitCall, if_neg notUnion]

theorem emitTailCall_eq_ok_iff :
    emitTailCall ctx name args = .ok (namedCall ctx.nameMap name named) ↔ name ≠ "__union_new" ∧
        args = named ∧ ctx.permits name = .ok () ∧ neededArgs name ≤ args.length := by
  by_cases isUnion : name = "__union_new"
  · subst isUnion
    simp [emitTailCall, map_eq_ok, namedCall]
  · rw [← emitCall_of_ne isUnion, emitCall_eq_ok_iff, ne_eq, and_iff_right isUnion]

theorem length_namedCodes (nameMap : List String) (args : List CpsExpr) :
    (namedCodes nameMap args).length = args.length := by
  induction args with
  | nil => rfl
  | cons _ _ ih => rw [namedCodes, length_cons, ih, length_cons]

theorem CpsBinop.instruction_inj {op : CpsBinop} :
    op.instruction lhs rhs = op.instruction lhs' rhs' ↔ lhs = lhs' ∧ rhs = rhs' := by
  cases op <;> simp [CpsBinop.instruction]

mutual
theorem readExpr_eq_ok_iff (expr : CpsExpr) :
    readExpr ctx expr = .ok (namedCode ctx.nameMap expr) ↔ ReadableExpr ctx expr := by
  cases expr with
  | intLit | boolLit | floatLit | stringLit | var => simp [readExpr, namedCode, ReadableExpr]
  | app _ args =>
    rw [readExpr, namedCode, ReadableExpr, ← readExprs_eq_ok_iff args, Comp.bind_eq_ok]
    simp only [emitCall_eq_ok_iff]
    constructor
    · rintro ⟨_, read, rfl, permitted, enough⟩
      rw [length_namedCodes] at enough
      exact ⟨read, permitted, enough⟩
    · rintro ⟨read, permitted, _⟩
      refine ⟨_, read, rfl, permitted, ?_⟩
      rwa [length_namedCodes]
  | deref pointer =>
    simp [readExpr, namedCode, ReadableExpr, map_eq_ok, ← readExpr_eq_ok_iff pointer]
  | binary _ lhs rhs =>
    rw [readExpr, namedCode, ReadableExpr, ← readExpr_eq_ok_iff lhs, ← readExpr_eq_ok_iff rhs]
    split
    · rename_i logical
      simp [logical]
    · rename_i notLogical
      simp [notLogical, Comp.bind_eq_ok, Comp.map_eq_ok, CpsBinop.instruction_inj]
  | not => simp [readExpr, namedCode, ReadableExpr, map_eq_ok]
theorem readExprs_eq_ok_iff (args : List CpsExpr) :
    readExprs ctx args = .ok (namedCodes ctx.nameMap args) ↔ ReadableExprs ctx args := by
  cases args with
  | nil => simp [readExprs, namedCodes, ReadableExprs]
  | cons arg args =>
    simp [readExprs, namedCodes, ReadableExprs, Comp.bind_eq_ok, Comp.map_eq_ok,
      ← readExpr_eq_ok_iff arg, ← readExprs_eq_ok_iff args]
end

theorem readTail_eq_ok_iff :
    readTail ctx expr = .ok (namedCode ctx.nameMap expr) ↔ ReadableTail ctx expr := by
  cases expr with
  | app _ args =>
    rw [readTail, namedCode, ReadableTail, ReadableExpr, ← readExprs_eq_ok_iff args,
      Comp.bind_eq_ok]
    simp only [emitTailCall_eq_ok_iff]
    constructor
    · rintro ⟨_, read, notUnion, rfl, permitted, enough⟩
      rw [length_namedCodes] at enough
      exact ⟨notUnion, read, permitted, enough⟩
    · rintro ⟨notUnion, read, permitted, _⟩
      refine ⟨_, read, notUnion, rfl, permitted, ?_⟩
      rwa [length_namedCodes]
  | _ => exact readExpr_eq_ok_iff _

section

variable {α β : Type} {value tail : α → Except String β} {f : α → β} {P Q : α → Prop}

mutual

theorem CpsBlock.traverse_eq_ok_iff (values : ∀ a, value a = .ok (f a) ↔ P a)
    (tails : ∀ a, tail a = .ok (f a) ↔ Q a) :
    (block : CpsBlock α) → (block.traverse value tail = .ok (block.map f) ↔ block.All P Q)
  | .done => by simp [CpsBlock.traverse, CpsBlock.map, CpsBlock.All]
  | .ret result => by
      simp [CpsBlock.traverse, CpsBlock.map, CpsBlock.All, map_eq_ok, ← tails]
  | .defVar _ _ _ | .store _ _ _ | .eval _ _ | .branch _ _ _ _ | .loop _ _ _ | .switch _ _ _ _ => by
      simp [CpsBlock.traverse, CpsBlock.map, CpsBlock.All, Comp.bind_eq_ok, Comp.map_eq_ok,
        ← values, ← CpsBlock.traverse_eq_ok_iff values tails,
        ← CpsCases.traverse_eq_ok_iff values tails]

theorem CpsCases.traverse_eq_ok_iff (values : ∀ a, value a = .ok (f a) ↔ P a)
    (tails : ∀ a, tail a = .ok (f a) ↔ Q a) :
    (cases : CpsCases α) → (cases.traverse value tail = .ok (cases.map f) ↔ cases.All P Q)
  | .nil => by simp [CpsCases.traverse, CpsCases.map, CpsCases.All]
  | .cons _ body rest => by
      simp [CpsCases.traverse, CpsCases.map, CpsCases.All, Comp.bind_eq_ok, Comp.map_eq_ok,
        ← CpsBlock.traverse_eq_ok_iff values tails body,
        ← CpsCases.traverse_eq_ok_iff values tails rest]

end

end

end Readable

/-! ## Symbols -/

/-- Symbols agree with those declared before and with each other in the number of
their arguments. -/
def SymbolsAgree (declared symbols : List Declaration) : Prop :=
  ∀ symbol ∈ symbols, ∀ other ∈ declared ++ symbols, other.symbol = symbol.symbol →
    other.args = symbol.args

instance (declared symbols : List Declaration) : Decidable (SymbolsAgree declared symbols) :=
  List.decidableBAll _ symbols

namespace CpsProgram

/-- A call of a function of the binary has as many arguments as the function that
its name stands for, the last one of that name. -/
def callsFit (program : CpsProgram) (function : EmittedFunction) : Bool :=
  (function.body.collect Code.calls).all fun call =>
    match call.1 with
    | .imported _ => true
    | .defined name =>
      (program.functions.reverse.find? fun callee => callee.name = name).all fun callee =>
        callee.params.length = call.2

/-- The symbols of a program: its exports, then what its functions import. -/
def symbols (program : CpsProgram) (claimed : List String) : List Declaration :=
  (Jit.claimExports claimed program.functions).1 ++
    program.functions.flatMap fun function => function.body.collect Code.imports

end CpsProgram

/-- What is assumed of Cranelift. -/
structure Cranelift.Lawful (cranelift : Cranelift) : Prop where
  /-- A symbol keeps the number of arguments that it was first declared with. -/
  declares : ∀ declared declaration, cranelift.declareFunction declared declaration = .ok () ↔
    ∀ other ∈ declared, other.symbol = declaration.symbol → other.args = declaration.args
  /-- Emitted code is well formed if the calls within the binary are. -/
  verifies : ∀ program function, cranelift.verifyFunction program function = .ok () ↔
    program.callsFit function
  /-- Verified code is defined. -/
  defines : ∀ declared program function, program.callsFit function →
    cranelift.defineFunction declared program function = .ok ()

/-- The module takes the program: its symbols agree, and calls of its own
functions have the arguments that these take. -/
def Jit.Accepts (jit : Jit) (program : CpsProgram) : Prop :=
  SymbolsAgree jit.declared (program.symbols jit.claimed) ∧
    ∀ function ∈ program.functions, program.callsFit function

section Symbols

variable {cranelift : Cranelift} {declared symbols : List Declaration} {jit : Jit}

theorem mapError_eq_ok {ε ε' α : Type} {result : Except ε α} {f : ε → ε'} {value : α} :
    result.mapError f = .ok value ↔ result = .ok value := by
  cases result <;> simp [Except.mapError]

theorem symbolsAgree_append : SymbolsAgree declared (symbols ++ others) ↔
    SymbolsAgree declared symbols ∧ SymbolsAgree (symbols.reverse ++ declared) others := by
  simp only [SymbolsAgree, mem_append, mem_reverse]
  grind

variable (lawful : cranelift.Lawful)
include lawful

theorem declare_eq_ok_iff :
    jit.declare cranelift declaration = .ok linked ↔
      SymbolsAgree jit.declared [declaration] ∧
        linked = ⟨declaration :: jit.declared, jit.claimed⟩ := by
  have agrees : SymbolsAgree jit.declared [declaration] ↔
      cranelift.declareFunction jit.declared declaration = .ok () := by
    rw [lawful.declares]
    simp [SymbolsAgree, or_imp, forall_and]
  rw [agrees, Jit.declare, Comp.bind_eq_ok]
  constructor
  · rintro ⟨_, declared, rest⟩
    cases rest
    exact ⟨mapError_eq_ok.mp declared, rfl⟩
  · rintro ⟨declared, rfl⟩
    exact ⟨(), mapError_eq_ok.mpr declared, rfl⟩

theorem declareAll_eq_ok_iff :
    symbols.foldlM (Jit.declare cranelift) jit = .ok linked ↔
      SymbolsAgree jit.declared symbols ∧
        linked = ⟨symbols.reverse ++ jit.declared, jit.claimed⟩ := by
  induction symbols generalizing jit with
  | nil =>
    simp [SymbolsAgree, pure, Except.pure, eq_comm]
  | cons symbol symbols ih =>
    have split : SymbolsAgree jit.declared (symbol :: symbols) ↔ _ :=
      @symbolsAgree_append jit.declared [symbol] symbols
    simp only [foldlM_cons, Comp.bind_eq_ok, declare_eq_ok_iff lawful, ih, split]
    simp [and_assoc]

theorem linkFunction_eq_ok_iff :
    jit.linkFunction cranelift program function = .ok linked ↔
      program.callsFit function ∧ SymbolsAgree jit.declared (function.body.collect Code.imports) ∧
        linked = ⟨(function.body.collect Code.imports).reverse ++ jit.declared, jit.claimed⟩ := by
  simp only [Jit.linkFunction, Comp.bind_eq_ok, declareAll_eq_ok_iff lawful, mapError_eq_ok]
  constructor
  · rintro ⟨_, ⟨agree, rfl⟩, _, verified, _, -, rest⟩
    cases rest
    exact ⟨(lawful.verifies _ _).mp verified, agree, rfl⟩
  · rintro ⟨fit, agree, rfl⟩
    exact ⟨_, ⟨agree, rfl⟩, (), (lawful.verifies _ _).mpr fit, (), lawful.defines _ _ _ fit, rfl⟩

theorem linkFunctions_eq_ok_iff (jit : Jit)
    {functions : List EmittedFunction} :
    (∃ linked, functions.foldlM (Jit.linkFunction cranelift program) jit = .ok linked) ↔
      (∀ function ∈ functions, program.callsFit function) ∧ SymbolsAgree jit.declared
        (functions.flatMap fun function => function.body.collect Code.imports) := by
  induction functions generalizing jit with
  | nil => simp [SymbolsAgree, pure, Except.pure]
  | cons function functions ih =>
    simp only [foldlM_cons, Comp.bind_eq_ok, linkFunction_eq_ok_iff lawful, forall_mem_cons,
      flatMap_cons, symbolsAgree_append]
    constructor
    · rintro ⟨linked, _, ⟨fit, agree, rfl⟩, rest⟩
      obtain ⟨fits, agrees⟩ := (ih _).mp ⟨linked, rest⟩
      exact ⟨⟨fit, fits⟩, agree, agrees⟩
    · rintro ⟨⟨fit, fits⟩, agree, agrees⟩
      obtain ⟨linked, rest⟩ := (ih ⟨_, jit.claimed⟩).mpr ⟨fits, agrees⟩
      exact ⟨linked, _, ⟨fit, agree, rfl⟩, rest⟩

theorem exists_link_iff :
    (∃ linked, jit.link cranelift program = .ok linked) ↔ jit.Accepts program := by
  rw [Jit.Accepts, CpsProgram.symbols, symbolsAgree_append]
  simp only [Jit.link, Comp.bind_eq_ok, declareAll_eq_ok_iff lawful]
  constructor
  · rintro ⟨linked, _, ⟨agree, rfl⟩, rest⟩
    obtain ⟨fits, agrees⟩ := (linkFunctions_eq_ok_iff lawful _).mp ⟨linked, rest⟩
    exact ⟨⟨agree, agrees⟩, fits⟩
  · rintro ⟨⟨agree, agrees⟩, fits⟩
    obtain ⟨linked, rest⟩ := (linkFunctions_eq_ok_iff lawful ⟨_, _⟩).mpr ⟨fits, agrees⟩
    exact ⟨linked, _, ⟨agree, rfl⟩, rest⟩

end Symbols

/-! ## Whole programs -/

/-- Every function can be read as the operations it names. -/
def ReadableProgram (lossy : Utf8Lossy) (auth : AuthState) (moduleName : Option String)
    (functions : List FunctionDef) : Prop :=
  ∀ function ∈ functions,
    let ctx : EmitContext :=
      ⟨lossy, auth, functions.map FunctionDef.name, function.name, moduleName.getD ""⟩
    function.readBody.All (ReadableExpr ctx) (ReadableTail ctx)

theorem emitFunctions_eq_ok_iff (lossy : Utf8Lossy) (auth : AuthState)
    (fits : functions.all FunctionDef.fits)
    (bound : ∀ function ∈ functions, function.readBody.bound function.params) :
    (functions.map FunctionDef.header).mapM (emitFunction
        ⟨lossy, auth, functions.map FunctionDef.name, "", moduleName.getD ""⟩) =
        .ok (namedProgram moduleName functions).functions ↔
      ReadableProgram lossy auth moduleName functions := by
  rw [namedProgram, mapM_eq_ok, forall₂_map_left_iff, forall₂_map_right_iff,
    forall₂_same, ReadableProgram]
  refine forall₂_congr fun function inFunctions => ?_
  rw [emitFunction_header _ (all_eq_true.mp fits function inFunctions)
    (bound function inFunctions), map_eq_ok, ← CpsBlock.traverse_eq_ok_iff
    readExpr_eq_ok_iff (fun expr => readTail_eq_ok_iff)]
  simp [namedFunction, readBlock]

/-- For programs within the widths of the fields whose variables are bound, the
serialized program is accepted, read as the operations it names and read to its
end exactly if it has no logical operator, no float literal, no directly returned
union, only permitted calls, and calls that agree in the number of their
arguments. -/
theorem serialized_program_decodes_iff {cranelift : Cranelift} (lawful : cranelift.Lawful)
    (lossy : Utf8Lossy) (auth : AuthState) (jit : Jit) (moduleName : Option String)
    (functions : List FunctionDef) (fits : fitsFunctions moduleName functions)
    (bound : ∀ function ∈ functions, function.readBody.bound function.params) :
    (∃ bytes linked, serializeFunctions moduleName functions = .ok bytes ∧
      compileCpsToClif cranelift lossy auth jit bytes =
        .ok ⟨namedProgram moduleName functions, [], linked⟩) ↔
      ReadableProgram lossy auth moduleName functions ∧
        jit.Accepts (namedProgram moduleName functions) := by
  obtain ⟨bytes, serialized, table⟩ := yields_readTable lossy auth fits
  have fitsEach : functions.all FunctionDef.fits := by
    rw [fitsFunctions, and_eq_true] at fits
    exact fits.2
  have names : (functions.map FunctionDef.header).map FunctionHeader.name =
      functions.map FunctionDef.name := by
    rw [map_map]
    rfl
  have compiles (linked : Jit) :
      compileCpsToClif cranelift lossy auth jit bytes =
          .ok ⟨namedProgram moduleName functions, [], linked⟩ ↔
        ReadableProgram lossy auth moduleName functions ∧
          jit.link cranelift (namedProgram moduleName functions) = .ok linked := by
    have read := table.run
    rw [← emitFunctions_eq_ok_iff lossy auth fitsEach bound, compileCpsToClif, read]
    simp [Comp.bind_eq_ok, Comp.map_eq_ok, namedProgram, names]
  rw [← exists_link_iff lawful]
  constructor
  · rintro ⟨_, linked, serialized', compiled⟩
    cases serialized.symm.trans serialized'
    obtain ⟨readable, accepted⟩ := (compiles linked).mp compiled
    exact ⟨readable, linked, accepted⟩
  · rintro ⟨readable, linked, accepted⟩
    exact ⟨bytes, linked, serialized, (compiles linked).mpr ⟨readable, accepted⟩⟩

def countedRecord : FunctionDef :=
  ⟨"run", ["n"], .i64,
    .block
      (.letStmt "i" (.intLit 0)
        (.whileStmt (.binary .cmpLt (.var "i") (.var "n"))
          (.assign "i" (.binary .add (.var "i") (.intLit 1)))))
      (.returnStmt (.app "__record_new" [.intLit 8, .var "i"]))⟩

/-- A module that keeps a table of its symbols. -/
def symbolTable : Cranelift where
  declareFunction declared declaration :=
    if ∀ other ∈ declared, other.symbol = declaration.symbol → other.args = declaration.args
    then .ok () else .error ⟨"incompatible signature", "IncompatibleSignature"⟩
  verifyFunction program function := if program.callsFit function then .ok () else .error "arguments"
  defineFunction _ _ _ := .ok ()

theorem lawful_symbolTable : symbolTable.Lawful where
  declares declared declaration := by simp [symbolTable]
  verifies program function := by simp [symbolTable]
  defines _ _ _ _ := rfl

theorem serialized_program_decodes_at_countedRecord :
    ∃ bytes linked, serializeFunctions none [countedRecord] = .ok bytes ∧
      compileCpsToClif symbolTable .replacing .initial ⟨[], []⟩ bytes =
        .ok ⟨namedProgram none [countedRecord], [], linked⟩ :=
  (serialized_program_decodes_iff lawful_symbolTable .replacing .initial ⟨[], []⟩ none
    [countedRecord] (by decide +kernel) (by decide +kernel)).mpr
    ⟨by
      intro _ inFunctions
      obtain rfl := mem_singleton.mp inFunctions
      simp [countedRecord, FunctionDef.readBody, flatten, CpsBlock.All, ReadableExpr,
        ReadableExprs, ReadableTail, neededArgs, EmitContext.permits, checkCallPermission,
        hasPrefix],
      by decide, by decide⟩

/-- A conjunction of two constants, within all widths and without a variable. -/
def conjunctionOfOnes : FunctionDef :=
  ⟨"run", [], .bool, .returnStmt (.binary .and (.intLit 1) (.intLit 1))⟩

/-- The reader does not know the opcode of a conjunction. -/
theorem conjunction_is_rejected : fitsFunctions none [conjunctionOfOnes] = true ∧
      conjunctionOfOnes.readBody.bound conjunctionOfOnes.params = true ∧
      (serializeFunctions none [conjunctionOfOnes]).toOption.map
          (compileCpsToClif symbolTable .replacing .initial ⟨[], []⟩) =
        some (.error "Unknown opcode: 0x16") := by
  exact ⟨by decide +kernel, by decide +kernel, rfl⟩

end AustralVM
