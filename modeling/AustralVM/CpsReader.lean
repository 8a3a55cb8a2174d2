import AustralVM.CpsIr
import AustralVM.AuthEngine

/-!
# The reader of CPS binaries

`compile_cps_to_clif` of `cps.rs`: it reads the table of functions, then each
body, and emits instructions while it reads.  Here the instructions are a tree,
and what the reader asks of the Cranelift module is a second pass over the tree:
the symbols it declares, with the number of their arguments, the check of each
function and its definition.  What the module answers is a parameter.
-/

namespace AustralVM

open Auth

/-! ## Emitted code -/

inductive IntCC
  | signedLessThan
  | signedGreaterThan
  | signedLessThanOrEqual
  | signedGreaterThanOrEqual
  | equal
  | notEqual
  deriving DecidableEq, Repr

/-- Where a call goes: to a function of the binary, or to a symbol that the
linker resolves by its name. -/
inductive CallTarget
  | defined (name : String)
  | imported (name : String)
  deriving DecidableEq, Repr

def CallTarget.name : CallTarget → String
  | .defined name => name
  | .imported name => name

/-- Instructions with 64-bit results.  The last four are operations that the
intermediate representation names and that the reader has no instruction for. -/
inductive Code
  | iconst (value : BitVec 64)
  | useVar (name : String)
  | call (target : CallTarget) (args : List Code)
  /-- A load at the sum of the first two arguments. -/
  | slotGet (args : List Code)
  /-- An allocation of the first argument's size, filled with the others. -/
  | recordNew (args : List Code)
  /-- An allocation of the first argument's size, the second is the tag. -/
  | unionNew (args : List Code)
  | iadd (lhs rhs : Code)
  | isub (lhs rhs : Code)
  | imul (lhs rhs : Code)
  | icmp (condition : IntCC) (lhs rhs : Code)
  | bnot (operand : Code)
  | load (pointer : Code)
  /-- A constant of bytes in the heap, and its address and size. -/
  | span (bytes : List UInt8)
  | logicalAnd (lhs rhs : Code)
  | logicalOr (lhs rhs : Code)
  | logicalNot (operand : Code)
  | fconst (value : OcamlFloat)
  deriving Repr

open Code

mutual

/-- A list of statements, up to its first return, with values of a type. -/
inductive CpsBlock (α : Type)
  | done
  | ret (value : α)
  | defVar (name : String) (value : α) (rest : CpsBlock α)
  | store (pointer value : α) (rest : CpsBlock α)
  | eval (value : α) (rest : CpsBlock α)
  | branch (condition : α) (thenBlock elseBlock rest : CpsBlock α)
  | loop (condition : α) (body rest : CpsBlock α)
  | switch (condition : α) (cases : CpsCases α) (default rest : CpsBlock α)

inductive CpsCases (α : Type)
  | nil
  | cons (value : BitVec 64) (body : CpsBlock α) (rest : CpsCases α)

end

abbrev CodeBlock := CpsBlock Code

abbrev CodeCases := CpsCases Code

structure EmittedFunction where
  name : String
  params : List String
  body : CodeBlock

structure CpsProgram where
  moduleName : String
  functions : List EmittedFunction

/-! ## Permissions -/

def hasPrefix (start text : String) : Bool := start.toList.isPrefixOf text.toList

/-- A call across the boundary to the kernel or to Rust. -/
def isGated (callee : String) : Bool :=
  hasPrefix "uk_" callee || hasPrefix "uz_" callee || hasPrefix "rs_" callee

/-- Who a call is attributed to: the principal of the deployment, then the
module of the header, then the calling function. -/
def effectivePrincipal (auth : AuthState) (caller moduleName : String) : String :=
  match auth.deploymentPrincipal.filter (· ≠ "") with
  | some principal => principal
  | none => if moduleName = "" then caller else moduleName

/-- The check leaves the engine that answers as it was, so the state of the host
is not passed on. -/
def checkCallPermission (auth : AuthState) (caller moduleName callee : String) :
    Except String Unit :=
  if hasPrefix "__" callee || hasPrefix "au_" callee || caller = callee then .ok ()
  else if !isGated callee then .ok ()
  else (auth.check (effectivePrincipal auth caller moduleName) "Call" callee).1

/-! ## Reading -/

abbrev CpsParser := ByteParser String

/-- `String::from_utf8_lossy`: it reads texts back, and makes some text of bytes
that are none. -/
structure Utf8Lossy where
  decode : List UInt8 → String
  decode_utf8 : ∀ text, decode (utf8 text) = text

/-- One replacement character for bytes that are no text. -/
def Utf8Lossy.replacing : Utf8Lossy where
  decode bytes := (String.fromUTF8? ⟨bytes.toArray⟩).getD "�"
  decode_utf8 text := by
    have valid : String.fromUTF8? ⟨(utf8 text).toArray⟩ = some text := by
      rw [utf8, Array.toArray_toList, String.fromUTF8?, dif_pos text.isValidUTF8]
      rfl
    rw [valid, Option.getD_some]

def readU8 : CpsParser UInt8 := ByteParser.byte "EOF"

def readU32 : CpsParser Nat := ByteParser.number "EOF" 4

def readI64 : CpsParser (BitVec 64) := BitVec.ofNat 64 <$> ByteParser.number "EOF" 8

def readBytes (length : Nat) : CpsParser (List UInt8) := ByteParser.take "EOF" length

def readSized : CpsParser (List UInt8) := readU32 >>= readBytes

def readString (lossy : Utf8Lossy) : CpsParser String := lossy.decode <$> readSized

/-- What stays the same while a function's body is read. -/
structure EmitContext where
  lossy : Utf8Lossy
  auth : AuthState
  nameMap : List String
  callerName : String
  moduleName : String

/-- A name stands for a function of the binary if the binary has one. -/
def callTarget (nameMap : List String) (name : String) : CallTarget :=
  if name ∈ nameMap then .defined name else .imported name

namespace EmitContext

def target (ctx : EmitContext) (name : String) : CallTarget := callTarget ctx.nameMap name

def permits (ctx : EmitContext) (callee : String) : Except String Unit :=
  checkCallPermission ctx.auth ctx.callerName ctx.moduleName callee

end EmitContext

/-- Indexing the arguments panics if there are too few. -/
def requireArgs (needed : Nat) (args : List Code) : Except String Unit :=
  if needed ≤ args.length then .ok ()
  else
    .error (s!"index out of bounds: the len is {args.length} but the index is {args.length}")

/-- The instructions of a call that is not returned directly. -/
def emitCall (ctx : EmitContext) (name : String) (args : List Code) : Except String Code := do
  ctx.permits name
  if name = "__slot_get" ∨ name = "__ptr_slot_get" then
    requireArgs 2 args
    pure (.slotGet args)
  else if name = "__record_new" then
    requireArgs 1 args
    pure (.recordNew args)
  else if name = "__union_new" then
    requireArgs 2 args
    pure (.unionNew args)
  else
    pure (.call (ctx.target name) args)

/-- The instructions of a call that is returned directly: here a union's
constructor is no case of its own. -/
def emitTailCall (ctx : EmitContext) (name : String) (args : List Code) : Except String Code := do
  ctx.permits name
  if name = "__slot_get" ∨ name = "__ptr_slot_get" then
    requireArgs 2 args
    pure (.slotGet args)
  else if name = "__record_new" then
    requireArgs 1 args
    pure (.recordNew args)
  else
    pure (.call (ctx.target name) args)

/-- A name, a number of arguments and the arguments. -/
def emitApp (lossy : Utf8Lossy) (emitArg : CpsParser Code)
    (finish : String → List Code → Except String Code) : CpsParser Code := do
  let name ← readString lossy
  let count ← readU32
  let args ← ByteParser.times count emitArg
  ByteParser.ofExcept (finish name args)

def emitBinary (emitOperand : CpsParser Code) (instruction : Code → Code → Code) :
    CpsParser Code := do
  let lhs ← emitOperand
  let rhs ← emitOperand
  pure (instruction lhs rhs)

def emitUnary (emitOperand : CpsParser Code) (instruction : Code → Code) : CpsParser Code := do
  let operand ← emitOperand
  pure (instruction operand)

def emitVar (ctx : EmitContext) (vars : List String) : CpsParser Code := do
  let name ← readString ctx.lossy
  ByteParser.ofExcept
    (if name ∈ vars then .ok (.useVar name) else .error ("Undefined variable: " ++ name))

def hexDigit (digit : Nat) : Char := Nat.digitChar digit

def unknownOpcode (opcode : UInt8) : String :=
  "Unknown opcode: 0x" ++
    String.ofList [hexDigit (opcode.toNat / 16), hexDigit (opcode.toNat % 16)]

/-- The instructions of an opcode, with a reader for its operands. -/
def emitOpcode (ctx : EmitContext) (vars : List String) (emitOperand : CpsParser Code)
    (opcode : UInt8) : CpsParser Code :=
  match opcode.toNat with
  | 0x01 => iconst <$> readI64
  | 0x02 => emitVar ctx vars
  | 0x04 => emitApp ctx.lossy emitOperand (emitCall ctx)
  | 0x05 => emitBinary emitOperand .iadd
  | 0x06 => emitBinary emitOperand .isub
  | 0x10 => emitBinary emitOperand (.icmp .signedLessThan)
  | 0x11 => emitBinary emitOperand (.icmp .signedGreaterThan)
  | 0x12 => emitBinary emitOperand (.icmp .signedLessThanOrEqual)
  | 0x13 => emitBinary emitOperand (.icmp .signedGreaterThanOrEqual)
  | 0x14 => emitBinary emitOperand (.icmp .equal)
  | 0x15 => emitBinary emitOperand (.icmp .notEqual)
  | 0x18 => emitBinary emitOperand .imul
  | 0x19 => emitUnary emitOperand .bnot
  | 0x20 => emitUnary emitOperand .load
  | 0x21 => span <$> readSized
  | _ => ByteParser.fail (unknownOpcode opcode)

/-- Read an expression and emit it.  The fuel bounds the nesting, which is below
the number of bytes: without fuel the bytes have run out as well. -/
def emitExpr (ctx : EmitContext) (vars : List String) : Nat → CpsParser Code
  | 0 => ByteParser.fail "EOF"
  | fuel + 1 => do
    let opcode ← readU8
    emitOpcode ctx vars (emitExpr ctx vars fuel) opcode

/-- A reader of a list of statements, which knows the variables declared so far
and returns those declared after it. -/
abbrev BlockParser := List String → CpsParser (CodeBlock × List String)

def declareVar (vars : List String) (name : String) : List String :=
  if name ∈ vars then vars else name :: vars

section Statements

variable (ctx : EmitContext) (emitValue : List String → CpsParser Code) (emitList : BlockParser)

def emitReturn (vars : List String) : CpsParser (CodeBlock × List String) := do
  let next ← ByteParser.peek
  if next = some 0x04 then
    let _ ← readU8
    let value ← emitApp ctx.lossy (emitValue vars) (emitTailCall ctx)
    pure (.ret value, vars)
  else
    let value ← emitValue vars
    pure (.ret value, vars)

def emitIf (vars : List String) : CpsParser (CodeBlock × List String) := do
  let condition ← emitValue vars
  let thenData ← readSized
  let elseData ← readSized
  let (thenBlock, vars) ← ByteParser.inside thenData (emitList vars)
  let (elseBlock, vars) ← ByteParser.inside elseData (emitList vars)
  let (rest, vars) ← emitList vars
  pure (.branch condition thenBlock elseBlock rest, vars)

def emitWhile (vars : List String) : CpsParser (CodeBlock × List String) := do
  let condition ← emitValue vars
  let bodyData ← readSized
  let (body, vars) ← ByteParser.inside bodyData (emitList vars)
  let (rest, vars) ← emitList vars
  pure (.loop condition body rest, vars)

def emitCases : Nat → List String → CpsParser (CodeCases × List String)
  | 0, vars => pure (.nil, vars)
  | count + 1, vars => do
    let value ← readI64
    let bodyData ← readSized
    let (body, vars) ← ByteParser.inside bodyData (emitList vars)
    let (rest, vars) ← emitCases count vars
    pure (.cons value body rest, vars)

def emitMatch (vars : List String) : CpsParser (CodeBlock × List String) := do
  let condition ← emitValue vars
  let count ← readU32
  let (cases, vars) ← emitCases emitList count vars
  let defaultData ← readSized
  let (default, vars) ← ByteParser.inside defaultData (emitList vars)
  let (rest, vars) ← emitList vars
  pure (.switch condition cases default rest, vars)

def emitDef (vars : List String) : CpsParser (CodeBlock × List String) := do
  let name ← readString ctx.lossy
  let value ← emitValue vars
  let (rest, vars) ← emitList (declareVar vars name)
  pure (.defVar name value rest, vars)

def emitStore (vars : List String) : CpsParser (CodeBlock × List String) := do
  let pointer ← emitValue vars
  let value ← emitValue vars
  let (rest, vars) ← emitList vars
  pure (.store pointer value rest, vars)

def emitDiscard (vars : List String) : CpsParser (CodeBlock × List String) := do
  let value ← emitValue vars
  let (rest, vars) ← emitList vars
  pure (.eval value rest, vars)

/-- The statement that begins with an opcode, and the list after it.  Only the
opcode of an expression stays to be read. -/
def emitStmt (vars : List String) (opcode : UInt8) : CpsParser (CodeBlock × List String) :=
  match opcode.toNat with
  | 0x07 => readU8 >>= fun _ => emitReturn ctx emitValue vars
  | 0x08 => readU8 >>= fun _ => emitIf emitValue emitList vars
  | 0x09 => readU8 >>= fun _ => emitWhile emitValue emitList vars
  | 0x0A => readU8 >>= fun _ => emitMatch emitValue emitList vars
  | 0x03 => readU8 >>= fun _ => emitDef ctx emitValue emitList vars
  | 0x30 => readU8 >>= fun _ => emitStore emitValue emitList vars
  | _ => emitDiscard emitValue emitList vars

end Statements

/-- Read a list of statements and emit them; what follows a return stays unread. -/
def emitStmtList (ctx : EmitContext) : Nat → BlockParser
  | 0, _ => ByteParser.fail "EOF"
  | fuel + 1, vars => do
    match ← ByteParser.peek with
    | none => pure (.done, vars)
    | some opcode =>
      emitStmt ctx (fun vars => emitExpr ctx vars fuel) (emitStmtList ctx fuel) vars opcode

/-! ## The table of functions -/

structure FunctionHeader where
  name : String
  params : List String
  bodyData : List UInt8

def readFunctionHeader (lossy : Utf8Lossy) : CpsParser FunctionHeader := do
  let name ← readString lossy
  let paramCount ← readU32
  let params ← ByteParser.times paramCount (readString lossy)
  let _returnType ← readU8
  let bodyData ← readSized
  pure ⟨name, params, bodyData⟩

def invalidMagic (magic : Nat) : String :=
  "Invalid magic: 0x" ++ String.ofList ((List.range 8).reverse.map fun place =>
    hexDigit (magic / 16 ^ place % 16))

/-- The name of the module: the first version of the format has none. -/
def readModuleName (lossy : Utf8Lossy) : CpsParser String := do
  let magic ← readU32
  if magic = 0x43505331 then pure ""
  else if magic = 0x43505332 then readString lossy
  else ByteParser.fail (invalidMagic magic)

def readTable (lossy : Utf8Lossy) : CpsParser (String × List FunctionHeader) := do
  let moduleName ← readModuleName lossy
  let count ← readU32
  let headers ← ByteParser.times count (readFunctionHeader lossy)
  pure (moduleName, headers)

/-- Read a function's body.  Every level of nesting reads a byte at least. -/
def emitFunction (ctx : EmitContext) (header : FunctionHeader) : Except String EmittedFunction := do
  let ((body, _), _) ←
    emitStmtList { ctx with callerName := header.name } (header.bodyData.length + 1)
      header.params header.bodyData
  pure ⟨header.name, header.params, body⟩

/-! ## What the reader asks of the Cranelift module -/

inductive Linkage
  | exported
  | imported
  /-- The import of the allocator for records, unions and constants. -/
  | allocator
  deriving DecidableEq, Repr

/-- A symbol and the number of its arguments, which are words as the result is. -/
structure Declaration where
  linkage : Linkage
  symbol : String
  args : Nat
  deriving DecidableEq, Repr

/-- An error of the module in its two formats. -/
structure ModuleError where
  display : String
  debug : String

def Declaration.failure (declaration : Declaration) (error : ModuleError) : String :=
  match declaration.linkage with
  | .exported => "Declare " ++ declaration.symbol ++ ": " ++ error.debug
  | .imported => "Failed to declare import " ++ declaration.symbol ++ ": " ++ error.display
  | .allocator => "Failed to declare au_alloc: " ++ error.display

/-- The module and the verifier of Cranelift, which belong to another crate.  What
they answer may depend on the declarations so far and on the whole program. -/
structure Cranelift where
  declareFunction : List Declaration → Declaration → Except ModuleError Unit
  verifyFunction : CpsProgram → EmittedFunction → Except String Unit
  defineFunction : List Declaration → CpsProgram → EmittedFunction → Except ModuleError Unit

/-- A module that takes everything. -/
def Cranelift.obliging : Cranelift :=
  ⟨fun _ _ => .ok (), fun _ _ => .ok (), fun _ _ _ => .ok ()⟩

/-- The declarations so far, the last one first, and the names that are claimed
for exports. -/
structure Jit where
  declared : List Declaration
  claimed : List String

namespace Jit

def declare (cranelift : Cranelift) (jit : Jit) (declaration : Declaration) :
    Except String Jit := do
  (cranelift.declareFunction jit.declared declaration).mapError declaration.failure
  pure { jit with declared := declaration :: jit.declared }

/-- The first free name with a suffix from a number on. -/
def freeSuffix (claimed : List String) (name : String) : Nat → Nat → String
  | 0, number => s!"{name}#{number}"
  | fuel + 1, number =>
    if s!"{name}#{number}" ∈ claimed then freeSuffix claimed name fuel (number + 1)
    else s!"{name}#{number}"

/-- The symbol that an export is declared under: its name, or the name with a
suffix if that is taken. -/
def claimExportSymbol (claimed : List String) (name : String) : String :=
  if name ∈ claimed then freeSuffix claimed name claimed.length 2 else name

/-- The declarations of the exports, and the names that are claimed after them. -/
def claimExports (claimed : List String) :
    List EmittedFunction → List Declaration × List String
  | [] => ([], claimed)
  | function :: functions =>
    let symbol := claimExportSymbol claimed function.name
    let (symbols, claimed) := claimExports (symbol :: claimed) functions
    (⟨.exported, symbol, function.params.length⟩ :: symbols, claimed)

end Jit

mutual

/-- The symbols that code imports, in the order in which they are declared. -/
def Code.imports : Code → List Declaration
  | .iconst _ | .useVar _ | .fconst _ => []
  | .call (.defined _) args => importsList args
  | .call (.imported name) args => importsList args ++ [⟨.imported, name, args.length⟩]
  | .slotGet args => importsList args
  | .recordNew args | .unionNew args => importsList args ++ [⟨.allocator, "au_alloc", 1⟩]
  | .iadd lhs rhs | .isub lhs rhs | .imul lhs rhs | .icmp _ lhs rhs
  | .logicalAnd lhs rhs | .logicalOr lhs rhs => lhs.imports ++ rhs.imports
  | .bnot operand | .load operand | .logicalNot operand => operand.imports
  | .span _ => [⟨.allocator, "au_alloc", 1⟩]

def Code.importsList : List Code → List Declaration
  | [] => []
  | code :: codes => code.imports ++ importsList codes

end

mutual

/-- The calls of code, with the number of arguments. -/
@[grind =] def Code.calls : Code → List (CallTarget × Nat)
  | .iconst _ | .useVar _ | .span _ | .fconst _ => []
  | .call target args => callsList args ++ [(target, args.length)]
  | .slotGet args | .recordNew args | .unionNew args => callsList args
  | .iadd lhs rhs | .isub lhs rhs | .imul lhs rhs | .icmp _ lhs rhs
  | .logicalAnd lhs rhs | .logicalOr lhs rhs => lhs.calls ++ rhs.calls
  | .bnot operand | .load operand | .logicalNot operand => operand.calls

@[grind =] def Code.callsList : List Code → List (CallTarget × Nat)
  | [] => []
  | code :: codes => code.calls ++ callsList codes

end

mutual

/-- What the values of a block have, in order. -/
@[grind =] def CpsBlock.collect {α β : Type} (of : α → List β) : CpsBlock α → List β
  | .done => []
  | .ret value => of value
  | .defVar _ value rest => of value ++ rest.collect of
  | .store pointer value rest => of pointer ++ (of value ++ rest.collect of)
  | .eval value rest => of value ++ rest.collect of
  | .branch condition thenBlock elseBlock rest =>
    of condition ++ (thenBlock.collect of ++ (elseBlock.collect of ++ rest.collect of))
  | .loop condition body rest => of condition ++ (body.collect of ++ rest.collect of)
  | .switch condition cases default rest =>
    of condition ++ (cases.collect of ++ (default.collect of ++ rest.collect of))

@[grind =] def CpsCases.collect {α β : Type} (of : α → List β) : CpsCases α → List β
  | .nil => []
  | .cons _ body rest => body.collect of ++ rest.collect of

end

namespace Jit

/-- Declare what a function imports, verify its code and define it. -/
def linkFunction (cranelift : Cranelift) (program : CpsProgram) (jit : Jit)
    (function : EmittedFunction) : Except String Jit := do
  let jit ← (function.body.collect imports).foldlM (declare cranelift) jit
  (cranelift.verifyFunction program function).mapError fun errors =>
    "Verifier failed for function '" ++ function.name ++ "':\n" ++ errors
  (cranelift.defineFunction jit.declared program function).mapError fun error =>
    "Define " ++ function.name ++ ": " ++ error.debug
  pure jit

/-- Declare the exports of a program, then link its functions. -/
def link (cranelift : Cranelift) (jit : Jit) (program : CpsProgram) : Except String Jit := do
  let (exports, claimed) := claimExports jit.claimed program.functions
  let jit ← exports.foldlM (declare cranelift) { jit with claimed := claimed }
  program.functions.foldlM (linkFunction cranelift program) jit

end Jit

/-- What a compilation leaves: the emitted program, the bytes after the table of
functions, and the module. -/
structure CompiledCps where
  program : CpsProgram
  unread : List UInt8
  jit : Jit

def compileCpsToClif (cranelift : Cranelift) (lossy : Utf8Lossy) (auth : AuthState) (jit : Jit)
    (data : List UInt8) : Except String CompiledCps := do
  let ((moduleName, headers), unread) ← readTable lossy data
  let ctx : EmitContext := ⟨lossy, auth, headers.map FunctionHeader.name, "", moduleName⟩
  let functions ← headers.mapM (emitFunction ctx)
  let program : CpsProgram := ⟨moduleName, functions⟩
  let jit ← jit.link cranelift program
  pure ⟨program, unread, jit⟩

end AustralVM
