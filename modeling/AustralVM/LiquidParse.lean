import AustralVM.LiquidTypes

/-!
# The parser of contracts

`LiquidParse` reads the text of a contract by recursive descent.  The functions
here take the rest of the text and return what is left; the messages of the
errors are without their positions.  A number that is more than the nesting the
text can have bounds the recursion.
-/

namespace AustralVM.Liquid

def isIdentStart (char : Char) : Bool := char.isAlpha || char = '_'

def isIdentChar (char : Char) : Bool := isIdentStart char || char.isDigit

def skipWs (input : List Char) : List Char :=
  input.dropWhile fun char => char = ' ' || char = '\t' || char = '\n' || char = '\r'

def isTrimmed (char : Char) : Bool :=
  char = ' ' || char = '\x0c' || char = '\n' || char = '\r' || char = '\t'

/-- What is left after a token, if the text starts with it. -/
def eat (token : String) (input : List Char) : Option (List Char) :=
  if token.toList.isPrefixOf input then some (input.drop token.length) else none

def reserved : List String := ["forall", "exists", "lambda", "fun", "let", "match"]

def intMin : Int := -2 ^ 62

def intMax : Int := 2 ^ 62 - 1

/-- A literal is real if a point and a digit follow its digits. -/
def parseIntOrReal (input : List Char) : Except String (Term × List Char) :=
  let digits := input.takeWhile Char.isDigit
  let rest := input.dropWhile Char.isDigit
  match rest with
  | '.' :: next :: _ =>
    if next.isDigit then
      let fraction := rest.tail.takeWhile Char.isDigit
      .ok (.real (String.ofList (digits ++ '.' :: fraction)), rest.tail.dropWhile Char.isDigit)
    else integer digits rest
  | _ => integer digits rest
where
  integer (digits rest : List Char) : Except String (Term × List Char) :=
    let value : Int := Nat.ofDigitChars 10 digits 0
    if value < intMin ∨ intMax < value then
      .error ("integer literal out of range: must lie in [" ++ toString intMin ++ ", " ++
        toString intMax ++ ")")
    else .ok (.int value, rest)

def parseRelop (input : List Char) : Option (Relop × List Char) :=
  (eat "==" input).map (.eq, ·) |>.or <| (eat "!=" input).map (.ne, ·) |>.or <|
    (eat "<=" input).map (.le, ·) |>.or <| (eat ">=" input).map (.ge, ·) |>.or <|
    (eat "<" input).map (.lt, ·) |>.or <| (eat ">" input).map (.gt, ·)

def sortOfName (name : String) : Option TrlSort :=
  if name = "Nat" ∨ name = "Nat8" then some .nat
  else if name = "Int" ∨ name = "Int32" ∨ name = "Int64" then some .int
  else if name = "Bool" then some .bool
  else if name = "Real" ∨ name = "Float64" then some .real
  else if name = "Prob" then some .prob
  else none

/-- Nothing deeper than the recursion that the length of a text allows. -/
def tooDeep {α : Type} : Except String (α × List Char) := .error "the contract is nested too deeply"

/-! ## Terms -/

mutual

def parseTerm : Nat → List Char → Except String (Term × List Char)
  | 0, _ => tooDeep
  | fuel + 1, input => do
    let (lhs, rest) ← parseMultiplicative fuel input
    parseSum fuel lhs rest

def parseSum : Nat → Term → List Char → Except String (Term × List Char)
  | 0, _, _ => tooDeep
  | fuel + 1, acc, input =>
    let input := skipWs input
    match eat "+" input, eat "-" input with
    | some rest, _ => do
      let (rhs, rest) ← parseMultiplicative fuel rest
      parseSum fuel (.add acc rhs) rest
    | none, some rest => do
      let (rhs, rest) ← parseMultiplicative fuel rest
      parseSum fuel (.sub acc rhs) rest
    | none, none => .ok (acc, input)

def parseMultiplicative : Nat → List Char → Except String (Term × List Char)
  | 0, _ => tooDeep
  | fuel + 1, input => do
    let (lhs, rest) ← parseUnaryTerm fuel input
    parseProduct fuel lhs rest

def parseProduct : Nat → Term → List Char → Except String (Term × List Char)
  | 0, _, _ => tooDeep
  | fuel + 1, acc, input =>
    let input := skipWs input
    match eat "*" input with
    | some rest => do
      let (rhs, rest) ← parseUnaryTerm fuel rest
      parseProduct fuel (.mul acc rhs) rest
    | none => .ok (acc, input)

/-- A primary term.  The text `if` at the start of a longer name counts too. -/
def parseUnaryTerm : Nat → List Char → Except String (Term × List Char)
  | 0, _ => tooDeep
  | fuel + 1, input =>
    let input := skipWs input
    match eat "-" input, eat "if" input with
    | some rest, _ => do
      let (operand, rest) ← parseUnaryTerm fuel rest
      .ok (.neg operand, rest)
    | none, some rest => do
      let (condition, rest) ← parseTerm fuel rest
      match eat "then" (skipWs rest) with
      | none => .error "expected \"then\""
      | some rest =>
        let (consequent, rest) ← parseTerm fuel rest
        match eat "else" (skipWs rest) with
        | none => .error "expected \"else\""
        | some rest =>
          let (alternative, rest) ← parseTerm fuel rest
          .ok (.ite condition consequent alternative, rest)
    | none, none =>
      match input with
      | char :: _ =>
        if char.isDigit then parseIntOrReal input
        else if isIdentStart char then parseVarOrCall fuel input
        else .error "expected a refinement term"
      | [] => .error "expected a refinement term"

def parseVarOrCall : Nat → List Char → Except String (Term × List Char)
  | 0, _ => tooDeep
  | fuel + 1, input =>
    let name := String.ofList (input.takeWhile isIdentChar)
    let rest := input.dropWhile isIdentChar
    if name ∈ reserved then
      .error ("\"" ++ name ++ "\" is not available in Liquid Austral v1: the TRL has no " ++
        "quantifiers or binders (§2.2)")
    else if name = "true" ∨ name = "false" then .ok (.bool (name = "true"), rest)
    else
      let rest := skipWs rest
      match eat "(" rest with
      | none => .ok (.var name none, rest)
      | some rest =>
        match eat ")" (skipWs rest) with
        | some rest => .ok (.call name [], rest)
        | none => do
          let (args, rest) ← parseArgs fuel (skipWs rest)
          .ok (.call name args, rest)

def parseArgs : Nat → List Char → Except String (List Term × List Char)
  | 0, _ => tooDeep
  | fuel + 1, input => do
    let (arg, rest) ← parseTerm fuel input
    match eat "," (skipWs rest), eat ")" (skipWs rest) with
    | some rest, _ =>
      let (args, rest) ← parseArgs fuel (skipWs rest)
      .ok (arg :: args, rest)
    | none, some rest => .ok ([arg], rest)
    | none, none => .error "expected \",\" or \")\" in a function application"

end

/-! ## Types and formulas -/

section Formulas

variable (isKnownType : String → Bool)

/-- A sort and a declared type are types, everything else is an index. -/
def parseTyArg (fuel : Nat) (input : List Char) : Except String (TyArg × List Char) :=
  let input := skipWs input
  let name := String.ofList (input.takeWhile isIdentChar)
  let rest := input.dropWhile isIdentChar
  let index : Except String (TyArg × List Char) := do
    let (term, rest) ← parseTerm fuel input
    .ok (.index term, rest)
  match input with
  | char :: _ =>
    if isIdentStart char then
      match sortOfName name with
      | some sort => .ok (.ty (.sort sort), rest)
      | none => if isKnownType name then .ok (.ty (.app name []), rest) else index
    else index
  | [] => index

def parseTyArgs : Nat → List Char → Except String (List TyArg × List Char)
  | 0, _ => tooDeep
  | fuel + 1, input => do
    let (arg, rest) ← parseTyArg isKnownType fuel input
    match eat "," (skipWs rest), eat "]" (skipWs rest) with
    | some rest, _ =>
      let (args, rest) ← parseTyArgs fuel (skipWs rest)
      .ok (arg :: args, rest)
    | none, some rest => .ok ([arg], rest)
    | none, none => .error "expected \",\" or \"]\" in a type argument list"

def parseTy (fuel : Nat) (input : List Char) : Except String (IndexedTy × List Char) :=
  let input := skipWs input
  let name := String.ofList (input.takeWhile isIdentChar)
  let rest := input.dropWhile isIdentChar
  match input with
  | char :: _ =>
    if isIdentStart char then
      match sortOfName name with
      | some sort => .ok (.sort sort, rest)
      | none =>
        match eat "[" (skipWs rest) with
        | none => .ok (.app name [], skipWs rest)
        | some rest =>
          match eat "]" (skipWs rest) with
          | some rest => .ok (.app name [], rest)
          | none => do
            let (args, rest) ← parseTyArgs isKnownType fuel (skipWs rest)
            .ok (.app name args, rest)
    else .error "expected a type after \x60:\x60"
  | [] => .error "expected a type after \x60:\x60"

def parseRelational (fuel : Nat) (input : List Char) : Except String (Formula × List Char) := do
  let (lhs, rest) ← parseTerm fuel (skipWs input)
  let rest := skipWs rest
  match parseRelop rest, eat ":" rest with
  | some (op, rest), _ =>
    let (rhs, rest) ← parseTerm fuel rest
    .ok (.rel op lhs rhs, rest)
  | none, some rest =>
    let (ty, rest) ← parseTy isKnownType fuel rest
    .ok (.ty lhs ty, rest)
  | none, none =>
    match lhs with
    | .bool true => .ok (.true, rest)
    | .bool false => .ok (.false, rest)
    | _ =>
      .error ("expected a relation: a formula is a comparison, a conjunction, a disjunction, an " ++
        "implication, a type annotation, a negation, or true/false")

mutual

def parseImplies : Nat → List Char → Except String (Formula × List Char)
  | 0, _ => tooDeep
  | fuel + 1, input => do
    let (lhs, rest) ← parseOr fuel input
    match eat "==>" (skipWs rest) with
    | some rest =>
      let (rhs, rest) ← parseImplies fuel rest
      .ok (.implies lhs rhs, rest)
    | none => .ok (lhs, skipWs rest)

def parseOr : Nat → List Char → Except String (Formula × List Char)
  | 0, _ => tooDeep
  | fuel + 1, input => do
    let (lhs, rest) ← parseAnd fuel input
    match eat "||" (skipWs rest) with
    | some rest =>
      let (rhs, rest) ← parseOr fuel rest
      .ok (.or lhs rhs, rest)
    | none => .ok (lhs, skipWs rest)

def parseAnd : Nat → List Char → Except String (Formula × List Char)
  | 0, _ => tooDeep
  | fuel + 1, input => do
    let (lhs, rest) ← parseUnary fuel input
    match eat "&&" (skipWs rest) with
    | some rest =>
      let (rhs, rest) ← parseAnd fuel rest
      .ok (.and lhs rhs, rest)
    | none => .ok (lhs, skipWs rest)

def parseUnary : Nat → List Char → Except String (Formula × List Char)
  | 0, _ => tooDeep
  | fuel + 1, input =>
    let input := skipWs input
    match eat "!" input, eat "(" input with
    | some rest, _ => do
      let (operand, rest) ← parseUnary fuel rest
      .ok (.not operand, rest)
    | none, some inner => do
      -- a formula in parentheses, or else a relation whose text starts there
      let (formula, rest) ← match parseImplies fuel inner with
        | .ok result => .ok result
        | .error _ => parseRelational isKnownType fuel inner
      match eat ")" (skipWs rest) with
      | some rest => .ok (formula, rest)
      | none => .error "expected \")\""
    | none, none => parseRelational isKnownType fuel input

end

def parseFormula (source : String) : Except String Formula :=
  let input := skipWs source.toList
  if input = [] then .error "empty contract: expected a refinement formula"
  else
    match parseImplies isKnownType (10 * (source.length + 1)) input with
    | .error error => .error error
    | .ok (formula, rest) =>
      if skipWs rest = [] then .ok formula
      else .error "unexpected trailing input after the formula"

def parseContract (kind : ContractKind) (source : String) : Except String Contract :=
  match kind with
  | .measure | .fold =>
    if source.toList.all isTrimmed then .ok ⟨kind, source, none⟩
    else .error (kind.toString ++ " is a marker pragma and takes no contract")
  | _ => do
    let formula ← parseFormula isKnownType source
    .ok ⟨kind, source, some formula⟩

end Formulas

end AustralVM.Liquid
