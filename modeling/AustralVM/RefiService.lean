import AustralVM.Errors
import AustralVM.JsonValue
import AustralVM.RefiPolicy
import AustralVM.ProofLedger
import AustralVM.RustText
import AustralVM.WireFormat

/-!
# Requests, accounts and tokens

What the web service of the exchange reads of a request, the accounts it keeps and
how a token becomes a caller.  The bearer token of an account is kept as a digest
only; the digest is a parameter.
-/

namespace AustralVM.Refi

/-! ## Requests -/

structure ApiError where
  status : Nat
  code : String
  name : String
  message : String
  deriving DecidableEq, Repr

namespace ApiError

def badRequest (message : String) : ApiError := ⟨400, "UK-1001", "BadRequest", message⟩

def unauthorized (message : String) : ApiError := ⟨401, "UK-4001", "Unauthorized", message⟩

def notFound (message : String) : ApiError := ⟨404, "UK-1002", "NotFound", message⟩

def limit (message : String) : ApiError := ⟨429, "UK-RATE-LIMIT", "RateLimited", message⟩

def internal (message : String) : ApiError := ⟨500, "UK-5000", "Internal", message⟩

def unavailable (message : String) : ApiError := ⟨503, "UK-5001", "Unavailable", message⟩

def require {α : Type} (error : ApiError) : Option α → Except ApiError α
  | some value => .ok value
  | none => .error error

end ApiError

def trim (text : String) : String := String.ofList (RustText.trim text.toList)

def stripPrefix (start text : String) : Option String :=
  (text.toList.dropPrefix? start.toList).map String.ofList

def eqIgnoreAsciiCase (left right : String) : Bool := left.map Char.toLower = right.map Char.toLower

/-- A request.  Its body is kept as the handlers read it: as JSON, `null` if it does
not parse, and as the fields of a form. -/
structure HttpRequest where
  method : String
  path : String
  query : List (String × String)
  headers : List (String × String)
  json : Json
  form : List (String × String)
  peer : String
  deriving Repr

namespace HttpRequest

variable (req : HttpRequest)

def header (name : String) : Option String :=
  (req.headers.find? fun header => eqIgnoreAsciiCase header.1 name).map Prod.snd

def queryGet (key : String) : Option String := req.query.lookup key

def formGet (key : String) : Option String := req.form.lookup key

def bearer : Option String :=
  match (req.header "authorization").bind (stripPrefix "Bearer ") with
  | some rest => some (trim rest)
  | none => (req.header "x-api-key").map trim

def cookie (name : String) : Option String := do
  let raw ← req.header "cookie"
  let parts := (raw.toList.splitOn ';').map RustText.trim
  parts.findSome? fun part =>
    (RustText.splitOnce ['='] part).bind fun (key, value) =>
      if RustText.trim key = name.toList then some (String.ofList (RustText.trim value)) else none

end HttpRequest

/-! ## Accounts -/

inductive Role
  | customer
  | merchant
  | admin
  deriving DecidableEq, Repr

def Role.parse (text : String) : Option Role :=
  if text = "customer" then some .customer
  else if text = "merchant" then some .merchant
  else if text = "admin" then some .admin
  else none

structure Account where
  did : String
  name : String
  role : Role
  secret : String
  tokenSha256 : String
  createdAt : Nat
  deriving DecidableEq, Repr

def Account.isAdmin (account : Account) : Bool := account.role = .admin

/-- A comparison that looks at every byte, whatever the first ones are like. -/
def ctEq (left right : List UInt8) : Bool :=
  left.length = right.length ∧
    (left.zip right).foldl (fun diff pair => diff ||| (pair.1 ^^^ pair.2)) 0 = 0

private theorem foldl_or_eq_zero (pairs : List (UInt8 × UInt8)) (diff : UInt8) :
    pairs.foldl (fun diff pair => diff ||| (pair.1 ^^^ pair.2)) diff = 0 ↔
      diff = 0 ∧ ∀ pair ∈ pairs, pair.1 = pair.2 := by
  induction pairs generalizing diff with
  | nil => simp
  | cons _ _ ih =>
    rw [List.foldl_cons, ih, UInt8.or_eq_zero_iff, UInt8.xor_eq_zero_iff, List.forall_mem_cons,
      and_assoc]

private theorem eq_of_zip {left right : List UInt8} (long : left.length = right.length)
    (same : ∀ pair ∈ left.zip right, pair.1 = pair.2) : left = right := by
  apply List.ext_getElem long
  intro index _ _
  apply same (left[index], right[index])
  rw [← List.getElem_zip (h := by simp; omega)]
  exact List.getElem_mem _

theorem ctEq_iff {left right : List UInt8} : ctEq left right = true ↔ left = right := by
  rw [ctEq, decide_eq_true_eq, foldl_or_eq_zero]
  constructor
  · rintro ⟨long, -, same⟩
    exact eq_of_zip long same
  · rintro rfl
    refine ⟨rfl, rfl, fun pair mem => ?_⟩
    obtain ⟨_, _, rfl⟩ := List.mem_iff_getElem.mp mem
    rw [List.getElem_zip]

/-! ## Callers -/

/-- The functions outside the service that its answers depend on. -/
structure Digests where
  /-- `sha256` as lowercase hex. -/
  sha256Hex : String → String
  sha256 : String → Bytes32
  /-- `hex::decode`. -/
  hexDecode : String → Option (List UInt8)

inductive Read
  | status
  | audit
  | registry (limit : Nat) (kind : Option String)
  | denominations
  | ops (limit : Nat)
  | reserve (id : Bytes32)
  | reserves (owner : String)
  | coins (owner : String)
  | merchant (did : String)
  | pegOuts
  deriving DecidableEq

structure Page where
  slug : String
  published : Bool
  deriving DecidableEq, Repr

structure Config where
  openRegistration : Bool

/-- The running service.  The answers of the engine are a parameter. -/
structure Service where
  digests : Digests
  config : Config
  accounts : List Account
  adminHash : String
  pages : List Page
  proofs : List Proof
  /-- Is a proof backend configured? -/
  configured : Bool
  read : Read → Except ApiError Json

inductive Caller
  | admin
  | account (holder : Account)
  deriving DecidableEq, Repr

namespace Caller

def account? : Caller → Option Account
  | admin => none
  | account holder => some holder

def did (caller : Caller) : Option String := caller.account?.map Account.did

def isAdmin : Caller → Bool
  | admin => true
  | account holder => holder.isAdmin

end Caller

namespace Service

variable (service : Service)

def tokenIsAdmin (token : String) : Bool :=
  ctEq (utf8 (service.digests.sha256Hex token)) (utf8 service.adminHash)

def byToken (token : String) : Option Account :=
  service.accounts.find? fun account =>
    ctEq (utf8 account.tokenSha256) (utf8 (service.digests.sha256Hex token))

def callerOf (token : String) : Except ApiError Caller :=
  if service.tokenIsAdmin token then .ok .admin
  else do
    let account ← ApiError.require (.unauthorized "unknown token") (service.byToken token)
    return .account account

def authenticate (req : HttpRequest) (allowCookie : Bool) : Except ApiError Caller := do
  let cookie := if allowCookie then req.cookie "refi_admin" else none
  let token ← ApiError.require (.unauthorized "missing bearer token") (req.bearer <|> cookie)
  service.callerOf token

def requireAdmin (req : HttpRequest) : Option String → Except ApiError Caller
  | some token =>
    if service.tokenIsAdmin token then .ok .admin
    else .error (.unauthorized "the form's admin token is not valid")
  | none => do
    let caller ← service.authenticate req true
    ensure (caller.isAdmin = true) (.unauthorized "admin sign-in required")
    return caller

theorem tokenIsAdmin_iff :
    service.tokenIsAdmin token = true ↔ service.digests.sha256Hex token = service.adminHash := by
  rw [tokenIsAdmin, ctEq_iff]
  exact utf8_injective.eq_iff

theorem byToken_eq (token : String) : service.byToken token = service.accounts.find? fun account =>
        account.tokenSha256 = service.digests.sha256Hex token := by
  rw [byToken]
  congr
  funext account
  rw [Bool.eq_iff_iff, ctEq_iff, decide_eq_true_eq]
  exact utf8_injective.eq_iff

end Service

end AustralVM.Refi
