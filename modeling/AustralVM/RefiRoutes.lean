import AustralVM.ExceptRules
import AustralVM.RefiService
import AustralVM.WindowCounters

/-!
# The routes of the exchange

A request is matched against the routes of the service, and the handler of its route
checks the token and the input before anything happens.  What a handler does is
given as its effect: a view, a change of the accounts, pages or proofs, or a command
that reaches the engine.  Every effect is mediated: what is reserved to
administrators happens only for a caller who is one, and a command acts for the
caller whom the token names.
-/

namespace AustralVM.Refi

open Except (readAll)
open ApiError (require)

/-! ## Endpoints -/

inductive AdminEndpoint
  | listAccounts
  | createAccount
  | publishProof
  | issueDenom
  | mint
  | unknown

inductive ApiEndpoint
  | status
  | registry
  | denominations
  | ops
  | reserve (id : String)
  | merchant (did : String)
  | register
  | proofs
  | proof (id : String)
  | mintFromProof (id : String)
  | admin (endpoint : AdminEndpoint)
  | audit
  | me
  | openReserve
  | reserveAction (id action : String)
  | deposit
  | transfer
  | pegOut
  | pegOutAction (wire action : String)
  | unknown

inductive Endpoint
  /-- Health, metrics and the style sheet, which are not throttled. -/
  | operational
  /-- A page of the public site. -/
  | site
  | sitePage (slug : String)
  | siteProof (id : String)
  | adminHome
  | adminLoginPage
  | adminLogin
  | adminLogout
  | adminEditor (slug : String)
  | adminSavePage
  | adminPageAction (slug action : String)
  | adminCreateAccount
  | adminProofs
  | adminPublishProof
  | adminProofDetail (id : String)
  | adminMintFromProof (id : String)
  | adminIssueDenom
  | api (endpoint : ApiEndpoint)
  | notFound

/-- The endpoints below `api/v1/admin`. -/
def adminEndpoint (method : String) : List String → AdminEndpoint
  | ["accounts"] =>
    if method = "GET" then .listAccounts else if method = "POST" then .createAccount else .unknown
  | ["proofs"] => if method = "POST" then .publishProof else .unknown
  | ["denominations"] => if method = "POST" then .issueDenom else .unknown
  | ["mint"] => if method = "POST" then .mint else .unknown
  | _ => .unknown

/-- The endpoints below `api`. -/
def apiEndpoint : String → List String → ApiEndpoint
  | "GET", ["v1", "status"] => .status
  | "GET", ["v1", "registry"] => .registry
  | "GET", ["v1", "denominations"] => .denominations
  | "GET", ["v1", "ops"] => .ops
  | "GET", ["v1", "reserves", id] => .reserve id
  | "GET", ["v1", "merchants", did] => .merchant did
  | "POST", ["v1", "accounts"] => .register
  | "GET", ["v1", "proofs"] => .proofs
  | "GET", ["v1", "proofs", id] => .proof id
  | "POST", ["v1", "proofs", id, "mint"] => .mintFromProof id
  | method, "v1" :: "admin" :: rest => .admin (adminEndpoint method rest)
  | "GET", ["v1", "audit"] => .audit
  | "GET", ["v1", "me"] => .me
  | "POST", ["v1", "reserves"] => .openReserve
  | "POST", ["v1", "reserves", id, action] => .reserveAction id action
  | "POST", ["v1", "deposits"] => .deposit
  | "POST", ["v1", "transfers"] => .transfer
  | "POST", ["v1", "peg-outs"] => .pegOut
  | "POST", ["v1", "peg-outs", wire, action] => .pegOutAction wire action
  | _, _ => .unknown

def routed : String → List String → Endpoint
  | "GET", [] => .site
  | "GET", ["registry"] => .site
  | "GET", ["api"] => .site
  | "GET", ["pages", slug] => .sitePage slug
  | "GET", ["proofs"] => .site
  | "GET", ["proofs", id] => .siteProof id
  | "GET", ["attestation"] => .site
  | "GET", ["admin"] => .adminHome
  | "GET", ["admin", "login"] => .adminLoginPage
  | "POST", ["admin", "login"] => .adminLogin
  | "POST", ["admin", "logout"] => .adminLogout
  | "GET", ["admin", "pages", slug] => .adminEditor slug
  | "POST", ["admin", "pages"] => .adminSavePage
  | "POST", ["admin", "pages", slug, action] => .adminPageAction slug action
  | "POST", ["admin", "accounts"] => .adminCreateAccount
  | "GET", ["admin", "proofs"] => .adminProofs
  | "POST", ["admin", "proofs"] => .adminPublishProof
  | "GET", ["admin", "proofs", id] => .adminProofDetail id
  | "POST", ["admin", "proofs", id, "mint"] => .adminMintFromProof id
  | "POST", ["admin", "denominations"] => .adminIssueDenom
  | method, "api" :: rest => .api (apiEndpoint method rest)
  | _, _ => .notFound

def operationalPaths : List String := ["/healthz", "/metrics", "/style.css"]

/-- The endpoint of a request.  Slashes at the end of the path do not count. -/
def endpointOf (req : HttpRequest) : Endpoint :=
  let path := (req.path.toList.reverse.dropWhile (· = '/')).reverse
  let segs := ((path.splitOn '/').map String.ofList).filter (· ≠ "")
  if req.method = "GET" ∧ String.ofList path ∈ operationalPaths then .operational
  else routed req.method segs

/-! ## Effects -/

inductive View
  /-- A page of the public site. -/
  | site
  | signIn
  /-- A page of the console. -/
  | console
  | engine (what : Read)
  | proofs
  /-- The state of the caller's own account. -/
  | me (did : String)
  | accounts
  deriving DecidableEq

inductive Effect
  | view (view : View)
  /-- The session cookie is set. -/
  | signIn (token : String)
  | signOut
  | createAccount (name : String) (role : Role)
  | publishProof (actor project : String) (submission : Submission)
  | savePage (slug : Option String) (title body : String) (published : Bool) (author : String)
  | togglePage (slug : String)
  | deletePage (slug : String)
  /-- A command reaches the engine. -/
  | call (cmd : Cmd)
  deriving DecidableEq

namespace Service

variable (service : Service) (req : HttpRequest)

def parseHex32 (text : String) : Option Bytes32 := do
  let bytes ← service.digests.hexDecode (trim text)
  if long : bytes.length = 32 then some ⟨bytes, long⟩ else none

def parseId (text : String) : Option Bytes32 := service.parseHex32 text

def defaultReserveId (did : String) : Bytes32 := service.digests.sha256 ("refi:reserve:" ++ did)

end Service

def isDid (text : String) : Bool :=
  match stripPrefix "did:unfer:" text with
  | some rest =>
    rest.utf8ByteSize = 64 ∧
      rest.toList.all fun char =>
        char.isDigit || ('a' ≤ char && char ≤ 'f') || ('A' ≤ char && char ≤ 'F')
  | none => false

def isDoi (text : String) : Bool :=
  if text = "" ∨ 200 < text.utf8ByteSize ∨ text.toList.any RustText.isWhitespace then false
  else
    match (stripPrefix "10." text).bind fun rest => RustText.splitOnce ['/'] rest.toList with
    | some (registrant, suffix) =>
      4 ≤ (String.ofList registrant).utf8ByteSize ∧ (String.ofList registrant).utf8ByteSize ≤ 9 ∧
        registrant.all Char.isDigit ∧ suffix ≠ []
    | none => false

def Proof.canMint (proof : Proof) : Bool := proof.state = .published ∧ proof.doi.isSome

/-- The largest specification or proof, in bytes. -/
def maxField : Nat := 256 * 1024

/-! ## Handlers -/

def accountName (given : Option String) : Except ApiError String := do
  let name := trim (given.getD "")
  ensure (name ≠ "" ∧ name.utf8ByteSize ≤ 64) (.badRequest "name must be 1..=64 characters")
  return name

def HttpRequest.amount (req : HttpRequest) : Except ApiError UInt64 :=
  require (.badRequest "amount must be a positive integer")
    ((req.json.u64 "amount").filter (0 < ·))

namespace Service

variable (service : Service) (req : HttpRequest)

def shown (what : Read) : Except ApiError Effect := do
  let _ ← service.read what
  return .view (.engine what)

def queryLimit (default : Nat) : Nat :=
  ((req.queryGet "limit").bind fun text => RustText.parseUnsigned 64 text.toList).getD default

def apiReserve (id : String) : Except ApiError Effect := do
  let id ← require (.badRequest "reserve id must be 64 hex characters")
    (service.parseId id)
  let value ← service.read (.reserve id)
  let owner := (value.str "owner").getD ""
  let caller ← service.authenticate req false
  ensure (caller.isAdmin = true ∨ caller.did = some owner)
    (.unauthorized "this reserve belongs to another account")
  return .view (.engine (.reserve id))

def apiRegister : Except ApiError Effect := do
  let name ← accountName (req.json.str "name")
  return .createAccount name .customer

def proofDetail (id : String) : Except ApiError Proof :=
  require (.notFound "no such proof") (service.proofs.find? (·.id = id))

def apiMe (caller : Caller) : Except ApiError Effect := do
  let account ← require (.unauthorized "this endpoint needs an account token")
    caller.account?
  let _ ← service.read (.reserves account.did)
  let _ ← service.read (.coins account.did)
  let _ ← service.read (.merchant account.did)
  return .view (.me account.did)

def openReserve (did : String) : Except ApiError Effect := do
  let reserve ←
    match req.json.str "reserve_id" with
    | some text =>
      require (.badRequest "reserve_id must be 64 hex characters") (service.parseId text)
    | none => pure (service.defaultReserveId did)
  return .call (.openReserve did reserve)

def reserveAction (did id action : String) : Except ApiError Effect := do
  let id ← require (.badRequest "reserve id must be 64 hex characters")
    (service.parseId id)
  let amount ← req.amount
  if action = "peg-in" then return .call (.pegIn did id amount)
  else if action = "withdraw" then return .call (.withdraw did id amount)
  else throw (.notFound "unknown reserve action")

def seed (account : Account) : Except ApiError Bytes32 :=
  require (.internal "the sandbox wallet key is malformed") do
    let bytes ← service.digests.hexDecode account.secret
    if long : bytes.length = 32 then some ⟨bytes, long⟩ else none

/-- A certificate that a request names; `what` is what the request calls it. -/
def certificateId (what : String) (item : Json) : Except ApiError Bytes32 := do
  let text ← require (.badRequest (what ++ " ids are strings")) item.asStr
  require (.badRequest (what ++ " id must be 64 hex characters")) (service.parseId text)

theorem few_fit (values : List.Vector α number) (few : number ≤ 16) :
    values.toList.length < 2 ^ 63 := by
  rw [List.Vector.toList_length]
  omega

def apiDeposit (caller : Caller) : Except ApiError Effect := do
  let account ← require (.unauthorized "a customer token is required") caller.account?
  let merchant := trim ((req.json.str "merchant").getD "")
  ensure (isDid merchant = true) (.badRequest "merchant must be a did:unfer:<64 hex> DID")
  let ids ← require (.badRequest "coins must be an array of certificate ids")
    (req.json.member "coins").asArray
  if few : ids ≠ [] ∧ ids.length ≤ 16 then
    let coins ← readAll (service.certificateId "coin") ids
    let seed ← service.seed account
    return .call (.deposit account.did seed ⟨coins.toList, few_fit coins few.2⟩ merchant)
  else throw (.badRequest "deposit 1..=16 certificates at a time")

def output (item : Json) : Except ApiError (UInt64 × String) := do
  let amount ← require (.badRequest "output amount is required") (item.u64 "amount")
  let recipient := (item.str "to").getD ""
  ensure (isDid recipient = true) (.badRequest "output recipient must be a did:unfer: DID")
  return (amount, recipient)

def apiTransfer (caller : Caller) : Except ApiError Effect := do
  let account ← require (.unauthorized "an account token is required") caller.account?
  let inputs ← require (.badRequest "inputs must be an array of certificate ids")
    (req.json.member "inputs").asArray
  if fewInputs : inputs ≠ [] ∧ inputs.length ≤ 16 then
    let ids ← readAll (service.certificateId "input") inputs
    let outputs ← require (.badRequest "outputs must be an array of \x7bamount,to\x7d")
      (req.json.member "outputs").asArray
    if fewOutputs : outputs ≠ [] ∧ outputs.length ≤ 16 then
      let outs ← readAll output outputs
      let seed ← service.seed account
      return .call (.transfer account.did seed ⟨ids.toList, few_fit ids fewInputs.2⟩
        ⟨outs.toList, few_fit outs fewOutputs.2⟩)
    else throw (.badRequest "1..=16 outputs")
  else throw (.badRequest "transfer 1..=16 inputs at a time")

def bankChar (char : Char) : Bool := char.isAlphanum || char ∈ [' ', '-', '/', ':']

def apiPegOut (caller : Caller) (did : String) : Except ApiError Effect := do
  let amount ← req.amount
  let bank := trim ((req.json.str "bank_account").getD "")
  ensure (bank ≠ "" ∧ bank.utf8ByteSize ≤ 64 ∧ bank.toList.all bankChar)
    (.badRequest "bank_account must be 1..=64 letters, digits, spaces or -/ :")
  return .call (.pegOut did amount bank caller.isAdmin)

def pegOutAction (caller : Caller) (did wire action : String) : Except ApiError Effect :=
  if action = "confirm" then do
    ensure (caller.isAdmin = true) (.unauthorized "only an operator may confirm a wire")
    return .call (.confirmPegOut did wire true)
  else if action = "cancel" then return .call (.cancelPegOut did wire caller.isAdmin)
  else throw (.notFound "unknown peg-out action")

/-- Check a development before it is handed to the proof backend. -/
def publishProof (actor project title mm0 mm1 : String) : Except ApiError Effect := do
  let title := trim title
  let project := if trim project = "" then "refi" else trim project
  ensure (title ≠ "" ∧ title.utf8ByteSize ≤ 200) (.badRequest "title must be 1..=200 characters")
  ensure (project.utf8ByteSize ≤ 64) (.badRequest "project must be at most 64 characters")
  ensure (trim mm0 ≠ "") (.badRequest "mm0 spec is required")
  ensure (mm0.utf8ByteSize ≤ maxField ∧ mm1.utf8ByteSize ≤ maxField)
    ⟨413, "UK-1003", "PayloadTooLarge", "each of mm0 and mm1 must be at most 256 kB"⟩
  ensure (service.configured = true)
    (.unavailable "proof publishing is not configured; start the service with --mm0web <url>")
  return .publishProof actor project ⟨title, mm0, mm1⟩

/-- Mint a certificate whose source is the archive of a published proof. -/
def mintFromProof (actor id : String) (amount : UInt64) (owner : String) :
    Except ApiError Effect := do
  let proof ← service.proofDetail id
  ensure (proof.canMint = true)
    (.badRequest "only a published proof with a DOI can back a certificate")
  ensure (isDid owner = true) (.badRequest "owner must be a did:unfer:<64 hex> DID")
  ensure (amount ≠ 0) (.badRequest "amount must be positive")
  return .call (.mint actor amount owner (proof.doi.getD "") true)

def adminMint (caller : Caller) : Except ApiError Effect := do
  let amount ← require (.badRequest "amount is required") (req.json.u64 "amount")
  let owner := trim ((req.json.str "owner").getD "")
  let source := trim ((req.json.str "source").getD "")
  ensure (isDid owner = true) (.badRequest "owner must be a did:unfer:<64 hex> DID")
  ensure (source.utf8ByteSize ≤ 200 ∧
      ((stripPrefix "unfccc:vc:" source).isSome ∨ isDoi source = true))
    (.badRequest ("source must be a UNFCCC provenance reference (unfccc:vc:<order>, max 200 " ++
      "chars) or a DOI (10.<registrant>/<suffix>)"))
  return .call (.mint (caller.did.getD "admin") amount owner source true)

def routeAdminApi (caller : Caller) (endpoint : AdminEndpoint) : Except ApiError Effect := do
  ensure (caller.isAdmin = true) (.unauthorized "admin token required")
  match endpoint with
  | .listAccounts => return .view .accounts
  | .createAccount => do
    let name ← accountName (req.json.str "name")
    let role ← require (.badRequest "role must be customer, merchant or admin")
      (Role.parse ((req.json.str "role").getD "customer"))
    return .createAccount name role
  | .publishProof =>
    service.publishProof (caller.did.getD "bootstrap-admin")
      ((req.json.str "project").getD "refi") ((req.json.str "title").getD "")
      ((req.json.str "mm0").getD "") ((req.json.str "mm1").getD "")
  | .issueDenom => do
    let value ← require (.badRequest "value is required") (req.json.u64 "value")
    return .call (.issueDenom (caller.did.getD "admin") value (req.json.u64 "expires_seq") true)
  | .mint => adminMint req caller
  | .unknown => throw (.notFound "unknown admin endpoint")

/-- The endpoints that need a token.  The admin token acts as a fixed operator. -/
def routeAccountApi (caller : Caller) (endpoint : ApiEndpoint) : Except ApiError Effect :=
  let did := caller.did.getD "did:unfer:bootstrap-admin"
  match endpoint with
  | .mintFromProof id => do
    ensure (caller.isAdmin = true) (.unauthorized "admin token required")
    service.mintFromProof (caller.did.getD "bootstrap-admin") id ((req.json.u64 "amount").getD 0)
      ((req.json.str "owner").getD "")
  | .admin endpoint => service.routeAdminApi req caller endpoint
  | .audit => do
    ensure (caller.isAdmin = true) (.unauthorized "admin token required")
    service.shown .audit
  | .me => service.apiMe caller
  | .openReserve => service.openReserve req did
  | .reserveAction id action => service.reserveAction req did id action
  | .deposit => service.apiDeposit req caller
  | .transfer => service.apiTransfer req caller
  | .pegOut => apiPegOut req caller did
  | .pegOutAction wire action => pegOutAction caller did wire action
  | _ => throw (.notFound "unknown API endpoint")

def routeApi (endpoint : ApiEndpoint) : Except ApiError Effect :=
  match endpoint with
  | .status => service.shown .status
  | .registry => service.shown (.registry (queryLimit req 200) (req.queryGet "kind"))
  | .denominations => service.shown .denominations
  | .ops => service.shown (.ops (queryLimit req 50))
  | .reserve id => service.apiReserve req id
  | .merchant did => service.shown (.merchant did)
  | .register => apiRegister req
  | .proofs => return .view .proofs
  | .proof id => do
    let _ ← service.proofDetail id
    return .view .proofs
  | endpoint => do
    let caller ← service.authenticate req false
    service.routeAccountApi req caller endpoint

/-- The token that a form of the console carries. -/
def requireForm : Except ApiError Caller :=
  service.requireAdmin req (some ((req.formGet "token").getD ""))

/-- A page of the console, or the sign-in page instead. -/
def consolePage (page : Except ApiError Effect) : Except ApiError Effect :=
  match service.authenticate req true with
  | .error _ => .ok (.view .signIn)
  | .ok caller => if caller.isAdmin then page else .ok (.view .signIn)

def adminLogin : Except ApiError Effect :=
  let token := (req.formGet "token").getD ""
  if service.tokenIsAdmin token then .ok (.signIn token) else .ok (.view .signIn)

def adminEditor (slug : String) : Except ApiError Effect := do
  let _ ← service.requireAdmin req none
  ensure (slug = "new" ∨ ∃ page ∈ service.pages, page.slug = slug) (.notFound "no such page")
  return .view .console

def adminSavePage : Except ApiError Effect := do
  let caller ← service.requireForm req
  let title := trim ((req.formGet "title").getD "")
  ensure (title ≠ "" ∧ title.utf8ByteSize ≤ 160) (.badRequest "title must be 1..=160 characters")
  let body := (req.formGet "body").getD ""
  ensure (body.utf8ByteSize ≤ 100000) (.badRequest "page body is limited to 100 kB")
  let slug := trim ((req.formGet "slug").getD "")
  return .savePage (if slug = "" then none else some slug) title body
    (req.formGet "published").isSome (caller.did.getD "admin")

def adminPageAction (slug action : String) : Except ApiError Effect := do
  let _ ← service.requireForm req
  if action = "publish" then do
    ensure (∃ page ∈ service.pages, page.slug = slug) (.notFound "no such page")
    return .togglePage slug
  else if action = "delete" then do
    ensure (∃ page ∈ service.pages, page.slug = slug) (.notFound "no such page")
    return .deletePage slug
  else throw (.notFound "unknown page action")

def adminCreateAccountForm : Except ApiError Effect := do
  let _ ← service.requireForm req
  let name ← accountName (req.formGet "name")
  let role ← require (.badRequest "unknown role")
    (Role.parse ((req.formGet "role").getD "customer"))
  return .createAccount name role

def formU64 (key : String) : Option UInt64 :=
  (req.formGet key).bind fun text => (RustText.parseUnsigned 64 text.toList).map UInt64.ofNat

def adminIssueDenomForm : Except ApiError Effect := do
  let _ ← service.requireForm req
  let value ← require (.badRequest "value must be a positive integer")
    ((formU64 req "value").filter (0 < ·))
  return .call (.issueDenom "admin" value (formU64 req "expires_seq") true)

def adminPublishProof : Except ApiError Effect := do
  let _ ← service.requireForm req
  service.publishProof "bootstrap-admin" ((req.formGet "project").getD "refi")
    ((req.formGet "title").getD "") ((req.formGet "mm0").getD "") ((req.formGet "mm1").getD "")

def adminMintFromProof (id : String) : Except ApiError Effect := do
  let _ ← service.requireForm req
  service.mintFromProof "bootstrap-admin" id ((formU64 req "amount").getD 0)
    ((req.formGet "owner").getD "")

/-- The handler of an endpoint, behind the limits. -/
def handle : Endpoint → Except ApiError Effect
  | .operational | .site | .sitePage _ | .siteProof _ | .notFound => return .view .site
  | .adminHome | .adminProofs => service.consolePage req (return .view .console)
  | .adminLoginPage => return .view .signIn
  | .adminLogin => service.adminLogin req
  | .adminLogout => return .signOut
  | .adminEditor slug => service.adminEditor req slug
  | .adminSavePage => service.adminSavePage req
  | .adminPageAction slug action => service.adminPageAction req slug action
  | .adminCreateAccount => service.adminCreateAccountForm req
  | .adminPublishProof => service.adminPublishProof req
  | .adminProofDetail id =>
    service.consolePage req do
      let _ ← service.proofDetail id
      return .view .console
  | .adminMintFromProof id => service.adminMintFromProof req id
  | .adminIssueDenom => service.adminIssueDenomForm req
  | .api endpoint => service.routeApi req endpoint

end Service

/-! ## Limits -/

/-- What the service counts by client and minute. -/
inductive Limit
  | request
  | login
  | registration
  deriving DecidableEq, Repr

namespace Limit

def perMinute : Limit → Nat
  | request => 240
  | login | registration => 10

def key (peer : String) : Limit → String
  | request => peer
  | login => "login:" ++ peer
  | registration => "register:" ++ peer

def message : Limit → String
  | request => "too many requests from this client; slow down"
  | login => "too many sign-in attempts"
  | registration => "too many account registrations from this client"

end Limit

/-- The counters, and the limits that the current request has passed. -/
structure Throttle where
  counters : WindowCounters String
  admitted : List Limit

abbrev Handler := Stoppable Throttle ApiError

/-- The client of a request; without a peer it is a local test. -/
def HttpRequest.client (req : HttpRequest) : String := if req.peer = "" then "local" else req.peer

def allowOrStop (minute : Nat) (peer : String) (limit : Limit) : Handler Unit := fun throttle =>
  match throttle.counters.allow (limit.key peer) limit.perMinute minute with
  | (true, counters) => (.ok (), ⟨counters, limit :: throttle.admitted⟩)
  | (false, counters) => (.error (.limit limit.message), ⟨counters, throttle.admitted⟩)

namespace Service

variable (service : Service) (minute : Limit → Nat) (req : HttpRequest)

def dispatch : Endpoint → Handler Effect
  | .adminLogin => do
    allowOrStop (minute .login) req.client .login
    Stoppable.ofExcept (service.adminLogin req)
  | .api .register =>
    if service.config.openRegistration then do
      allowOrStop (minute .registration) req.client .registration
      Stoppable.ofExcept (apiRegister req)
    else
      Stoppable.stop ⟨403, "UK-4001", "RegistrationClosed",
        "self-registration is disabled; ask an operator for an account"⟩
  | endpoint => Stoppable.ofExcept (service.handle req endpoint)

/-- Answer a request.  Each limit reads the clock for itself. -/
def route : Handler Effect :=
  match endpointOf req with
  | .operational => Stoppable.ofExcept (service.handle req .operational)
  | endpoint => do
    allowOrStop (minute .request) req.client .request
    service.dispatch minute req endpoint

end Service

end AustralVM.Refi
