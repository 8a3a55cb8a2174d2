import AustralVM.RefiRoutes

/-!
# Every effect is mediated

An effect that is not open to everyone happens only for a caller whom the request has
authenticated and who may cause it.  A command acts for the account of the token, or
for an operator if the token is the admin token.
-/

namespace AustralVM.Refi

open Except (Yields yields_pure yields_throw yields_step yields_ite)

/-! ## Permissions -/

/-- The commands that only an administrator may give. -/
def Cmd.IsReserved : Cmd → Prop
  | .confirmPegOut .. | .issueDenom .. | .mint .. => True
  | cmd => cmd.isAdmin = true

def operatorIdentities : List String := ["did:unfer:bootstrap-admin", "bootstrap-admin", "admin"]

/-- The identity of a token: the account it belongs to, or an operator. -/
def Caller.ActsAs (actor : String) : Caller → Prop
  | .account holder => actor = holder.did
  | .admin => actor ∈ operatorIdentities

def Effect.IsOpen (config : Config) : Effect → Prop
  | .view .site | .view .signIn | .view .proofs | .signOut => True
  | .view (.engine .audit) | .view (.engine (.reserve _)) => False
  | .view (.engine _) => True
  | .createAccount _ role => role = .customer ∧ config.openRegistration = true
  | _ => False

namespace Service

variable (service : Service) (req : HttpRequest)

def Permits (caller : Caller) : Effect → Prop
  | .call cmd => (cmd.IsReserved → caller.isAdmin = true) ∧ caller.ActsAs cmd.actor
  | .view (.me did) => caller.did = some did
  | .view (.engine (.reserve id)) =>
    caller.isAdmin = true ∨
      ∃ value, service.read (.reserve id) = .ok value ∧
        caller.did = some ((value.str "owner").getD "")
  | _ => caller.isAdmin = true

/-- The request presents a token of the caller: as a bearer token, as the cookie of the
console, or as the field of a form, which only the admin token may fill. -/
def Authenticated (caller : Caller) : Prop :=
  (∃ allowCookie, service.authenticate req allowCookie = .ok caller) ∨
    service.tokenIsAdmin ((req.formGet "token").getD "") = true ∧ caller = .admin

/-- An effect is open to everyone, or its caller is known and may cause it. -/
def Mediated (effect : Effect) : Prop :=
  effect.IsOpen service.config ∨
    ∃ caller, service.Authenticated req caller ∧ service.Permits caller effect

variable {service req}

theorem yields_authenticate :
    Yields (service.Authenticated req) (service.authenticate req allowCookie) :=
  fun _ known => Or.inl ⟨allowCookie, known⟩

theorem yields_ensure {condition : Prop} [Decidable condition] {error : ApiError} :
    Yields (fun _ => condition) (ensure condition error) := by
  rw [ensure]
  by_cases given : condition
  · exact fun _ _ => given
  · rw [if_neg given]
    rintro _ ⟨⟩

theorem yields_require :
    Yields (fun value => value? = some value) (ApiError.require error value?) := by
  cases value? with
  | none => exact nofun
  | some =>
    rintro _ ⟨⟩
    rfl

theorem yields_requireForm :
    Yields (fun caller => service.Authenticated req caller ∧ caller = .admin)
      (service.requireForm req) := by
  rw [requireForm, requireAdmin]
  apply yields_ite
  · rintro isAdmin _ ⟨⟩
    exact ⟨.inr ⟨isAdmin, rfl⟩, rfl⟩
  · intro _
    exact nofun

theorem Authenticated.mediated {caller : Caller} {handler : Except ApiError Effect}
    (known : service.Authenticated req caller) (permitted : Yields (service.Permits caller) handler) :
    Yields (service.Mediated req) handler :=
  fun effect given => .inr ⟨caller, known, permitted effect given⟩

theorem actsAs_did (caller : Caller) (isOperator : operator ∈ operatorIdentities) :
    caller.ActsAs (caller.did.getD operator) := by
  cases caller with
  | admin => exact isOperator
  | account => exact rfl

theorem actsAs_account {caller : Caller} (held : caller.account? = some account) :
    caller.ActsAs account.did := by
  cases caller with
  | admin => cases held
  | account =>
    cases held
    exact rfl

/-! ## Handlers -/

section Handlers

variable {caller : Caller}

theorem yields_shown (isOpen : (Effect.view (.engine what)).IsOpen service.config) :
    Yields (service.Mediated req) (service.shown what) :=
  yields_step fun _ => yields_pure (.inl isOpen)

theorem yields_apiReserve (id : String) :
    Yields (service.Mediated req) (service.apiReserve req id) := by
  apply yields_step
  intro _ _ ran
  obtain ⟨value, isValue, ran⟩ := Comp.bind_eq_ok.mp ran
  obtain ⟨caller, known, ran⟩ := Comp.bind_eq_ok.mp ran
  obtain ⟨allowed, ran⟩ := Comp.ensure_bind_eq_ok.mp ran
  cases ran
  refine .inr ⟨caller, yields_authenticate caller known, ?_⟩
  exact allowed.imp_right fun owns => ⟨value, isValue, owns⟩

theorem yields_apiMe : Yields (service.Permits caller) (service.apiMe caller) := by
  refine yields_require.bind fun account held => ?_
  refine yields_step fun _ => yields_step fun _ => yields_step fun _ => yields_pure ?_
  change Option.map Account.did caller.account? = some account.did
  rw [held]
  rfl

theorem yields_openReserve (acts : caller.ActsAs did) :
    Yields (service.Permits caller) (service.openReserve req did) := by
  have opens (reserve : Bytes32) : service.Permits caller (.call (.openReserve did reserve)) :=
    ⟨nofun, acts⟩
  rw [openReserve]
  split
  · exact yields_step fun _ => yields_pure (opens _)
  · exact yields_pure (opens _)

theorem yields_reserveAction (acts : caller.ActsAs did) (id action : String) :
    Yields (service.Permits caller) (service.reserveAction req did id action) := by
  refine yields_step fun _ => yields_step fun _ => ?_
  apply yields_ite
  · exact fun _ => yields_pure ⟨nofun, acts⟩
  · intro _
    apply yields_ite
    · exact fun _ => yields_pure ⟨nofun, acts⟩
    · exact fun _ => yields_throw

theorem yields_apiDeposit : Yields (service.Permits caller) (service.apiDeposit req caller) := by
  refine yields_require.bind fun account held => ?_
  refine yields_step fun _ => yields_step fun ids => ?_
  split
  · refine yields_step fun _ => yields_step fun _ => yields_pure ?_
    exact ⟨nofun, actsAs_account held⟩
  · exact yields_throw

theorem yields_apiTransfer : Yields (service.Permits caller) (service.apiTransfer req caller) := by
  refine yields_require.bind fun account held => ?_
  refine yields_step fun inputs => ?_
  split
  · refine yields_step fun _ => yields_step fun outputs => ?_
    split
    · refine yields_step fun _ => yields_step fun _ => yields_pure ?_
      exact ⟨nofun, actsAs_account held⟩
    · exact yields_throw
  · exact yields_throw

theorem yields_apiPegOut (acts : caller.ActsAs did) :
    Yields (service.Permits caller) (apiPegOut req caller did) :=
  yields_step fun _ => yields_step fun _ => yields_pure ⟨id, acts⟩

theorem yields_pegOutAction (acts : caller.ActsAs did) (wire action : String) :
    Yields (service.Permits caller) (pegOutAction caller did wire action) := by
  apply yields_ite
  · intro _
    exact yields_ensure.bind fun _ isAdmin => yields_pure ⟨fun _ => isAdmin, acts⟩
  · intro _
    apply yields_ite
    · exact fun _ => yields_pure ⟨id, acts⟩
    · exact fun _ => yields_throw

theorem yields_publishProof (isAdmin : caller.isAdmin = true)
    (actor project title mm0 mm1 : String) :
    Yields (service.Permits caller) (service.publishProof actor project title mm0 mm1) := by
  refine yields_step fun _ => yields_step fun _ => yields_step fun _ => ?_
  exact yields_step fun _ => yields_step fun _ => yields_pure isAdmin

theorem yields_mintFromProof (isAdmin : caller.isAdmin = true) (acts : caller.ActsAs actor)
    (id : String) (amount : UInt64) (owner : String) :
    Yields (service.Permits caller) (service.mintFromProof actor id amount owner) := by
  refine yields_step fun _ => yields_step fun _ => yields_step fun _ => yields_step fun _ => ?_
  exact yields_pure ⟨fun _ => isAdmin, acts⟩

theorem yields_adminMint (isAdmin : caller.isAdmin = true) :
    Yields (service.Permits caller) (adminMint req caller) := by
  refine yields_step fun _ => yields_step fun _ => yields_step fun _ => ?_
  exact yields_pure ⟨fun _ => isAdmin, actsAs_did caller (by decide)⟩

theorem yields_routeAdminApi (endpoint : AdminEndpoint) :
    Yields (service.Permits caller) (service.routeAdminApi req caller endpoint) := by
  refine yields_ensure.bind fun _ isAdmin => ?_
  cases endpoint with
  | listAccounts => exact yields_pure isAdmin
  | createAccount => exact yields_step fun _ => yields_step fun _ => yields_pure isAdmin
  | publishProof => exact yields_publishProof isAdmin _ _ _ _ _
  | issueDenom =>
    refine yields_step fun _ => yields_pure ?_
    exact ⟨fun _ => isAdmin, actsAs_did caller (by decide)⟩
  | mint => exact yields_adminMint isAdmin
  | unknown => exact yields_throw

theorem yields_routeAccountApi (endpoint : ApiEndpoint) :
    Yields (service.Permits caller) (service.routeAccountApi req caller endpoint) := by
  have acts : caller.ActsAs (caller.did.getD "did:unfer:bootstrap-admin") :=
    actsAs_did caller (by decide)
  cases endpoint with
  | mintFromProof =>
    refine yields_ensure.bind fun _ isAdmin => ?_
    have acts : caller.ActsAs (caller.did.getD "bootstrap-admin") := actsAs_did caller (by decide)
    exact yields_mintFromProof isAdmin acts _ _ _
  | admin endpoint => exact yields_routeAdminApi endpoint
  | audit => exact yields_ensure.bind fun _ isAdmin => yields_step fun _ => yields_pure isAdmin
  | me => exact yields_apiMe
  | openReserve => exact yields_openReserve acts
  | reserveAction id action => exact yields_reserveAction acts id action
  | deposit => exact yields_apiDeposit
  | transfer => exact yields_apiTransfer
  | pegOut => exact yields_apiPegOut acts
  | pegOutAction wire action => exact yields_pegOutAction acts wire action
  | _ => exact yields_throw

theorem yields_apiRegister (isOpen : service.config.openRegistration = true) :
    Yields (service.Mediated req) (apiRegister req) :=
  yields_step fun _ => yields_pure (.inl ⟨rfl, isOpen⟩)

theorem yields_routeApi (endpoint : ApiEndpoint)
    (isOpen : endpoint = .register → service.config.openRegistration = true) :
    Yields (service.Mediated req) (service.routeApi req endpoint) := by
  have withToken (endpoint : ApiEndpoint) :
      Yields (service.Mediated req) (do
        let caller ← service.authenticate req false
        service.routeAccountApi req caller endpoint) :=
    yields_authenticate.bind fun caller known => known.mediated (yields_routeAccountApi endpoint)
  cases endpoint with
  | status => exact yields_shown trivial
  | registry => exact yields_shown trivial
  | denominations => exact yields_shown trivial
  | ops => exact yields_shown trivial
  | reserve id => exact yields_apiReserve id
  | merchant => exact yields_shown trivial
  | register => exact yields_apiRegister (isOpen rfl)
  | proofs => exact yields_pure (.inl trivial)
  | proof => exact yields_step fun _ => yields_pure (.inl trivial)
  | _ => exact withToken _

theorem yields_consolePage (isPage : Yields (fun effect => effect = .view .console) page) :
    Yields (service.Mediated req) (service.consolePage req page) := by
  rw [consolePage]
  cases auth : service.authenticate req true with
  | error => exact yields_pure (.inl trivial)
  | ok caller =>
    apply yields_ite
    · intro isAdmin effect given
      rw [isPage effect given]
      exact .inr ⟨caller, yields_authenticate caller auth, isAdmin⟩
    · exact fun _ => yields_pure (.inl trivial)

theorem yields_adminLogin : Yields (service.Mediated req) (service.adminLogin req) := by
  apply yields_ite
  · intro isAdmin
    exact yields_pure (.inr ⟨.admin, .inr ⟨isAdmin, rfl⟩, rfl⟩)
  · exact fun _ => yields_pure (.inl trivial)

theorem yields_adminEditor (slug : String) :
    Yields (service.Mediated req) (service.adminEditor req slug) := by
  intro _ ran
  obtain ⟨_, admitted, ran⟩ := Comp.bind_eq_ok.mp ran
  obtain ⟨caller, known, admitted⟩ := Comp.bind_eq_ok.mp admitted
  obtain ⟨isAdmin, -⟩ := Comp.ensure_bind_eq_ok.mp admitted
  obtain ⟨-, ran⟩ := Comp.ensure_bind_eq_ok.mp ran
  cases ran
  exact .inr ⟨caller, yields_authenticate caller known, isAdmin⟩

theorem yields_form (permitted : Yields (service.Permits .admin) (next .admin)) :
    Yields (service.Mediated req) (service.requireForm req >>= next) := by
  refine yields_requireForm.bind fun caller given => ?_
  obtain ⟨known, rfl⟩ := given
  exact known.mediated permitted

theorem yields_adminSavePage : Yields (service.Mediated req) (service.adminSavePage req) :=
  yields_form (yields_step fun _ => yields_step fun _ => yields_pure rfl)

theorem yields_adminPageAction (slug action : String) :
    Yields (service.Mediated req) (service.adminPageAction req slug action) := by
  apply yields_form
  apply yields_ite
  · exact fun _ => yields_step fun _ => yields_pure rfl
  · intro _
    apply yields_ite
    · exact fun _ => yields_step fun _ => yields_pure rfl
    · exact fun _ => yields_throw

theorem yields_adminCreateAccountForm :
    Yields (service.Mediated req) (service.adminCreateAccountForm req) :=
  yields_form (yields_step fun _ => yields_step fun _ => yields_pure rfl)

theorem yields_adminIssueDenomForm :
    Yields (service.Mediated req) (service.adminIssueDenomForm req) := by
  refine yields_form (yields_step fun _ => yields_pure ⟨fun _ => rfl, ?_⟩)
  exact (by decide : "admin" ∈ operatorIdentities)

theorem yields_adminPublishProof : Yields (service.Mediated req) (service.adminPublishProof req) :=
  yields_form (yields_publishProof rfl _ _ _ _ _)

theorem yields_adminMintFromProof (id : String) :
    Yields (service.Mediated req) (service.adminMintFromProof req id) := by
  have acts : Caller.admin.ActsAs "bootstrap-admin" :=
    (by decide : "bootstrap-admin" ∈ operatorIdentities)
  exact yields_form (yields_mintFromProof rfl acts _ _ _)

theorem yields_handle (endpoint : Endpoint)
    (isOpen : endpoint = .api .register → service.config.openRegistration = true) :
    Yields (service.Mediated req) (service.handle req endpoint) := by
  cases endpoint with
  | adminHome => exact yields_consolePage (yields_pure rfl)
  | adminProofs => exact yields_consolePage (yields_pure rfl)
  | adminLogin => exact yields_adminLogin
  | adminEditor slug => exact yields_adminEditor slug
  | adminSavePage => exact yields_adminSavePage
  | adminPageAction slug action => exact yields_adminPageAction slug action
  | adminCreateAccount => exact yields_adminCreateAccountForm
  | adminPublishProof => exact yields_adminPublishProof
  | adminProofDetail => exact yields_consolePage (yields_step fun _ => yields_pure rfl)
  | adminMintFromProof id => exact yields_adminMintFromProof id
  | adminIssueDenom => exact yields_adminIssueDenomForm
  | api =>
    apply yields_routeApi
    rintro rfl
    exact isOpen rfl
  | _ => exact yields_pure (.inl trivial)

end Handlers

/-! ## Requests -/

section Requests

open Stoppable (Keeps keeps_ofExcept keeps_stop)

variable (service req)

theorem keeps_allowOrStop : Keeps (fun _ => True) (fun _ => True) (allowOrStop minute peer limit) :=
  fun _ _ => ⟨trivial, fun _ _ => trivial⟩

theorem keeps_dispatch (minute : Limit → Nat) (endpoint : Endpoint) :
    Keeps (fun _ => True) (service.Mediated req) (service.dispatch minute req endpoint) := by
  rw [dispatch.eq_def]
  split
  · exact keeps_allowOrStop.bind fun _ _ => keeps_ofExcept yields_adminLogin
  · split
    · rename_i isOpen
      exact keeps_allowOrStop.bind fun _ _ => keeps_ofExcept (yields_apiRegister isOpen)
    · exact keeps_stop
  · rename_i notRegister
    exact keeps_ofExcept (yields_handle _ fun same => (notRegister same).elim)

/-- Every request: what happens is open to everyone, or the request presents the token of
a caller who may cause it, and a command acts for that caller. -/
theorem mediated_of_route (minute : Limit → Nat) (throttle : Throttle) (effect : Effect)
    (happens : (service.route minute req throttle).1 = .ok effect) :
    service.Mediated req effect := by
  have keeps : Keeps (fun _ => True) (service.Mediated req) (service.route minute req) := by
    rw [route]
    split
    · exact keeps_ofExcept (yields_handle _ nofun)
    · exact keeps_allowOrStop.bind fun _ _ => keeps_dispatch service req minute _
  exact (keeps throttle trivial).2 effect happens

end Requests

end Service

/-- A service with one customer, whose tokens are their own digests. -/
def corner : Service where
  digests := ⟨id, fun _ => .replicate 32 0, fun _ => none⟩
  config := ⟨false⟩
  accounts := [⟨"did:unfer:alice", "alice", .customer, "", "refi_alice", 0⟩]
  adminHash := "root"
  pages := []
  proofs := []
  configured := false
  read := fun _ => .ok .null

/-- A customer asks for a reserve, and names somebody else in the body. -/
def aliceOpens : HttpRequest where
  method := "POST"
  path := "/api/v1/reserves/"
  query := []
  headers := [("Authorization", "Bearer refi_alice")]
  json := .object [("actor", .string "did:unfer:bob")]
  form := []
  peer := "10.0.0.1:4000"

theorem mediated_of_aliceOpens : (corner.route (fun _ => 0) aliceOpens ⟨fun _ => none, []⟩).1 =
        .ok (.call (.openReserve "did:unfer:alice" (.replicate 32 0))) ∧ corner.Mediated aliceOpens
        (.call (.openReserve "did:unfer:alice" (.replicate 32 0))) := by
  have happens : (corner.route (fun _ => 0) aliceOpens ⟨fun _ => none, []⟩).1 =
      .ok (.call (.openReserve "did:unfer:alice" (.replicate 32 0))) := by
    decide +kernel
  exact ⟨happens, corner.mediated_of_route aliceOpens _ _ _ happens⟩

end AustralVM.Refi
