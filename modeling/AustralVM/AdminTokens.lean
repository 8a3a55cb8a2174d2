import AustralVM.RefiMediation
import Mathlib.Data.List.Nodup
import Mathlib.Data.Set.Function

/-!
# Who is an administrator after a restart

The admin token is configured anew at every start, and the accounts are kept in a
file.  A start that finds no administrator in the file adds one with the token of that
start.  The account keeps that token's digest, whatever tokens later starts are
configured with.
-/

namespace AustralVM.Refi

open List

/-! ## Starts -/

def bootstrapDid : String := "did:unfer:bootstrap-admin"

/-- The account that stands for the configured token. -/
def bootstrapAccount (digests : Digests) (adminToken : String) (now : Nat) : Account :=
  ⟨bootstrapDid, "bootstrap", .admin, "", digests.sha256Hex adminToken, now⟩

/-- The keys that a new account gets: its name in the ledger and its signing seed. -/
structure Keypair where
  did : String
  secret : String
  deriving DecidableEq, Repr

/-- `AccountStore::create`. -/
def newAccount (digests : Digests) (name : String) (role : Role) (keys : Keypair) (token : String)
    (now : Nat) : Account :=
  ⟨keys.did, name, role, keys.secret, digests.sha256Hex token, now⟩

/-- A data directory over time: the accounts file, the service that runs on it with the
token it was started with, and every account that was made with its token. -/
structure Deployment where
  file : List Account
  service : Option Service
  adminToken : String
  made : List (Account × String)

namespace Deployment

def empty : Deployment := ⟨[], none, "", []⟩

/-- `Service::new`: the file gets an administrator if it has none.  Without the file the
service does not start. -/
def start (digests : Digests) (deployment : Deployment) (other : Service) (token : String)
    (now : Nat) (saved : Bool) : Deployment :=
  let running (accounts : List Account) : Option Service :=
    some { other with
      digests := digests
      accounts := accounts
      adminHash := digests.sha256Hex token }
  if deployment.file.any Account.isAdmin then
    { deployment with service := running deployment.file, adminToken := token }
  else if saved then
    let accounts := deployment.file ++ [bootstrapAccount digests token now]
    { deployment with file := accounts, service := running accounts, adminToken := token }
  else { deployment with service := none, adminToken := token }

/-- An account is made: it is known from now on, and after a restart if it was saved. -/
def create (digests : Digests) (deployment : Deployment) (name : String) (role : Role)
    (keys : Keypair) (token : String) (now : Nat) (saved : Bool) : Deployment :=
  match deployment.service with
  | none => deployment
  | some service =>
    let account := newAccount digests name role keys token now
    let accounts := service.accounts ++ [account]
    { deployment with
      file := if saved then accounts else deployment.file
      service := some { service with accounts := accounts }
      made := (account, token) :: deployment.made }

end Deployment

inductive DeploymentEvent
  /-- A start with a token; the rest of the service is as given. -/
  | start (other : Service) (token : String) (now : Nat) (saved : Bool)
  | create (name : String) (role : Role) (keys : Keypair) (token : String) (now : Nat)
      (saved : Bool)

namespace DeploymentEvent

def token : DeploymentEvent → String
  | start _ token .. => token
  | create _ _ _ token .. => token

def drawn : DeploymentEvent → Option String
  | start .. => none
  | create _ _ _ token .. => some token

end DeploymentEvent

namespace Deployment

variable (digests : Digests)

def step (deployment : Deployment) : DeploymentEvent → Deployment
  | .start other token now saved => deployment.start digests other token now saved
  | .create name role keys token now saved =>
    deployment.create digests name role keys token now saved

def run (deployment : Deployment) (events : List DeploymentEvent) : Deployment :=
  events.foldl (step digests) deployment

end Deployment

/-! ## Administrators -/

def HttpRequest.presented (req : HttpRequest) (allowCookie : Bool) : Option String :=
  req.bearer <|> if allowCookie then req.cookie "refi_admin" else none

/-- The request is taken for one of an administrator. -/
def Service.TakesForAdmin (service : Service) (req : HttpRequest) (allowCookie : Bool) : Prop :=
  ∃ caller, service.authenticate req allowCookie = .ok caller ∧ caller.isAdmin = true

namespace Deployment

variable (deployment : Deployment)

/-- The tokens that administrators should have: the configured one, and those of the
accounts that were made administrators. -/
def IsAdminToken (accounts : List Account) (token : String) : Prop :=
  token = deployment.adminToken ∨
    ∃ account ∈ accounts, account.isAdmin = true ∧ (account, token) ∈ deployment.made

/-- Exactly the requests with the right tokens are taken for those of administrators,
and a form of the console is accepted with the configured token only.  The texts are
those among which the digest has no collisions. -/
def AdminsKnown (texts : Set String) : Prop :=
  ∀ service, deployment.service = some service → ∀ req : HttpRequest,
    (∀ allowCookie, (∀ token, req.presented allowCookie = some token → token ∈ texts) →
      (service.TakesForAdmin req allowCookie ↔
        ∃ token, req.presented allowCookie = some token ∧
          deployment.IsAdminToken service.accounts token)) ∧
    ((req.formGet "token").getD "" ∈ texts →
      ((∃ caller, service.requireForm req = .ok caller) ↔
        (req.formGet "token").getD "" = deployment.adminToken))

end Deployment

variable {service : Service}

/-- A token stands for an administrator if it is the configured one or the first account
with its digest is an administrator's. -/
theorem Service.callerOf_isAdmin_iff :
    (∃ caller, service.callerOf token = .ok caller ∧ caller.isAdmin = true) ↔
      service.digests.sha256Hex token = service.adminHash ∨
        ∃ account, service.byToken token = some account ∧ account.isAdmin = true := by
  rw [callerOf]
  by_cases isConfigured : service.tokenIsAdmin token = true
  · rw [if_pos isConfigured]
    constructor
    · intro _
      exact .inl (service.tokenIsAdmin_iff.mp isConfigured)
    · intro _
      exact ⟨.admin, rfl, rfl⟩
  · rw [if_neg isConfigured]
    have differs := mt service.tokenIsAdmin_iff.mpr isConfigured
    cases found : service.byToken token with
    | none =>
      constructor
      · rintro ⟨_, ⟨⟩, _⟩
      · rintro (same | ⟨_, ⟨⟩, _⟩)
        exact absurd same differs
    | some account =>
      constructor
      · rintro ⟨_, ⟨⟩, isAdmin⟩
        exact .inr ⟨account, rfl, isAdmin⟩
      · rintro (same | ⟨_, ⟨⟩, isAdmin⟩)
        · exact absurd same differs
        · exact ⟨.account account, rfl, isAdmin⟩

theorem Service.takesForAdmin_iff : service.TakesForAdmin req allowCookie ↔
      ∃ token, req.presented allowCookie = some token ∧
        ∃ caller, service.callerOf token = .ok caller ∧ caller.isAdmin = true := by
  have reads : service.authenticate req allowCookie =
      (ApiError.require (.unauthorized "missing bearer token") (req.presented allowCookie) >>=
        service.callerOf) := rfl
  rw [TakesForAdmin, reads]
  cases req.presented allowCookie with
  | none =>
    constructor
    · rintro ⟨_, ⟨⟩, _⟩
    · rintro ⟨_, ⟨⟩, _⟩
  | some token =>
    constructor
    · intro isAdmin
      exact ⟨token, rfl, isAdmin⟩
    · rintro ⟨_, ⟨⟩, isAdmin⟩
      exact isAdmin

theorem Service.requireForm_isOk_iff : (∃ caller, service.requireForm req = .ok caller) ↔
      service.digests.sha256Hex ((req.formGet "token").getD "") = service.adminHash := by
  rw [requireForm, requireAdmin, ← service.tokenIsAdmin_iff]
  split
  · rename_i isAdmin
    exact ⟨fun _ => isAdmin, fun _ => ⟨.admin, rfl⟩⟩
  · rename_i notAdmin
    constructor
    · rintro ⟨_, ⟨⟩⟩
    · intro isAdmin
      exact absurd isAdmin notAdmin

/-! ## Runs -/

namespace Deployment

variable (digests : Digests) (texts : Set String) (made : List (Account × String))
  (adminToken : String) (deployment : Deployment)

def IsHeld (account : Account) : Prop :=
  account.did = bootstrapDid ∨ ∃ token, (account, token) ∈ made

/-- The bootstrap account of the file carries the digest of a token. -/
def Carries (token : String) : Prop :=
  ∀ account ∈ deployment.file, account.did = bootstrapDid →
    account.tokenSha256 = digests.sha256Hex token

/-- The invariant of a running service: it is configured with the token it was started
with, and so is its bootstrap account. -/
structure Configured (service : Service) : Prop where
  digests_eq : service.digests = digests
  hash_eq : service.adminHash = digests.sha256Hex adminToken
  token_mem : adminToken ∈ texts
  held : ∀ account ∈ service.accounts,
    account.did = bootstrapDid ∧ account.tokenSha256 = digests.sha256Hex adminToken ∨
      ∃ token, (account, token) ∈ made

structure Sound : Prop where
  configured : ∀ service, deployment.service = some service →
    Configured digests texts deployment.made deployment.adminToken service
  held : ∀ account ∈ deployment.file, IsHeld deployment.made account
  made : ∀ pair ∈ deployment.made,
    pair.1.tokenSha256 = digests.sha256Hex pair.2 ∧ pair.2 ∈ texts

variable {digests texts made adminToken deployment}

variable {service : Service} {token : String}

section

variable (noCollision : Set.InjOn digests.sha256Hex texts) (sound : deployment.Sound digests texts)
  (distinct : (deployment.made.map Prod.snd).Nodup)
include noCollision sound distinct

theorem Configured.isAdminToken_iff
    (configured : Configured digests texts deployment.made deployment.adminToken service)
    (mem : token ∈ texts) :
    (∃ caller, service.callerOf token = .ok caller ∧ caller.isAdmin = true) ↔
      deployment.IsAdminToken service.accounts token := by
  have same (other : String) (otherMem : other ∈ texts)
      (digestSame : digests.sha256Hex token = digests.sha256Hex other) : token = other :=
    noCollision mem otherMem digestSame
  rw [Service.callerOf_isAdmin_iff, configured.digests_eq, configured.hash_eq, service.byToken_eq,
    configured.digests_eq]
  constructor
  · rintro (isConfigured | ⟨account, found, isAdmin⟩)
    · exact .inl (same _ configured.token_mem isConfigured)
    · have carries : account.tokenSha256 = digests.sha256Hex token := by
        simpa using find?_some found
      rcases configured.held account (mem_of_find?_eq_some found) with
        ⟨-, bootstrap⟩ | ⟨other, pair⟩
      · exact .inl (same _ configured.token_mem (carries.symm.trans bootstrap))
      · obtain ⟨digest, otherMem⟩ := sound.made _ pair
        obtain rfl := same other otherMem (carries.symm.trans digest)
        exact .inr ⟨account, mem_of_find?_eq_some found, isAdmin, pair⟩
  · rintro (rfl | ⟨account, accountMem, isAdmin, pair⟩)
    · exact .inl rfl
    · by_cases isConfigured : digests.sha256Hex token = digests.sha256Hex deployment.adminToken
      · exact .inl isConfigured
      · right
        -- The first account with the digest is the one that was made with the token.
        have carries := (sound.made _ pair).1
        cases found : service.accounts.find? fun account =>
            decide (account.tokenSha256 = digests.sha256Hex token) with
        | none =>
          have absent := find?_eq_none.mp found account accountMem
          exact absurd (decide_eq_true carries) absent
        | some first =>
          have firstCarries : first.tokenSha256 = digests.sha256Hex token := by
            simpa using find?_some found
          refine ⟨first, rfl, ?_⟩
          rcases configured.held first (mem_of_find?_eq_some found) with
            ⟨-, bootstrap⟩ | ⟨other, firstPair⟩
          · exact absurd (firstCarries.symm.trans bootstrap) isConfigured
          · obtain ⟨digest, otherMem⟩ := sound.made _ firstPair
            obtain rfl := same other otherMem (firstCarries.symm.trans digest)
            have one := inj_on_of_nodup_map distinct firstPair pair rfl
            rw [(Prod.mk.inj one).1]
            exact isAdmin

theorem Sound.adminsKnown : deployment.AdminsKnown texts := by
  intro service running _
  have configured := sound.configured service running
  constructor
  · intro _ mem
    rw [Service.takesForAdmin_iff]
    apply exists_congr
    intro token
    apply and_congr_right
    intro presented
    exact configured.isAdminToken_iff noCollision sound distinct (mem token presented)
  · intro mem
    rw [Service.requireForm_isOk_iff, configured.digests_eq, configured.hash_eq]
    exact noCollision.eq_iff mem configured.token_mem

end

theorem Configured.create (configured : Configured digests texts made adminToken service) :
    Configured digests texts ((account, token) :: made) adminToken
      { service with accounts := service.accounts ++ [account] } where
  digests_eq := configured.digests_eq
  hash_eq := configured.hash_eq
  token_mem := configured.token_mem
  held := by
    intro other mem
    rcases mem_append.mp mem with old | new
    · rcases configured.held other old with bootstrap | ⟨token, pair⟩
      · exact .inl bootstrap
      · exact .inr ⟨token, mem_cons_of_mem _ pair⟩
    · rw [mem_singleton.mp new]
      exact .inr ⟨token, mem_cons_self⟩

theorem Configured.isHeld (configured : Configured digests texts made adminToken service) :
    ∀ account ∈ service.accounts, IsHeld made account :=
  fun account mem => (configured.held account mem).imp_left And.left

theorem IsHeld.cons (held : IsHeld made account) : IsHeld (pair :: made) account :=
  held.imp_right fun ⟨token, mem⟩ => ⟨token, mem_cons_of_mem _ mem⟩

theorem Sound.create {keys : Keypair} (sound : deployment.Sound digests texts) (mem : token ∈ texts) :
    (deployment.create digests name role keys token now saved).Sound digests texts := by
  rw [Deployment.create]
  split
  · exact sound
  · rename_i service running
    let account := newAccount digests name role keys token now
    have configured : Configured digests texts ((account, token) :: deployment.made)
        deployment.adminToken { service with accounts := service.accounts ++ [account] } :=
      (sound.configured service running).create
    refine ⟨?_, ?_, ?_⟩
    · rintro _ ⟨⟩
      exact configured
    · cases saved with
      | false => exact fun account mem => (sound.held account mem).cons
      | true => exact configured.isHeld
    · rintro pair (_ | ⟨_, old⟩)
      · exact ⟨rfl, mem⟩
      · exact sound.made pair old

theorem Sound.start (sound : deployment.Sound digests texts) (mem : token ∈ texts)
    (carries : deployment.Carries digests token) :
    (deployment.start digests other token now saved).Sound digests texts := by
  have old (account : Account) (inFile : account ∈ deployment.file) :
      account.did = bootstrapDid ∧ account.tokenSha256 = digests.sha256Hex token ∨
        ∃ token, (account, token) ∈ deployment.made :=
    (sound.held account inFile).imp_left fun isBootstrap =>
      ⟨isBootstrap, carries account inFile isBootstrap⟩
  rw [Deployment.start]
  split
  · refine ⟨?_, sound.held, sound.made⟩
    rintro _ ⟨⟩
    exact ⟨rfl, rfl, mem, old⟩
  · split
    · have new (account : Account)
          (inFile : account ∈ deployment.file ++ [bootstrapAccount digests token now]) :
          account.did = bootstrapDid ∧ account.tokenSha256 = digests.sha256Hex token ∨
            ∃ token, (account, token) ∈ deployment.made := by
        rcases mem_append.mp inFile with inOld | isNew
        · exact old account inOld
        · rw [mem_singleton.mp isNew]
          exact .inl ⟨rfl, rfl⟩
      refine ⟨?_, ?_, sound.made⟩
      · rintro _ ⟨⟩
        exact ⟨rfl, rfl, mem, new⟩
      · exact fun account inFile => (new account inFile).imp_left And.left
    · exact ⟨nofun, sound.held, sound.made⟩

variable (digests deployment)

/-- The condition of an event: a start is configured with the token whose digest the
bootstrap account of the file carries, if the file has one. -/
def Meets : DeploymentEvent → Prop
  | .start _ token .. => deployment.Carries digests token
  | .create .. => True

def AllMeet : Deployment → List DeploymentEvent → Prop
  | _, [] => True
  | deployment, event :: rest =>
    deployment.Meets digests event ∧ AllMeet (deployment.step digests event) rest

variable {digests deployment}

theorem Sound.step (sound : deployment.Sound digests texts) (mem : event.token ∈ texts)
    (meets : deployment.Meets digests event) :
    (deployment.step digests event).Sound digests texts := by
  cases event with
  | start => exact sound.start mem meets
  | create => exact sound.create mem

theorem nodup_step
    (distinct : (deployment.made.map Prod.snd ++ (event.drawn.toList ++ rest)).Nodup) :
    ((deployment.step digests event).made.map Prod.snd ++ rest).Nodup := by
  cases event with
  | start other token now saved =>
    have kept : (deployment.start digests other token now saved).made = deployment.made := by
      rw [Deployment.start]
      split
      · rfl
      · split <;> rfl
    rw [step, kept]
    exact distinct
  | create =>
    have moved := nodup_middle.mp distinct
    rw [step, Deployment.create]
    split
    · exact (nodup_cons.mp moved).2
    · exact moved

/-- After every sequence of starts that keep to the bootstrap token of the file, the
administrators are exactly the configured token and the accounts made administrators.
The digest has no collisions among the texts that occur, and no token is drawn twice. -/
theorem adminsKnown_of_allMeet (digests : Digests) (texts : Set String)
    (noCollision : Set.InjOn digests.sha256Hex texts) (events : List DeploymentEvent)
    (mem : ∀ event ∈ events, event.token ∈ texts)
    (fresh : (events.flatMap fun event => event.drawn.toList).Nodup)
    (meets : empty.AllMeet digests events) : (empty.run digests events).AdminsKnown texts := by
  have sound : empty.Sound digests texts := ⟨nofun, nofun, nofun⟩
  have distinct : (empty.made.map Prod.snd ++
    events.flatMap fun event => event.drawn.toList).Nodup := fresh
  generalize empty = deployment at sound distinct meets ⊢
  induction events generalizing deployment with
  | nil =>
    rw [flatMap_nil, append_nil] at distinct
    exact sound.adminsKnown noCollision distinct
  | cons _ _ ih =>
    obtain ⟨eventMem, restMem⟩ := forall_mem_cons.mp mem
    rw [flatMap_cons] at fresh distinct
    exact ih restMem (nodup_append.mp fresh).2.1 _ (sound.step eventMem meets.1)
      (nodup_step distinct) meets.2

/-- A start, an operator made administrator, and a restart with the same token. -/
def sameTokenTwice : List DeploymentEvent :=
  [.start corner "first" 0 true,
    .create "carol" .admin ⟨"did:unfer:carol", ""⟩ "refi_carol" 1 true,
    .start corner "first" 2 true]

theorem adminsKnown_of_sameTokenTwice : empty.AllMeet corner.digests sameTokenTwice ∧
      (empty.run corner.digests sameTokenTwice).AdminsKnown Set.univ := by
  have carries : (empty.run corner.digests (sameTokenTwice.take 2)).Carries corner.digests "first" := by
    unfold Carries
    decide +kernel
  have meets : empty.AllMeet corner.digests sameTokenTwice := ⟨nofun, trivial, carries, trivial⟩
  refine ⟨meets, adminsKnown_of_allMeet corner.digests Set.univ ?_ sameTokenTwice ?_ ?_ meets⟩
  · exact fun _ _ _ _ same => same
  · exact fun _ _ => trivial
  · decide

/-- A start with one token, and a restart with another. -/
def tokenReplaced : List DeploymentEvent :=
  [.start corner "first" 0 true, .start corner "second" 1 true]

def afterReplaced : Service :=
  { corner with accounts := [bootstrapAccount corner.digests "first" 0], adminHash := "second" }

def withFirst : HttpRequest :=
  ⟨"GET", "/api/v1/audit", [], [("Authorization", "Bearer first")], .null, [], ""⟩

/-- The replaced token still gives the access of an administrator. -/
theorem replaced_token_is_admin :
    ¬ (empty.run corner.digests tokenReplaced).AdminsKnown Set.univ := by
  intro known
  have running : (empty.run corner.digests tokenReplaced).service = some afterReplaced := rfl
  have presented : withFirst.presented false = some "first" := by decide +kernel
  have taken : afterReplaced.authenticate withFirst false =
      .ok (.account (bootstrapAccount corner.digests "first" 0)) := by
    decide +kernel
  have takenIff := (known afterReplaced running withFirst).1 false fun _ _ => trivial
  obtain ⟨_, isPresented, isAdmin⟩ := takenIff.mp ⟨_, taken, rfl⟩
  cases presented.symm.trans isPresented
  rcases isAdmin with isCurrent | ⟨account, -, -, isMade⟩
  · exact absurd isCurrent (by decide +kernel)
  · exact absurd isMade not_mem_nil

end Deployment

end AustralVM.Refi
