import AustralVM.StoppableActions
import Mathlib.Data.Vector.Defs

/-!
# The policy of the exchange

Every command that changes the exchange goes through a policy program.  The
program asks the host about the caller, the amount, the reserve and the coins,
and calls one primitive that changes the exchange if every answer is right.  After
most primitives it asks for an audit.  The exchange itself and the primitives that
change it are parameters here, so what is proved holds whatever they do.
-/

namespace AustralVM.Refi

open Int64

/-! ## Commands -/

/-- The name of a reserve or of a coin, or a signing seed. -/
abbrev Bytes32 := List.Vector UInt8 32

/-- A vector of the host, whose length fits a signed word. -/
abbrev Vec (α : Type) := { items : List α // items.length < 2 ^ 63 }

inductive Cmd
  | openReserve (actor : String) (reserve : Bytes32)
  | pegIn (actor : String) (reserve : Bytes32) (amount : UInt64)
  | withdraw (actor : String) (reserve : Bytes32) (amount : UInt64)
  | deposit (actor : String) (secret : Bytes32) (coins : Vec Bytes32) (merchant : String)
  | pegOut (actor : String) (amount : UInt64) (bank : String) (admin : Bool)
  | confirmPegOut (actor wire : String) (admin : Bool)
  | cancelPegOut (actor wire : String) (admin : Bool)
  | issueDenom (actor : String) (value : UInt64) (expiresSeq : Option UInt64) (admin : Bool)
  | mint (actor : String) (amount : UInt64) (owner source : String) (admin : Bool)
  | transfer (actor : String) (secret : Bytes32) (inputs : Vec Bytes32)
      (outputs : Vec (UInt64 × String))
  deriving DecidableEq

namespace Cmd

def code : Cmd → Int64
  | openReserve .. => 1
  | pegIn .. => 2
  | withdraw .. => 3
  | deposit .. => 4
  | pegOut .. => 5
  | confirmPegOut .. => 6
  | cancelPegOut .. => 7
  | issueDenom .. => 8
  | mint .. => 9
  | transfer .. => 10

def amount : Cmd → UInt64
  | openReserve .. | confirmPegOut .. | cancelPegOut .. => 0
  | pegIn _ _ amount | withdraw _ _ amount | pegOut _ amount .. | mint _ amount .. => amount
  | deposit _ _ coins _ => UInt64.ofNat coins.val.length
  | issueDenom _ value .. => value
  | transfer _ _ inputs _ => UInt64.ofNat inputs.val.length

def actor : Cmd → String
  | openReserve actor _ | pegIn actor .. | withdraw actor .. | deposit actor .. | pegOut actor ..
  | confirmPegOut actor .. | cancelPegOut actor .. | issueDenom actor .. | mint actor ..
  | transfer actor .. => actor

def isAdmin : Cmd → Bool
  | pegOut _ _ _ admin | confirmPegOut _ _ admin | cancelPegOut _ _ admin | issueDenom _ _ _ admin
  | mint _ _ _ _ admin => admin
  | _ => false

def inputs : Cmd → List Bytes32
  | deposit _ _ coins _ => coins.val
  | transfer _ _ inputs _ => inputs.val
  | _ => []

def reserve? : Cmd → Option Bytes32
  | openReserve _ reserve | pegIn _ reserve _ | withdraw _ reserve _ => some reserve
  | _ => none

end Cmd

/-! ## The host -/

inductive DiagnosticCode
  | talerInsufficientBalance
  | talerUnknownReserve
  | talerDenomUnsupported
  | talerCoinAlreadyDeposited
  | talerUnknownECoin
  | talerUnconfirmedWire
  | certNonexistentInput
  | other (number : Nat)
  deriving DecidableEq, Repr

structure Diagnostic where
  code : DiagnosticCode
  message : String
  deriving DecidableEq, Repr

/-- What the host keeps of the command that is being run. -/
structure Ctx where
  cmd : Cmd
  err : Option Diagnostic

namespace Ctx

def fail (ctx : Ctx) (diag : Diagnostic) : Int64 × Ctx :=
  let rc : Int64 :=
    match diag.code with
    | .talerInsufficientBalance => 3
    | .talerUnknownReserve => 4
    | .talerDenomUnsupported => 5
    | .talerCoinAlreadyDeposited => 6
    | .talerUnknownECoin => 2
    | .talerUnconfirmedWire => 4
    | _ => 7
  (rc, { ctx with err := some diag })

end Ctx

structure Usage where
  day : UInt64
  perAccount : List (String × UInt64)

def saturatingAdd (left right : UInt64) : UInt64 :=
  if left.toNat + right.toNat < 2 ^ 64 then left + right else UInt64.ofNat (2 ^ 64 - 1)

def Usage.allows (usage : Usage) (today : UInt64) (did : String) (amount cap : UInt64) : Bool :=
  let used := if usage.day = today then (usage.perAccount.lookup did).getD 0 else 0
  saturatingAdd used amount ≤ cap

structure EngineConfig where
  maxWire : UInt64
  dailyCap : UInt64

inductive Primitive
  | openReserve
  | pegIn
  | withdraw
  | deposit
  | pegOut
  | confirmPegOut
  | cancelPegOut
  | issueDenom
  | mint
  | transfer
  deriving DecidableEq, Repr

structure Runtime (Exchange : Type) where
  cfg : EngineConfig
  exchange : Exchange
  usage : Usage

/-- What the host knows about an exchange, and what its primitives do. -/
structure ExchangeHost (Exchange : Type) where
  reserveOwner : Exchange → Bytes32 → Option String
  isDeposited : Exchange → Bytes32 → Bool
  coinOwner : Exchange → Bytes32 → Option String
  hasDenomination : Exchange → UInt64 → Bool
  audit : Exchange → Bool
  hex : Bytes32 → String
  perform : Primitive → Runtime Exchange → Ctx → Int64 × Runtime Exchange × Ctx

/-- What a policy program works on.  The primitives that it has called are kept. -/
structure World (Exchange : Type) where
  runtime : Runtime Exchange
  ctx : Ctx
  today : UInt64
  invoked : List Primitive

/-- A policy program returns a word, early if it stops. -/
abbrev Policy (Exchange : Type) := Stoppable (World Exchange) Int64

section Program

variable {Exchange : Type} (host : ExchangeHost Exchange)

/-! ### Questions to the host -/

def rsRole (world : World Exchange) (required : Int64) : Int64 :=
  if required = 0 then 0 else if required = 1 ∧ world.ctx.cmd.isAdmin then 0 else 1

def rsMaxWire (world : World Exchange) : Int64 := world.runtime.cfg.maxWire.toInt64

def rsAmountOk (amount : Int64) : Int64 := if amount > 0 ∧ amount ≤ 1000000000 then 0 else 2

def rsOwnsReserve (world : World Exchange) : Int64 :=
  match world.ctx.cmd.reserve? with
  | none => 2
  | some reserve =>
    match host.reserveOwner world.runtime.exchange reserve with
    | some owner => if owner = world.ctx.cmd.actor then 0 else 4
    | none => 4

def rsOwnsMerchant (world : World Exchange) : Int64 :=
  match world.ctx.cmd with
  | .pegOut .. => 0
  | _ => 2

def rsDailyCapOk (world : World Exchange) (amount : Int64) : Int64 :=
  if amount ≤ 0 then 2
  else if world.runtime.usage.allows world.today world.ctx.cmd.actor amount.toUInt64
      world.runtime.cfg.dailyCap then 0
  else 8

def rsCoinCount (world : World Exchange) : Int64 :=
  match world.ctx.cmd with
  | .deposit _ _ coins _ => ofNat coins.val.length
  | _ => 0

def rsDenomOk (world : World Exchange) (amount : Int64) : Int64 :=
  if amount ≤ 0 then 5
  else if host.hasDenomination world.runtime.exchange amount.toUInt64 then 0 else 5

def rsAuditOk (world : World Exchange) : Int64 :=
  if host.audit world.runtime.exchange then 0 else 7

/-- Is a coin of a deposit unspent and the caller's own?  The answer comes with what
the host keeps about a failure. -/
def coinOk (exchange : Exchange) (ctx : Ctx) (index : Int64) : Int64 × Ctx :=
  if index < 0 then (2, ctx)
  else
    match ctx.cmd with
    | .deposit _ _ coins _ =>
      match coins.val[index.toNatClampNeg]? with
      | none => (2, ctx)
      | some id =>
        if host.isDeposited exchange id then
          ctx.fail ⟨.talerCoinAlreadyDeposited,
            "coin " ++ host.hex id ++ " was already deposited"⟩
        else
          match host.coinOwner exchange id with
          | some owner => (if owner = ctx.cmd.actor then 0 else 2, ctx)
          | none =>
            ctx.fail ⟨.certNonexistentInput,
              "coin " ++ host.hex id ++ " is not an unspent certificate"⟩
    | _ => (2, ctx)

def rsCoinOk (index : Int64) : Policy Exchange Int64 := fun world =>
  let (rc, ctx) := coinOk host world.runtime.exchange world.ctx index
  (.ok rc, { world with ctx })

def rsPerform (primitive : Primitive) : Policy Exchange Int64 := fun world =>
  let (rc, runtime, ctx) := host.perform primitive world.runtime world.ctx
  (.ok rc, { world with runtime, ctx, invoked := world.invoked ++ [primitive] })

/-! ### The program -/

/-- Ask the host, and return a word if the answer is not zero. -/
def gate (ask : World Exchange → Int64) (word : Int64 → Int64) : Policy Exchange Unit := do
  let answer := ask (← Stoppable.get)
  if answer ≠ 0 then Stoppable.stop (word answer)

def amountGate (world : World Exchange) (amount : Int64) : Int64 :=
  if amount ≤ 0 then 2
  else if rsAmountOk amount ≠ 0 then 2
  else if amount > rsMaxWire world then 8
  else 0

def auditGate (world : World Exchange) : Int64 := if rsAuditOk host world ≠ 0 then 7 else 0

/-- Call a primitive, and ask for an audit if it succeeds. -/
def settle (primitive : Primitive) : Policy Exchange Int64 := do
  let r ← rsPerform host primitive
  if r ≠ 0 then return r
  return auditGate host (← Stoppable.get)

/-- The loop over the coins of a deposit, of which some are left. -/
def checkCoins : Nat → Int64 → Policy Exchange Unit
  | 0, _ => pure ()
  | left + 1, index => do
    let c ← rsCoinOk host index
    if c ≠ 0 then Stoppable.stop c
    checkCoins left (index + 1)

/-- The command word selects a branch of the program, which has one primitive. -/
def primitiveOf (cmd : Int64) : Option Primitive :=
  if cmd = 1 then some .openReserve
  else if cmd = 2 then some .pegIn
  else if cmd = 3 then some .withdraw
  else if cmd = 4 then some .deposit
  else if cmd = 5 then some .pegOut
  else if cmd = 6 then some .confirmPegOut
  else if cmd = 7 then some .cancelPegOut
  else if cmd = 8 then some .issueDenom
  else if cmd = 9 then some .mint
  else if cmd = 10 then some .transfer
  else none

def applyOpenReserve : Policy Exchange Int64 := do
  gate (rsRole · 0) fun _ => 1
  rsPerform host .openReserve

def applyPegIn (amount : Int64) : Policy Exchange Int64 := do
  gate (rsRole · 0) fun _ => 1
  gate (rsOwnsReserve host) fun _ => 4
  gate (amountGate · amount) fun answer => answer
  gate (rsDailyCapOk · amount) fun _ => 8
  settle host .pegIn

def applyWithdraw (amount : Int64) : Policy Exchange Int64 := do
  gate (rsRole · 0) fun _ => 1
  gate (rsOwnsReserve host) fun _ => 4
  gate (amountGate · amount) fun answer => answer
  gate (rsDenomOk host · amount) fun _ => 5
  settle host .withdraw

def applyDeposit : Policy Exchange Int64 := do
  gate (rsRole · 0) fun _ => 1
  let count := rsCoinCount (← Stoppable.get)
  if count ≤ 0 then Stoppable.stop 2
  if count > 16 then Stoppable.stop 8
  checkCoins host count.toNatClampNeg 0
  settle host .deposit

def applyPegOut (amount : Int64) : Policy Exchange Int64 := do
  gate (rsRole · 0) fun _ => 1
  gate rsOwnsMerchant fun _ => 1
  gate (amountGate · amount) fun answer => answer
  settle host .pegOut

def applyConfirmPegOut : Policy Exchange Int64 := do
  gate (rsRole · 1) fun _ => 1
  settle host .confirmPegOut

def applyCancelPegOut : Policy Exchange Int64 := do
  gate (rsRole · 0) fun _ => 1
  settle host .cancelPegOut

def applyIssueDenom (amount : Int64) : Policy Exchange Int64 := do
  gate (rsRole · 1) fun _ => 1
  gate (amountGate · amount) fun answer => answer
  rsPerform host .issueDenom

def applyMint (amount : Int64) : Policy Exchange Int64 := do
  gate (rsRole · 1) fun _ => 1
  gate (amountGate · amount) fun answer => answer
  settle host .mint

def applyTransfer (amount : Int64) : Policy Exchange Int64 := do
  gate (rsRole · 0) fun _ => 1
  gate (amountGate · amount) fun answer => answer
  settle host .transfer

def branch (amount : Int64) : Primitive → Policy Exchange Int64
  | .openReserve => applyOpenReserve host
  | .pegIn => applyPegIn host amount
  | .withdraw => applyWithdraw host amount
  | .deposit => applyDeposit host
  | .pegOut => applyPegOut host amount
  | .confirmPegOut => applyConfirmPegOut host
  | .cancelPegOut => applyCancelPegOut host
  | .issueDenom => applyIssueDenom host amount
  | .mint => applyMint host amount
  | .transfer => applyTransfer host amount

def apply (cmd amount : Int64) : Policy Exchange Int64 :=
  match primitiveOf cmd with
  | some primitive => branch host amount primitive
  | none => pure 9

end Program

/-! ## What a command must be allowed -/

section Gates

variable {Exchange : Type} (host : ExchangeHost Exchange) (world : World Exchange)

/-- An amount from one to the smaller of the two limits. -/
def AmountInRange (amount : Int64) : Prop :=
  1 ≤ amount.toInt ∧ amount.toInt ≤ world.runtime.cfg.maxWire.toNat ∧ amount.toInt ≤ 10 ^ 9

def OwnsReserve : Prop :=
  ∃ reserve, world.ctx.cmd.reserve? = some reserve ∧
    host.reserveOwner world.runtime.exchange reserve = some world.ctx.cmd.actor

/-- At most sixteen coins are spent, and each is the caller's. -/
def OwnsInputs : Prop :=
  world.ctx.cmd.inputs.length ≤ 16 ∧
    ∀ coin ∈ world.ctx.cmd.inputs,
      host.coinOwner world.runtime.exchange coin = some world.ctx.cmd.actor

def Permitted (amount : Int64) : Primitive → Prop
  | .openReserve | .cancelPegOut => True
  | .pegIn | .withdraw => OwnsReserve host world ∧ AmountInRange world amount
  | .deposit => OwnsInputs host world
  | .pegOut => AmountInRange world amount
  | .confirmPegOut => world.ctx.cmd.isAdmin
  | .issueDenom | .mint => world.ctx.cmd.isAdmin ∧ AmountInRange world amount
  | .transfer => OwnsInputs host world ∧ AmountInRange world amount

/-- The primitives that a run of the program calls. -/
def invokedBy (cmd amount : Int64) : List Primitive :=
  (apply host cmd amount { world with invoked := [] }).2.invoked

/-- The program calls no primitive, or it calls the one of the command once, and its
gates hold. -/
def CallsOnlyPermitted (cmd amount : Int64) : Prop :=
  invokedBy host world cmd amount = [] ∨
    ∃ primitive, primitiveOf cmd = some primitive ∧
      invokedBy host world cmd amount = [primitive] ∧ Permitted host world amount primitive

end Gates

/-! ## What the program does -/

section Spec

open Stoppable

variable {Exchange : Type} {host : ExchangeHost Exchange} {world after : World Exchange}
  {primitive : Primitive} {gates : Prop}

/-- Nothing has been changed but what the host keeps about a failure. -/
structure Untouched (world after : World Exchange) : Prop where
  runtime : after.runtime = world.runtime
  cmd : after.ctx.cmd = world.ctx.cmd
  invoked : after.invoked = world.invoked

theorem Untouched.refl (world : World Exchange) : Untouched world world := ⟨rfl, rfl, rfl⟩

theorem Untouched.trans (first : Untouched world after) (second : Untouched after last) :
    Untouched world last where
  runtime := second.runtime.trans first.runtime
  cmd := second.cmd.trans first.cmd
  invoked := second.invoked.trans first.invoked

theorem toInt_toInt64_le (word : UInt64) : word.toInt64.toInt ≤ word.toNat := by
  change word.toBitVec.toInt ≤ word.toBitVec.toNat
  rw [BitVec.toInt_eq_toNat_cond]
  split <;> omega

theorem amountInRange_of_gate (passed : amountGate world amount = 0) :
    AmountInRange world amount := by
  unfold amountGate at passed
  by_cases low : amount ≤ 0
  · simp [low] at passed
  by_cases bounded : rsAmountOk amount = 0
  · by_cases high : amount > rsMaxWire world
    · simp [low, bounded, high] at passed
    · have positive := le_iff_toInt_le.not.mp low
      have wire := lt_iff_toInt_lt.not.mp high
      have cast := toInt_toInt64_le world.runtime.cfg.maxWire
      have most : amount ≤ 1000000000 := by
        by_contra above
        simp [rsAmountOk, above] at bounded
      have most := le_iff_toInt_le.mp most
      have zero : (0 : Int64).toInt = 0 := rfl
      have limit : (1000000000 : Int64).toInt = 10 ^ 9 := rfl
      unfold rsMaxWire at wire
      refine ⟨by omega, by omega, by omega⟩
  · simp [low, bounded] at passed

theorem ownsReserve_of_zero (passed : rsOwnsReserve host world = 0) : OwnsReserve host world := by
  unfold rsOwnsReserve at passed
  cases named : world.ctx.cmd.reserve? with
  | none => simp [named] at passed
  | some reserve =>
    cases found : host.reserveOwner world.runtime.exchange reserve with
    | none => simp [named, found] at passed
    | some owner =>
      simp only [named, found] at passed
      by_cases same : owner = world.ctx.cmd.actor
      · exact ⟨reserve, named, same ▸ found⟩
      · simp [same] at passed

theorem isAdmin_of_zero (passed : rsRole world 1 = 0) : world.ctx.cmd.isAdmin = true := by
  unfold rsRole at passed
  by_cases admin : world.ctx.cmd.isAdmin = true
  · exact admin
  · simp [admin] at passed

/-! ### The coins of a deposit -/

theorem coinOk_cmd (exchange : Exchange) (ctx : Ctx) (index : Int64) :
    (coinOk host exchange ctx index).2.cmd = ctx.cmd := by
  unfold coinOk
  split
  · rfl
  split
  · split
    · rfl
    split
    · rfl
    split <;> rfl
  · rfl

theorem fail_ne_zero (ctx : Ctx) (diag : Diagnostic) : (ctx.fail diag).1 ≠ 0 := by
  unfold Ctx.fail
  cases diag.code <;> simp

theorem owns_of_coinOk (passed : (coinOk host exchange ctx index).1 = 0)
    (isCoin : ctx.cmd.inputs[index.toNatClampNeg]? = some coin) :
    host.coinOwner exchange coin = some ctx.cmd.actor := by
  unfold coinOk at passed
  split at passed
  · cases passed
  split at passed
  · rename_i actor secret coins merchant isDeposit
    have found : coins.val[index.toNatClampNeg]? = some coin := by rwa [isDeposit] at isCoin
    rw [found] at passed
    dsimp only at passed
    split at passed
    · exact absurd passed (fail_ne_zero _ _)
    split at passed
    · rename_i owner isOwner
      by_cases same : owner = ctx.cmd.actor
      · rw [isOwner, same]
      · simp [same] at passed
    · exact absurd passed (fail_ne_zero _ _)
  · cases passed

theorem ends_checkCoins (left start : Nat) (few : start + left ≤ 16) (world : World Exchange) :
    Ends (checkCoins host left (ofNat start)) world (fun _ after => Untouched world after ∧
        ∀ place coin, start ≤ place → place < start + left →
          world.ctx.cmd.inputs[place]? = some coin →
          host.coinOwner world.runtime.exchange coin = some world.ctx.cmd.actor)
      (fun word after => word ≠ 0 ∧ Untouched world after) := by
  induction left generalizing start world with
  | zero => exact ⟨.refl world, by omega⟩
  | succ _ ih =>
    rw [checkCoins]
    -- What the host keeps about a failure may change, the command does not.
    let next : World Exchange :=
      { world with
        ctx := (coinOk host world.runtime.exchange world.ctx (ofNat start)).2 }
    have same : next.ctx.cmd = world.ctx.cmd := coinOk_cmd _ _ _
    have untouched : Untouched world next := ⟨rfl, same, rfl⟩
    have asked : Ends (rsCoinOk host (ofNat start)) world
        (fun answer after => after = next ∧
          answer = (coinOk host world.runtime.exchange world.ctx (ofNat start)).1)
        (fun word after => word ≠ 0 ∧ Untouched world after) := ⟨rfl, rfl⟩
    apply asked.bind
    rintro _ _ ⟨rfl, rfl⟩
    split
    · rename_i failed
      exact ends_stop ⟨failed, untouched⟩
    · rename_i passed
      have passed := not_not.mp passed
      have step : ofNat start + 1 = ofNat (start + 1) := (ofNat_add _ _).symm
      rw [step]
      apply (ih (start + 1) (by omega) next).mono
      · rintro _ _ ⟨rest, owned⟩
        refine ⟨untouched.trans rest, ?_⟩
        intro place coin _ _ isCoin
        by_cases isFirst : place = start
        · apply owns_of_coinOk passed
          rw [toNatClampNeg_ofNat_of_lt (by omega), ← isFirst]
          exact isCoin
        · rw [← same] at isCoin ⊢
          exact owned place coin (by omega) (by omega) isCoin
      · rintro _ _ ⟨nonzero, rest⟩
        exact ⟨nonzero, untouched.trans rest⟩

/-! ### The branches of the program -/

/-- The primitives after which the program asks for an audit. -/
def Primitive.isAudited (primitive : Primitive) : Prop :=
  primitive ≠ .openReserve ∧ primitive ≠ .issueDenom

/-- A primitive has been called once.  If it is audited and the program accepts, the
audit holds. -/
structure Called (host : ExchangeHost Exchange) (world : World Exchange) (primitive : Primitive)
    (word : Int64) (after : World Exchange) : Prop where
  invoked : after.invoked = world.invoked ++ [primitive]
  performed : ∃ ctx, ctx.cmd = world.ctx.cmd ∧
    after.runtime = (host.perform primitive world.runtime ctx).2.1
  audited : primitive.isAudited → word = 0 → host.audit after.runtime.exchange = true

/-- A program that calls one primitive, behind some gates, or that is refused and
changes nothing. -/
def Guards (host : ExchangeHost Exchange) (world : World Exchange) (primitive : Primitive)
    (gates : Prop) (program : Policy Exchange Int64) : Prop :=
  Ends program world (fun word after => gates ∧ Called host world primitive word after)
    (fun word after => word ≠ 0 ∧ Untouched world after)

theorem Guards.mono (guards : Guards host world primitive gates program)
    (implies : gates → weaker) : Guards host world primitive weaker program := by
  apply Ends.mono guards
  · rintro _ _ ⟨held, rest⟩
    exact ⟨implies held, rest⟩
  · exact fun word after refused => refused

theorem guards_perform (unaudited : ¬ primitive.isAudited) :
    Guards host world primitive True (rsPerform host primitive) :=
  ⟨trivial, rfl, ⟨world.ctx, rfl, rfl⟩, fun audited => absurd audited unaudited⟩

theorem audit_of_zero (passed : auditGate host world = 0) :
    host.audit world.runtime.exchange = true := by
  unfold auditGate rsAuditOk at passed
  by_contra failed
  simp [failed] at passed

theorem guards_settle : Guards host world primitive True (settle host primitive) := by
  have called : Ends (rsPerform host primitive) world
      (fun _ after => after.invoked = world.invoked ++ [primitive] ∧
        ∃ ctx, ctx.cmd = world.ctx.cmd ∧
          after.runtime = (host.perform primitive world.runtime ctx).2.1)
      (fun word after => word ≠ 0 ∧ Untouched world after) := ⟨rfl, world.ctx, rfl, rfl⟩
  apply called.bind
  rintro r _ ⟨invoked, performed⟩
  by_cases failed : r ≠ 0
  · rw [if_pos failed]
    exact ends_pure ⟨trivial, invoked, performed, fun _ isZero => absurd isZero failed⟩
  · rw [if_neg failed]
    exact ends_get_bind (ends_pure ⟨trivial, invoked, performed, fun _ => audit_of_zero⟩)

theorem guards_gate (isRefusal : ∀ answer, answer ≠ 0 → word answer ≠ 0)
    (guards : ask world = 0 → Guards host world primitive gates (program ())) :
    Guards host world primitive gates (gate ask word >>= program) := by
  have asked : Ends (gate ask word) world (fun _ after => ask world = 0 ∧ after = world)
      (fun word after => word ≠ 0 ∧ Untouched world after) := by
    apply ends_get_bind
    by_cases isZero : ask world = 0
    · rw [if_neg (not_not_intro isZero)]
      exact ends_pure ⟨isZero, rfl⟩
    · rw [if_pos isZero]
      exact ends_stop ⟨isRefusal _ isZero, .refl world⟩
  apply asked.bind
  rintro _ _ ⟨passed, rfl⟩
  exact guards passed

theorem guards_openReserve : Guards host world .openReserve True (applyOpenReserve host) := by
  apply guards_gate (fun _ _ => by decide)
  intro _
  exact guards_perform fun audited => audited.1 rfl

theorem guards_pegIn (amount : Int64) :
    Guards host world .pegIn (rsDailyCapOk world amount = 0 ∧ OwnsReserve host world ∧
      AmountInRange world amount) (applyPegIn host amount) := by
  apply guards_gate (fun _ _ => by decide)
  intro _
  apply guards_gate (fun _ _ => by decide)
  intro owned
  apply guards_gate (fun _ failed => failed)
  intro inRange
  apply guards_gate (fun _ _ => by decide)
  intro allowed
  exact guards_settle.mono fun _ =>
    ⟨allowed, ownsReserve_of_zero owned, amountInRange_of_gate inRange⟩

theorem guards_withdraw (amount : Int64) :
    Guards host world .withdraw (OwnsReserve host world ∧ AmountInRange world amount)
      (applyWithdraw host amount) := by
  apply guards_gate (fun _ _ => by decide)
  intro _
  apply guards_gate (fun _ _ => by decide)
  intro owned
  apply guards_gate (fun _ failed => failed)
  intro inRange
  apply guards_gate (fun _ _ => by decide)
  intro _
  exact guards_settle.mono fun _ => ⟨ownsReserve_of_zero owned, amountInRange_of_gate inRange⟩

theorem guards_pegOut (amount : Int64) :
    Guards host world .pegOut (AmountInRange world amount) (applyPegOut host amount) := by
  apply guards_gate (fun _ _ => by decide)
  intro _
  apply guards_gate (fun _ _ => by decide)
  intro _
  apply guards_gate (fun _ failed => failed)
  intro inRange
  exact guards_settle.mono fun _ => amountInRange_of_gate inRange

theorem guards_confirmPegOut :
    Guards host world .confirmPegOut (world.ctx.cmd.isAdmin = true) (applyConfirmPegOut host) := by
  apply guards_gate (fun _ _ => by decide)
  intro admin
  exact guards_settle.mono fun _ => isAdmin_of_zero admin

theorem guards_cancelPegOut : Guards host world .cancelPegOut True (applyCancelPegOut host) := by
  apply guards_gate (fun _ _ => by decide)
  intro _
  exact guards_settle

theorem guards_issueDenom (amount : Int64) : Guards host world .issueDenom
      (world.ctx.cmd.isAdmin = true ∧ AmountInRange world amount) (applyIssueDenom host amount) := by
  apply guards_gate (fun _ _ => by decide)
  intro admin
  apply guards_gate (fun _ failed => failed)
  intro inRange
  apply (guards_perform fun audited => audited.2 rfl).mono
  exact fun _ => ⟨isAdmin_of_zero admin, amountInRange_of_gate inRange⟩

theorem guards_mint (amount : Int64) : Guards host world .mint
      (world.ctx.cmd.isAdmin = true ∧ AmountInRange world amount) (applyMint host amount) := by
  apply guards_gate (fun _ _ => by decide)
  intro admin
  apply guards_gate (fun _ failed => failed)
  intro inRange
  exact guards_settle.mono fun _ => ⟨isAdmin_of_zero admin, amountInRange_of_gate inRange⟩

theorem guards_transfer (amount : Int64) :
    Guards host world .transfer (amountGate world amount = 0) (applyTransfer host amount) := by
  apply guards_gate (fun _ _ => by decide)
  intro _
  apply guards_gate (fun _ failed => failed)
  intro inRange
  exact guards_settle.mono fun _ => inRange

theorem rsCoinCount_spec (some_ : ¬ rsCoinCount world ≤ 0) (few : ¬ rsCoinCount world > 16) :
    (rsCoinCount world).toNatClampNeg = world.ctx.cmd.inputs.length ∧
      world.ctx.cmd.inputs.length ≤ 16 := by
  cases isCmd : world.ctx.cmd with
  | deposit _ _ coins =>
    have count : rsCoinCount world = ofNat coins.val.length := by simp only [rsCoinCount, isCmd]
    rw [count] at few ⊢
    have few := lt_iff_toInt_lt.not.mp few
    rw [toInt_ofNat_of_lt coins.property] at few
    have limit : (16 : Int64).toInt = 16 := rfl
    have length : coins.val.length ≤ 16 := by omega
    exact ⟨toNatClampNeg_ofNat_of_lt coins.property, length⟩
  | _ =>
    simp only [rsCoinCount, isCmd] at some_
    exact absurd (by decide) some_

theorem guards_deposit : Guards host world .deposit (OwnsInputs host world) (applyDeposit host) := by
  apply guards_gate (fun _ _ => by decide)
  intro _
  apply ends_get_bind
  by_cases none_ : rsCoinCount world ≤ 0
  · simp only [none_, if_true]
    exact ends_stop ⟨by decide, .refl world⟩
  by_cases many : rsCoinCount world > 16
  · simp only [none_, many, if_true, if_false]
    exact ends_stop ⟨by decide, .refl world⟩
  have counted := rsCoinCount_spec none_ many
  simp only [none_, many, if_false, counted.1]
  apply (ends_checkCoins _ 0 (by omega) world).bind
  rintro _ _ ⟨untouched, owned⟩
  have gates : OwnsInputs host world := by
    refine ⟨counted.2, fun coin isInput => ?_⟩
    obtain ⟨place, below, isCoin⟩ := List.mem_iff_getElem.mp isInput
    exact owned place coin (Nat.zero_le _) (by omega)
      (List.getElem?_eq_some_iff.mpr ⟨below, isCoin⟩)
  apply Ends.mono guards_settle
  · rintro _ _ ⟨-, called⟩
    refine ⟨gates, ?_, ?_, called.audited⟩
    · rw [called.invoked, untouched.invoked]
    · rw [← untouched.runtime, ← untouched.cmd]
      exact called.performed
  · rintro _ _ ⟨nonzero, rest⟩
    exact ⟨nonzero, untouched.trans rest⟩

/-- The gates that the branch of a primitive has asked about: all, but for the coins
of a transfer. -/
def Asked (host : ExchangeHost Exchange) (world : World Exchange) (amount : Int64)
    (primitive : Primitive) : Prop :=
  (primitive = .transfer → amountGate world amount = 0) ∧
  ((primitive = .transfer → OwnsInputs host world) → Permitted host world amount primitive)

theorem guards_branch (amount : Int64) (primitive : Primitive) :
    Guards host world primitive (Asked host world amount primitive)
      (branch host amount primitive) := by
  cases primitive with
  | openReserve => exact guards_openReserve.mono fun held => ⟨nofun, fun _ => held⟩
  | pegIn => exact (guards_pegIn amount).mono fun held => ⟨nofun, fun _ => held.2⟩
  | withdraw => exact (guards_withdraw amount).mono fun held => ⟨nofun, fun _ => held⟩
  | deposit => exact guards_deposit.mono fun held => ⟨nofun, fun _ => held⟩
  | pegOut => exact (guards_pegOut amount).mono fun held => ⟨nofun, fun _ => held⟩
  | confirmPegOut => exact guards_confirmPegOut.mono fun held => ⟨nofun, fun _ => held⟩
  | cancelPegOut => exact guards_cancelPegOut.mono fun held => ⟨nofun, fun _ => held⟩
  | issueDenom => exact (guards_issueDenom amount).mono fun held => ⟨nofun, fun _ => held⟩
  | mint => exact (guards_mint amount).mono fun held => ⟨nofun, fun _ => held⟩
  | transfer =>
    apply (guards_transfer amount).mono
    intro passed
    exact ⟨fun _ => passed, fun owned => ⟨owned rfl, amountInRange_of_gate passed⟩⟩

theorem primitiveOf_eq_transfer (isTransfer : primitiveOf cmd = some .transfer) : cmd = 10 := by
  by_contra other
  unfold primitiveOf at isTransfer
  rw [if_neg other] at isTransfer
  split_ifs at isTransfer <;> simp at isTransfer

theorem Guards.invoked (guards : Guards host world primitive gates program) :
    (program world).2.invoked = world.invoked ∨
      gates ∧ (program world).2.invoked = world.invoked ++ [primitive] := by
  unfold Guards Ends at guards
  split at guards
  · rename_i word after ran
    rw [ran]
    exact .inr ⟨guards.1, guards.2.invoked⟩
  · rename_i word after ran
    rw [ran]
    exact .inl guards.2.invoked

theorem settle_invoked : (settle host primitive world).2.invoked = world.invoked ++ [primitive] := by
  let called : World Exchange → Prop := fun after => after.invoked = world.invoked ++ [primitive]
  have performed : Ends (rsPerform host primitive) world (fun _ after => called after)
      (fun _ after => called after) := rfl
  have settled : Ends (settle host primitive) world (fun _ after => called after)
      (fun _ after => called after) := by
    apply performed.bind
    intro _ _ isCalled
    split
    · exact ends_pure isCalled
    · exact ends_get_bind (ends_pure isCalled)
  exact settled.after

theorem gate_bind_of_zero (program : Unit → Policy Exchange Int64) (passed : ask world = 0) :
    (gate ask word >>= program) world = program () world := by
  have asked : gate ask word world = (.ok (), world) := by
    change (if ask world ≠ 0 then stop (word (ask world)) else pure ()) world = _
    rw [if_neg (not_not_intro passed)]
    rfl
  rw [bind_apply, asked]

theorem applyTransfer_invoked (passed : amountGate world amount = 0) :
    (applyTransfer host amount world).2.invoked = world.invoked ++ [.transfer] := by
  unfold applyTransfer
  rw [gate_bind_of_zero _ rfl, gate_bind_of_zero _ passed]
  exact settle_invoked

/-- **Gates before primitives.**  The program calls a primitive only if its gates
hold, except that a transfer spends coins that it has not asked about: so it is right
exactly if the coins of a transfer whose number passes as an amount are at most
sixteen and the caller's own. -/
theorem callsOnlyPermitted_iff (host : ExchangeHost Exchange) (world : World Exchange)
    (cmd amount : Int64) : CallsOnlyPermitted host world cmd amount ↔
      (cmd = 10 → amountGate world amount = 0 → OwnsInputs host world) := by
  unfold CallsOnlyPermitted invokedBy apply
  constructor
  · rintro permitted rfl passed
    have invoked : (branch host amount .transfer { world with invoked := [] }).2.invoked =
        [.transfer] := applyTransfer_invoked passed
    rcases permitted with none_ | ⟨primitive, isPrimitive, -, gates⟩
    · have := invoked.symm.trans none_
      cases this
    · cases isPrimitive
      exact gates.1
  · intro owned
    cases isCmd : primitiveOf cmd with
    | none => exact .inl rfl
    | some primitive =>
      have guards : Guards host { world with invoked := [] } _ _ _ := guards_branch amount primitive
      rcases guards.invoked with none_ | ⟨asked, called⟩
      · exact .inl none_
      · refine .inr ⟨primitive, rfl, called, asked.2 ?_⟩
        rintro rfl
        exact owned (primitiveOf_eq_transfer isCmd) (asked.1 rfl)

end Spec

/-! ## Coins of somebody else -/

/-- A host whose coins are all Bob's and whose primitives succeed. -/
def bobsHost : ExchangeHost Unit where
  reserveOwner _ _ := none
  isDeposited _ _ := false
  coinOwner _ _ := some "did:unfer:bob"
  hasDenomination _ _ := false
  audit _ := true
  hex _ := ""
  perform _ runtime ctx := (0, runtime, ctx)

def aliceTransfers : Cmd :=
  .transfer "did:unfer:alice" (.replicate 32 0) ⟨[.replicate 32 1], by decide⟩
    ⟨[(1, "did:unfer:alice")], by decide⟩

def aliceAtBobs : World Unit where
  runtime := ⟨⟨1000, 1000⟩, (), ⟨0, []⟩⟩
  ctx := ⟨aliceTransfers, none⟩
  today := 0
  invoked := []

/-- The program calls the transfer of a coin that is not the caller's. -/
theorem foreign_coin_is_transferred : ¬ CallsOnlyPermitted bobsHost aliceAtBobs aliceTransfers.code
      aliceTransfers.amount.toInt64 := by
  have called : invokedBy bobsHost aliceAtBobs aliceTransfers.code
      aliceTransfers.amount.toInt64 = [.transfer] := by rfl
  have foreign : ¬ OwnsInputs bobsHost aliceAtBobs := by
    intro owned
    have own := owned.2 (.replicate 32 1) (List.mem_singleton.mpr rfl)
    exact absurd own (by decide)
  rintro (none_ | ⟨_, isPrimitive, -, gates⟩)
  · rw [called] at none_
    cases none_
  · have isTransfer : primitiveOf aliceTransfers.code = some .transfer := rfl
    rw [isTransfer] at isPrimitive
    cases isPrimitive
    exact foreign gates.1

end AustralVM.Refi
