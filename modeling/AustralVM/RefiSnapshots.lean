import AustralVM.RefiPolicy

/-!
# Snapshots of the exchange

The engine runs one command after the other on the exchange in memory and writes
a snapshot after each one that the policy program accepts.  A command that is
refused after its primitive has run is not written, but what it did stays in
memory, and the two commands that are not audited are accepted whatever the
exchange in memory is like.
-/

namespace AustralVM.Refi

/-- What is written to the file.  Which refused commands had left the exchange in a
state that fails the audit, and are in what is written, is kept with it. -/
structure Snapshot (Exchange : Type) where
  exchange : Exchange
  usage : Usage
  refused : List Cmd

/-- The exchange in memory, the refused commands that it still has the effects of,
and everything that has been written. -/
structure Engine (Exchange : Type) where
  runtime : Runtime Exchange
  refused : List Cmd
  written : List (Snapshot Exchange)

inductive EngineEvent (Exchange : Type)
  | command (cmd : Cmd) (today : UInt64) (canWrite : Bool)
  | restart (exchange : Exchange) (usage : Usage)

/-- The word of a policy program, wherever it returned. -/
def returned : Except Int64 Int64 → Int64
  | .ok word | .error word => word

namespace Engine

variable {Exchange : Type} (host : ExchangeHost Exchange)

/-- An engine without a file starts with a new exchange and writes it. -/
def start (runtime : Runtime Exchange) : Engine Exchange where
  runtime
  refused := []
  written := [⟨runtime.exchange, runtime.usage, []⟩]

def world (engine : Engine Exchange) (cmd : Cmd) (today : UInt64) : World Exchange where
  runtime := engine.runtime
  ctx := ⟨cmd, none⟩
  today
  invoked := []

def runCmd (engine : Engine Exchange) (cmd : Cmd) (today : UInt64) (canWrite : Bool) :
    Engine Exchange :=
  let (result, after) := apply host cmd.code cmd.amount.toInt64 (engine.world cmd today)
  if returned result ≠ 0 then
    -- What the primitive did is not taken back.
    { engine with
      runtime := after.runtime
      refused :=
        if host.audit after.runtime.exchange then engine.refused else engine.refused ++ [cmd] }
  else
    { engine with
      runtime := after.runtime
      written :=
        if canWrite then
          engine.written ++ [⟨after.runtime.exchange, after.runtime.usage, engine.refused⟩]
        else engine.written }

def step (engine : Engine Exchange) : EngineEvent Exchange → Engine Exchange
  | .command cmd today canWrite => engine.runCmd host cmd today canWrite
  | .restart exchange usage =>
    { engine with runtime := { engine.runtime with exchange, usage }, refused := [] }

def run (engine : Engine Exchange) (events : List (EngineEvent Exchange)) : Engine Exchange :=
  events.foldl (step host) engine

/-! ## What is written -/

/-- The audit holds on everything that has been written, and no command whose audit
failed is in it. -/
def WritesAudited (engine : Engine Exchange) : Prop :=
  ∀ snapshot ∈ engine.written, host.audit snapshot.exchange = true ∧ snapshot.refused = []

def KeepsAudit (primitive : Primitive) : Prop :=
  ∀ runtime ctx, host.audit runtime.exchange = true →
    host.audit (host.perform primitive runtime ctx).2.1.exchange = true

/-- A command is run on an exchange that passes the audit, and if the program does
not ask for another audit then its primitive keeps it. -/
def Meets (engine : Engine Exchange) : EngineEvent Exchange → Prop
  | .command cmd _ _ =>
    host.audit engine.runtime.exchange = true ∧
      ∀ primitive, primitiveOf cmd.code = some primitive → ¬ primitive.isAudited →
        KeepsAudit host primitive
  | .restart _ _ => True

def AllMeet (engine : Engine Exchange) : List (EngineEvent Exchange) → Prop
  | [] => True
  | event :: events => Meets host engine event ∧ AllMeet (engine.step host event) events

variable {host} {engine : Engine Exchange}

theorem audit_of_accepted (canWrite : Bool)
    (meets : Meets host engine (.command cmd today canWrite))
    (accepted : returned (apply host cmd.code cmd.amount.toInt64 (engine.world cmd today)).1 = 0) :
    host.audit (apply host cmd.code cmd.amount.toInt64
      (engine.world cmd today)).2.runtime.exchange = true := by
  unfold apply at accepted ⊢
  cases isCmd : primitiveOf cmd.code with
  | none => exact meets.1
  | some primitive =>
    rw [isCmd] at accepted
    have guards : Guards host (engine.world cmd today) _ _ _ :=
      guards_branch cmd.amount.toInt64 primitive
    unfold Guards Stoppable.Ends at guards
    split at guards
    · rename_i word after ran
      simp only [ran] at accepted ⊢
      have called := guards.2
      by_cases audited : primitive.isAudited
      · exact called.audited audited accepted
      · obtain ⟨_, -, performed⟩ := called.performed
        rw [performed]
        exact meets.2 primitive isCmd audited _ _ meets.1
    · rename_i word after ran
      simp only [ran] at accepted
      exact absurd accepted guards.1

/-- What holds between events: everything written is right, and an exchange that
passes the audit has no effects of refused commands. -/
structure Sound (host : ExchangeHost Exchange) (engine : Engine Exchange) : Prop where
  written : WritesAudited host engine
  refused : host.audit engine.runtime.exchange = true → engine.refused = []

theorem Sound.step (sound : Sound host engine) (meets : Meets host engine event) :
    Sound host (engine.step host event) := by
  cases event with
  | restart => exact ⟨sound.written, fun _ => rfl⟩
  | command cmd today canWrite =>
    have clean := sound.refused meets.1
    have audited := audit_of_accepted canWrite meets
    change Sound host (engine.runCmd host cmd today canWrite)
    unfold runCmd
    generalize apply host cmd.code cmd.amount.toInt64 (engine.world cmd today) = ran at audited ⊢
    by_cases refused : returned ran.1 ≠ 0
    · simp only [if_pos refused]
      refine ⟨sound.written, ?_⟩
      intro passes
      simp only [passes, if_true]
      exact clean
    · simp only [if_neg refused]
      refine ⟨?_, fun _ => clean⟩
      cases canWrite with
      | false => exact sound.written
      | true =>
        intro snapshot isWritten
        rcases List.mem_append.mp isWritten with isOld | isNew
        · exact sound.written snapshot isOld
        · cases List.mem_singleton.mp isNew
          exact ⟨audited (not_not.mp refused), clean⟩

/-- **Every snapshot passes the audit** in a run that starts from an exchange that
does and whose commands all meet the condition. -/
theorem writesAudited_of_allMeet (runtime : Runtime Exchange)
    (genesis : host.audit runtime.exchange = true) (events : List (EngineEvent Exchange))
    (meets : AllMeet host (start runtime) events) :
    WritesAudited host ((start runtime).run host events) := by
  have started : Sound host (start runtime) := by
    refine ⟨?_, fun _ => rfl⟩
    intro _ isWritten
    cases List.mem_singleton.mp isWritten
    exact ⟨genesis, rfl⟩
  unfold run
  generalize start runtime = engine at started meets ⊢
  induction events generalizing engine with
  | nil => exact started.written
  | cons _ _ ih => exact ih _ (started.step meets.1) meets.2

/-! ## Pegging in twice -/

def aliceOpens : Cmd := .openReserve "did:unfer:alice" (.replicate 32 0)

def alicePegsIn : Cmd := .pegIn "did:unfer:alice" (.replicate 32 0) 5

def opened {Exchange : Type} (exchange : Exchange) : Runtime Exchange :=
  ⟨⟨1000, 1000⟩, exchange, ⟨0, []⟩⟩

/-- An exchange that counts what is pegged in, of which the audit allows one. -/
def capped : ExchangeHost Nat where
  reserveOwner _ _ := some "did:unfer:alice"
  isDeposited _ _ := false
  coinOwner _ _ := none
  hasDenomination _ _ := false
  audit total := total ≤ 1
  hex _ := ""
  perform
    | .pegIn, runtime, ctx => (0, { runtime with exchange := runtime.exchange + 1 }, ctx)
    | _, runtime, ctx => (0, runtime, ctx)

/-- The audit of the first command passes and that of the second fails; after a
restart from the file the third one, which is not audited, is written too. -/
theorem writesAudited_of_restart : let events : List (EngineEvent Nat) :=
      [.command alicePegsIn 0 true, .command alicePegsIn 0 true, .restart 1 ⟨0, []⟩,
        .command aliceOpens 0 true]
    ((start (opened 0)).run capped (events.take 2)).refused = [alicePegsIn] ∧
    ((start (opened 0)).run capped events).written =
      [⟨0, ⟨0, []⟩, []⟩, ⟨1, ⟨0, []⟩, []⟩, ⟨1, ⟨0, []⟩, []⟩] ∧
    WritesAudited capped ((start (opened 0)).run capped events) := by
  refine ⟨rfl, rfl, writesAudited_of_allMeet (opened 0) rfl _ ?_⟩
  have audited : ∀ primitive, primitiveOf alicePegsIn.code = some primitive →
      ¬ primitive.isAudited → KeepsAudit capped primitive := by
    rintro _ ⟨⟩ notAudited
    exact absurd ⟨nofun, nofun⟩ notAudited
  have unaudited : ∀ primitive, primitiveOf aliceOpens.code = some primitive →
      ¬ primitive.isAudited → KeepsAudit capped primitive := by
    rintro _ ⟨⟩ - _ _ passes
    exact passes
  exact ⟨⟨rfl, audited⟩, ⟨rfl, audited⟩, trivial, ⟨rfl, unaudited⟩, trivial⟩

/-- The audit of the first command fails and nothing is written; the second is
accepted without an audit, and what is written has both. -/
theorem failed_audit_is_written : let events : List (EngineEvent Nat) :=
      [.command alicePegsIn 0 true, .command aliceOpens 0 true]
    returned (apply capped alicePegsIn.code alicePegsIn.amount.toInt64
      ((start (opened 1)).world alicePegsIn 0)).1 = 7 ∧
    ((start (opened 1)).run capped events).written =
      [⟨1, ⟨0, []⟩, []⟩, ⟨2, ⟨0, []⟩, [alicePegsIn]⟩] ∧
    ¬ WritesAudited capped ((start (opened 1)).run capped events) := by
  refine ⟨rfl, rfl, ?_⟩
  intro audited
  have last := audited ⟨2, ⟨0, []⟩, [alicePegsIn]⟩ (.tail _ (.head _))
  exact absurd last.1 (by decide)

end Engine

end AustralVM.Refi
