import Mathlib.Data.List.Basic

/-!
# The server's connection threads

`serve_listener` counts a connection before it spawns the thread for it, and the
thread gives its slot back after `handle_connection` has returned.  A handler that
panics ends the thread before that.
-/

namespace AustralVM.Refi

open List

/-- Where the accept loop stands between its accesses to the counter. -/
inductive AcceptLoop
  | waiting
  | admitted
  | counted
  deriving DecidableEq, Repr

/-- The slots that are counted for a thread not spawned yet. -/
def AcceptLoop.held : AcceptLoop → Nat
  | .counted => 1
  | _ => 0

/-- The counter, the threads inside `handle_connection`, and those that have returned
from it and not yet given their slot back.  The counter stays between zero and the
ceiling in every run, so that it never wraps. -/
structure Server where
  active : Nat := 0
  acceptLoop : AcceptLoop := .waiting
  handling : Nat := 0
  handled : Nat := 0
  deriving DecidableEq, Repr

def Server.running (server : Server) : Nat := server.handling + server.handled

/-- A step of the accept loop, or of one of the threads. -/
inductive ServerStep
  | incoming (accepted : Bool)
  | fetchAdd
  | spawn (started : Bool)
  | returns
  | panics
  | fetchSub
  deriving DecidableEq, Repr

namespace Server

/-- One step of `serve_listener`; `none` where nobody can take it. -/
def step (maxConnections : Nat) (server : Server) : ServerStep → Option Server
  | .incoming accepted =>
    if server.acceptLoop ≠ .waiting then none
    -- a failed accept and a shed connection leave the loop where it was
    else if accepted && server.active < maxConnections then
      some { server with acceptLoop := .admitted }
    else some server
  | .fetchAdd =>
    if server.acceptLoop ≠ .admitted then none
    else some { server with active := server.active + 1, acceptLoop := .counted }
  | .spawn started =>
    if server.acceptLoop ≠ .counted then none
    else if started then
      some { server with acceptLoop := .waiting, handling := server.handling + 1 }
    else some { server with acceptLoop := .waiting, active := server.active - 1 }
  | .returns =>
    if server.handling = 0 then none
    else some { server with handling := server.handling - 1, handled := server.handled + 1 }
  -- the unwinding thread never comes to its `fetch_sub`
  | .panics =>
    if server.handling = 0 then none
    else some { server with handling := server.handling - 1 }
  | .fetchSub =>
    if server.handled = 0 then none
    else some { server with handled := server.handled - 1, active := server.active - 1 }

def run (maxConnections : Nat) (server : Server) (steps : List ServerStep) : Option Server :=
  steps.foldlM (step maxConnections) server

/-- Every counted slot has a thread, or is one of those lost. -/
structure Balanced (maxConnections lost : Nat) (server : Server) : Prop where
  counts : server.active = server.running + server.acceptLoop.held + lost
  bounded : server.active ≤ maxConnections
  room : server.acceptLoop = .admitted → server.active < maxConnections

theorem Balanced.step {event : ServerStep} (balanced : Balanced maxConnections lost server)
    (stepped : server.step maxConnections event = some moved) :
    Balanced maxConnections (lost + [event].count .panics) moved := by
  obtain ⟨counts, _, _⟩ := balanced
  rw [running] at counts
  cases event with (simp only [Server.step] at stepped; split_ifs at stepped <;> cases stepped)
  | incoming | fetchAdd | spawn => constructor <;> grind [running, AcceptLoop.held]
  | returns | panics | fetchSub => constructor <;> grind [running]

theorem Balanced.run (balanced : Balanced maxConnections lost server)
    (ran : server.run maxConnections steps = some last) :
    Balanced maxConnections (lost + steps.count .panics) last := by
  induction steps generalizing server lost with
  | nil => exact Option.some.inj ran ▸ balanced
  | cons _ _ ih =>
    obtain ⟨_, stepped, ran⟩ := Option.bind_eq_some_iff.mp ran
    rw [count_cons, Nat.add_comm (count _ _), ← Nat.add_assoc]
    simpa [count_cons] using ih (balanced.step stepped) ran

theorem balanced_start : Balanced maxConnections 0 {} :=
  ⟨rfl, Nat.zero_le _, nofun⟩

/-- In every run, the counter is the number of connection threads that still run, with
the one that is about to be spawned, and stays under the ceiling, exactly if no handler
has panicked. -/
theorem active_eq_running_iff (ran : run maxConnections {} steps = some server) :
    (server.active = server.running + server.acceptLoop.held ∧ server.active ≤ maxConnections) ↔
      .panics ∉ steps := by
  have balanced := balanced_start.run ran
  rw [← count_eq_zero]
  constructor
  · intro ⟨_, _⟩
    have := balanced.counts
    omega
  · intro none
    exact ⟨by rw [balanced.counts, none]; rfl, balanced.bounded⟩

/-- A connection is in its handler when a second one comes and is shed. -/
theorem active_eq_running_shed :
    ({ active := 1, handling := 1 } : Server).active = 1 + AcceptLoop.waiting.held ∧ 1 ≤ 1 := by
  have ran : run 1 {} [.incoming true, .fetchAdd, .spawn true, .incoming true] =
    some { active := 1, handling := 1 } := rfl
  exact (active_eq_running_iff ran).mpr (by decide)

/-- After one panic no thread runs, and a server for one connection sheds every
connection from then on. -/
theorem panic_loses_slot :
    ∃ server, run 1 {} [.incoming true, .fetchAdd, .spawn true, .panics] = some server ∧
      server.running = 0 ∧ server.acceptLoop = .waiting ∧
      ∀ steps last, server.run 1 steps = some last → last.active = 1 := by
  refine ⟨_, rfl, rfl, rfl, fun steps last ran => ?_⟩
  have lost : Balanced 1 1 { active := 1 } := ⟨rfl, Nat.le_refl 1, nofun⟩
  have balanced := lost.run ran
  have := balanced.counts
  have := balanced.bounded
  omega

end Server

end AustralVM.Refi
