import AustralVM.RefiMediation

/-!
# The limits of the exchange

The service counts requests, sign-ins and registrations by client and minute.  The
client is what the accept loop knows of the connection: the address and the source
port, as one text.  A connection carries one request, so an address that opens each
of its connections from another port is counted anew each time.
-/

namespace AustralVM.Refi

open List String
open Stoppable (Keeps keeps_ofExcept keeps_stop)

/-! ## Connections -/

inductive IpAddr
  | v4 (first second third fourth : UInt8)
  /-- An address of version 6, as it is written. -/
  | v6 (text : String)
  deriving DecidableEq, Repr

structure SocketAddr where
  ip : IpAddr
  port : UInt16
  deriving DecidableEq, Repr

/-- `SocketAddr::to_string`. -/
def SocketAddr.text (addr : SocketAddr) : String :=
  match addr.ip with
  | .v4 first second third fourth =>
    toString first.toNat ++ "." ++ toString second.toNat ++ "." ++ toString third.toNat ++ "." ++
      toString fourth.toNat ++ ":" ++ toString addr.port.toNat
  | .v6 text => "[" ++ text ++ "]:" ++ toString addr.port.toNat

/-- A request that comes over a connection, the service as it is by then, and the
minute that each limit sees.  The other end may be unknown. -/
structure Arrival where
  service : Service
  peer : Option SocketAddr
  req : HttpRequest
  minute : Limit → Nat

namespace Arrival

variable (arrival : Arrival)

/-- The request as the accept loop hands it over. -/
def request : HttpRequest := { arrival.req with peer := (arrival.peer.map SocketAddr.text).getD "" }

def client : String := arrival.request.client

def IsFrom (ip : IpAddr) : Prop := arrival.peer.map SocketAddr.ip = some ip

instance (ip : IpAddr) : Decidable (arrival.IsFrom ip) := by
  unfold IsFrom
  infer_instance

/-- The throttle after the request: the counters, and the limits that it has passed. -/
def answered (counters : WindowCounters String) : Throttle :=
  (arrival.service.route arrival.minute arrival.request ⟨counters, []⟩).2

end Arrival

def countersAfter (counters : WindowCounters String) : List Arrival → WindowCounters String
  | [] => counters
  | arrival :: rest => countersAfter (arrival.answered counters).counters rest

/-- How many requests of an address pass a limit. -/
def served (ip : IpAddr) (limit : Limit) (counters : WindowCounters String) :
    List Arrival → Nat
  | [] => 0
  | arrival :: rest =>
    let after := arrival.answered counters
    (if arrival.IsFrom ip ∧ limit ∈ after.admitted then 1 else 0) +
      served ip limit after.counters rest

/-! ## Keys -/

/-- A text that cannot be mistaken for the key of a sign-in or of a registration. -/
def IsClient (text : String) : Prop :=
  text.toList.take 3 ≠ ['l', 'o', 'g'] ∧ text.toList.take 3 ≠ ['r', 'e', 'g']

variable {rest : String}

theorem isClient_of_digit {number : Nat} : IsClient (toString number ++ rest) := by
  have digits : (toString number).toList = Nat.toDigits 10 number := by
    change (ofList (Nat.toDigits 10 number)).toList = _
    rw [toList_ofList]
  rw [IsClient, toList_append, digits]
  cases split : Nat.toDigits 10 number with
  | nil => exact absurd split Nat.toDigits_ne_nil
  | cons char =>
    have isDigit : char.isDigit :=
      Nat.isDigit_of_mem_toDigits (by decide) (by decide) (split ▸ mem_cons_self)
    constructor
    · intro same
      rw [(List.cons.inj same).1] at isDigit
      exact absurd isDigit (by decide)
    · intro same
      rw [(List.cons.inj same).1] at isDigit
      exact absurd isDigit (by decide)

theorem SocketAddr.isClient_text (addr : SocketAddr) : IsClient addr.text := by
  rcases addr with ⟨ip, port⟩
  cases ip with
  | v4 =>
    simp only [text, String.append_assoc]
    exact isClient_of_digit
  | v6 =>
    simp only [SocketAddr.text, String.append_assoc]
    rw [IsClient, toList_append]
    exact ⟨nofun, nofun⟩

theorem Arrival.isClient_client (arrival : Arrival) : IsClient arrival.client := by
  rw [client, HttpRequest.client]
  split
  · exact ⟨by decide, by decide⟩
  · cases known : arrival.peer with
    | none => simp [request, known, IsClient]
    | some addr => simpa [request, known] using addr.isClient_text

theorem not_isClient_login (same : text = "login:" ++ rest) : ¬ IsClient text := by
  intro isClient
  apply isClient.1
  rw [same, toList_append]
  rfl

theorem not_isClient_register (same : text = "register:" ++ rest) : ¬ IsClient text := by
  intro isClient
  apply isClient.2
  rw [same, toList_append]
  rfl

theorem login_ne_register : "login:" ++ left ≠ "register:" ++ right := by
  intro same
  have chars := congrArg toList same
  rw [toList_append, toList_append] at chars
  cases chars

theorem Limit.key_inj {limit other : Limit} (leftClient : IsClient left)
    (rightClient : IsClient right) (same : limit.key left = other.key right) :
    limit = other ∧ left = right := by
  cases limit with
  | request =>
    cases other with
    | request => exact ⟨rfl, same⟩
    | login => exact absurd leftClient (not_isClient_login same)
    | registration => exact absurd leftClient (not_isClient_register same)
  | login =>
    cases other with
    | request => exact absurd rightClient (not_isClient_login same.symm)
    | login => exact ⟨rfl, (String.append_right_inj _).mp same⟩
    | registration => exact absurd same login_ne_register
  | registration =>
    cases other with
    | request => exact absurd rightClient (not_isClient_register same.symm)
    | login => exact absurd same.symm login_ne_register
    | registration => exact ⟨rfl, (String.append_right_inj _).mp same⟩

/-! ## One request -/

section Window

variable {ip : IpAddr} {limit : Limit} {client peer : String} {minute count : Nat}
  {counters : WindowCounters String}

/-- What has been served under a key in a window is counted, up to the limit. -/
def Within (limit : Limit) (client : String) (minute : Nat) (counters : WindowCounters String)
    (count : Nat) : Prop :=
  count = 0 ∨
    count ≤ counters.used (limit.key client) minute ∧
      counters.used (limit.key client) minute ≤ limit.perMinute

theorem Within.mono (within : Within limit client minute counters count) (le : less ≤ count) :
    Within limit client minute counters less := by
  rcases within with none | ⟨counted, few⟩
  · exact .inl (by omega)
  · exact .inr ⟨le.trans counted, few⟩

theorem Within.le_perMinute (within : Within limit client minute counters count) :
    count ≤ limit.perMinute := by
  rcases within with none | ⟨counted, few⟩
  · omega
  · exact counted.trans few

/-- How often a request has passed the limit as the client. -/
def passed (limit : Limit) (client peer : String) (admitted : List Limit) : Nat :=
  if peer = client then admitted.count limit else 0

/-- The invariant while a request is answered: what was served before it, and what it has
passed so far, is counted. -/
def Counted (limit : Limit) (client : String) (minute count : Nat) (peer : String)
    (throttle : Throttle) : Prop :=
  Within limit client minute throttle.counters
    (count + passed limit client peer throttle.admitted)

theorem Within.allow (within : Within limit client minute counters count) :
    Within limit client minute (counters.allow (limit.key client) limit.perMinute minute).2
      (count + (counters.allow (limit.key client) limit.perMinute minute).1.toNat) := by
  have free : (counters.allow (limit.key client) limit.perMinute minute).1 =
      decide (counters.used (limit.key client) minute < limit.perMinute) :=
    WindowCounters.allow_fst
  rw [Within, WindowCounters.used_allow, free]
  by_cases less : counters.used (limit.key client) minute < limit.perMinute
  · rw [decide_eq_true less, Bool.toNat_true]
    rcases within with none | ⟨counted, -⟩
    · exact .inr ⟨by omega, less⟩
    · exact .inr ⟨by omega, less⟩
  · rw [decide_eq_false less, Bool.toNat_false]
    exact within

theorem allowOrStop_snd : (allowOrStop now peer limit throttle).2 =
      ⟨(throttle.counters.allow (limit.key peer) limit.perMinute now).2,
        if (throttle.counters.allow (limit.key peer) limit.perMinute now).1
        then limit :: throttle.admitted else throttle.admitted⟩ := by
  rw [allowOrStop]
  split
  · rename_i counters allowed
    rw [allowed]
    rfl
  · rename_i counters refused
    rw [refused]
    rfl

theorem passed_cons_of_ne (differs : ¬ (other = limit ∧ peer = client)) :
    passed limit client peer (other :: admitted) = passed limit client peer admitted := by
  rw [passed, passed]
  split
  · rename_i same
    apply count_cons_of_ne
    intro isLimit
    exact differs ⟨isLimit, same⟩
  · rfl

theorem keeps_allowOrStop_within {other : Limit} (isClient : IsClient client)
    (isPeer : IsClient peer) (inWindow : other = limit → now = minute) :
    Keeps (Counted limit client minute count peer) (fun _ => True) (allowOrStop now peer other) := by
  intro throttle within
  refine ⟨?_, fun _ _ => trivial⟩
  rw [allowOrStop_snd, Counted]
  by_cases same : other = limit ∧ peer = client
  · obtain ⟨rfl, rfl⟩ := same
    obtain rfl := inWindow rfl
    have more : passed other peer peer
        (if (throttle.counters.allow (other.key peer) other.perMinute now).1
          then other :: throttle.admitted else throttle.admitted) =
        passed other peer peer throttle.admitted +
          (throttle.counters.allow (other.key peer) other.perMinute now).1.toNat := by
      rw [passed, passed, if_pos rfl, if_pos rfl]
      cases (throttle.counters.allow (other.key peer) other.perMinute now).1 with
      | false => rfl
      | true => exact count_cons_self
    dsimp only
    rw [more, ← Nat.add_assoc]
    exact within.allow
  · have apart : limit.key client ≠ other.key peer := by
      intro equal
      have both := Limit.key_inj isClient isPeer equal
      exact same ⟨both.1.symm, both.2.symm⟩
    have kept : passed limit client peer
        (if (throttle.counters.allow (other.key peer) other.perMinute now).1
          then other :: throttle.admitted else throttle.admitted) =
        passed limit client peer throttle.admitted := by
      split
      · exact passed_cons_of_ne same
      · rfl
    dsimp only
    rw [kept, Within, WindowCounters.used_allow_of_ne apart]
    exact within

theorem Within.answered {arrival : Arrival} (isClient : IsClient client)
    (inWindow : arrival.minute limit = minute)
    (within : Within limit client minute counters count) :
    Within limit client minute (arrival.answered counters).counters
      (count + passed limit client arrival.client (arrival.answered counters).admitted) := by
  have admits (other : Limit) :
      Keeps (Counted limit client minute count arrival.client) (fun _ => True)
        (allowOrStop (arrival.minute other) arrival.client other) :=
    keeps_allowOrStop_within isClient arrival.isClient_client fun same => same ▸ inWindow
  have dispatches (endpoint : Endpoint) :
      Keeps (Counted limit client minute count arrival.client) (fun _ => True)
        (arrival.service.dispatch arrival.minute arrival.request endpoint) := by
    rw [Service.dispatch.eq_def]
    split
    · exact (admits .login).bind fun _ _ => keeps_ofExcept fun _ _ => trivial
    · split
      · exact (admits .registration).bind fun _ _ => keeps_ofExcept fun _ _ => trivial
      · exact keeps_stop
    · exact keeps_ofExcept fun _ _ => trivial
  have routes :
      Keeps (Counted limit client minute count arrival.client) (fun _ => True)
        (arrival.service.route arrival.minute arrival.request) := by
    rw [Service.route]
    split
    · exact keeps_ofExcept fun _ _ => trivial
    · exact (admits .request).bind fun _ _ => dispatches _
  have start : passed limit client arrival.client [] = 0 := by rw [passed, count_nil, ite_self]
  refine (routes ⟨counters, []⟩ ?_).1
  rw [Counted, start]
  exact within

/-! ## Windows -/

theorem passed_of_isFrom {arrival : Arrival}
    (sameClient : arrival.IsFrom ip → arrival.client = client) :
    (if arrival.IsFrom ip ∧ limit ∈ (arrival.answered counters).admitted then 1 else 0) ≤
      passed limit client arrival.client (arrival.answered counters).admitted := by
  split
  · rename_i isServed
    rw [passed, if_pos (sameClient isServed.1)]
    exact count_pos_iff.mpr isServed.2
  · exact Nat.zero_le _

theorem Within.served (isClient : IsClient client)
    (inWindow : ∀ arrival ∈ window, arrival.minute limit = minute)
    (sameClient : ∀ arrival ∈ window, arrival.IsFrom ip → arrival.client = client)
    (within : Within limit client minute counters count) :
    count + Refi.served ip limit counters window ≤ limit.perMinute := by
  induction window generalizing counters count with
  | nil => exact within.le_perMinute
  | cons _ rest ih =>
    obtain ⟨first, others⟩ := forall_mem_cons.mp inWindow
    obtain ⟨firstClient, otherClients⟩ := forall_mem_cons.mp sameClient
    have after := within.answered isClient first
    have afterServed := after.mono (Nat.add_le_add_left (passed_of_isFrom firstClient) count)
    have rest := ih others otherClients afterServed
    rw [Refi.served, ← Nat.add_assoc]
    exact rest

end Window

/-! ## Runs -/

/-- In every window of a run, an address passes each limit at most as often as the limit
says. -/
def KeepsLimits (run : List Arrival) : Prop :=
  ∀ before window after, run = before ++ window ++ after →
    ∀ (ip : IpAddr) (limit : Limit) (minute : Nat),
      (∀ arrival ∈ window, arrival.minute limit = minute) →
        served ip limit (countersAfter (fun _ => none) before) window ≤ limit.perMinute

/-- The requests of an address in a minute all come from one port. -/
def OnePort (run : List Arrival) : Prop :=
  ∀ first ∈ run, ∀ second ∈ run, ∀ (ip : IpAddr) (limit : Limit),
    first.IsFrom ip → second.IsFrom ip → first.minute limit = second.minute limit →
      first.peer = second.peer

theorem served_eq_zero (absent : ∀ arrival ∈ window, ¬ arrival.IsFrom ip) :
    served ip limit counters window = 0 := by
  induction window generalizing counters with
  | nil => rfl
  | cons _ _ ih =>
    obtain ⟨first, others⟩ := forall_mem_cons.mp absent
    rw [served, if_neg fun isServed => first isServed.1, ih others]

theorem Arrival.client_eq {first second : Arrival} (same : first.peer = second.peer) :
    first.client = second.client := by
  have samePeer : first.request.peer = second.request.peer := by simp only [request, same]
  rw [client, client, HttpRequest.client, HttpRequest.client, samePeer]

/-- The limits hold in every run in which an address keeps to one port within a minute. -/
theorem keepsLimits_of_onePort (run : List Arrival) (onePort : OnePort run) : KeepsLimits run := by
  intro before window _ split ip limit minute inWindow
  have inRun {arrival : Arrival} (mem : arrival ∈ window) : arrival ∈ run := by
    rw [split]
    exact mem_append_left _ (mem_append_right _ mem)
  by_cases present : ∃ arrival ∈ window, arrival.IsFrom ip
  · obtain ⟨first, firstMem, firstFrom⟩ := present
    have sameClient (arrival : Arrival) (mem : arrival ∈ window) (isFrom : arrival.IsFrom ip) :
        arrival.client = first.client := by
      apply Arrival.client_eq
      apply onePort arrival (inRun mem) first (inRun firstMem) ip limit isFrom firstFrom
      rw [inWindow arrival mem, inWindow first firstMem]
    have start : Within limit first.client minute (countersAfter (fun _ => none) before) 0 :=
      .inl rfl
    have bound := start.served first.isClient_client inWindow sameClient
    rwa [Nat.zero_add] at bound
  · rw [served_eq_zero fun arrival mem isFrom => present ⟨arrival, mem, isFrom⟩]
    exact Nat.zero_le _

/-- An attempt to sign in from a port, all in one minute. -/
def signInFrom (port : UInt16) : Arrival where
  service := corner
  peer := some ⟨.v4 10 0 0 1, port⟩
  req := ⟨"POST", "/admin/login", [], [], .null, [("token", "guess")], ""⟩
  minute := fun _ => 0

theorem keepsLimits_of_repeated : OnePort (List.replicate 300 (signInFrom 4000)) ∧
      KeepsLimits (List.replicate 300 (signInFrom 4000)) := by
  have onePort : OnePort (List.replicate 300 (signInFrom 4000)) := by
    intro _ firstMem _ secondMem _ _ _ _ _
    rw [eq_of_mem_replicate firstMem, eq_of_mem_replicate secondMem]
  exact ⟨onePort, keepsLimits_of_onePort _ onePort⟩

/-- Eleven sign-ins from eleven ports of one address. -/
def spreadSignIns : List Arrival :=
  (List.range 11).map fun port => signInFrom (UInt16.ofNat (4000 + port))

theorem ports_evade_limits : ¬ KeepsLimits spreadSignIns := by
  intro keeps
  have all : served (.v4 10 0 0 1) .login (fun _ => none) spreadSignIns = 11 := by decide +kernel
  have oneMinute : ∀ arrival ∈ spreadSignIns, arrival.minute .login = 0 := by
    intro _ mem
    obtain ⟨_, -, rfl⟩ := mem_map.mp mem
    rfl
  have bound := keeps [] spreadSignIns [] (append_nil _).symm (.v4 10 0 0 1) .login 0 oneMinute
  rw [countersAfter, all] at bound
  exact absurd bound (by decide)

end AustralVM.Refi
