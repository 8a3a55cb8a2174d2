import AustralVM.RustText
import Mathlib.Data.Finset.Basic

/-!
# Network access of hosted modules

`uk_fetch` of the host: the URL is cut down to its authority, the authority is
compared with the allowlist of the module, and a connection is opened.  The
check and the connection read the port separately, and only the connection has
a default for it.
-/

namespace AustralVM.Egress

open RustText

/-- The authority of a URL, or nothing if it has none. -/
def fetchHost (url : List Char) : List Char :=
  let rest := match splitOnce "://".toList url with
    | some (_, rest) => rest
    | none => []
  rest.takeWhile fun char => char ≠ '/' && char ≠ '?' && char ≠ '#'

def parsePort (digits : List Char) : Option UInt16 :=
  let value := Nat.ofDigitChars 10 digits 0
  if value < 65536 then some (UInt16.ofNat value) else none

/-- A host with its port, if the text after the last colon is a port. -/
def splitHostPort (hostPort : List Char) : List Char × Option UInt16 :=
  match rsplitOnce ':' hostPort with
  | some (host, port) =>
    if port ≠ [] ∧ port.all Char.isDigit then
      match parsePort port with
      | some number => (host, some number)
      | none => (hostPort, none)
    else (hostPort, none)
  | none => (hostPort, none)

/-- An entry of the allowlist covers a host; the ports are compared only if both
are given. -/
def covers (entry : String) (host : List Char) : Bool :=
  let (requestHost, requestPort) := splitHostPort host
  let (grantHost, grantPort) := splitHostPort entry.toList
  if grantHost ≠ requestHost then false
  else
    match grantPort, requestPort with
    | some grantPort, some requestPort => grantPort = requestPort
    | _, _ => true

def egressAllowed (host : List Char) (allowlist : Finset String) : Bool :=
  if host = [] then false else decide (∃ entry ∈ allowlist, covers entry host)

def isLoopbackHost (host : List Char) : Bool :=
  let name := (splitHostPort host).1
  name = "127.0.0.1".toList || name = "localhost".toList || name = "::1".toList

structure Connection where
  host : List Char
  port : UInt16
  deriving DecidableEq, Repr

/-- The connection that the loopback fixture opens. -/
def loopbackGet (host : List Char) : Except String Connection :=
  if isLoopbackHost host then
    let (name, port) := splitHostPort host
    .ok ⟨name, port.getD 80⟩
  else
    .error ("fetch egress restricted to loopback fixture (host '" ++ String.ofList host ++ "')")

inductive FetchFlow
  | denied (message : String)
  | failed (code : Nat) (message : String)
  | connects (connection : Connection)
  deriving DecidableEq, Repr

def grantGate (principal : String) (url : List Char) (allowlist : Finset String) :
    Option String :=
  let host := fetchHost url
  if host = [] then some "UK-4001: uk_fetch requires a url with an explicit scheme://host"
  else if egressAllowed host allowlist then none
  else
    some ("UK-4001: Egress denied — '" ++ principal ++ "' has no net grant for host '" ++
      String.ofList host ++ "'")

/-- A fetch: the grant gate, the listeners after it, which may refuse it too, and
the connection. -/
def ukFetch (principal : String) (url : List Char) (allowlist : Finset String)
    (others : Option String) : FetchFlow :=
  match (grantGate principal url allowlist).or others with
  | some message => .denied message
  | none =>
    let host := fetchHost url
    if host = [] then .failed 1001 "uk_fetch: missing url"
    else
      match loopbackGet host with
      | .ok connection => .connects connection
      | .error error => .failed 4004 ("uk_fetch " ++ String.ofList host ++ ": " ++ error)

/-! ## Ports -/

/-- The allowlist has the host without a port, or with this port. -/
def Granted (allowlist : Finset String) (connection : Connection) : Prop :=
  (∃ entry ∈ allowlist, entry.toList = connection.host) ∨
    ∃ entry ∈ allowlist, splitHostPort entry.toList = (connection.host, some connection.port)

def namesPort (url : List Char) : Bool := (splitHostPort (fetchHost url)).2.isSome

theorem fst_splitHostPort_of_none (portless : (splitHostPort text).2 = none) :
    (splitHostPort text).1 = text := by
  rw [splitHostPort] at portless ⊢
  cases parts : rsplitOnce ':' text with
  | none => rfl
  | some pair =>
    obtain ⟨_, port⟩ := pair
    rw [parts] at portless
    by_cases isNumber : port ≠ [] ∧ port.all Char.isDigit
    · simp only [if_pos isNumber] at portless ⊢
      cases number : parsePort port with
      | none => rfl
      | some =>
        rw [number] at portless
        cases portless
    · simp only [if_neg isNumber]

theorem ukFetch_eq_connects
    (connects : ukFetch principal url allowlist others = .connects connection) :
    (∃ entry ∈ allowlist, covers entry (fetchHost url)) ∧
      connection = ⟨(splitHostPort (fetchHost url)).1,
        (splitHostPort (fetchHost url)).2.getD 80⟩ := by
  rw [ukFetch] at connects
  cases refused : (grantGate principal url allowlist).or others with
  | some =>
    rw [refused] at connects
    cases connects
  | none =>
    obtain ⟨passed, -⟩ := Option.or_eq_none_iff.mp refused
    simp only [refused] at connects
    split_ifs at connects with empty
    rw [loopbackGet] at connects
    split_ifs at connects with loopback
    simp only [grantGate, if_neg empty] at passed
    split_ifs at passed with allowed
    rw [egressAllowed, if_neg empty, decide_eq_true_eq] at allowed
    exact ⟨allowed, (FetchFlow.connects.inj connects).symm⟩

/-- A fetch that connects keeps to the ports of the allowlist exactly if its URL
names a port or the default port is granted. -/
theorem fetch_keeps_ports_iff {principal : String} {url : List Char} {allowlist : Finset String}
    {others : Option String} {connection : Connection}
    (connects : ukFetch principal url allowlist others = .connects connection) :
    Granted allowlist connection ↔ namesPort url ∨ Granted allowlist ⟨fetchHost url, 80⟩ := by
  obtain ⟨⟨entry, listed, covered⟩, rfl⟩ := ukFetch_eq_connects connects
  rw [namesPort]
  cases port : (splitHostPort (fetchHost url)).2 with
  | none =>
    rw [fst_splitHostPort_of_none port]
    simp only [Option.isSome_none, Bool.false_eq_true, false_or, Option.getD_none]
  | some =>
    refine iff_of_true ?_ (.inl rfl)
    rw [covers] at covered
    simp only [port, ne_eq, ite_not, Option.getD_some] at covered ⊢
    split_ifs at covered with sameHost
    cases grantPort : (splitHostPort entry.toList).2 with
    | none =>
      refine .inl ⟨entry, listed, ?_⟩
      rw [← fst_splitHostPort_of_none grantPort, sameHost]
    | some =>
      rw [grantPort] at covered
      refine .inr ⟨entry, listed, ?_⟩
      rw [← sameHost, ← of_decide_eq_true covered, ← grantPort]

/-- A URL with a port that is granted. -/
theorem fetch_keeps_ports_at_granted : Granted {"127.0.0.1:8080"} ⟨"127.0.0.1".toList, 8080⟩ :=
  (fetch_keeps_ports_iff (by decide +kernel :
    ukFetch "guest" "http://127.0.0.1:8080/".toList {"127.0.0.1:8080"} none =
      .connects ⟨"127.0.0.1".toList, 8080⟩)).mpr (.inl (by decide +kernel))

/-- A grant of another port lets a URL without a port connect. -/
theorem fetch_uses_ungranted_default_port :
    let connection : Connection := ⟨"127.0.0.1".toList, 80⟩
    ukFetch "guest" "http://127.0.0.1/".toList {"127.0.0.1:8080"} none =
        .connects connection ∧
      ¬ Granted {"127.0.0.1:8080"} connection := by
  refine ⟨by decide +kernel, ?_⟩
  rintro (⟨_, listed, same⟩ | ⟨_, listed, same⟩)
  · cases Finset.mem_singleton.mp listed
    exact absurd same (by decide +kernel)
  · cases Finset.mem_singleton.mp listed
    exact absurd same (by decide +kernel)

end AustralVM.Egress
