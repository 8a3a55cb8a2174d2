import AustralVM.JsonValue
import AustralVM.StoreCells
import Mathlib.Data.Vector.Basic

/-!
# The remote binary cache

Before it uploads chunks, a client asks the remote which of them it lacks.  It then
uploads what the reply lists, without comparing the list with what it asked for.
-/

namespace AustralVM.Cas

open List

def CasError.display : CasError → String
  | .io error => "i/o error: " ++ error
  | .notFound what => "not found: " ++ what
  | .corrupt what => "corrupt store data: " ++ what
  | .signature what => "signature check failed: " ++ what
  | .capacity what => "capacity error: " ++ what
  | .codec id => "unknown compression codec id " ++ toString id
  | .remote what => "remote cache error: " ++ what

def toDigit (byte : UInt8) : Except CasError Nat :=
  let value := byte.toNat
  if 48 ≤ value ∧ value ≤ 57 then .ok (value - 48)
  else if 97 ≤ value ∧ value ≤ 102 then .ok (value - 87)
  else if 65 ≤ value ∧ value ≤ 70 then .ok (value - 55)
  else .error (.corrupt "bad hex")

def unhex (text : String) : Except CasError Digest := do
  let bytes := utf8 text
  ensure (bytes.length = 64)
    (.corrupt ("digest must be 64 hex chars, got " ++ toString bytes.length))
  List.Vector.mOfFn fun index => do
    let high ← toDigit (bytes.getD (2 * index) 0)
    let low ← toDigit (bytes.getD (2 * index + 1) 0)
    return UInt8.ofNat (16 * high + low)

structure Status where
  code : Nat
  reason : String

def Status.isSuccess (status : Status) : Bool := 200 ≤ status.code && status.code < 300

abbrev Upload := Digest × List UInt8

/-- A remote under its address, with its reply to the question what it lacks. -/
structure Remote where
  base : String
  missing : List Digest → Except String (Status × Except String String)

namespace Remote

def statusErr (what url : String) (status : Status) : CasError :=
  .remote (what ++ " " ++ url ++ ": HTTP " ++ toString status.code ++ " " ++ status.reason)

def failed (context : String) (error : String) : CasError := .remote (context ++ error)

section

variable (fromStr : String → Except String Json)

def readMissing (text : String) : Except CasError (List Digest) := do
  let json ← (fromStr text).mapError (failed "missing-list ")
  match (json.member "missing").asArray with
  | none => .error (.remote "missing-list: no `missing` array")
  | some items => items.mapM fun item =>
    match item.asStr with
    | none => .error (.remote "missing-list: entry not a string")
    | some text => (unhex text).mapError fun error => failed "missing-list hex: " error.display

def missingChunks (remote : Remote) (ids : List Digest) : Except CasError (List Digest) := do
  let url := remote.base ++ "/chunks/missing"
  let (status, body) ← (remote.missing ids).mapError (failed ("POST " ++ url ++ ": "))
  ensure status.isSuccess (statusErr "POST" url status)
  readMissing fromStr (← body.mapError (failed ("POST " ++ url ++ " body: ")))

variable (remote : Remote) (put : List Upload → Except String Status)
  (getChunk : Digest → Except CasError (List UInt8))

/-- The uploads that were sent, with those of `sent`, and how it ended.  The remote may
answer an upload by all that it was sent. -/
def upload (sent : List Upload) : List Digest → List Upload × Except CasError Unit
  | [] => (sent, .ok ())
  | id :: missing =>
    match getChunk id with
    | .error error => (sent, .error error)
    | .ok bytes =>
      let url := remote.base ++ "/chunks/" ++ hexDigits id.toList
      match put (sent ++ [(id, bytes)]) with
      | .error error => (sent ++ [(id, bytes)], .error (failed ("PUT " ++ url ++ ": ") error))
      | .ok status =>
        if status.isSuccess then upload (sent ++ [(id, bytes)]) missing
        else (sent ++ [(id, bytes)], .error (statusErr "PUT" url status))

def pushChunks (ids : List Digest) : List Upload × Except CasError Nat :=
  match missingChunks fromStr remote ids with
  | .error error => ([], .error error)
  | .ok missing =>
    let (sent, ended) := upload remote put getChunk [] missing
    (sent, ended.map fun _ => missing.length)

/-- The part of a list before the first chunk that cannot be read. -/
def readable (listed : List Digest) : List Digest :=
  listed.takeWhile fun id => (getChunk id).isOk

theorem exists_upload_eq (sent : List Upload) (listed : List Digest) :
    ∃ more, (upload remote put getChunk sent listed).1 = sent ++ more ∧
      more.map Prod.fst <+: readable getChunk listed ∧
      ∀ chunk ∈ more, getChunk chunk.1 = .ok chunk.2 := by
  induction listed generalizing sent with
  | nil => exact ⟨[], by simp [upload], nil_prefix, by simp⟩
  | cons id listed ih =>
    cases read : getChunk id with
    | error => exact ⟨[], by simp [upload, read], nil_prefix, by simp⟩
    | ok bytes =>
      have one : [id] <+: readable getChunk (id :: listed) := by
        simp [readable, read, Except.isOk, Except.toBool]
      cases answer : put (sent ++ [(id, bytes)]) with
      | error => exact ⟨[(id, bytes)], by simp [upload, read, answer], one, by simp [read]⟩
      | ok status =>
        by_cases success : status.isSuccess = true
        · obtain ⟨more, isSent, begins, contents⟩ := ih (sent ++ [(id, bytes)])
          refine ⟨(id, bytes) :: more, ?_, ?_, ?_⟩
          · simp [upload, read, answer, success, isSent]
          · simpa [readable, read, Except.isOk, Except.toBool] using begins
          · simpa [read] using contents
        · exact ⟨[(id, bytes)], by simp [upload, read, answer, success], one, by simp [read]⟩

theorem upload_accepted (sent : List Upload) (listed : List Digest) :
    (upload remote (fun _ => .ok ⟨200, "OK"⟩) getChunk sent listed).1.map Prod.fst =
      sent.map Prod.fst ++ readable getChunk listed := by
  induction listed generalizing sent with
  | nil => simp [upload, readable]
  | cons id _ ih =>
    cases read : getChunk id with
    | error => simp [upload, readable, read, Except.isOk, Except.toBool]
    | ok bytes =>
      have rest := ih (sent ++ [(id, bytes)])
      simp only [readable, map_append, map_cons, map_nil] at rest
      simp [upload, readable, read, Status.isSuccess, rest, Except.isOk, Except.toBool]

end

/-- **An upload stays within the request**, with every chunk sent at most once and as it
is stored, for any way the remote answers uploads exactly when its reply lists only
requested chunks and none of them twice.  What the reply lists after a chunk that cannot
be read does not matter. -/
theorem pushChunks_within_request_iff (fromStr : String → Except String Json) (remote : Remote)
    (getChunk : Digest → Except CasError (List UInt8)) (ids : List Digest) :
    (∀ put, let sent := (pushChunks fromStr remote put getChunk ids).1
      (∀ chunk ∈ sent, chunk.1 ∈ ids ∧ getChunk chunk.1 = .ok chunk.2) ∧
      (sent.map Prod.fst).Nodup) ↔
    ∀ listed, missingChunks fromStr remote ids = .ok listed →
      (∀ id ∈ readable getChunk listed, id ∈ ids) ∧ (readable getChunk listed).Nodup := by
  constructor
  · intro within listed replied
    have sent := upload_accepted remote getChunk [] listed
    have known := within fun _ => .ok ⟨200, "OK"⟩
    simp only [pushChunks, replied] at known
    rw [map_nil, nil_append] at sent
    rw [sent] at known
    refine ⟨fun id member => ?_, known.2⟩
    rw [← sent] at member
    obtain ⟨chunk, isSent, rfl⟩ := mem_map.mp member
    exact (known.1 chunk isSent).1
  · intro listsRequested put
    cases replied : missingChunks fromStr remote ids with
    | error => simp [pushChunks, replied]
    | ok listed =>
      obtain ⟨requested, once⟩ := listsRequested listed replied
      obtain ⟨_, isSent, begins, contents⟩ := exists_upload_eq remote put getChunk [] listed
      simp only [pushChunks, replied, isSent, nil_append]
      refine ⟨fun chunk member => ⟨?_, contents chunk member⟩, begins.sublist.nodup once⟩
      exact requested chunk.1 (begins.subset (mem_map_of_mem member))

/-- A remote whose reply lists a chunk that nobody asked about. -/
def asksForMore : Remote where
  base := ""
  missing _ := .ok (⟨200, "OK"⟩, .ok "")

theorem pushChunks_uploads_unrequested : (pushChunks
      (fun _ => .ok (.object [("missing", .array [.string (hexDigits (List.replicate 32 0))])]))
      asksForMore (fun _ => .ok ⟨200, "OK"⟩) (fun _ => .ok [7]) []).1 =
        [(List.Vector.replicate 32 0, [7])] := by
  decide +kernel

end Remote

end AustralVM.Cas
