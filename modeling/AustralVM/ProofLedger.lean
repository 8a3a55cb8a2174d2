import Mathlib.Data.List.Induction
import Mathlib.Data.List.Nodup
import Mathlib.Data.String.Basic
import Mathlib.Logic.Function.Basic

/-!
# The ledger of published proofs

The exchange keeps one row for each development that it has submitted to the
proof backend.  The id of a row is the digest of title, specification and proof,
joined by line breaks, and a development whose row is already published is
answered with that row.  The three texts may have line breaks of their own, so
the same joined text can come from different developments.
-/

namespace AustralVM.Refi

open List Function

/-! ## The ledger -/

inductive State
  | queued
  | verified
  | published
  | rejected
  | failed
  deriving DecidableEq, Repr

def State.isPending : State → Bool
  | .queued | .verified => true
  | _ => false

structure Proof where
  id : String
  project : String
  title : String
  sha256 : String
  state : State
  mm0Proof : Option String
  zenodoRecord : Option Nat
  doi : Option String
  url : Option String
  log : Option String
  detail : Option String
  submittedBy : String
  submittedAt : Nat
  updatedAt : Nat
  deriving DecidableEq, Repr

structure Submission where
  title : String
  mm0 : String
  mm1 : String
  deriving DecidableEq, Repr

structure PublishReply where
  status : Nat
  proof : Option String
  doi : Option String
  record : Option Nat
  url : Option String
  log : Option String
  stage : Option String
  error : Option String

/-- What the backend says about a proof that it knows. -/
structure ProofReply where
  state : String
  doi : Option String
  record : Option Nat
  url : Option String
  log : Option String

structure Store where
  proofs : List Proof

open Store

namespace Store

def byId (store : Store) (id : String) : Option Proof := store.proofs.find? (·.id = id)

/-- Newest first, in the place of an earlier row with the same id. -/
def put (store : Store) (proof : Proof) : Store where
  proofs := proof :: store.proofs.filter (·.id ≠ proof.id)

end Store

section Digest

-- The digest of the bytes of a text, in hexadecimal.
variable (sha256Hex : String → String)

def joined (submission : Submission) : String :=
  submission.title ++ "\n" ++ submission.mm0 ++ "\n" ++ submission.mm1

def recordId (submission : Submission) : String := sha256Hex (joined submission)

def newProof (id actor project : String) (submission : Submission) (reply : PublishReply)
    (now : Nat) : Proof :=
  let (state, detail) : State × Option String :=
    if reply.status = 400 then
      (.rejected, (reply.stage.map ("rejected at " ++ ·)).or reply.error)
    else if reply.status = 200 then
      if reply.doi.isSome then (.published, none)
      else (.verified, some "mm0web verified the development but reported no deposit")
    else if reply.status = 202 then (.queued, none)
    else if reply.status = 502 then (.verified, reply.error)
    else (.failed, reply.error.or (some ("mm0web answered " ++ toString reply.status)))
  { id
    project
    title := submission.title
    sha256 := sha256Hex (submission.mm0 ++ "\n" ++ submission.mm1)
    state
    mm0Proof := reply.proof
    zenodoRecord := reply.record
    doi := reply.doi
    url := reply.url
    log := reply.log
    detail
    submittedBy := actor
    submittedAt := now
    updatedAt := now }

/-- The row that a submission is answered with, without asking the backend. -/
def alreadyPublished (store : Store) (submission : Submission) : Option Proof :=
  (store.byId (recordId sha256Hex submission)).filter (·.state = .published)

/-- What a submission leads to: an answer, and the rows if they have changed.
`reply` is what the backend answers, if there is one. -/
def publish (store : Store) (actor project : String) (submission : Submission)
    (reply : Option (Except String PublishReply)) (now : Nat) (saved : Except String Unit) :
    Except String Proof × Option Store :=
  match alreadyPublished sha256Hex store submission with
  | some existing => (.ok existing, none)
  | none =>
    match reply with
    | none => (.error "proof publishing is not configured on this exchange", none)
    | some (.error error) => (.error error, none)
    | some (.ok reply) =>
      let proof :=
        newProof sha256Hex (recordId sha256Hex submission) actor project submission reply now
      (saved.map fun _ => proof, some (store.put proof))

end Digest

/-! ### News from the backend -/

/-- A field is replaced by a value that is there. -/
def learn {α : Type} (field news : Option α) : Option α := news.or field

def nextState (proof : Proof) (reply : ProofReply) : State :=
  if reply.state = "published" then .published
  else if reply.state = "publish-failed" then .failed
  else if reply.state = "verified" then .verified
  else proof.state

/-- The row after the backend has been asked about it. -/
def refreshed (proof : Proof) (reply : ProofReply) (now : Nat) : Proof :=
  let next :=
    { proof with
      state := nextState proof reply
      doi := learn proof.doi reply.doi
      zenodoRecord := learn proof.zenodoRecord reply.record
      url := learn proof.url reply.url
      log := learn proof.log reply.log }
  if next = proof then proof else { next with updatedAt := now }

/-- Change the first row with an id, and say if it is another one now. -/
def updateFirst (id : String) (change : Proof → Proof) : List Proof → List Proof × Bool
  | [] => ([], false)
  | proof :: proofs =>
    if proof.id = id then (change proof :: proofs, change proof ≠ proof)
    else
      let (proofs, touched) := updateFirst id change proofs
      (proof :: proofs, touched)

/-- Ask about one pending row that the backend has a name for. -/
def refreshRow (ask : String → String → Option ProofReply) (now : Nat)
    (rows : List Proof × Bool) (proof : Proof) : List Proof × Bool :=
  match proof.mm0Proof.bind (ask proof.project) with
  | none => rows
  | some reply =>
    let (proofs, touched) := updateFirst proof.id (fun row => refreshed row reply now) rows.1
    (proofs, rows.2 || touched)

/-- Ask about every pending row.  The result is the rows, and whether one has
changed. -/
def refresh (store : Store) (ask : String → String → Option ProofReply) (now : Nat) :
    Store × Bool :=
  let pending := store.proofs.filter (·.state.isPending)
  let (proofs, changed) := pending.foldl (refreshRow ask now) (store.proofs, false)
  ({ proofs }, changed)

/-! ## The ledger over time -/

/-- The rows in memory and in the file.  For each id it is kept which submission
the row there was made from. -/
structure Shelf where
  store : Store
  origin : String → Option Submission

/-- The ledger of a running exchange, and its file. -/
structure Books where
  memory : Shelf
  disk : Shelf

inductive LedgerEvent
  | publish (actor project : String) (submission : Submission)
      (reply : Option (Except String PublishReply)) (now : Nat) (saved : Except String Unit)
  | refresh (ask : String → String → Option ProofReply) (now : Nat) (saved : Except String Unit)
  | restart

namespace Books

/-- The file has what is in memory, if it could be written. -/
def save (books : Books) (saved : Except String Unit) : Books :=
  match saved with
  | .ok _ => { books with disk := books.memory }
  | .error _ => books

variable (sha256Hex : String → String)

def step (books : Books) : LedgerEvent → Books
  | .publish actor project submission reply now saved =>
    match (Refi.publish sha256Hex books.memory.store actor project submission reply now saved).2
    with
    | none => books
    | some store =>
      let origin := update books.memory.origin (recordId sha256Hex submission)
        (some submission)
      save { books with memory := { store, origin } } saved
  | .refresh ask now saved =>
    let result := Refi.refresh books.memory.store ask now
    let books := { books with memory := { books.memory with store := result.1 } }
    if result.2 then books.save saved else books
  | .restart => { books with memory := books.disk }

def empty : Books := ⟨⟨⟨[]⟩, fun _ => none⟩, ⟨⟨[]⟩, fun _ => none⟩⟩

def run (books : Books) (events : List LedgerEvent) : Books := events.foldl (step sha256Hex) books

end Books

/-! ## Which developments share an id -/

def Submission.OneLine (submission : Submission) : Prop :=
  '\n' ∉ submission.title.toList ∧ '\n' ∉ submission.mm0.toList ∧ '\n' ∉ submission.mm1.toList

instance (submission : Submission) : Decidable submission.OneLine :=
  inferInstanceAs (Decidable (_ ∧ _ ∧ _))

theorem toList_joined (submission : Submission) :
    (joined submission).toList = submission.title.toList ++
      '\n' :: (submission.mm0.toList ++ '\n' :: submission.mm1.toList) := by
  simp [joined, String.toList_append]

theorem eq_of_append_break (plain : '\n' ∉ front) (plain' : '\n' ∉ front')
    (same : front ++ '\n' :: rest = front' ++ '\n' :: rest') : front = front' ∧ rest = rest' := by
  have untilBreak {front rest : List Char} (plain : '\n' ∉ front) :
      (front ++ '\n' :: rest).takeWhile (· ≠ '\n') = front := by
    rw [takeWhile_append_of_pos fun char isIn =>
      decide_eq_true (ne_of_mem_of_not_mem isIn plain)]
    simp
  have fronts : front = front' := by rw [← untilBreak plain, same, untilBreak plain']
  subst fronts
  exact ⟨rfl, (List.cons.inj (append_cancel_left same)).2⟩

theorem eq_of_joined_eq (oneLine : submission.OneLine)
    (same : joined submission' = joined submission) : submission' = submission := by
  have chars := congrArg String.toList same
  rw [toList_joined, toList_joined] at chars
  have breaks := congrArg (List.count '\n') chars
  simp only [count_append, count_cons_self, count_eq_zero.mpr oneLine.1,
    count_eq_zero.mpr oneLine.2.1, count_eq_zero.mpr oneLine.2.2] at breaks
  have title' : '\n' ∉ submission'.title.toList := count_eq_zero.mp (by omega)
  have mm0' : '\n' ∉ submission'.mm0.toList := count_eq_zero.mp (by omega)
  obtain ⟨title, rest⟩ := eq_of_append_break title' oneLine.1 chars
  obtain ⟨mm0, mm1⟩ := eq_of_append_break mm0' oneLine.2.1 rest
  cases submission
  cases submission'
  rw [Submission.mk.injEq]
  exact ⟨String.toList_inj.mp title, String.toList_inj.mp mm0, String.toList_inj.mp mm1⟩

theorem exists_break (broken : '\n' ∈ text.toList) :
    ∃ front back : String, text = front ++ "\n" ++ back := by
  obtain ⟨front, back, split⟩ := append_of_mem broken
  refine ⟨String.ofList front, String.ofList back, ?_⟩
  apply String.toList_inj.mp
  simp [split, String.toList_append]

theorem append_break_ne (front back : String) : front ++ "\n" ++ back ≠ front := by
  intro same
  have chars := congrArg (List.length ∘ String.toList) same
  simp [String.toList_append] at chars

theorem exists_joined_eq (broken : ¬ submission.OneLine) :
    ∃ other, other ≠ submission ∧ joined other = joined submission := by
  obtain ⟨title, mm0, mm1⟩ := submission
  by_cases inTitle : '\n' ∈ title.toList
  · obtain ⟨front, back, rfl⟩ := exists_break inTitle
    refine ⟨⟨front, back, mm0 ++ "\n" ++ mm1⟩, ?_, by simp only [joined, String.append_assoc]⟩
    intro same
    exact append_break_ne front back (congrArg Submission.title same).symm
  by_cases inMm0 : '\n' ∈ mm0.toList
  · obtain ⟨front, back, rfl⟩ := exists_break inMm0
    refine ⟨⟨title ++ "\n" ++ front, back, mm1⟩, ?_, by simp only [joined, String.append_assoc]⟩
    intro same
    exact append_break_ne title front (congrArg Submission.title same)
  by_cases inMm1 : '\n' ∈ mm1.toList
  · obtain ⟨front, back, rfl⟩ := exists_break inMm1
    refine ⟨⟨title, mm0 ++ "\n" ++ front, back⟩, ?_, by simp only [joined, String.append_assoc]⟩
    intro same
    exact append_break_ne mm0 front (congrArg Submission.mm0 same)
  · exact absurd ⟨inTitle, inMm0, inMm1⟩ broken

/-! ## Where the rows come from -/

section Origins

variable {sha256Hex : String → String}

/-- Every row has the id of the submission that it was made from. -/
def Shelf.Traced (sha256Hex : String → String) (shelf : Shelf) : Prop :=
  ∀ row ∈ shelf.store.proofs, ∃ submission,
    shelf.origin row.id = some submission ∧ recordId sha256Hex submission = row.id

theorem refreshed_id (proof : Proof) (reply : ProofReply) (now : Nat) :
    (refreshed proof reply now).id = proof.id := by
  simp only [refreshed]
  split <;> rfl

theorem updateFirst_ids (id : String) (keeps : ∀ proof, (change proof).id = proof.id)
    (rows : List Proof) : (updateFirst id change rows).1.map (·.id) = rows.map (·.id) := by
  induction rows with
  | nil => rfl
  | cons _ _ ih =>
    rw [updateFirst]
    split
    · simp only [map_cons, keeps]
    · simp only [map_cons, ih]

theorem refreshRow_ids (ask : String → String → Option ProofReply) (now : Nat)
    (rows : List Proof × Bool) (proof : Proof) :
    (refreshRow ask now rows proof).1.map (·.id) = rows.1.map (·.id) := by
  unfold refreshRow
  split
  · rfl
  · exact updateFirst_ids proof.id (fun row => refreshed_id row _ now) rows.1

theorem refresh_ids (store : Store) (ask : String → String → Option ProofReply) (now : Nat) :
    (refresh store ask now).1.proofs.map (·.id) = store.proofs.map (·.id) := by
  have loop : ∀ (pending : List Proof) (rows : List Proof × Bool),
      (pending.foldl (refreshRow ask now) rows).1.map (·.id) = rows.1.map (·.id) := by
    intro pending
    induction pending with
    | nil => exact fun rows => rfl
    | cons _ _ ih =>
      intro _
      rw [foldl_cons, ih, refreshRow_ids]
  exact loop _ _

theorem doi_of_newProof
    (published : (newProof sha256Hex key actor project submission reply now).state = .published) :
    reply.doi.isSome := by
  simp only [newProof] at published
  split_ifs at published with _ _ hasDoi
  exact hasDoi

theorem publish_store (store : Store) (actor project : String) (submission : Submission)
    (reply : Option (Except String PublishReply)) (now : Nat) (saved : Except String Unit) :
    (publish sha256Hex store actor project submission reply now saved).2 = none ∨
      ∃ proof, proof.id = recordId sha256Hex submission ∧
        (proof.state = .published → proof.doi.isSome) ∧
        alreadyPublished sha256Hex store submission = none ∧
        (publish sha256Hex store actor project submission reply now saved).2 =
          some (store.put proof) := by
  unfold publish
  split
  next => exact .inl rfl
  next absent =>
    split
    next => exact .inl rfl
    next => exact .inl rfl
    next =>
      refine .inr ⟨newProof sha256Hex _ actor project submission _ now, ?_, doi_of_newProof,
        absent, rfl⟩
      rfl

theorem Shelf.Traced.put {shelf : Shelf} (traced : shelf.Traced sha256Hex) {proof : Proof}
    {submission : Submission} (isId : proof.id = recordId sha256Hex submission) :
    Shelf.Traced sha256Hex
      { store := shelf.store.put proof
        origin := update shelf.origin (recordId sha256Hex submission)
          (some submission) } := by
  intro row isRow
  change ∃ origin, update shelf.origin _ (some submission) row.id = some origin ∧ _
  by_cases same : row.id = recordId sha256Hex submission
  · exact ⟨submission, by rw [same, update_self], same.symm⟩
  · have kept : row ∈ shelf.store.proofs := by
      rcases mem_cons.mp isRow with rfl | isOther
      · exact absurd isId same
      · exact mem_of_mem_filter isOther
    obtain ⟨origin, _, hasId⟩ := traced row kept
    exact ⟨origin, by rwa [update_of_ne same], hasId⟩

theorem Shelf.Traced.of_ids {shelf : Shelf} (traced : shelf.Traced sha256Hex) {store : Store}
    (ids : store.proofs.map (·.id) = shelf.store.proofs.map (·.id)) :
    Shelf.Traced sha256Hex { shelf with store } := by
  intro row isRow
  have isId : row.id ∈ shelf.store.proofs.map (·.id) := by
    rw [← ids]
    exact mem_map_of_mem isRow
  obtain ⟨row', isRow', sameId⟩ := mem_map.mp isId
  rw [← sameId]
  exact traced row' isRow'

namespace Books

/-- The rows in memory and in the file have their origins. -/
def Traced (sha256Hex : String → String) (books : Books) : Prop :=
  books.memory.Traced sha256Hex ∧ books.disk.Traced sha256Hex

theorem Traced.save {books : Books} (traced : books.Traced sha256Hex)
    (saved : Except String Unit) : (books.save saved).Traced sha256Hex := by
  cases saved with
  | error => exact traced
  | ok => exact ⟨traced.1, traced.1⟩

theorem Traced.step {books : Books} (traced : books.Traced sha256Hex) (event : LedgerEvent) :
    (books.step sha256Hex event).Traced sha256Hex := by
  cases event with
  | publish actor project submission reply now saved =>
    rw [Books.step]
    rcases publish_store books.memory.store actor project submission reply now saved with
      unchanged | ⟨proof, isId, -, -, changed⟩
    · rw [unchanged]
      exact traced
    · rw [changed]
      have next : Traced sha256Hex ⟨_, books.disk⟩ := ⟨traced.1.put isId, traced.2⟩
      exact next.save saved
  | refresh ask now saved =>
    have next : Traced sha256Hex ⟨_, books.disk⟩ :=
      ⟨traced.1.of_ids (refresh_ids books.memory.store ask now), traced.2⟩
    rw [Books.step]
    cases (refresh books.memory.store ask now).2 with
    | true => exact next.save saved
    | false => exact next
  | restart => exact ⟨traced.2, traced.2⟩

theorem traced_run (events : List LedgerEvent) : (run sha256Hex empty events).Traced sha256Hex := by
  have start : empty.Traced sha256Hex := by constructor <;> intro row isRow <;> cases isRow
  unfold run
  generalize empty = books at start ⊢
  induction events generalizing books with
  | nil => exact start
  | cons event _ ih => exact ih _ (start.step event)

end Books

end Origins

/-! ## Which rows are returned -/

/-- The ledger answers a submission only with a row that was made from it, and no
other submission has its id. -/
def AnsweredByOwnRow (sha256Hex : String → String) (submission : Submission) : Prop :=
  (∀ events row,
    alreadyPublished sha256Hex (Books.run sha256Hex .empty events).memory.store submission =
      some row →
    (Books.run sha256Hex .empty events).memory.origin row.id = some submission) ∧
  ∀ other, recordId sha256Hex other = recordId sha256Hex submission → other = submission

theorem id_of_alreadyPublished (found : alreadyPublished sha256Hex store submission = some row) :
    row ∈ store.proofs ∧ row.id = recordId sha256Hex submission := by
  have isRow := (Option.filter_eq_some_iff.mp found).1
  exact ⟨mem_of_find?_eq_some isRow, by simpa using find?_some isRow⟩

/-- **Rows are returned to their own submission.**  With a digest without
collisions that is so exactly for submissions whose texts have no line break. -/
theorem answeredByOwnRow_iff {sha256Hex : String → String}
    (collisionFree : Function.Injective sha256Hex) (submission : Submission) :
    AnsweredByOwnRow sha256Hex submission ↔ submission.OneLine := by
  constructor
  · intro answered
    by_contra broken
    obtain ⟨other, different, same⟩ := exists_joined_eq broken
    exact different (answered.2 other (congrArg sha256Hex same))
  · intro oneLine
    have unique : ∀ other, recordId sha256Hex other = recordId sha256Hex submission →
        other = submission :=
      fun other same => eq_of_joined_eq oneLine (collisionFree same)
    refine ⟨?_, unique⟩
    intro events row found
    obtain ⟨isRow, isId⟩ := id_of_alreadyPublished found
    obtain ⟨origin, isOrigin, hasId⟩ := (Books.traced_run events).1 row isRow
    rw [isOrigin, unique origin (hasId.trans isId)]

def plainProof : Submission := ⟨"truth", "provable sort wff;", "axiom ax_true"⟩

theorem answeredByOwnRow_of_plainProof : AnsweredByOwnRow id plainProof :=
  (answeredByOwnRow_iff injective_id plainProof).mpr (by decide)

def archived : PublishReply where
  status := 200
  proof := some "p1"
  doi := some "10.5281/zenodo.1"
  record := some 1
  url := none
  log := none
  stage := none
  error := none

/-- The first line of a specification is moved to the title: the second
development is never sent to the backend, and the row of the first is returned. -/
theorem other_proof_is_returned :
    let first : Submission := ⟨"truth", "-- by hand\nprovable sort wff;", "axiom ax_true"⟩
    let second : Submission := ⟨"truth\n-- by hand", "provable sort wff;", "axiom ax_true"⟩
    let books := Books.run id .empty [.publish "admin" "refi" first (some (.ok archived)) 0 (.ok ())]
    first ≠ second ∧ recordId id first = recordId id second ∧
      ∃ row, alreadyPublished id books.memory.store second = some row ∧
        row.title = first.title ∧ books.memory.origin row.id = some first := by
  decide

/-! ## Published rows -/

section Published

variable {ask : String → String → Option ProofReply} {now : Nat} {rows pending : List Proof}
  {row : Proof} {store : Store}

abbrev Distinct (rows : List Proof) : Prop := (rows.map (·.id)).Nodup

/-- A row after the news about a pending one. -/
def hear (ask : String → String → Option ProofReply) (now : Nat) (row pending : Proof) : Proof :=
  if row.id = pending.id then
    match pending.mm0Proof.bind (ask pending.project) with
    | none => row
    | some reply => refreshed row reply now
  else row

theorem hear_of_ne (others : ∀ other ∈ pending, other.id ≠ row.id) :
    pending.foldl (hear ask now) row = row := by
  induction pending with
  | nil => rfl
  | cons other pending ih =>
    obtain ⟨differs, others⟩ := forall_mem_cons.mp others
    rw [foldl_cons, hear, if_neg differs.symm, ih others]

theorem hear_of_mem (distinct : Distinct pending) (member : row ∈ pending) :
    pending.foldl (hear ask now) row = hear ask now row row := by
  obtain ⟨front, back, rfl⟩ := append_of_mem member
  rw [Distinct, map_append, map_cons, nodup_middle, nodup_cons, ← map_append] at distinct
  have others : ∀ other ∈ front ++ back, other.id ≠ row.id :=
    fun other isOther same => distinct.1 (same ▸ mem_map_of_mem isOther)
  rw [forall_mem_append] at others
  have sameId : (hear ask now row row).id = row.id := by
    rw [hear, if_pos rfl]
    split
    · rfl
    · exact refreshed_id _ _ _
  rw [foldl_append, foldl_cons, hear_of_ne others.1, hear_of_ne (sameId ▸ others.2)]

theorem updateFirst_eq_map (distinct : Distinct rows) (id : String)
    (change : Proof → Proof) : (updateFirst id change rows).1 =
      rows.map fun row => if row.id = id then change row else row := by
  induction rows with
  | nil => rfl
  | cons first rows ih =>
    rw [Distinct, map_cons, nodup_cons] at distinct
    rw [updateFirst, map_cons]
    split
    next same =>
      have others : ∀ row ∈ rows, (if row.id = id then change row else row) = row :=
        fun row member => if_neg fun sameId : row.id = id =>
          distinct.1 (mem_map.mpr ⟨row, member, sameId.trans same.symm⟩)
      rw [map_congr_left others, map_id']
    next => exact congrArg (first :: ·) (ih distinct.2)

theorem refreshRow_eq_map (distinct : Distinct rows) (changed : Bool) (proof : Proof) :
    (refreshRow ask now (rows, changed) proof).1 = rows.map (hear ask now · proof) := by
  unfold refreshRow hear
  split
  next => simp
  next => exact updateFirst_eq_map distinct _ _

theorem foldl_refreshRow (distinct : Distinct rows) (changed : Bool) :
    (pending.foldl (refreshRow ask now) (rows, changed)).1 =
      rows.map fun row => pending.foldl (hear ask now) row := by
  induction pending generalizing rows changed with
  | nil => simp
  | cons proof pending ih =>
    have ids := refreshRow_ids ask now (rows, changed) proof
    rw [foldl_cons, ← Prod.eta (refreshRow _ _ _ _), ih ((congrArg Nodup ids).mpr distinct),
      refreshRow_eq_map distinct, map_map]
    rfl

theorem refresh_eq_map (distinct : Distinct store.proofs) : (refresh store ask now).1.proofs =
      store.proofs.map fun row => if row.state.isPending then hear ask now row row else row := by
  refine (foldl_refreshRow distinct false).trans (map_congr_left fun row member => ?_)
  split
  next isPending =>
    exact hear_of_mem (distinct.sublist (filter_sublist.map _)) (mem_filter.mpr ⟨member, isPending⟩)
  next settled =>
    refine hear_of_ne fun other isPending sameId => settled ?_
    rw [mem_filter] at isPending
    exact inj_on_of_nodup_map distinct isPending.1 member sameId ▸ isPending.2

/-- What is done with the rows.  A certificate is minted from a row without a change
to it. -/
inductive ProofOperation
  | publish (actor project : String) (submission : Submission)
      (reply : Option (Except String PublishReply)) (now : Nat) (saved : Except String Unit)
  | refresh (ask : String → String → Option ProofReply) (now : Nat)
  | mint (id : String)

variable (sha256Hex : String → String)

def Store.after (store : Store) : ProofOperation → Store
  | .publish actor project submission reply now saved =>
    (publish sha256Hex store actor project submission reply now saved).2.getD store
  | .refresh ask now => (Refi.refresh store ask now).1
  | .mint _ => store

def Store.afterAll (operations : List ProofOperation) : Store :=
  operations.foldl (after sha256Hex) ⟨[]⟩

def Store.Cited (store : Store) : Prop :=
  ∀ row ∈ store.proofs, row.state = .published → row.doi.isSome

/-- A pending row that the backend calls published has a DOI or is given one. -/
def ProofOperation.Cites (store : Store) : ProofOperation → Prop
  | .refresh ask _ => ∀ row ∈ store.proofs, row.state.isPending →
      ∀ reply, row.mm0Proof.bind (ask row.project) = some reply → reply.state = "published" →
        (learn row.doi reply.doi).isSome
  | _ => True

variable {sha256Hex} {operation : ProofOperation}

theorem refreshed_fields (row : Proof) (reply : ProofReply) (now : Nat) :
    (refreshed row reply now).state = nextState row reply ∧
      (refreshed row reply now).doi = learn row.doi reply.doi := by
  simp only [refreshed]
  split
  next same => exact ⟨congrArg Proof.state same.symm, congrArg Proof.doi same.symm⟩
  next => exact ⟨rfl, rfl⟩

/-- What one operation does: ids stay distinct, published rows stay as they are, and
they all have a DOI again if the operation cites. -/
theorem after_spec (operation : ProofOperation) (distinct : Distinct store.proofs) :
    Distinct (store.after sha256Hex operation).proofs ∧
      (∀ row ∈ store.proofs, row.state = .published →
        row ∈ (store.after sha256Hex operation).proofs) ∧
      (store.Cited → ((store.after sha256Hex operation).Cited ↔ operation.Cites store)) := by
  have unchanged : Distinct store.proofs ∧ (∀ row ∈ store.proofs, row.state = .published →
      row ∈ store.proofs) ∧ (store.Cited → (store.Cited ↔ True)) :=
    ⟨distinct, fun _ member _ => member, fun cited => iff_of_true cited trivial⟩
  cases operation with rw [Store.after]
  | mint => exact unchanged
  | publish actor project submission reply now saved =>
    rcases publish_store store actor project submission reply now saved with
      same | ⟨proof, isId, hasDoi, absent, changed⟩
    · rw [same]
      exact unchanged
    rw [changed]
    refine ⟨nodup_cons.mpr ⟨by simp, distinct.sublist (filter_sublist.map _)⟩, ?_,
      fun cited => iff_of_true (forall_mem_cons.mpr
        ⟨hasDoi, fun row isOther => cited row (mem_of_mem_filter isOther)⟩) trivial⟩
    intro row member published
    refine mem_cons_of_mem _ (mem_filter.mpr ⟨member, decide_eq_true fun sameId => ?_⟩)
    rw [alreadyPublished, ← isId, ← sameId] at absent
    cases found : store.byId row.id with
    | none => simpa using find?_eq_none.mp found row member
    | some other =>
      have sameRow : other.id = row.id := by simpa using find?_some found
      cases inj_on_of_nodup_map distinct (mem_of_find?_eq_some found) member sameRow
      simp [found, published] at absent
  | refresh ask now =>
    refine ⟨(congrArg Nodup (refresh_ids store ask now)).mpr distinct, ?_, fun cited => ?_⟩
    · intro row member published
      rw [refresh_eq_map distinct]
      exact mem_map.mpr ⟨row, member, by simp [published, State.isPending]⟩
    rw [Store.Cited, refresh_eq_map distinct, forall_mem_map]
    refine forall₂_congr fun row member => ?_
    by_cases pending : row.state.isPending
    · have unpublished : row.state ≠ .published := fun published => by
        rw [published] at pending
        cases pending
      rw [if_pos pending, hear, if_pos rfl]
      cases asked : row.mm0Proof.bind (ask row.project) with
      | none => simp [unpublished]
      | some reply =>
        obtain ⟨isState, isDoi⟩ := refreshed_fields row reply now
        have becomes : nextState row reply = .published ↔ reply.state = "published" := by
          unfold nextState
          split_ifs <;> simp_all
        simp [isState, isDoi, becomes, pending]
    · rw [if_neg pending]
      exact iff_of_true (cited row member) fun isPending => absurd isPending pending

theorem afterAll_concat (done : List ProofOperation) : afterAll sha256Hex
    (done ++ [operation]) = (afterAll sha256Hex done).after sha256Hex operation :=
  foldl_concat ..

theorem distinct_afterAll (done : List ProofOperation) :
    Distinct (afterAll sha256Hex done).proofs := by
  induction done using List.reverseRecOn with
  | nil => exact nodup_nil
  | append_singleton done operation ih =>
    rw [afterAll_concat]
    exact (after_spec operation ih).1

theorem mem_afterAll (member : row ∈ (afterAll sha256Hex done).proofs)
    (published : row.state = .published) (rest : List ProofOperation) :
    row ∈ (afterAll sha256Hex (done ++ rest)).proofs := by
  induction rest using List.reverseRecOn with
  | nil => rwa [append_nil]
  | append_singleton rest operation ih =>
    rw [← append_assoc, afterAll_concat]
    exact (after_spec operation (distinct_afterAll _)).2.1 row ih published

/-- Along every run the ledger finds each row that it has by the id of the row. -/
theorem byId_afterAll (sha256Hex : String → String) (operations : List ProofOperation)
    (row : Proof) : (afterAll sha256Hex operations).byId row.id = some row ↔
      row ∈ (afterAll sha256Hex operations).proofs := by
  refine ⟨mem_of_find?_eq_some, fun member => ?_⟩
  cases found : (afterAll sha256Hex operations).byId row.id with
  | none => simpa using find?_eq_none.mp found row member
  | some other =>
    have sameId : other.id = row.id := by simpa using find?_some found
    rw [inj_on_of_nodup_map (distinct_afterAll operations) (mem_of_find?_eq_some found) member
      sameId]

/-- Along every run a published row has a DOI and stays as it is, exactly if no pending
row is called published by the backend without a DOI. -/
theorem published_rows_iff (sha256Hex : String → String) (operations : List ProofOperation) :
    (∀ done, done <+: operations →
      ∀ row ∈ (afterAll sha256Hex done).proofs, row.state = .published →
        row.doi.isSome ∧ row ∈ (afterAll sha256Hex operations).proofs) ↔
    ∀ done operation, done ++ [operation] <+: operations →
      operation.Cites (afterAll sha256Hex done) := by
  constructor
  · intro holds done operation isPart
    have cited (part : List ProofOperation) (isPart : part <+: operations) :
        (afterAll sha256Hex part).Cited :=
      fun row member published => (holds part isPart row member published).1
    have next := cited _ isPart
    rw [afterAll_concat] at next
    exact ((after_spec operation (distinct_afterAll done)).2.2
      (cited done ((prefix_append done _).trans isPart))).mp next
  · intro cites done isPart row member published
    have cited : (afterAll sha256Hex done).Cited := by
      clear member
      induction done using List.reverseRecOn with
      | nil => exact forall_mem_nil _
      | append_singleton done operation ih =>
        rw [afterAll_concat]
        exact ((after_spec operation (distinct_afterAll done)).2.2
          (ih ((prefix_append done _).trans isPart))).mpr (cites done operation isPart)
    refine ⟨cited row member published, ?_⟩
    obtain ⟨rest, rfl⟩ := isPart
    exact mem_afterAll member published rest

/-- A deposit is queued, and the backend then calls it published without a DOI. -/
theorem published_without_doi :
    ∃ row ∈ (afterAll id [
      .publish "admin" "refi" plainProof (some (.ok { archived with status := 202, doi := none })) 0
        (.ok ()),
      .refresh (fun _ _ => some ⟨"published", none, none, none, none⟩) 1]).proofs,
      row.state = .published ∧ row.doi = none := by
  decide

end Published

end AustralVM.Refi
