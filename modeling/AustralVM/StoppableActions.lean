import Mathlib.Logic.Relation
import Mathlib.Tactic.Common
import Mathlib.Algebra.Order.Ring.Nat

/-!
# Actions that may stop

A computation over a state that gives a value or stops for a reason; the state
that it has reached is kept either way, so that what holds after every action
holds after one that was cut short too.
-/

def Stoppable (σ ε α : Type) : Type := σ → Except ε α × σ

namespace Stoppable

variable {σ ε α β : Type} {invariant : σ → Prop} {post : α → Prop} {post' : β → Prop}

instance : Monad (Stoppable σ ε) where
  pure value := fun state => (.ok value, state)
  bind action next := fun state =>
    match action state with
    | (.ok value, after) => next value after
    | (.error reason, after) => (.error reason, after)

instance : LawfulMonad (Stoppable σ ε) := by
  refine LawfulMonad.mk' (Stoppable σ ε) ?_ ?_ ?_
  · intro _ action
    funext state
    change (match action state with
      | (.ok value, after) => (.ok value, after)
      | (.error reason, after) => (.error reason, after)) = action state
    rcases action state with ⟨reason | value, after⟩ <;> rfl
  · intro _ _ _ _
    rfl
  · intro _ _ _ action next last
    funext state
    change (match (match action state with
        | (.ok value, after) => next value after
        | (.error reason, after) => (.error reason, after)) with
      | (.ok value, after) => last value after
      | (.error reason, after) => (.error reason, after)) = match action state with
        | (.ok value, after) => (next value >>= last) after
        | (.error reason, after) => (.error reason, after)
    rcases action state with ⟨reason | value, after⟩ <;> rfl

def stop (reason : ε) : Stoppable σ ε α := fun state => (.error reason, state)

def get : Stoppable σ ε σ := fun state => (.ok state, state)

def set (state : σ) : Stoppable σ ε Unit := fun _ => (.ok (), state)

def modify (change : σ → σ) : Stoppable σ ε Unit := fun state => (.ok (), change state)

def ofOption (reason : ε) : Option α → Stoppable σ ε α
  | some value => pure value
  | none => stop reason

/-- The value of a computation that does not look at the state, or a stop. -/
def ofExcept : Except ε α → Stoppable σ ε α
  | .ok value => pure value
  | .error reason => stop reason

/-- Repeat a round as long as it asks for another one. -/
def loop (reason : ε) (round : Stoppable σ ε (Option α)) : Nat → Stoppable σ ε α
  | 0 => stop reason
  | limit + 1 => do
    match ← round with
    | some result => pure result
    | none => loop reason round limit

/-! ## Values -/

theorem bind_apply (action : Stoppable σ ε α) (next : α → Stoppable σ ε β) (state : σ) :
    (action >>= next) state =
      match action state with
      | (.ok value, after) => next value after
      | (.error reason, after) => (.error reason, after) := rfl

theorem bind_eq_ok {next : α → Stoppable σ ε β} : (action >>= next) state = (.ok result, after) ↔
      ∃ value between, action state = (.ok value, between) ∧
        next value between = (.ok result, after) := by
  rw [bind_apply]
  rcases action state with ⟨reason | value, between⟩
  · simp
  · simp

theorem pure_eq_ok :
    (pure value : Stoppable σ ε α) state = (.ok result, after) ↔ value = result ∧ state = after := by
  constructor
  · rintro ⟨⟩
    exact ⟨rfl, rfl⟩
  · rintro ⟨rfl, rfl⟩
    rfl

theorem bind_pure_eq_ok {made : α → β} :
    (action >>= fun value => pure (made value) : Stoppable σ ε β) state = (.ok result, after) ↔
      ∃ value, action state = (.ok value, after) ∧ made value = result := by
  simp only [bind_eq_ok, pure_eq_ok]
  constructor
  · rintro ⟨value, _, ran, isResult, rfl⟩
    exact ⟨value, ran, isResult⟩
  · rintro ⟨value, ran, isResult⟩
    exact ⟨value, after, ran, isResult, rfl⟩

theorem ofOption_eq_ok :
    ofOption reason value? state = (.ok result, after) ↔ value? = some result ∧ state = after := by
  cases value? with
  | none => simp [ofOption, stop]
  | some => rw [ofOption, pure_eq_ok, Option.some.injEq]

theorem get_eq_ok :
    (get : Stoppable σ ε σ) state = (.ok result, after) ↔ state = result ∧ state = after := by
  simp [get]

/-! ## Rounds of a loop -/

/-- Some rounds that each ask for another one lead from a state to another. -/
def Rounds (round : Stoppable σ ε (Option α)) : σ → σ → Prop :=
  Relation.ReflTransGen fun before after => round before = (.ok none, after)

/-! ## Invariants -/

/-- An invariant that an action keeps, also if it stops, and what its value is like. -/
def Keeps (invariant : σ → Prop) (post : α → Prop) (action : Stoppable σ ε α) : Prop :=
  ∀ state, invariant state → invariant (action state).2 ∧
    ∀ value, (action state).1 = .ok value → post value

theorem keeps_pure (holds : post value) : Keeps invariant post (pure value : Stoppable σ ε α) := by
  intro _ kept
  refine ⟨kept, ?_⟩
  rintro _ ⟨⟩
  exact holds

theorem Keeps.mono {weaker : α → Prop} (keeps : Keeps invariant post action)
    (implies : ∀ value, post value → weaker value) : Keeps invariant weaker action :=
  fun state kept => ⟨(keeps state kept).1, fun value given =>
    implies value ((keeps state kept).2 value given)⟩

theorem keeps_stop : Keeps invariant post (stop reason : Stoppable σ ε α) :=
  fun _ kept => ⟨kept, nofun⟩

theorem Keeps.bind (first : Keeps invariant post action)
    (second : ∀ value, post value → Keeps invariant post' (next value)) :
    Keeps invariant post' (action >>= next) := by
  intro state kept
  have afterFirst := first state kept
  rw [bind_apply]
  cases ran : action state with
  | mk result between =>
    rw [ran] at afterFirst
    cases result with
    | error => exact ⟨afterFirst.1, nofun⟩
    | ok value => exact second value (afterFirst.2 value rfl) between afterFirst.1

theorem keeps_get : Keeps invariant invariant (get : Stoppable σ ε σ) := by
  intro _ kept
  refine ⟨kept, ?_⟩
  rintro _ ⟨⟩
  exact kept

theorem keeps_set (holds : invariant state) :
    Keeps invariant (fun _ => True) (set state : Stoppable σ ε Unit) :=
  fun _ _ => ⟨holds, fun _ _ => trivial⟩

theorem keeps_ofOption (holds : ∀ value, value? = some value → post value) :
    Keeps invariant post (ofOption reason value? : Stoppable σ ε α) := by
  cases value? with
  | none => exact keeps_stop
  | some value => exact keeps_pure (holds value rfl)

theorem keeps_ofExcept (holds : ∀ value, computation = .ok value → post value) :
    Keeps invariant post (ofExcept computation : Stoppable σ ε α) := by
  cases computation with
  | error => exact keeps_stop
  | ok value => exact keeps_pure (holds value rfl)

theorem keeps_loop {reason : ε} {round : Stoppable σ ε (Option α)}
    (keeps : Keeps invariant (fun result => ∀ value, result = some value → post value) round)
    (limit : Nat) : Keeps invariant post (loop reason round limit) := by
  induction limit with
  | zero => exact keeps_stop
  | succ _ ih =>
    refine keeps.bind fun result ends => ?_
    cases result with
    | none => exact ih
    | some value => exact keeps_pure (ends value rfl)

theorem Rounds.kept {round : Stoppable σ ε (Option α)} {post : Option α → Prop}
    (rounds : Rounds round state after) (keeps : Keeps invariant post round)
    (kept : invariant state) : invariant after := by
  induction rounds with
  | refl => exact kept
  | @tail between _ _ ran ih =>
    have keptRound := (keeps between ih).1
    rwa [ran] at keptRound

/-! ## Endings -/

/-- What holds after an action in a state, with a value or with a reason for a stop. -/
def Ends (action : Stoppable σ ε α) (state : σ) (given : α → σ → Prop) (stopped : ε → σ → Prop) :
    Prop :=
  match action state with
  | (.ok value, after) => given value after
  | (.error reason, after) => stopped reason after

section Ends

variable {state : σ} {given : α → σ → Prop} {given' : β → σ → Prop} {stopped : ε → σ → Prop}
  {action : Stoppable σ ε α}

theorem ends_pure (holds : given value state) : Ends (pure value) state given stopped := holds

theorem ends_stop (holds : stopped reason state) : Ends (stop reason) state given stopped := holds

theorem ends_get_bind (ends : Ends (next state) state given stopped) :
    Ends (get >>= next) state given stopped := ends

theorem ends_some_bind (ends : Ends (next value) state given' stopped) :
    Ends (ofOption reason (some value) >>= next) state given' stopped := ends

theorem ends_set_bind (ends : Ends (next ()) after given stopped) :
    Ends (set after >>= next) state given stopped :=
  ends

theorem ends_modify_bind (ends : Ends (next ()) (change state) given stopped) :
    Ends (modify change >>= next) state given stopped := ends

theorem Ends.bind (first : Ends action state given stopped)
    (second : ∀ value after, given value after → Ends (next value) after given' stopped) :
    Ends (action >>= next) state given' stopped := by
  rw [Ends] at first
  rw [Ends, bind_apply]
  rcases ran : action state with ⟨reason | value, after⟩
  · rw [ran] at first
    exact first
  · rw [ran] at first
    exact second value after first

theorem Ends.mono (ends : Ends action state given stopped)
    (values : ∀ value after, given value after → weaker value after)
    (reasons : ∀ reason after, stopped reason after → weaker' reason after) :
    Ends action state weaker weaker' := by
  rw [Ends] at ends ⊢
  rcases ran : action state with ⟨reason | value, after⟩
  · rw [ran] at ends
    exact reasons reason after ends
  · rw [ran] at ends
    exact values value after ends

theorem Ends.after {post : σ → Prop}
    (ends : Ends action state (fun _ after => post after) fun _ after => post after) :
    post (action state).2 := by
  rw [Ends] at ends
  rcases ran : action state with ⟨reason | value, after⟩
  · rw [ran] at ends
    exact ends
  · rw [ran] at ends
    exact ends

/-- An invariant of the items that are done, of their values and of the state is kept
from one item to the next. -/
theorem ends_mapM {ι : Type} {round : ι → Stoppable σ ε β} {items : List ι}
    (invariant : List ι → List β → σ → Prop)
    (step : ∀ done item rest values state, items = done ++ item :: rest →
      invariant done values state → Ends (round item) state
        (fun value after => invariant (done ++ [item]) (values ++ [value]) after) stopped)
    (start : invariant [] [] state) : Ends (items.mapM round) state (invariant items) stopped := by
  have fromHere (rest done : List ι) (values : List β) (state : σ) (split : items = done ++ rest)
      (kept : invariant done values state) :
      Ends (rest.mapM round) state
        (fun more after => invariant items (values ++ more) after) stopped := by
    induction rest generalizing done values state with
    | nil =>
      rw [List.append_nil] at split
      rw [List.mapM_nil]
      apply ends_pure
      rw [List.append_nil, split]
      exact kept
    | cons item rest ih =>
      rw [List.mapM_cons]
      refine (step done item rest values state split kept).bind fun value after kept => ?_
      have next := ih (done ++ [item]) (values ++ [value]) after (by simp [split]) kept
      refine next.bind fun more last kept => ?_
      apply ends_pure
      rw [List.append_assoc] at kept
      exact kept
  exact fromHere items [] [] state rfl start

end Ends

end Stoppable
