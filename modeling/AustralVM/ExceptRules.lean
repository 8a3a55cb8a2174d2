import Mathlib.Data.Vector.Defs

/-!
# What a computation that may fail gives

Rules for what is known of the value of a computation in `Except` if it gives one, and
of its error if it fails, step by step along the computation.
-/

namespace Except

variable {ε α β : Type} {post : α → Prop} {post' : β → Prop}

theorem ok_bind (value : α) (next : α → Except ε β) : (Except.ok value >>= next) = next value := rfl

/-- Every value that a computation gives is as described. -/
def Yields (post : α → Prop) (computation : Except ε α) : Prop :=
  ∀ value, computation = .ok value → post value

theorem yields_pure (holds : post value) : Yields post (pure value : Except ε α) := by
  rintro _ ⟨⟩
  exact holds

theorem yields_throw {error : ε} : Yields post (throw error : Except ε α) := nofun

theorem yields_any : Yields (fun _ => True) computation :=
  fun _ _ => trivial

theorem Yields.bind (first : Yields post computation)
    (second : ∀ value, post value → Yields post' (next value)) :
    Yields post' (computation >>= next) := by
  cases computation with
  | error => exact nofun
  | ok value => exact second value (first value rfl)

theorem yields_step (second : ∀ value, Yields post' (next value)) :
    Yields post' (computation >>= next) :=
  yields_any.bind fun value _ => second value

theorem yields_ite [Decidable condition] (holds : condition → Yields post left)
    (fails : ¬ condition → Yields post right) :
    Yields post (if condition then left else right) := by
  by_cases given : condition
  · rw [if_pos given]
    exact holds given
  · rw [if_neg given]
    exact fails given

/-- A computation ends in a value or in an error as described. -/
def Ends (kind : ε → Prop) (post : α → Prop) : Except ε α → Prop
  | .ok value => post value
  | .error failure => kind failure

theorem Ends.bind {kind : ε → Prop} (first : Ends kind post computation)
    (second : ∀ value, computation = .ok value → post value → Ends kind post' (next value)) :
    Ends kind post' (computation >>= next) := by
  cases computation with
  | error => exact first
  | ok value => exact second value rfl first

/-! ## Failures -/

section Failures

variable {failure : ε}

theorem bind_eq_error {computation : Except ε α} {next : α → Except ε β} :
    (computation >>= next) = .error failure ↔ computation = .error failure ∨
      ∃ value, computation = .ok value ∧ next value = .error failure := by
  cases computation with
  | error => simp [bind, Except.bind]
  | ok => simp [bind, Except.bind]

/-- A loop fails at one of the items, after it has passed those before. -/
theorem foldlM_eq_error {step : β → α → Except ε β} {start : β} {items : List α} :
    items.foldlM step start = .error failure ↔ ∃ before item after state,
      items = before ++ item :: after ∧ before.foldlM step start = .ok state ∧
        step state item = .error failure := by
  induction items generalizing start with
  | nil => simp [pure, Except.pure]
  | cons item items ih =>
    rw [List.foldlM_cons, bind_eq_error]
    constructor
    · rintro (fails | ⟨state, passes, fails⟩)
      · exact ⟨[], item, items, start, rfl, rfl, fails⟩
      · obtain ⟨before, failing, after, last, rfl, passed, fails⟩ := ih.mp fails
        refine ⟨item :: before, failing, after, last, rfl, ?_, fails⟩
        rw [List.foldlM_cons, passes]
        exact passed
    · rintro ⟨before, failing, after, state, same, passed, fails⟩
      cases before with
      | nil =>
        cases same
        cases passed
        exact .inl fails
      | cons =>
        cases same
        rw [List.foldlM_cons] at passed
        cases passes : step start item with
        | error =>
          rw [passes] at passed
          cases passed
        | ok next =>
          rw [passes] at passed
          exact .inr ⟨next, rfl, ih.mpr ⟨_, failing, after, state, rfl, passed, fails⟩⟩

/-- Items that can fail in one way only fail together if one of them does. -/
theorem mapM_eq_error {compute : α → Except ε β} {items : List α}
    (only : ∀ item ∈ items, ∀ other, compute item = .error other → other = failure) :
    items.mapM compute = .error failure ↔ ∃ item ∈ items, compute item = .error failure := by
  induction items with
  | nil => simp [pure, Except.pure]
  | cons item items ih =>
    rw [List.forall_mem_cons] at only
    simp only [List.mapM_cons, bind_eq_error, List.mem_cons, or_and_right, exists_or,
      exists_eq_left, ← ih only.2]
    cases isResult : compute item with
    | error other =>
      cases only.1 other isResult
      simp
    | ok => simp [pure, Except.pure]

end Failures

/-- Two lists are gone through side by side as long as the pairs pass, up to a pair as
described or to the end of only one of the lists. -/
inductive Breaks (passes found : α → β → Prop) : List α → List β → Prop
  | left : Breaks passes found [] (second :: seconds)
  | right : Breaks passes found (first :: firsts) []
  | here (isFound : found first second) :
      Breaks passes found (first :: firsts) (second :: seconds)
  | later (isPassed : passes first second) (breaks : Breaks passes found firsts seconds) :
      Breaks passes found (first :: firsts) (second :: seconds)

section Breaks

variable {passes found found' : α → β → Prop} {firsts : List α} {seconds : List β}

theorem breaks_cons : Breaks passes found (first :: firsts) (second :: seconds) ↔
    found first second ∨ passes first second ∧ Breaks passes found firsts seconds := by
  constructor
  · rintro (_ | _ | isFound | ⟨isPassed, breaks⟩)
    · exact .inl isFound
    · exact .inr ⟨isPassed, breaks⟩
  · rintro (isFound | ⟨isPassed, breaks⟩)
    · exact .here isFound
    · exact .later isPassed breaks

theorem breaks_congr (same : ∀ first ∈ firsts, ∀ second ∈ seconds,
      found first second ↔ found' first second) :
    Breaks passes found firsts seconds ↔ Breaks passes found' firsts seconds := by
  induction firsts generalizing seconds with
  | nil =>
    cases seconds with
    | nil => exact ⟨nofun, nofun⟩
    | cons => exact iff_of_true .left .left
  | cons first firsts ih =>
    cases seconds with
    | nil => exact iff_of_true .right .right
    | cons second seconds =>
      simp only [List.forall_mem_cons] at same
      rw [breaks_cons, breaks_cons, same.1.1, ih fun first member => (same.2 first member).2]

end Breaks

/-- Read the items of a list one after the other. -/
def readAll (read : α → Except ε β) : (items : List α) → Except ε (List.Vector β items.length)
  | [] => pure .nil
  | item :: rest => do
    let value ← read item
    let values ← readAll read rest
    return .cons value values

end Except
