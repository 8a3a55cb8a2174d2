import Mathlib.Data.List.Forall2
import AustralVM.TypeSyntax

/-!
# Errors the compiler raises

Every pass either returns or raises.  Two kinds of exception matter to the
passes modelled here: an Austral error, which some callers catch, and the
`Invalid_argument` of the OCaml library, which none of them does.
-/

namespace AustralVM

inductive ErrorKind
  | genericError
  | parseError
  | cliError
  | typeError
  | linearityError
  | declarationError
  | entrypointError
  | internalError
  deriving DecidableEq, Repr

inductive TextElem
  | text (content : String)
  | code (content : String)
  | type (ty : Ty)
  | break
  deriving Repr

abbrev ErrText := List TextElem

inductive Exn
  /-- An Austral error: its kind and its message. -/
  | australError (kind : ErrorKind) (text : ErrText)
  /-- The exception of `List.map2` and `Option.get`. -/
  | invalidArgument
  deriving Repr

abbrev Comp (α : Type) := Except Exn α

def australRaise {α : Type} (kind : ErrorKind) (text : ErrText) : Comp α :=
  .error (.australError kind text)

def err {α : Type} (message : String) : Comp α :=
  australRaise .genericError [.text message]

def internalErr {α : Type} (message : String) : Comp α :=
  australRaise .internalError
    [.text "Internal compiler error: ", .text message, .break,
      .text "This is a bug in the compiler, please open an issue here: ",
      .code "https://github.com/austral/austral/issues"]

/-- The option as a value, failing as `Option.get` does. -/
def optionGet {α : Type} : Option α → Comp α
  | some value => .ok value
  | none => .error .invalidArgument

def ensure {ε : Type} (condition : Prop) [Decidable condition] (error : ε) : Except ε Unit :=
  if condition then .ok () else .error error

namespace Comp

variable {α β ε : Type} {inputs : List α}

theorem bind_eq_ok {next : α → Except ε β} : (computation >>= next) = .ok result ↔
      ∃ value, computation = .ok value ∧ next value = .ok result := by
  cases computation with
  | error => simp [bind, Except.bind]
  | ok => simp [bind, Except.bind]

theorem ensure_bind_eq_ok [Decidable condition] :
    (ensure condition error >>= next) = .ok result ↔ condition ∧ next () = .ok result := by
  rw [ensure]
  split
  · simp_all [bind, Except.bind]
  · simp_all [bind, Except.bind]

theorem map_eq_ok {computation : Except ε α} :
    f <$> computation = .ok result ↔ ∃ value, computation = .ok value ∧ f value = result := by
  cases computation with
  | error => simp [Functor.map, Except.map]
  | ok => simp [Functor.map, Except.map]

variable {result : α}

@[simp]
theorem pure_eq_ok : (pure value : Except ε α) = .ok result ↔ value = result := by
  simp [pure, Except.pure]

@[simp]
theorem australRaise_ne_ok : (australRaise kind text : Comp α) ≠ .ok result := by
  simp [australRaise]

@[simp]
theorem err_ne_ok : (err message : Comp α) ≠ .ok result := by
  simp [err]

@[simp]
theorem internalErr_ne_ok : (internalErr message : Comp α) ≠ .ok result := by
  simp [internalErr]

@[simp]
theorem optionGet_eq_ok : optionGet value = .ok result ↔ value = some result := by
  cases value <;> simp [optionGet]

theorem mapM_eq_ok {compute : α → Except ε β} {results : List β} :
    inputs.mapM compute = .ok results ↔
      List.Forall₂ (fun input result => compute input = .ok result) inputs results := by
  induction inputs generalizing results with
  | nil => cases results <;> simp
  | cons _ _ ih =>
    rw [List.mapM_cons, bind_eq_ok]
    constructor
    · rintro ⟨result, computed, rest⟩
      obtain ⟨results', computedRest, equal⟩ := bind_eq_ok.mp rest
      obtain rfl : result :: results' = results := by simpa using equal
      exact .cons computed (ih.mp computedRest)
    · rintro (_ | ⟨computed, computedRest⟩)
      exact ⟨_, computed, bind_eq_ok.mpr ⟨_, ih.mpr computedRest, rfl⟩⟩

theorem exists_input_of_mem {gives : α → β → Prop} {results : List β}
    (computed : List.Forall₂ gives inputs results) {result : β} (member : result ∈ results) :
    ∃ input ∈ inputs, gives input result := by
  induction computed with
  | nil => simp at member
  | cons computedHead _ ih =>
    rcases List.mem_cons.mp member with rfl | inRest
    · exact ⟨_, List.mem_cons_self, computedHead⟩
    · obtain ⟨input, inputMember, computedInput⟩ := ih inRest
      exact ⟨input, List.mem_cons_of_mem _ inputMember, computedInput⟩

theorem forM_eq_ok {check : α → Except ε Unit} :
    inputs.forM check = .ok () ↔ ∀ input ∈ inputs, check input = .ok () := by
  induction inputs with
  | nil => simp [pure, Except.pure]
  | cons input _ ih =>
    rw [List.forM, bind_eq_ok]
    constructor
    · rintro ⟨⟨⟩, checkedHead, checkedRest⟩ element member
      rcases List.mem_cons.mp member with rfl | inRest
      · exact checkedHead
      · exact ih.mp checkedRest element inRest
    · intro each
      refine ⟨(), each input List.mem_cons_self, ih.mpr fun element member => ?_⟩
      exact each element (List.mem_cons_of_mem input member)

theorem exists_eq_ok_of_isOk {computation : Comp α} (succeeds : computation.isOk = true) :
    ∃ result, computation = .ok result := by
  cases computation with
  | error => simp [Except.isOk, Except.toBool] at succeeds
  | ok result => exact ⟨result, rfl⟩

theorem exists_ok_and {property : α → Prop} (succeeds : Except.isOk computation = true)
    (rest : ∀ result, computation = .ok result → property result) :
    ∃ result, (computation : Comp α) = .ok result ∧ property result := by
  obtain ⟨result, isOk⟩ := exists_eq_ok_of_isOk succeeds
  exact ⟨result, isOk, rest result isOk⟩

theorem exists_eq_ok_of_any {computation : Comp α} (passes : computation.toOption.any test = true) :
    ∃ result, computation = .ok result ∧ test result = true := by
  cases computation with
  | error => simp [Except.toOption] at passes
  | ok result => exact ⟨result, rfl, by simpa [Except.toOption] using passes⟩

end Comp

end AustralVM
