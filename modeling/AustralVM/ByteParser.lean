import Mathlib.Data.Nat.ModEq
import Mathlib.Data.Vector.Defs
import Mathlib.Tactic.Common

/-!
# Parsers of bytes

Parsers that read from the front of a list of bytes and may fail, the numbers
they read in little-endian order, and two ways to reason about them: what a
parser yields on an encoding that is followed by anything, and when two parsers
cannot be told apart on inputs below a length.
-/

/-! ## Little-endian numbers -/

namespace LittleEndian

open List

/-- The lowest bytes of a number, the least significant first. -/
def encode : Nat → Nat → List UInt8
  | 0, _ => []
  | width + 1, value => UInt8.ofNat value :: encode width (value / 256)

def decode : List UInt8 → Nat
  | [] => 0
  | byte :: bytes => byte.toNat + 256 * decode bytes

@[simp]
theorem length_encode (width value : Nat) : (encode width value).length = width := by
  induction width generalizing value with
  | zero => rfl
  | succ _ ih => rw [encode, length_cons, ih]

theorem decode_encode (width value : Nat) : decode (encode width value) = value % 256 ^ width := by
  induction width generalizing value with
  | zero => simp [encode, decode, Nat.mod_one]
  | succ _ ih =>
    have lowest : (UInt8.ofNat value).toNat = value % 256 := by simp
    rw [encode, decode, ih, lowest, pow_succ', Nat.mod_mul]

theorem decode_lt (bytes : List UInt8) : decode bytes < 256 ^ bytes.length := by
  induction bytes with
  | nil => simp [decode]
  | cons byte =>
    have lowest : byte.toNat < 256 := byte.toNat_lt
    rw [decode, length_cons, pow_succ']
    omega

theorem encode_decode (bytes : List UInt8) : encode bytes.length (decode bytes) = bytes := by
  induction bytes with
  | nil => rfl
  | cons byte bytes ih =>
    have lowest : byte.toNat < 256 := byte.toNat_lt
    have first : UInt8.ofNat (byte.toNat + 256 * decode bytes) = byte := by
      apply UInt8.toNat_inj.mp
      rw [UInt8.toNat_ofNat']
      omega
    have others : (byte.toNat + 256 * decode bytes) / 256 = decode bytes := by omega
    rw [length_cons, decode, encode, first, others, ih]

end LittleEndian

/-- A parser reads from the front of a list of bytes. -/
abbrev ByteParser (ε : Type) := StateT (List UInt8) (Except ε)

namespace ByteParser

open List hiding count

variable {ε α β : Type}

def fail (error : ε) : ByteParser ε α := fun _ => .error error

def ofExcept (result : Except ε α) : ByteParser ε α :=
  fun bytes => (fun value => (value, bytes)) <$> result

def byte (eof : ε) : ByteParser ε UInt8
  | [] => .error eof
  | first :: rest => .ok (first, rest)

def peek : ByteParser ε (Option UInt8) := fun bytes => .ok (bytes.head?, bytes)

def take (eof : ε) (count : Nat) : ByteParser ε (List UInt8) := fun bytes =>
  if bytes.length < count then .error eof else .ok (bytes.take count, bytes.drop count)

def array (eof : ε) (count : Nat) : ByteParser ε (List.Vector UInt8 count) := fun bytes =>
  if short : bytes.length < count then .error eof
  else .ok (⟨bytes.take count, by rw [length_take]; omega⟩, bytes.drop count)

def require (condition : Prop) [Decidable condition] (error : ε) : ByteParser ε Unit :=
  if condition then pure () else fail error

def number (eof : ε) (width : Nat) : ByteParser ε Nat := LittleEndian.decode <$> take eof width

def times : Nat → ByteParser ε α → ByteParser ε (List α)
  | 0, _ => pure []
  | count + 1, parser => do
    let first ← parser
    let rest ← times count parser
    pure (first :: rest)

/-- Run a parser on bytes of its own; what it leaves is dropped. -/
def inside (data : List UInt8) (parser : ByteParser ε α) : ByteParser ε α :=
  ofExcept (Prod.fst <$> parser data)

/-! ## What a parser does step by step -/

section Running

variable {parser : ByteParser ε α} {next : α → ByteParser ε β} {bytes rest : List UInt8}

theorem bind_run (parser : ByteParser ε α) (next : α → ByteParser ε β) (bytes : List UInt8) :
    (parser >>= next) bytes = parser bytes >>= fun (value, rest) => next value rest := rfl

theorem bind_ok (first : parser bytes = .ok (value, rest)) :
    (parser >>= next) bytes = next value rest := by
  rw [bind_run, first]
  rfl

theorem bind_error (first : parser bytes = .error error) :
    (parser >>= next) bytes = .error error := by
  rw [bind_run, first]
  rfl

theorem peek_bind (next : Option UInt8 → ByteParser ε β) (bytes : List UInt8) :
    (peek >>= next) bytes = next bytes.head? bytes := rfl

theorem bind_eq_ok (parsed : (parser >>= next) bytes = .ok (value, rest)) :
    ∃ first between, parser bytes = .ok (first, between) ∧
      next first between = .ok (value, rest) := by
  cases result : parser bytes with
  | error =>
    rw [bind_error result] at parsed
    cases parsed
  | ok pair =>
    obtain ⟨first, between⟩ := pair
    rw [bind_ok result] at parsed
    exact ⟨first, between, rfl, parsed⟩

theorem ofExcept_eq_ok (parsed : ofExcept result bytes = .ok (value, rest)) :
    result = .ok value ∧ rest = bytes := by
  cases result with
  | error => cases parsed
  | ok =>
    cases parsed
    exact ⟨rfl, rfl⟩

theorem take_eq_ok (parsed : take eof count bytes = .ok (data, rest)) : bytes = data ++ rest := by
  rw [take] at parsed
  split at parsed
  · cases parsed
  · cases parsed
    exact (take_append_drop count bytes).symm

theorem byte_eq_ok (parsed : byte eof bytes = .ok (first, rest)) : bytes = first :: rest := by
  cases bytes with
  | nil => cases parsed
  | cons =>
    cases parsed
    rfl

end Running

/-! ## What a parser returns -/

/-- Whatever the parser reads, what it returns has the property. -/
def Returns (P : α → Prop) (parser : ByteParser ε α) : Prop :=
  ∀ bytes value rest, parser bytes = .ok (value, rest) → P value

section Results

variable {P : α → Prop} {Q : β → Prop} {parser : ByteParser ε α} {next : α → ByteParser ε β}

theorem returns_pure (holds : P value) : Returns P (pure value : ByteParser ε α) := by
  intro _ _ _ parsed
  cases parsed
  exact holds

theorem returns_fail (error : ε) : Returns P (fail error : ByteParser ε α) := by
  intro _ _ _ parsed
  cases parsed

theorem returns_ofExcept {result : Except ε α} (holds : ∀ value, result = .ok value → P value) :
    Returns P (ofExcept result) :=
  fun _ value _ parsed => holds value (ofExcept_eq_ok parsed).1

theorem Returns.bind (returns : Returns P parser)
    (returnsNext : ∀ value, P value → Returns Q (next value)) : Returns Q (parser >>= next) := by
  intro bytes value rest parsed
  obtain ⟨first, between, parsedFirst, parsed⟩ := bind_eq_ok parsed
  exact returnsNext first (returns bytes first between parsedFirst) between value rest parsed

theorem Returns.after (returnsNext : ∀ value, Returns Q (next value)) :
    Returns Q (parser >>= next) :=
  Returns.bind (P := fun _ => True) (fun _ _ _ _ => trivial) fun value _ => returnsNext value

theorem Returns.inside (returns : Returns P parser) (data : List UInt8) :
    Returns P (inside data parser) := by
  apply returns_ofExcept
  intro value found
  cases result : parser data with
  | error => simp [result] at found
  | ok pair =>
    obtain ⟨first, rest⟩ := pair
    obtain rfl : first = value := by simpa [result, Except.map] using found
    exact returns data first rest result

theorem Returns.times (returns : Returns P parser) (count : Nat) :
    Returns (fun values => ∀ value ∈ values, P value) (times count parser) := by
  induction count with
  | zero => exact returns_pure (by simp)
  | succ _ ih =>
    refine returns.bind fun first holds => ?_
    refine ih.bind fun others hold => ?_
    exact returns_pure (forall_mem_cons.mpr ⟨holds, hold⟩)

theorem length_of_times (parsed : times count parser bytes = .ok (values, rest)) :
    values.length = count := by
  induction count generalizing bytes values with
  | zero =>
    cases parsed
    rfl
  | succ _ ih =>
    obtain ⟨_, _, -, parsed⟩ := bind_eq_ok parsed
    obtain ⟨_, _, parsedOthers, parsed⟩ := bind_eq_ok parsed
    cases parsed
    rw [length_cons, ih parsedOthers]

end Results

/-! ## What a parser has read -/

/-- What the parser has read is the encoding of what it returns. -/
def Reads (encode : α → List UInt8) (parser : ByteParser ε α) : Prop :=
  ∀ bytes value rest, parser bytes = .ok (value, rest) → bytes = encode value ++ rest

section Inverses

variable {encode : α → List UInt8} {parser : ByteParser ε α} {bytes rest : List UInt8} {eof : ε}
  {count : Nat}

theorem take_eq_ok_iff :
    take eof count bytes = .ok (data, rest) ↔ bytes = data ++ rest ∧ data.length = count := by
  constructor
  · intro parsed
    have parts := take_eq_ok parsed
    rw [take] at parsed
    split at parsed
    · cases parsed
    · cases parsed
      have short : ¬ bytes.length < count := by assumption
      exact ⟨parts, by rw [length_take]; omega⟩
  · rintro ⟨rfl, rfl⟩
    simp [take]

theorem array_eq_ok_iff :
    array eof count bytes = .ok (data, rest) ↔ bytes = data.toList ++ rest := by
  constructor
  · intro parsed
    rw [array] at parsed
    split at parsed
    · cases parsed
    · cases parsed
      exact (take_append_drop count bytes).symm
  · rintro rfl
    have enough : ¬ (data.toList ++ rest).length < count := by
      rw [length_append, data.toList_length]
      omega
    rw [array, dif_neg enough]
    simp only [take_left' data.toList_length, drop_left' data.toList_length]
    rfl

theorem require_bind_eq_ok [Decidable condition] {next : Unit → ByteParser ε α}
    (parsed : (require condition error >>= next) bytes = .ok (value, rest)) :
    condition ∧ next () bytes = .ok (value, rest) := by
  rw [require] at parsed
  split at parsed
  · exact ⟨by assumption, parsed⟩
  · cases parsed

theorem number_eq_ok (parsed : number eof width bytes = .ok (value, rest)) :
    bytes = LittleEndian.encode width value ++ rest ∧ value < 256 ^ width := by
  rw [number, map_eq_pure_bind] at parsed
  obtain ⟨data, _, taken, parsed⟩ := bind_eq_ok parsed
  obtain ⟨parts, length⟩ := take_eq_ok_iff.mp taken
  cases parsed
  subst length
  rw [LittleEndian.encode_decode]
  exact ⟨parts, LittleEndian.decode_lt data⟩

theorem Reads.times (reads : Reads encode parser)
    (parsed : times count parser bytes = .ok (values, rest)) :
    bytes = values.flatMap encode ++ rest := by
  induction count generalizing bytes values with
  | zero =>
    cases parsed
    rfl
  | succ _ ih =>
    obtain ⟨_, _, parsedFirst, parsed⟩ := bind_eq_ok parsed
    obtain ⟨_, _, parsedOthers, parsed⟩ := bind_eq_ok parsed
    cases parsed
    have readFirst := reads _ _ _ parsedFirst
    rw [readFirst, ih parsedOthers, flatMap_cons, append_assoc]

end Inverses

/-! ## More input -/

/-- More input after what a parser reads is left over. -/
def Extends (parser : ByteParser ε α) : Prop :=
  ∀ bytes value rest more, parser bytes = .ok (value, rest) →
    parser (bytes ++ more) = .ok (value, rest ++ more)

section MoreInput

variable {parser : ByteParser ε α} {next : α → ByteParser ε β}

theorem extends_pure (value : α) : Extends (pure value : ByteParser ε α) := by
  intro _ _ _ _ parsed
  cases parsed
  rfl

theorem extends_fail (error : ε) : Extends (fail error : ByteParser ε α) := by
  intro _ _ _ _ parsed
  cases parsed

theorem extends_ofExcept (result : Except ε α) : Extends (ofExcept result) := by
  intro _ _ _ _ parsed
  obtain ⟨rfl, rfl⟩ := ofExcept_eq_ok parsed
  rfl

theorem Extends.bind (first : Extends parser) (second : ∀ value, Extends (next value)) :
    Extends (parser >>= next) := by
  intro _ _ _ more parsed
  obtain ⟨middle, _, parsedFirst, parsed⟩ := bind_eq_ok parsed
  rw [bind_ok (first _ _ _ more parsedFirst)]
  exact second middle _ _ _ more parsed

theorem extends_require (condition : Prop) [Decidable condition] (error : ε) :
    Extends (require condition error) := by
  rw [require]
  split
  · exact extends_pure ()
  · exact extends_fail error

theorem Extends.map (first : Extends parser) (f : α → β) : Extends (f <$> parser) := by
  rw [map_eq_pure_bind]
  exact first.bind fun value => extends_pure (f value)

theorem Extends.times (one : Extends parser) (count : Nat) : Extends (times count parser) := by
  induction count with
  | zero => exact extends_pure []
  | succ _ ih => exact one.bind fun first => ih.bind fun others => extends_pure (first :: others)

end MoreInput

/-! ## Encodings -/

/-- On an encoding the parser has the result, and it leaves what follows. -/
def Yields (parser : ByteParser ε α) (encoding : List UInt8) (result : Except ε α) : Prop :=
  ∀ rest, parser (encoding ++ rest) = (fun value => (value, rest)) <$> result

section Encodings

variable {parser : ByteParser ε α} {next : α → ByteParser ε β} {encoding after : List UInt8}
  {result : Except ε α} {value : α} {eof : ε}

theorem Yields.run (yields : Yields parser encoding result) :
    parser encoding = (fun value => (value, [])) <$> result := by
  have := yields []
  rwa [append_nil] at this

theorem yields_pure (value : α) : Yields (pure value : ByteParser ε α) [] (.ok value) :=
  fun _ => rfl

theorem yields_ofExcept (result : Except ε α) : Yields (ofExcept result) [] result :=
  fun _ => rfl

theorem Yields.bind (first : Yields parser encoding result)
    (second : ∀ value, result = .ok value → Yields (next value) after (result' value)) :
    Yields (parser >>= next) (encoding ++ after) (result >>= result') := by
  intro rest
  cases result with
  | error =>
    rw [append_assoc, bind_error (first (after ++ rest))]
    rfl
  | ok value =>
    rw [append_assoc, bind_ok (first (after ++ rest))]
    exact second value rfl rest

theorem Yields.andThen (first : Yields parser encoding (.ok value))
    (second : Yields (next value) after result') :
    Yields (parser >>= next) (encoding ++ after) result' := by
  intro rest
  rw [append_assoc, bind_ok (first (after ++ rest))]
  exact second rest

theorem Yields.andFinish (first : Yields parser encoding (.ok value))
    (second : Yields (next value) [] result') : Yields (parser >>= next) encoding result' := by
  have both := first.andThen second
  rwa [append_nil] at both

theorem Yields.finish (first : Yields parser encoding result)
    (second : ∀ value, result = .ok value → Yields (next value) [] (result' value)) :
    Yields (parser >>= next) encoding (result >>= result') := by
  have both := first.bind second
  rwa [append_nil] at both

theorem Yields.map (yields : Yields parser encoding result) (f : α → β) :
    Yields (f <$> parser) encoding (f <$> result) := by
  rw [map_eq_pure_bind, map_eq_pure_bind]
  exact yields.finish fun value found => yields_pure (f value)

theorem Yields.map_ok (yields : Yields parser encoding (.ok value)) (f : α → β) :
    Yields (f <$> parser) encoding (.ok (f value)) := yields.map f

theorem yields_fail (error : ε) (encoding : List UInt8) :
    Yields (fail error : ByteParser ε α) encoding (.error error) := fun _ => rfl

theorem yields_byte (eof : ε) (first : UInt8) : Yields (byte eof) [first] (.ok first) :=
  fun _ => rfl

theorem yields_take (eof : ε) (data : List UInt8) (length : data.length = count) :
    Yields (take eof count) data (.ok data) := by
  intro _
  subst length
  simp [take]

theorem yields_array (eof : ε) (data : List.Vector UInt8 count) :
    Yields (array eof count) data.toList (.ok data) :=
  fun _ => array_eq_ok_iff.mpr rfl

theorem Yields.afterRequire [Decidable condition] {next : Unit → ByteParser ε β}
    {result : Except ε β} (holds : condition) (yields : Yields (next ()) encoding result) :
    Yields (require condition error >>= next) encoding result := by
  rw [require, if_pos holds]
  exact yields

theorem yields_number (eof : ε) {width value : Nat} (fits : value < 256 ^ width) :
    Yields (number eof width) (LittleEndian.encode width value) (.ok value) := by
  have taken : Yields (take eof width) (LittleEndian.encode width value)
      (.ok (LittleEndian.encode width value)) :=
    yields_take eof _ (LittleEndian.length_encode width value)
  intro rest
  have decoded : LittleEndian.decode (LittleEndian.encode width value) = value := by
    rw [LittleEndian.decode_encode, Nat.mod_eq_of_lt fits]
  rw [number, map_eq_pure_bind, bind_ok (taken rest), decoded]
  rfl

theorem yields_times {read : γ → Except ε α} {items : List γ}
    (each : ∀ item ∈ items, Yields parser (encode item) (read item)) :
    Yields (times items.length parser) (items.flatMap encode) (items.mapM read) := by
  induction items with
  | nil => exact yields_pure []
  | cons _ _ ih =>
    rw [forall_mem_cons] at each
    rw [flatMap_cons, mapM_cons]
    apply each.1.bind
    intro first _
    apply (ih each.2).finish
    intro others _
    exact yields_pure (first :: others)

theorem yields_times_ok (each : ∀ item ∈ items, Yields parser (encode item) (.ok item)) :
    Yields (times items.length parser) (items.flatMap encode) (.ok items) := by
  have all := yields_times each
  have same : items.mapM (Except.ok : α → Except ε α) = .ok items := by
    change items.mapM (pure : α → Except ε α) = _
    rw [mapM_pure, map_id']
    rfl
  rwa [same] at all

end Encodings

/-! ## Results without what is left -/

def outcome (parser : ByteParser ε α) (bytes : List UInt8) : Except ε α :=
  Prod.fst <$> parser bytes

section Outcomes

variable {parser : ByteParser ε α} {next : α → ByteParser ε β} {bytes encoding : List UInt8}

theorem outcome_bind (parser : ByteParser ε α) (next : α → ByteParser ε β) (bytes : List UInt8) :
    outcome (parser >>= next) bytes =
      parser bytes >>= fun pair => outcome (next pair.1) pair.2 := by
  rw [outcome, bind_run, map_bind]
  rfl

theorem Yields.outcome_bind (yields : Yields parser encoding result) (next : α → ByteParser ε β) :
    outcome (parser >>= next) (encoding ++ rest) =
      result >>= fun value => outcome (next value) rest := by
  rw [ByteParser.outcome_bind, yields rest, bind_map_left]

theorem Yields.outcome_ok (yields : Yields parser encoding (.ok value))
    (next : α → ByteParser ε β) :
    outcome (parser >>= next) (encoding ++ rest) = outcome (next value) rest :=
  yields.outcome_bind next

theorem Yields.outcome (yields : Yields parser encoding result) (rest : List UInt8) :
    outcome parser (encoding ++ rest) = result := by
  rw [ByteParser.outcome, yields rest, ← LawfulFunctor.comp_map]
  exact id_map result

theorem Yields.inside_bind (inner : ByteParser.outcome parser data = f <$> result)
    (yields : ∀ value, Yields (next (f value)) encoding (result' value)) :
    Yields (inside data parser >>= next) encoding (result >>= result') := by
  have first : Yields (inside data parser) [] (f <$> result) := inner ▸ yields_ofExcept _
  cases result with
  | error => exact fun rest => bind_error (first (encoding ++ rest))
  | ok value => exact first.andThen (yields value)

theorem outcome_inside_bind (data : List UInt8) (next : α → ByteParser ε β) :
    outcome (inside data parser >>= next) bytes =
      outcome parser data >>= fun value => outcome (next value) bytes := by
  rw [ByteParser.outcome_bind, inside, ofExcept, bind_map_left]
  rfl

theorem outcome_bind_pure (f : α → β) :
    outcome (parser >>= fun value => pure (f value)) bytes = f <$> outcome parser bytes := by
  rw [ByteParser.outcome_bind, outcome, ← LawfulFunctor.comp_map, map_eq_pure_bind]
  rfl

end Outcomes

end ByteParser
