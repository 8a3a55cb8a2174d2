import Mathlib.Data.String.Basic
import Mathlib.Algebra.Order.Ring.Nat

/-!
# JSON values

The values that the programs of the repository exchange as JSON, and the readings
of them: a member that is missing, or that is asked of something other than an
object, reads as `null`, and a reading of the wrong kind gives nothing.
-/

namespace AustralVM

inductive Json
  | null
  | bool (value : Bool)
  /-- A whole number. -/
  | number (value : Int)
  /-- Any other number, as it is written. -/
  | decimal (text : String)
  | string (value : String)
  | array (items : List Json)
  | object (members : List (String × Json))
  deriving Repr

namespace Json

def member (key : String) : Json → Json
  | object members => (members.lookup key).getD null
  | _ => null

def asStr : Json → Option String
  | string value => some value
  | _ => none

def asU64 : Json → Option UInt64
  | number value => if 0 ≤ value ∧ value < 2 ^ 64 then some (UInt64.ofNat value.toNat) else none
  | _ => none

def asArray : Json → Option (List Json)
  | array items => some items
  | _ => none

def str (json : Json) (key : String) : Option String := (json.member key).asStr

def u64 (json : Json) (key : String) : Option UInt64 := (json.member key).asU64

end Json

end AustralVM
