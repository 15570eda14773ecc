import LolCrawler.Server.MatchId

/-! # JSON values

What the readers of a JSON text see of it. The text itself is parsed elsewhere.
-/

namespace LolCrawler

namespace Json

inductive Number where
  | posInt (n : UInt64)
  | negInt (n : Int64)
  /-- Nothing reads the value of a number that is no integer. -/
  | float

/-- `serde_json::Value`. An object lists its entries in the order in which they are iterated. -/
inductive Value where
  | null
  | bool (b : Bool)
  | number (n : Number)
  | string (text : String)
  | array (elements : List Value)
  | object (entries : List (String × Value))

/-- `Number::as_i64` -/
def Number.asI64 : Number → Option Int64
  | .posInt n => if n ≤ Int64.maxValue.toUInt64 then some n.toInt64 else none
  | .negInt n => some n
  | .float => none

namespace Value

def get (value : Value) (key : String) : Option Value :=
  match value with
  | .object entries => entries.lookup key
  | _ => none

def asArray : Value → Option (List Value)
  | .array elements => some elements
  | _ => none

def asObject : Value → Option (List (String × Value))
  | .object entries => some entries
  | _ => none

def asStr : Value → Option String
  | .string text => some text
  | _ => none

def asBool : Value → Option Bool
  | .bool b => some b
  | _ => none

def asI64 : Value → Option Int64
  | .number n => n.asI64
  | _ => none

/-- An integer field. -/
def i (value : Value) (key : String) : Int64 :=
  match value.get key with
  | some (.number n) => n.asI64.getD 0
  | some (.bool b) => if b then 1 else 0
  | _ => 0

/-- A string field. -/
def s (value : Value) (key : String) : String := ((value.get key).bind asStr).getD ""

/-! Paths into a text -/

/-- What these keys lead to, one after the other. -/
def follow (value : Value) (keys : List String) : Option Value := keys.foldlM get value

/-- The elements of the array that these keys lead to, if they do. -/
def elements (value : Value) (keys : List String) : List Value :=
  match value.follow keys with
  | some (.array elements) => elements
  | _ => []

/-- The entries of the object that these keys lead to, if they do. -/
def entries (value : Value) (keys : List String) : List (String × Value) :=
  match value.follow keys with
  | some (.object entries) => entries
  | _ => []

theorem follow_one (value : Value) (key : String) : value.follow [key] = value.get key := by
  rw [follow, List.foldlM_cons]
  cases value.get key with
  | none => rfl
  | some found => rfl

theorem follow_two (value : Value) (outer inner : String) :
    value.follow [outer, inner] = (value.get outer).bind (·.get inner) := by
  rw [follow, List.foldlM_cons]
  cases value.get outer with
  | none => rfl
  | some found => exact found.follow_one inner

theorem elements_eq (value : Value) (keys : List String) :
    value.elements keys = ((value.follow keys).bind asArray).getD [] := by
  rw [elements]
  cases value.follow keys with
  | none => rfl
  | some found => cases found <;> rfl

theorem entries_eq (value : Value) (keys : List String) :
    value.entries keys = ((value.follow keys).bind asObject).getD [] := by
  rw [entries]
  cases value.follow keys with
  | none => rfl
  | some found => cases found <;> rfl

theorem asArray_eq_some {value : Value} {elements : List Value} :
    value.asArray = some elements ↔ value = .array elements := by
  cases value <;> simp [asArray]

end Value

end Json

/-! ## Numbers in texts -/

/-- What digits mean, if there are any and nothing else. -/
def decimal (digits : List Char) : Option Nat :=
  if !digits.isEmpty && digits.all Char.isDigit then
    some (digits.foldl (fun value digit => 10 * value + (digit.toNat - '0'.toNat)) 0)
  else none

/-- `str::parse` for a `u32` -/
def parseU32 (text : List Char) : Option UInt32 :=
  let digits := match text with
    | '+' :: rest => rest
    | _ => text
  ((decimal digits).filter fun value => value < UInt32.size).map UInt32.ofNat

/-- `str::parse` for an `i64` -/
def parseI64 (text : List Char) : Option Int64 :=
  let value : Option Int := match text with
    | '-' :: rest => (decimal rest).map fun value => -(value : Int)
    | '+' :: rest => (decimal rest).map fun value => (value : Int)
    | _ => (decimal text).map fun value => (value : Int)
  (value.filter fun value =>
    Int64.minValue.toInt ≤ value && value ≤ Int64.maxValue.toInt).map Int64.ofInt

end LolCrawler
