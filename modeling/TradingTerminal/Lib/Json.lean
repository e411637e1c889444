import Mathlib.Algebra.Order.Ring.Rat

/-!
# JSON values

Values of a JSON library, and the calls on them that a client makes. `JsonLibrary` is any library
whose calls do what the documentation says of them; of the conversion of a number to an integer type
that does not hold it nothing is said. `JsonLibrary.documented` is one such library.
-/

namespace TradingTerminal.Lib

inductive Json where
  | null
  | boolean (b : Bool)
  | number (q : ℚ)
  | string (s : String)
  | array (items : List Json)
  | object (fields : List (String × Json))

/-- The exceptions of the library, by their numbers: a value of another type than asked for, and a
call on a value that is no object. -/
inductive JsonError where
  | typeError302
  | typeError306
  deriving DecidableEq, Repr

namespace Json

/-- `empty()`: `null` and the containers without elements. -/
def empty : Json → Bool
  | .null => true
  | .array items => items.isEmpty
  | .object fields => fields.isEmpty
  | _ => false

def isNull : Json → Bool
  | .null => true
  | _ => false

/-- What is stored under a key. -/
def find (key : String) : Json → Option Json
  | .object fields => fields.lookup key
  | _ => none

@[simp] theorem find_object (fields : List (String × Json)) (key : String) :
    (object fields).find key = fields.lookup key := rfl

/-- What a `for` loop over a value goes through. -/
def items : Json → List Json
  | .array items => items
  | .object fields => fields.map Prod.snd
  | .null => []
  | v => [v]

def getString : Json → Except JsonError String
  | .string s => .ok s
  | _ => .error .typeError302

def getDouble : Json → Except JsonError ℚ
  | .number q => .ok q
  | _ => .error .typeError302

/-- Wraps around. -/
def getUInt64 : Json → Except JsonError UInt64
  | .number q => .ok (UInt64.ofInt (q.num.tdiv q.den))
  | _ => .error .typeError302

/-- Wraps around. -/
def getInt : Json → Except JsonError Int
  | .number q => .ok ((q.num.tdiv q.den).bmod (2 ^ 32))
  | .boolean b => .ok (if b then 1 else 0)
  | _ => .error .typeError302

def value (v : Json) (key default : String) : Except JsonError String :=
  match v with
  | .object fields => ((fields.lookup key).map getString).getD (.ok default)
  | _ => .error .typeError306

end Json

/-- An implementation of the conversions of a value. Each gives the value it holds, and throws on a
value of another type. -/
structure JsonLibrary where
  /-- the conversion to `std::string` -/
  getString : Json → Except JsonError String
  /-- the conversion to `double` -/
  getDouble : Json → Except JsonError ℚ
  /-- the conversion to `uint64_t`, which cuts off the fraction -/
  getUInt64 : Json → Except JsonError UInt64
  /-- the conversion to `int`, which cuts off the fraction and takes a boolean as well -/
  getInt : Json → Except JsonError Int
  /-- `value(key, default)` -/
  value : Json → (key default : String) → Except JsonError String
  getString_string : ∀ s, getString (.string s) = .ok s
  getString_other : ∀ v, (∀ s, v ≠ .string s) → getString v = .error .typeError302
  getDouble_number : ∀ q, getDouble (.number q) = .ok q
  getDouble_other : ∀ v, (∀ q, v ≠ .number q) → getDouble v = .error .typeError302
  getUInt64_number : ∀ q : ℚ, 0 ≤ q.num.tdiv q.den → q.num.tdiv q.den < 2 ^ 64 →
    getUInt64 (.number q) = .ok (UInt64.ofInt (q.num.tdiv q.den))
  getUInt64_other : ∀ v, (∀ q, v ≠ .number q) → getUInt64 v = .error .typeError302
  getInt_number : ∀ q : ℚ, -2 ^ 31 ≤ q.num.tdiv q.den → q.num.tdiv q.den < 2 ^ 31 →
    getInt (.number q) = .ok (q.num.tdiv q.den)
  getInt_boolean : ∀ b : Bool, getInt (.boolean b) = .ok (if b then 1 else 0)
  getInt_other : ∀ v, (∀ q, v ≠ .number q) → (∀ b, v ≠ .boolean b) →
    getInt v = .error .typeError302
  value_object : ∀ fields key default, value (.object fields) key default =
    ((fields.lookup key).map getString).getD (.ok default)
  value_other : ∀ v key default, (∀ fields, v ≠ .object fields) →
    value v key default = .error .typeError306

namespace JsonLibrary

/-- The library that wraps numbers around where the documentation says nothing. -/
def documented : JsonLibrary where
  getString := Json.getString
  getDouble := Json.getDouble
  getUInt64 := Json.getUInt64
  getInt := Json.getInt
  value := Json.value
  getString_string _ := rfl
  getString_other v h := by
    cases v with
    | string s => exact absurd rfl (h s)
    | _ => rfl
  getDouble_number _ := rfl
  getDouble_other v h := by
    cases v with
    | number q => exact absurd rfl (h q)
    | _ => rfl
  getUInt64_number _ _ _ := rfl
  getUInt64_other v h := by
    cases v with
    | number q => exact absurd rfl (h q)
    | _ => rfl
  getInt_number q hlow hhigh := by
    have hwhole : (q.num.tdiv q.den).bmod (2 ^ 32) = q.num.tdiv q.den :=
      Int.bmod_eq_of_le (by omega) (by omega)
    rw [Json.getInt, hwhole]
  getInt_boolean _ := rfl
  getInt_other v hnumber hboolean := by
    cases v with
    | number q => exact absurd rfl (hnumber q)
    | boolean b => exact absurd rfl (hboolean b)
    | _ => rfl
  value_object _ _ _ := rfl
  value_other v key default h := by
    cases v with
    | object fields => exact absurd rfl (h fields)
    | _ => rfl

variable (lib : JsonLibrary)

theorem getString_eq (v : Json) : lib.getString v = v.getString := by
  cases v with
  | string s => exact lib.getString_string s
  | _ => exact lib.getString_other _ fun s hs => by cases hs

end JsonLibrary

end TradingTerminal.Lib
