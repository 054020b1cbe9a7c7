import CausalTrace.Table

/-!
# JSON values

The values of JSON documents.  Integers and doubles are kept apart, because an integer is written
back as one.

## Main definitions

* `Json.Number`, `Json` — numbers and values
* `Json.ofTable` — the object of a table
* `Json.string?`, `Json.isNull` — views of a value

## Design notes

The members of an object are listed in the order they are written in.  Objects read from a text as
arbitrary values are tables: one member per key, ascending.
-/

namespace CausalTrace

/-- A number of a JSON document. -/
inductive Json.Number
  /-- An integer, written without a point. -/
  | int (value : Int)
  /-- A double. -/
  | float (value : Float)
  deriving Repr

/-- A JSON value. -/
inductive Json
  | null
  | bool (value : Bool)
  | number (value : Json.Number)
  | string (value : String)
  | array (items : List Json)
  | object (members : List (String × Json))
  deriving Repr

namespace Json

instance : Inhabited Json := ⟨.null⟩

/-- The integer `n`. -/
def nat (n : Nat) : Json := .number (.int n)

/-- The integer `n`. -/
def int (n : Int) : Json := .number (.int n)

/-- The double `x`; JSON has no word for NaN and the infinities, `null` stands for them. -/
def float (x : Float) : Json :=
  if x.isFinite then .number (.float x) else .null

/-- The text, or `null`. -/
def ofText? (s : Option String) : Json := s.elim .null .string

/-- The value, or `null`. -/
def ofOption {α : Type} (write : α → Json) (x : Option α) : Json := x.elim .null write

/-- The array of the written elements. -/
def ofList {α : Type} (write : α → Json) (xs : List α) : Json := .array (xs.map write)

/-- The object of a table. -/
def ofTable (t : Table String Json) : Json := .object t

/-- The text of a string. -/
def string? : Json → Option String
  | .string s => some s
  | _ => none

/-- Whether the value is `null`. -/
def isNull : Json → Bool
  | .null => true
  | _ => false

/-- The members of an object. -/
def members? : Json → Option (List (String × Json))
  | .object members => some members
  | _ => none

/-- The value of a member of an object. -/
def get? (v : Json) (key : String) : Option Json :=
  v.members?.bind fun (members : Table String Json) => members.get? key

end Json

end CausalTrace
