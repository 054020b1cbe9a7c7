import CausalTrace.Json.Text

/-!
# Readers of typed data

Readers from drafts to typed data.  A reader reports the first flaw it meets from left to right.

## Main definitions

* `Reader` — a reader, given how many arrays and objects may still be opened
* `Reader.string`, `Reader.float`, `Reader.natOfBits`, `Reader.word`, … — scalars
* `Reader.optional`, `Reader.list`, `Reader.table` — from other readers
* `Reader.either` — one of two shapes
* `Field`, `Reader.record` — records, written as objects or as arrays of their fields in order
* `Reader.text` — reading a whole text

## Design notes

Readers are functions of a draft, not of a text, so that what a typed value looks like as JSON can
be said without its text.  The number of brackets that may still be opened counts down at every
array and object; nested record types recurse on it.
-/

namespace CausalTrace

/-- The double nearest to a number. -/
def Json.Number.toFloat : Json.Number → Float
  | .int n =>
    let magnitude := (UInt64.ofNat n.natAbs).toFloat
    if n < 0 then -magnitude else magnitude
  | .float x => x

/-- A reader of typed data: how many arrays and objects may still be opened, and the draft. -/
abbrev Reader (α : Type) := Nat → Draft → Except Flaw α

namespace Reader

variable {α β ρ : Type}

/-- How many arrays and objects may be nested in a text. -/
def maxNesting : Nat := 127

/-- A reader followed by a function. -/
def map (f : α → β) (read : Reader α) : Reader β := fun depth d => (read depth d).map f

/-- A truth value. -/
def bool : Reader Bool
  | _, .bool b => .ok b
  | _, d => .error d.refusal

/-- A string. -/
def string : Reader String
  | _, .string (some s) => .ok s
  | _, d => .error d.refusal

/-- Any number, as a double. -/
def float : Reader Float
  | _, .number (some n) => .ok n.toFloat
  | _, d => .error d.refusal

/-- A natural number of so many bits. -/
def natOfBits (bits : Nat) : Reader Nat
  | _, .number (some (.int n)) =>
    if 0 ≤ n && n.toNat < Nat.pow 2 bits then .ok n.toNat else .error .mismatched
  | _, d => .error d.refusal

/-- An arbitrary value. -/
def any : Reader Json := Draft.take

/-- A value, or `null` for none. -/
def optional (read : Reader α) : Reader (Option α)
  | _, .null => .ok none
  | depth, d => (read depth d).map some

/-- An array, when its bracket may be opened. -/
def itemsOf (read : Draft → Except Flaw α) : Draft → Except Flaw (List α)
  | .array items ending => do
    let values ← items.mapM read
    ending.check
    return values
  | d => .error d.refusal

/-- An array. -/
def list (read : Reader α) : Reader (List α)
  | 0, .array _ _ => .error .malformed
  | 0, d => .error d.refusal
  | depth + 1, d => itemsOf (read depth) d

/-- An object with arbitrary keys; of several members with one key the last stands. -/
def table (read : Reader α) : Reader (Table String α)
  | 0, .object _ _ => .error .malformed
  | depth + 1, .object members ending => do
    let entries ← Draft.takeMembers (read depth) [] members
    ending.check
    return entries
  | _, d => .error d.refusal

/-- The word of an enumeration, for which `parse` gives its value. -/
def wordOf (parse : String → Option α) (s : String) : Except Flaw α :=
  match parse s with
  | some x => .ok x
  | none => .error .mismatched

/-- One of the words of an enumeration: a string, or an object whose only key is the word and whose
value is `null`. -/
def word (parse : String → Option α) : Reader α
  | _, .string (some s) => wordOf parse s
  | _, .string none => .error .malformed
  | _, .broken _ _ asWord => .error asWord
  | _ + 1, .object [] ending => .error (if ending = .cut then .truncated else .malformed)
  | _ + 1, .object ((k, d) :: rest) ending => do
    let x ← wordOf parse (← k.take)
    match d with
    | .null => .ok ()
    | d => .error d.refusal
    if rest.isEmpty then ending.check else .error .malformed
    return x
  | _, _ => .error .malformed

/-- One of two shapes.  The whole value is read first, so that its flaws come before the question
which shape it has. -/
def either (first second : Reader α) : Reader α := fun depth d => do
  let _ ← d.take depth
  match first depth d with
  | .ok x => .ok x
  | .error _ =>
    match second depth d with
    | .ok x => .ok x
    | .error _ => .error .mismatched

/-! ### Records -/

end Reader

/-- A field of a record that is read from JSON. -/
structure Field (ρ : Type) where
  name : String
  /-- Further names the field may have. -/
  aliases : List String
  /-- Whether the field must be there. -/
  required : Bool
  /-- Reads a value and stores it in the record. -/
  store : Nat → Draft → Except Flaw (ρ → ρ)

namespace Field

variable {α ρ : Type}

/-- A field that may be missing. -/
def ofReader (name : String) (read : Reader α) (set : α → ρ → ρ) : Field ρ :=
  ⟨name, [], false, fun depth d => (read depth d).map set⟩

/-- The field under further names. -/
def orNamed (f : Field ρ) (aliases : List String) : Field ρ :=
  ⟨f.name, aliases, f.required, f.store⟩

/-- The field as one that must be there. -/
def always (f : Field ρ) : Field ρ := ⟨f.name, f.aliases, true, f.store⟩

/-- Whether a key names the field. -/
def isNamed (f : Field ρ) (key : String) : Bool := f.name == key || f.aliases.contains key

end Field

namespace Reader

variable {ρ : Type}

/-- Reads the members of an object into a record.  Members that name no field are passed over; a
field that was read before must not come again, under whichever name. -/
def members (fields : List (Field ρ)) (depth : Nat) :
    List (Key × Draft) → List String → ρ → Except Flaw (List String × ρ)
  | [], seen, r => .ok (seen, r)
  | (k, d) :: rest, seen, r => do
    let key ← k.take
    match fields.find? (·.isNamed key) with
    | none =>
      d.skip
      members fields depth rest seen r
    | some f =>
      if seen.contains f.name then .error .mismatched
      else
        let set ← f.store depth d
        members fields depth rest (f.name :: seen) (set r)

/-- Reads the items of an array into the fields in their order.  Missing items leave fields as they
are, unless one must be there. -/
def items (depth : Nat) (ending : Ending) : List (Field ρ) → List Draft → ρ → Except Flaw ρ
  | [], [], r => do
    ending.check
    return r
  | [], _ :: _, _ => .error .malformed
  | f :: fields, [], r => do
    ending.check
    if (f :: fields).any Field.required then .error .mismatched else .ok r
  | f :: fields, d :: rest, r => do
    let set ← f.store depth d
    items depth ending fields rest (set r)

/-- A record written as an object. -/
def object (fields : List (Field ρ)) (blank : ρ) : Reader ρ
  | 0, .object _ _ => .error .malformed
  | depth + 1, .object entries ending => do
    let (seen, r) ← members fields depth entries [] blank
    ending.check
    if fields.any fun f => f.required && !seen.contains f.name then .error .mismatched else .ok r
  | _, d => .error d.refusal

/-- A record, written as an object or as an array of its fields in order. -/
def record (fields : List (Field ρ)) (blank : ρ) : Reader ρ
  | 0, .array _ _ => .error .malformed
  | depth + 1, .array entries ending => items depth ending fields entries blank
  | depth, d => object fields blank depth d

/-- Reads a whole text.  Nothing but white space may follow the value. -/
def text {α : Type} (read : Reader α) (s : String) : Except Flaw α := do
  let sheet := Json.Sheet.ofText s
  let x ← read maxNesting sheet.value
  if sheet.trailing then .error .malformed else .ok x

end Reader

/-- The object of the members that are present. -/
def Json.ofMembers (members : List (String × Option Json)) : Json :=
  .object (members.filterMap fun m => m.2.map fun v => (m.1, v))

end CausalTrace
