import CausalTrace.Json.Basic

/-!
# Drafts: texts read as far as they are JSON

A reader of typed data stops at the first problem it meets, going from left to right.  Whether that
problem is the end of the text, a violation of the grammar or data of the wrong type depends on what
the reader wants at that place, so grammar and data cannot be checked one after the other.  A draft
keeps everything that matters for the choice: the value as far as it could be read, and at the
place where it stopped being JSON what is wrong there.

## Main definitions

* `Flaw` — the three kinds of first problem
* `Draft` — a value read as far as possible
* `Draft.skip` — passing over a value nobody wants
* `Draft.take` — reading an arbitrary value
* `Draft.ofJson` — the draft of a complete value

## Design notes

Well-formed literals that denote nothing (a numeral too large for a double, a string with an
unpaired surrogate) are kept as `none`: they are a flaw for whoever wants the value, and none for
whoever passes over it.  Nothing follows a place where a text stops being JSON, so `broken` is
always the last leaf of a draft.
-/

namespace CausalTrace

/-- The first problem met when a text is read. -/
inductive Flaw
  /-- The text ends too early. -/
  | truncated
  /-- The text violates the grammar, or holds a literal that denotes nothing. -/
  | malformed
  /-- The text is well formed so far, and holds something else than is wanted. -/
  | mismatched
  deriving DecidableEq, Repr

/-- The name of a flaw in messages. -/
def Flaw.label : Flaw → String
  | .truncated => "<eof>"
  | .malformed => "<syntax>"
  | .mismatched => "<data>"

/-- How an array or object ends behind its last item. -/
inductive Ending
  /-- With its closing bracket. -/
  | closed
  /-- With the end of the text. -/
  | cut
  /-- With a character that cannot stand there. -/
  | stray
  deriving DecidableEq, Repr

/-- The flaw of an ending that is not the closing bracket. -/
def Ending.check : Ending → Except Flaw Unit
  | .closed => .ok ()
  | .cut => .error .truncated
  | .stray => .error .malformed

/-- The key of a member. -/
inductive Key
  /-- A string; without a text when it holds an unpaired surrogate. -/
  | text (value : Option String)
  /-- A string that breaks off: its flaw for a reader who wants the text, and for one who passes
  over it. -/
  | broken (taken skipped : Flaw)
  /-- Something else than a string. -/
  | foreign
  deriving DecidableEq, Repr

/-- A value read as far as it is JSON. -/
inductive Draft
  | null
  | bool (value : Bool)
  /-- A numeral, and its number if it denotes one. -/
  | number (value : Option Json.Number)
  /-- A string, and its text unless it holds an unpaired surrogate. -/
  | string (value : Option String)
  | array (items : List Draft) (ending : Ending)
  | object (members : List (Key × Draft)) (ending : Ending)
  /-- Here the text stops being JSON: its flaw for a reader who wants the value, for one who passes
  over it, and for one who wants the word of an enumeration. -/
  | broken (taken skipped asWord : Flaw)
  deriving Repr

/-- The text of a key.  Keys that are no strings violate the grammar. -/
def Key.take : Key → Except Flaw String
  | .text (some k) => .ok k
  | .text none => .error .malformed
  | .broken taken _ => .error taken
  | .foreign => .error .malformed

/-- Passing over a key. -/
def Key.skip : Key → Except Flaw Unit
  | .text _ => .ok ()
  | .broken _ skipped => .error skipped
  | .foreign => .error .malformed

namespace Draft

/-- The flaw met by a reader who wants something else: a scalar is read first, so that its own flaw
comes before the mismatch, while a bracket settles the matter. -/
def refusal : Draft → Flaw
  | .number none => .malformed
  | .string none => .malformed
  | .broken taken _ _ => taken
  | _ => .mismatched

mutual

/-- Passing over a value: only the grammar counts, not what literals denote. -/
def skip : Draft → Except Flaw Unit
  | .array items ending => do
    skipItems items
    ending.check
  | .object members ending => do
    skipMembers members
    ending.check
  | .broken _ skipped _ => .error skipped
  | _ => .ok ()

/-- Passing over the items of an array. -/
def skipItems : List Draft → Except Flaw Unit
  | [] => .ok ()
  | d :: rest => do
    skip d
    skipItems rest

/-- Passing over the members of an object. -/
def skipMembers : List (Key × Draft) → Except Flaw Unit
  | [] => .ok ()
  | (k, d) :: rest => do
    k.skip
    skip d
    skipMembers rest

end

/-- The entries of an object, each key before its value; of several entries for one key the last
stands. -/
def takeMembers {α : Type} (read : Draft → Except Flaw α) (t : Table String α) :
    List (Key × Draft) → Except Flaw (Table String α)
  | [] => .ok t
  | (k, d) :: rest => do
    let key ← k.take
    let value ← read d
    takeMembers read (t.insert key value) rest

/-- Reading an arbitrary value in which at most `depth` arrays and objects may be nested. -/
def take : Nat → Draft → Except Flaw Json
  | _, .null => .ok .null
  | _, .bool b => .ok (.bool b)
  | _, .number (some n) => .ok (.number n)
  | _, .number none => .error .malformed
  | _, .string (some s) => .ok (.string s)
  | _, .string none => .error .malformed
  | _, .broken taken _ _ => .error taken
  | 0, .array _ _ => .error .malformed
  | 0, .object _ _ => .error .malformed
  | depth + 1, .array items ending => do
    let values ← items.mapM (take depth)
    ending.check
    return .array values
  | depth + 1, .object members ending => do
    let entries ← takeMembers (take depth) [] members
    ending.check
    return .ofTable entries

mutual

/-- The draft of a complete value. -/
def ofJson : Json → Draft
  | .null => .null
  | .bool b => .bool b
  | .number n => .number (some n)
  | .string s => .string (some s)
  | .array items => .array (ofItems items) .closed
  | .object members => .object (ofMembers members) .closed

/-- The drafts of the items of an array. -/
def ofItems : List Json → List Draft
  | [] => []
  | v :: rest => ofJson v :: ofItems rest

/-- The drafts of the members of an object. -/
def ofMembers : List (String × Json) → List (Key × Draft)
  | [] => []
  | (k, v) :: rest => (.text (some k), ofJson v) :: ofMembers rest

end

end Draft

end CausalTrace
