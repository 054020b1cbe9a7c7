import CausalTrace.Text.Blank
import CausalTrace.Trace.Id

/-!
# Tracing headers

The text that a call carries along to say which trace it belongs to: components separated by
semicolons, each a key, an equals sign and a value, as in `Root=1-5f84;Parent=53995c;Sampled=1`.

## Main definitions

* `Header` — trace, segment of the caller and sampling decision
* `Header.Component` — a component of the text
* `Header.parse`, `Header.render`
* `Header.IsValid` — the headers whose text reads back

## Design notes

Components are read one after the other into a `Header.Found`.  The keys follow three rules: the
first root stands, the last parent that is not blank stands, the last sampling decision stands.
Keys count in any case, and components with other keys do not matter.
-/

namespace CausalTrace

/-- A tracing header. -/
structure Header where
  root : TraceId
  /-- The segment of the caller, if it was passed on. -/
  parent : Option String
  /-- The sampling decision, if it is known. -/
  sampled : Option Bool
  deriving DecidableEq, Repr

/-- Why a text is no tracing header. -/
inductive HeaderError
  /-- No component names the trace. -/
  | missingRoot
  /-- The component that names the trace is empty. -/
  | emptyRoot
  deriving DecidableEq, Repr

/-- The text of an error. -/
def HeaderError.message : HeaderError → String
  | .missingRoot => "tracing header has no Root component"
  | .emptyRoot => "tracing header has an empty Root component"

namespace Header

/-- A header for a trace that is sampled, without a caller. -/
def ofRoot (root : TraceId) : Header := ⟨root, none, some true⟩

/-- A component of a header: its key in lower case, and the value behind the equals sign, both
without the white space around them. -/
structure Component where
  key : String
  value : Option String
  deriving DecidableEq, Repr

/-- The component of the characters between two semicolons; the first equals sign separates. -/
def Component.ofChars (s : List Char) : Component :=
  let key := String.ofList ((Text.trimChars (s.takeWhile (· ≠ '='))).map Char.toLower)
  match s.dropWhile (· ≠ '=') with
  | [] => ⟨key, none⟩
  | _ :: value => ⟨key, some (String.ofList (Text.trimChars value))⟩

/-- The components of a text. -/
def components (s : String) : List Component := (s.toList.splitOn ';').map Component.ofChars

/-- What the components read so far say. -/
structure Found where
  root : Option TraceId
  parent : Option String
  sampled : Option Bool
  deriving DecidableEq, Repr

/-- The sampling decision of a value. -/
def decision (value : String) : Option Bool :=
  if value = "1" then some true else if value = "0" then some false else none

/-- What is known after one more component. -/
def Found.add (f : Found) (c : Component) : Except HeaderError Found :=
  if c.key = "root" then
    match f.root, c.value with
    | some _, _ => .ok f
    | none, none => .error .emptyRoot
    | none, some value =>
      if value = "" then .error .emptyRoot else .ok { f with root := some ⟨value⟩ }
  else
    match c.value with
    | none => .ok f
    | some value =>
      if c.key = "parent" then
        .ok (if value = "" then f else { f with parent := some value })
      else if c.key = "sampled" then .ok { f with sampled := decision value }
      else .ok f

/-- The header of a text. -/
def parse (s : String) : Except HeaderError Header := do
  let found ← (components s).foldlM Found.add ⟨none, none, none⟩
  match found.root with
  | some root => return ⟨root, found.parent, found.sampled⟩
  | none => throw .missingRoot

/-- The text of a header. -/
def render (h : Header) : String :=
  "Root=" ++ h.root.text
    ++ (match h.parent with
      | some parent => ";Parent=" ++ parent
      | none => "")
    ++ (match h.sampled with
      | some true => ";Sampled=1"
      | some false => ";Sampled=0"
      | none => "")

/-- A value that reads back: not empty, without a semicolon and without white space at its ends. -/
def IsValue (s : String) : Prop := s ≠ "" ∧ ';' ∉ s.toList ∧ Text.trim s = s

/-- A header whose text reads back. -/
def IsValid (h : Header) : Prop := IsValue h.root.text ∧ ∀ p ∈ h.parent, IsValue p

instance (s : String) : Decidable (IsValue s) := inferInstanceAs (Decidable (_ ∧ _ ∧ _))

end Header

end CausalTrace
