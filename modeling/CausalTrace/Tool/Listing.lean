import CausalTrace.Assembly.Tree
import CausalTrace.Trace.Calendar

/-!
# Listings

The text that shows a tree to a person: one line per path, and a line for everything that may be
missing.

## Main definitions

* `Segment.describe` — a segment in a listing
* `Tree.listing`
-/

namespace CausalTrace

/-- A segment in a listing: its name, what recorded it, and whether something is amiss. -/
def Segment.describe (s : Segment) : String :=
  let named := match s.origin with
    | some origin => s.name ++ " [" ++ origin ++ "]"
    | none => s.name
  if s.isOpen then named ++ " (in progress)"
  else if s.hasErrors then named ++ " (error)"
  else named

namespace Tree

/-- The line of a path; paths are counted from one on. -/
def pathLine (path : List Segment × Nat) : String :=
  "  [" ++ toString path.2 ++ "] "
    ++ String.intercalate " -> " (path.1.map Segment.describe) ++ "\n"

/-- The line of a link that was not followed. -/
def unresolvedLine (link : UnresolvedLink) : String :=
  "  unresolved link from " ++ link.segment ++ " to " ++ link.trace.text ++ " ("
    ++ link.reason.name ++ ")\n"

/-- The listing of a tree. -/
def listing (t : Tree) : String :=
  "trace " ++ t.sourceTrace.id.text ++ " (" ++ toString t.sourceTrace.count ++ " segments, "
    ++ toString t.leafCount ++ " paths)\n"
    ++ (match t.rootSegment? with
      | some s => "started " ++ s.start.rfc3339 ++ "\n"
      | none => "")
    ++ String.join ((t.segmentPaths.zipIdx 1).map pathLine)
    ++ String.join (t.unresolved.map unresolvedLine)
    ++ (if t.isPossiblyIncomplete then "  warning: tree may be incomplete\n" else "")

end Tree

end CausalTrace
