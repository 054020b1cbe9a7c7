/-!
# Trace ids

The name of a trace.  It is opaque: it is only ever compared, ordered and handed to a backend.

## Main definitions

* `TraceId`, ordered as its text
* `TraceId.fresh` — a new id from a moment and random bytes
-/

namespace CausalTrace

/-- The name of a trace. -/
structure TraceId where
  text : String
  deriving DecidableEq, Repr, Inhabited

namespace TraceId

instance : LT TraceId := ⟨fun a b => a.text < b.text⟩

instance : DecidableLT TraceId := fun a b => inferInstanceAs (Decidable (a.text < b.text))

instance : ToString TraceId := ⟨TraceId.text⟩

/-- Ids in a row, with arrows between them. -/
def chainText (chain : List TraceId) : String := String.intercalate " -> " (chain.map TraceId.text)

/-- The lower-case hexadecimal digits of a number, with zeros in front up to a width. -/
def hex (width n : Nat) : List Char :=
  let digits := Nat.toDigits 16 n
  List.replicate (width - digits.length) '0' ++ digits

/-- A new id: a version, the second in which it is made, in 32 bits, and random bytes. -/
def fresh (second : Nat) (random : List UInt8) : TraceId :=
  ⟨String.ofList (['1', '-'] ++ hex 8 (second % 0x100000000) ++ ['-']
    ++ random.flatMap fun b => hex 2 b.toNat)⟩

end TraceId

end CausalTrace
