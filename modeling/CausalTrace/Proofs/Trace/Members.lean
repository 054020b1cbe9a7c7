import CausalTrace.Proofs.Trace.Content

/-!
# Members that may be left out

Written segments and documents under construction leave the same things out: flags that are not set,
and lists and tables without entries.  Read as a document, what was left out is missing, and what is
missing is normalized into what was left out.

## Main definitions

* `Segment.raised?`, `Segment.nonempty?` — values that are given only when they say something

## Main statements

* `Segment.agrees_flag`, `Segment.agrees_filled`, `Segment.agrees_filledTable`,
  `Segment.agrees_any` — what is read of such members
-/

namespace CausalTrace

open Reader

namespace Segment

/-- A flag that is given only when it is set. -/
def raised? (b : Bool) : Option Bool := if b then some true else none

/-- A list that is given only when it has items. -/
def nonempty? {α : Type} (xs : List α) : Option (List α) := if xs.isEmpty then none else some xs

/-- A flag that is unset is left out of what is written. -/
theorem agrees_flag (b : Bool) : Reader.bool.Agrees (flag b) (raised? b) := by
  cases b with
  | false => exact .absent
  | true => exact .present (restores_bool true) (by simp)

/-- A list without items is left out of what is written. -/
theorem agrees_filled {α β : Type} {read : Reader α} {write : β → Json} {xs : List β}
    {ys : List α} (h : List.Forall₂ (fun x y => read.Reads (write x) y) xs ys) :
    read.list.Agrees (filled write xs) (nonempty? ys) := by
  cases h with
  | nil => exact .absent
  | cons hx hrest =>
      refine .present (Reads.list ?_) (by simp [Json.ofList])
      exact List.forall₂_map_left_iff.mpr (.cons hx hrest)

/-- A table without entries is left out of what is written. -/
theorem agrees_filledTable {t : Table String Json} (h : (Json.ofTable t).IsTabular) :
    (Reader.table .any).Agrees (filledTable t) (nonempty? t) := by
  cases t with
  | nil => exact .absent
  | cons e rest => exact .present (restores_table h) (by simp [Json.ofTable])

/-- An arbitrary value that is `null` counts as missing. -/
theorem agrees_any {o : Option Json} (h : ∀ v ∈ o, v.IsTabular) :
    Reader.any.Agrees o (o.filter fun v => !v.isNull) := by
  cases o with
  | none => exact .absent
  | some v =>
      cases v with
      | null => exact .null
      | _ => exact .present (reads_any (h _ rfl)) fun hv => by cases hv

/-- Every field of a segment has one name, and none must be there. -/
theorem isPlain_fields (nested : Draft → Except Flaw (Option (List WireSegment))) :
    IsPlain (WireSegment.fields nested) := by
  simp [IsPlain, WireSegment.fields, Field.ofReader]

theorem getD_raised? (b : Bool) : (raised? b).getD false = b := by cases b <;> rfl

theorem getD_nonempty? {α : Type} (xs : List α) : (nonempty? xs).getD [] = xs := by
  cases xs <;> rfl

end Segment

end CausalTrace
