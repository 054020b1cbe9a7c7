import CausalTrace.Proofs.Json.Restore
import Mathlib.Data.List.Pairwise

/-!
# Null members

A field of a record that may be left out may as well be `null`: both leave the field as it is in a
blank record.  A member may stand anywhere in an object, so that other fields have been stored when
it is read, and others are stored afterwards; that it says nothing among them is because fields do
not interfere with each other.

## Main definitions

* `Field.Commute` — fields that do not interfere
* `Reader.IsNullable` — records of which every field may be `null`

## Main statements

* `Reader.record_null` — a member that is `null`, in an object
* `Reader.record_null_last` — an item that is `null`, at the end of an array of fields
* `Reader.record_member`, `Reader.record_item` — values that are stored alike

## Design notes

Reading the members of an object yields the names that were seen beside the record.  They are needed
to refuse fields that come twice, and differ when a member is left out; what is compared is the
record alone (`members_seen`), because no field of a nullable record must be there.
-/

namespace CausalTrace

variable {α β ρ : Type}

namespace Field

/-- Storing values in two fields comes to the same in either order. -/
def Commute (f g : Field ρ) : Prop :=
  ∀ depth d set, f.store depth d = .ok set → ∀ depth' d' set', g.store depth' d' = .ok set' →
    ∀ r, set (set' r) = set' (set r)

theorem Commute.symm {f g : Field ρ} (h : f.Commute g) : g.Commute f :=
  fun depth d set hset depth' d' set' hset' r => (h depth' d' set' hset' depth d set hset r).symm

theorem commute_ofReader {name name' : String} {read : Reader α} {read' : Reader β}
    {set : α → ρ → ρ} {set' : β → ρ → ρ} (h : ∀ x y r, set x (set' y r) = set' y (set x r)) :
    (ofReader name read set).Commute (ofReader name' read' set') := by
  intro depth d _ hset depth' d' _ hset' r
  obtain ⟨x, -, rfl⟩ := Except.map_eq_ok.mp hset
  obtain ⟨y, -, rfl⟩ := Except.map_eq_ok.mp hset'
  exact h x y r

/-- Storing `null` in the field is possible, and changes nothing. -/
def IsBlank (f : Field ρ) (r : ρ) : Prop :=
  ∀ depth, ∃ set, f.store depth .null = .ok set ∧ set r = r

theorem isBlank_ofReader {name : String} {read : Reader (Option α)} {set : Option α → ρ → ρ} {r : ρ}
    (hread : ∀ depth, read depth .null = .ok none) (hset : set none r = r) :
    (ofReader name read set).IsBlank r :=
  fun depth => ⟨set none, Except.map_eq_ok.mpr ⟨none, hread depth, rfl⟩, hset⟩

/-- What another field stores leaves the field blank. -/
theorem IsBlank.store {f g : Field ρ} (hfg : f.Commute g) {r : ρ} (h : f.IsBlank r) {depth : Nat}
    {d : Draft} {set : ρ → ρ} (hset : g.store depth d = .ok set) : f.IsBlank (set r) := by
  intro depth'
  obtain ⟨blank, hblank, hr⟩ := h depth'
  exact ⟨blank, hblank, by rw [hfg depth' .null blank hblank depth d set hset, hr]⟩

end Field

namespace Reader

/-- A record of which every field may be left out, or be `null`, which comes to the same. -/
structure IsNullable (fields : List (Field ρ)) (blank : ρ) : Prop where
  plain : IsPlain fields
  blank : ∀ f ∈ fields, f.IsBlank blank
  apart : fields.Pairwise Field.Commute

section

variable {fields : List (Field ρ)} {blank : ρ} {depth : Nat} {k : String}

/-- Different fields of such a record commute. -/
theorem IsNullable.commute (h : IsNullable fields blank) {f g : Field ρ} (hf : f ∈ fields)
    (hg : g ∈ fields) (hne : f.name ≠ g.name) : f.Commute g :=
  have : Std.Symm (Field.Commute (ρ := ρ)) := ⟨fun _ _ => Field.Commute.symm⟩
  h.apart.forall hf hg fun heq => hne (heq ▸ rfl)

/-! ### Members of objects -/

/-- Members are read in order, those at the end in the state that the first ones leave. -/
theorem members_append (before after : List (Key × Draft)) (seen : List String) (r : ρ) :
    members fields depth (before ++ after) seen r
      = (members fields depth before seen r).bind fun x => members fields depth after x.1 x.2 := by
  induction before generalizing seen r with
  | nil => rfl
  | cons m before ih =>
      obtain ⟨key, d⟩ := m
      simp only [List.cons_append, members]
      cases key.take with
      | error => rfl
      | ok name =>
          simp only [Except.ok_bind]
          cases fields.find? (·.isNamed name) with
          | none =>
              cases d.skip with
              | error => rfl
              | ok => exact ih seen r
          | some f =>
              dsimp only
              split
              · rfl
              · cases f.store depth d with
                | error => rfl
                | ok set => exact ih (f.name :: seen) (set r)

/-- Which names were seen matters only for the names that are still to come. -/
theorem members_seen (hplain : IsPlain fields) {entries : List (Key × Draft)}
    (hk : ∀ m ∈ entries, m.1 ≠ .text (some k)) {seen seen' : List String}
    (hseen : ∀ name ≠ k, seen.contains name = seen'.contains name) (r : ρ) :
    (members fields depth entries seen r).map Prod.snd
      = (members fields depth entries seen' r).map Prod.snd := by
  induction entries generalizing seen seen' r with
  | nil => rfl
  | cons m rest ih =>
      obtain ⟨key, d⟩ := m
      rw [List.forall_mem_cons] at hk
      simp only [members]
      cases hname : key.take with
      | error => rfl
      | ok name =>
          have hne : name ≠ k := fun heq => hk.1 (heq ▸ Key.take_eq_ok.mp hname)
          simp only [Except.ok_bind]
          cases hfind : fields.find? (·.isNamed name) with
          | none =>
              cases d.skip with
              | error => rfl
              | ok => exact ih hk.2 hseen r
          | some f =>
              obtain rfl := name_eq_of_find? hplain hfind
              simp only [hseen _ hne]
              split
              · rfl
              · cases f.store depth d with
                | error => rfl
                | ok set =>
                    refine ih hk.2 (fun name hname => ?_) (set r)
                    simp only [List.contains_cons, hseen name hname]

/-- A field that no member names is neither seen nor stored. -/
theorem members_isBlank (hnull : IsNullable fields blank) {f : Field ρ} (hf : f ∈ fields)
    {entries : List (Key × Draft)} (hk : ∀ m ∈ entries, m.1 ≠ .text (some f.name))
    {seen seen' : List String} {r r' : ρ}
    (h : members fields depth entries seen r = .ok (seen', r')) (hseen : f.name ∉ seen)
    (hr : f.IsBlank r) : f.name ∉ seen' ∧ f.IsBlank r' := by
  induction entries generalizing seen r with
  | nil =>
      cases h
      exact ⟨hseen, hr⟩
  | cons m rest ih =>
      rw [List.forall_mem_cons] at hk
      obtain ⟨name, hname, ⟨-, h⟩ | ⟨g, set, hfind, -, hset, h⟩⟩ := members_cons_cases h
      · exact ih hk.2 h hseen hr
      · obtain rfl := name_eq_of_find? hnull.plain hfind
        have hne : f.name ≠ g.name := fun heq => hk.1 (heq ▸ hname)
        refine ih hk.2 h (by simp [hne, hseen]) (hr.store ?_ hset)
        exact hnull.commute hf (List.mem_of_find?_eq_some hfind) hne

/-- A member that is `null` says no more than none. -/
theorem members_null (hnull : IsNullable fields blank) {before after : List (Key × Draft)}
    (hbefore : ∀ m ∈ before, m.1 ≠ .text (some k)) (hafter : ∀ m ∈ after, m.1 ≠ .text (some k)) :
    (members fields depth (before ++ (.text (some k), .null) :: after) [] blank).map Prod.snd
      = (members fields depth (before ++ after) [] blank).map Prod.snd := by
  rw [members_append, members_append]
  cases hread : members fields depth before [] blank with
  | error => rfl
  | ok x =>
      obtain ⟨seen, r⟩ := x
      cases hfind : fields.find? (·.isNamed k) with
      | none =>
          exact congrArg _ (members_unknown (v := .null) hfind after seen r)
      | some f =>
          obtain rfl := name_eq_of_find? hnull.plain hfind
          have hf := List.mem_of_find?_eq_some hfind
          obtain ⟨hseen, hr⟩ := members_isBlank hnull hf hbefore hread List.not_mem_nil
            (hnull.blank f hf)
          obtain ⟨set, hset, hsame⟩ := hr depth
          have hstored := members_stored hfind hset hseen after r
          rw [hsame] at hstored
          refine (congrArg _ hstored).trans (members_seen hnull.plain hafter ?_ r)
          intro name hname
          simp [hname]

/-- The record is read from the members alone, because no field must be there. -/
theorem record_object (hplain : IsPlain fields) (entries : List (Key × Draft)) (ending : Ending) :
    record fields blank (depth + 1) (.object entries ending)
      = ((members fields depth entries [] blank).map Prod.snd).bind fun r =>
          ending.check.map fun _ => r := by
  have hcomplete (seen : List String) :
      (fields.any fun f => f.required && !seen.contains f.name) = false := by
    rw [List.any_eq_false]
    intro f hf
    simp [(hplain f hf).2]
  simp only [record, object, hcomplete]
  cases members fields depth entries [] blank with
  | error => rfl
  | ok => cases ending <;> rfl

/-- A field of an object may be `null` instead of absent. -/
theorem record_null (hnull : IsNullable fields blank) {before after : List (Key × Draft)}
    (hbefore : ∀ m ∈ before, m.1 ≠ .text (some k)) (hafter : ∀ m ∈ after, m.1 ≠ .text (some k))
    (ending : Ending) (depth : Nat) :
    record fields blank depth (.object (before ++ (.text (some k), .null) :: after) ending)
      = record fields blank depth (.object (before ++ after) ending) := by
  cases depth with
  | zero => rfl
  | succ depth =>
      rw [record_object hnull.plain, record_object hnull.plain, members_null hnull hbefore hafter]

/-- Where a value stands for a field of an object, another that is stored alike may stand. -/
theorem record_member {f : Field ρ} (hfind : fields.find? (·.isNamed k) = some f) {d d' : Draft}
    (hstore : f.store depth d = f.store depth d') (before after : List (Key × Draft))
    (ending : Ending) :
    record fields blank (depth + 1) (.object (before ++ (.text (some k), d) :: after) ending)
      = record fields blank (depth + 1) (.object (before ++ (.text (some k), d') :: after) ending)
    := by
  have hmembers : members fields depth (before ++ (.text (some k), d) :: after) []
      = members fields depth (before ++ (.text (some k), d') :: after) [] := by
    funext r
    simp only [members_append, members, Key.take, Except.ok_bind, hfind, hstore]
  simp only [record, object, hmembers]

/-! ### Arrays of fields -/

/-- Missing items leave every field as it is. -/
theorem items_nil (hplain : IsPlain fields) (ending : Ending) (r : ρ) :
    items depth ending fields [] r = ending.check.map fun _ => r := by
  cases fields with
  | nil => cases ending <;> rfl
  | cons f fields =>
      have hany : (f :: fields).any Field.required = false :=
        List.any_eq_false.mpr fun g hg => by simp [(hplain g hg).2]
      simp only [items, hany]
      cases ending <;> rfl

/-- A `null` at the end of an array of fields may be left out. -/
theorem items_null_last (hplain : IsPlain fields) (hapart : fields.Pairwise Field.Commute)
    {entries : List Draft} (hlength : entries.length < fields.length) (ending : Ending) {r : ρ}
    (hr : ∀ f ∈ fields, f.IsBlank r) :
    items depth ending fields (entries ++ [.null]) r = items depth ending fields entries r := by
  induction entries generalizing fields r with
  | nil =>
      obtain ⟨f, fields, rfl⟩ := List.exists_cons_of_length_pos hlength
      obtain ⟨set, hset, hsame⟩ := hr f List.mem_cons_self depth
      rw [items_nil hplain]
      simp only [List.nil_append, items, hset, Except.ok_bind, hsame]
      exact items_nil (fun g hg => hplain g (List.mem_cons_of_mem f hg)) ending r
  | cons d rest ih =>
      obtain ⟨f, fields, rfl⟩ := List.exists_cons_of_length_pos (Nat.zero_lt_of_lt hlength)
      rw [List.pairwise_cons] at hapart
      simp only [List.cons_append, items]
      cases hset : f.store depth d with
      | error => rfl
      | ok set =>
          refine ih (fun g hg => hplain g (List.mem_cons_of_mem f hg)) hapart.2
            (Nat.lt_of_succ_lt_succ hlength) fun g hg => ?_
          exact (hr g (List.mem_cons_of_mem f hg)).store (hapart.1 g hg).symm hset

/-- The last item of an array of fields may be `null` instead of missing. -/
theorem record_null_last (hnull : IsNullable fields blank) {entries : List Draft}
    (hlength : entries.length < fields.length) (ending : Ending) (depth : Nat) :
    record fields blank depth (.array (entries ++ [.null]) ending)
      = record fields blank depth (.array entries ending) := by
  cases depth with
  | zero => rfl
  | succ depth => exact items_null_last hnull.plain hnull.apart hlength ending hnull.blank

/-- Items that are stored alike may stand for each other. -/
theorem items_congr {before : List Draft} {f : Field ρ} (hf : fields[before.length]? = some f)
    {d d' : Draft} (hstore : f.store depth d = f.store depth d') (after : List Draft)
    (ending : Ending) (r : ρ) :
    items depth ending fields (before ++ d :: after) r
      = items depth ending fields (before ++ d' :: after) r := by
  induction before generalizing fields r with
  | nil =>
      cases fields with
      | nil => rfl
      | cons g fields =>
          obtain rfl : g = f := by simpa using hf
          simp only [List.nil_append, items, hstore]
  | cons e before ih =>
      cases fields with
      | nil => rfl
      | cons g fields =>
          simp only [List.cons_append, items]
          cases g.store depth e with
          | error => rfl
          | ok set => exact ih (by simpa using hf) (set r)

/-- Where an item stands for a field, another that is stored alike may stand. -/
theorem record_item {before : List Draft} {f : Field ρ} (hf : fields[before.length]? = some f)
    {d d' : Draft} (hstore : f.store depth d = f.store depth d') (after : List Draft)
    (ending : Ending) :
    record fields blank (depth + 1) (.array (before ++ d :: after) ending)
      = record fields blank (depth + 1) (.array (before ++ d' :: after) ending) :=
  items_congr hf hstore after ending blank

end

end Reader

end CausalTrace
