import CausalTrace.Proofs.Json.Nullable

/-!
# Fields with several names

The members of an object may stand in any order, each under any of the names of its field, and
between members that name no field at all.  What is read depends only on what stands under the names
of each field, as long as no two fields have a name in common and fields do not interfere with each
other: then the record is the one that is got by going through the fields in their own order.

## Main definitions

* `Json.under` — what an object gives under some keys
* `Json.Gives` — what it gives for a value that may be missing
* `Field.Apart` — fields without a common name
* `Reader.Gathers` — a record, field by field

## Main statements

* `Reader.reads_gathered`, `Reader.reads_gathered_object` — an object is read as the record that is
  gathered from it
* `Reader.object_missing` — an object without a field that must be there is refused

## Design notes

The object is given as its list of members, so that a key may come twice.  A field that comes twice
is refused, under whichever names, and so a record is gathered only from objects that give at most
one value under the names of each field.
-/

namespace CausalTrace

variable {α ρ : Type}

namespace Json

/-- The values of the members that have one of some keys. -/
def under (keys : List String) (ms : List (String × Json)) : List Json :=
  (ms.filter fun m => m.1 ∈ keys).map Prod.snd

variable {keys : List String} {k : String} {v : Json} {rest ms : List (String × Json)}

@[simp] theorem under_nil : under keys [] = [] := rfl

theorem under_cons_of_mem (h : k ∈ keys) : under keys ((k, v) :: rest) = v :: under keys rest := by
  simp [under, h]

theorem under_cons_of_not_mem (h : k ∉ keys) : under keys ((k, v) :: rest) = under keys rest := by
  simp [under, h]

/-- What an object gives for a value that may be missing: nothing or `null` when it is missing, and
otherwise the value. -/
inductive Gives (write : α → Json) : List Json → Option α → Prop
  | omitted : Gives write [] none
  | null : Gives write [.null] none
  | value (x : α) : Gives write [write x] (some x)

/-- A member that is always written gives the value, and `null` when it is missing. -/
theorem gives_ofOption {write : α → Json} (o : Option α) : Gives write [.ofOption write o] o := by
  cases o with
  | none => exact .null
  | some x => exact .value x

/-- What an object gives is nested no deeper than its members. -/
theorem nesting_le_of_mem_under (h : v ∈ under keys ms) {depth : Nat}
    (hnesting : ∀ m ∈ ms, m.2.nesting ≤ depth) : v.nesting ≤ depth := by
  obtain ⟨m, hm, rfl⟩ := List.mem_map.mp h
  exact hnesting m (List.mem_of_mem_filter hm)

end Json

namespace Field

/-- All names of a field. -/
def names (f : Field ρ) : List String := f.name :: f.aliases

theorem isNamed_iff {f : Field ρ} {k : String} : f.isNamed k = true ↔ k ∈ f.names := by
  simp only [isNamed, names, Bool.or_eq_true, beq_iff_eq, List.contains_iff_mem, List.mem_cons,
    eq_comm (a := k)]

/-- Fields without a common name. -/
def Apart (f g : Field ρ) : Prop := f.names.Disjoint g.names

theorem Apart.symm {f g : Field ρ} (h : f.Apart g) : g.Apart f := fun _ hg hf => h hf hg

section

variable {f g : Field ρ} {aliases : List String}

@[simp] theorem names_orNamed : (f.orNamed aliases).names = f.name :: aliases := rfl

@[simp] theorem names_always : f.always.names = f.names := rfl

@[simp] theorem commute_orNamed_left : (f.orNamed aliases).Commute g ↔ f.Commute g := .rfl

@[simp] theorem commute_orNamed_right : f.Commute (g.orNamed aliases) ↔ f.Commute g := .rfl

@[simp] theorem commute_always_left : f.always.Commute g ↔ f.Commute g := .rfl

@[simp] theorem commute_always_right : f.Commute g.always ↔ f.Commute g := .rfl

end

end Field

namespace Reader

variable {fields : List (Field ρ)} {depth : Nat} {k : String} {v : Json}
  {rest ms : List (String × Json)} {seen seen' : List String} {r r' blank : ρ} {f g : Field ρ}

/-! ### Which field a key names -/

/-- Of fields that stand apart, only one has a given name. -/
theorem eq_of_mem_names (hapart : fields.Pairwise Field.Apart) (hf : f ∈ fields) (hg : g ∈ fields)
    (hkf : k ∈ f.names) (hkg : k ∈ g.names) : f = g := by
  have : Std.Symm (Field.Apart (ρ := ρ)) := ⟨fun _ _ => Field.Apart.symm⟩
  by_contra hne
  exact hapart.forall hf hg hne hkf hkg

theorem eq_of_name_eq (hapart : fields.Pairwise Field.Apart) (hf : f ∈ fields) (hg : g ∈ fields)
    (h : f.name = g.name) : f = g :=
  eq_of_mem_names hapart hf hg List.mem_cons_self (h ▸ List.mem_cons_self)

/-- The field that is found under a name is the one that has it. -/
theorem find?_isNamed_iff (hapart : fields.Pairwise Field.Apart) :
    fields.find? (·.isNamed k) = some f ↔ f ∈ fields ∧ k ∈ f.names := by
  constructor
  · intro h
    have hnamed := List.find?_some h
    exact ⟨List.mem_of_find?_eq_some h, Field.isNamed_iff.mp hnamed⟩
  · rintro ⟨hf, hk⟩
    cases h : fields.find? (·.isNamed k) with
    | none => exact absurd (Field.isNamed_iff.mpr hk) (List.find?_eq_none.mp h f hf)
    | some g =>
        have hnamed := List.find?_some h
        rw [eq_of_mem_names hapart hf (List.mem_of_find?_eq_some h) hk
          (Field.isNamed_iff.mp hnamed)]

/-- None is found under a name that no field has. -/
theorem find?_isNamed_eq_none :
    fields.find? (·.isNamed k) = none ↔ ∀ f ∈ fields, k ∉ f.names := by
  simp [List.find?_eq_none, ← Field.isNamed_iff]

/-- The name of a field is seen when the object gives something under one of its names. -/
theorem mem_seen_iff (hapart : fields.Pairwise Field.Apart)
    (h : members fields depth (Draft.ofMembers ms) seen r = .ok (seen', r')) (hf : f ∈ fields) :
    f.name ∈ seen' ↔ f.name ∈ seen ∨ Json.under f.names ms ≠ [] := by
  induction ms generalizing seen r with
  | nil =>
      cases h
      simp
  | cons m rest ih =>
      obtain ⟨k, v⟩ := m
      obtain ⟨_, ⟨⟩, ⟨hfind, h⟩ | ⟨g, set, hfind, -, -, h⟩⟩ := members_cons_cases h
      · rw [ih h, Json.under_cons_of_not_mem (find?_isNamed_eq_none.mp hfind f hf)]
      · obtain ⟨hg, hkg⟩ := (find?_isNamed_iff hapart).mp hfind
        rw [ih h, List.mem_cons]
        by_cases hkf : k ∈ f.names
        · obtain rfl := eq_of_mem_names hapart hf hg hkf hkg
          simp [Json.under_cons_of_mem hkf]
        · have hne : f.name ≠ g.name := fun heq => hkf (eq_of_name_eq hapart hf hg heq ▸ hkg)
          simp [Json.under_cons_of_not_mem hkf, hne]

/-! ### Records, field by field -/

/-- A record becomes another when every field in turn takes the one value that the object gives
under its names, or is left as it is when there is none. -/
inductive Gathers (depth : Nat) (ms : List (String × Json)) : List (Field ρ) → ρ → ρ → Prop
  | nil (r : ρ) : Gathers depth ms [] r r
  | absent {f : Field ρ} {fields : List (Field ρ)} {r r' : ρ} (hnone : Json.under f.names ms = [])
      (hrest : Gathers depth ms fields r r') : Gathers depth ms (f :: fields) r r'
  | present {f : Field ρ} {fields : List (Field ρ)} {r r' : ρ} {v : Json} {set : ρ → ρ}
      (hone : Json.under f.names ms = [v]) (hstore : f.store depth (.ofJson v) = .ok set)
      (hrest : Gathers depth ms fields (set r) r') : Gathers depth ms (f :: fields) r r'

namespace Gathers

theorem eq_of_nil (h : Gathers depth [] fields r r') : r = r' := by
  induction h with
  | nil => rfl
  | absent _ _ ih => exact ih
  | present hone => simp at hone

/-- Without a member that names none of the fields, the same is gathered. -/
theorem passOver (h : Gathers depth ((k, v) :: rest) fields r r') (hk : ∀ f ∈ fields, k ∉ f.names) :
    Gathers depth rest fields r r' := by
  induction h with
  | nil r => exact .nil r
  | absent hnone _ ih =>
      rw [List.forall_mem_cons] at hk
      rw [Json.under_cons_of_not_mem hk.1] at hnone
      exact .absent hnone (ih hk.2)
  | present hone hstore _ ih =>
      rw [List.forall_mem_cons] at hk
      rw [Json.under_cons_of_not_mem hk.1] at hone
      exact .present hone hstore (ih hk.2)

/-- The field that the first member names may as well take its value first of all. -/
theorem takeFirst (h : Gathers depth ((k, v) :: rest) fields r r')
    (hapart : fields.Pairwise Field.Apart) (hcommute : fields.Pairwise Field.Commute)
    (hg : g ∈ fields) (hk : k ∈ g.names) :
    ∃ set, g.store depth (.ofJson v) = .ok set ∧ Json.under g.names rest = [] ∧
      Gathers depth rest fields (set r) r' := by
  induction h with
  | nil => cases hg
  | @absent f fields r r' hnone hrest ih =>
      rw [List.pairwise_cons] at hapart hcommute
      rcases List.mem_cons.mp hg with rfl | hg
      · rw [Json.under_cons_of_mem hk] at hnone
        cases hnone
      · obtain ⟨set, hset, hnone', hrest'⟩ := ih hapart.2 hcommute.2 hg
        rw [Json.under_cons_of_not_mem fun hkf => hapart.1 g hg hkf hk] at hnone
        exact ⟨set, hset, hnone', .absent hnone hrest'⟩
  | @present f fields r r' u set hone hstore hrest ih =>
      rw [List.pairwise_cons] at hapart hcommute
      rcases List.mem_cons.mp hg with rfl | hg
      · rw [Json.under_cons_of_mem hk, List.cons_eq_cons] at hone
        obtain ⟨rfl, hnone⟩ := hone
        have hothers : ∀ f ∈ fields, k ∉ f.names := fun f hf hkf => hapart.1 f hf hk hkf
        exact ⟨set, hstore, hnone, .absent hnone (hrest.passOver hothers)⟩
      · obtain ⟨set', hset', hnone, hrest'⟩ := ih hapart.2 hcommute.2 hg
        rw [Json.under_cons_of_not_mem fun hkf => hapart.1 g hg hkf hk] at hone
        rw [← hcommute.1 g hg depth (.ofJson u) set hstore depth (.ofJson v) set' hset'] at hrest'
        exact ⟨set', hset', hnone, .present hone hstore hrest'⟩

/-- Reading the members in the order of the object gives what is gathered in the order of the
fields. -/
theorem members_eq (hapart : fields.Pairwise Field.Apart) (hcommute : fields.Pairwise Field.Commute)
    (h : Gathers depth ms fields r r')
    (hseen : ∀ f ∈ fields, Json.under f.names ms ≠ [] → f.name ∉ seen) :
    ∃ seen', members fields depth (Draft.ofMembers ms) seen r = .ok (seen', r') := by
  induction ms generalizing seen r with
  | nil => exact ⟨seen, by rw [h.eq_of_nil]; rfl⟩
  | cons m rest ih =>
      obtain ⟨k, v⟩ := m
      cases hfind : fields.find? (·.isNamed k) with
      | none =>
          have hk := find?_isNamed_eq_none.mp hfind
          obtain ⟨seen', hread⟩ := ih (h.passOver hk) fun f hf hne =>
            hseen f hf (by rwa [Json.under_cons_of_not_mem (hk f hf)])
          exact ⟨seen', (members_unknown hfind _ _ _).trans hread⟩
      | some g =>
          obtain ⟨hg, hk⟩ := (find?_isNamed_iff hapart).mp hfind
          obtain ⟨set, hset, hnone, hrest⟩ := h.takeFirst hapart hcommute hg hk
          have hnew : g.name ∉ seen := hseen g hg (by simp [Json.under_cons_of_mem hk])
          have hseen' : ∀ f ∈ fields, Json.under f.names rest ≠ [] → f.name ∉ g.name :: seen := by
            intro f hf hne
            have hkf : k ∉ f.names := by
              intro hkf
              obtain rfl := eq_of_mem_names hapart hf hg hkf hk
              exact hne hnone
            have hname : f.name ≠ g.name := fun heq => hkf (eq_of_name_eq hapart hf hg heq ▸ hk)
            have hold := hseen f hf (by rwa [Json.under_cons_of_not_mem hkf])
            simp [hname, hold]
          obtain ⟨seen', hread⟩ := ih hrest hseen'
          exact ⟨seen', (members_stored hfind hset hnew _ _).trans hread⟩

/-- A field with a value that may be missing, in a record that has none yet. -/
theorem given {read : Reader α} {write : α → Json} {set : Option α → ρ → ρ} {o : Option α}
    (h : Json.Gives write (Json.under f.names ms) o)
    (hstore : ∀ d, f.store depth d = (read.optional depth d).map set)
    (hread : ∀ x ∈ o, read.Restores write x) (hnull : ∀ x ∈ o, write x ≠ .null)
    (hnesting : ∀ m ∈ ms, m.2.nesting ≤ depth) (hnone : set none r = r)
    (hrest : Gathers depth ms fields (set o r) r') : Gathers depth ms (f :: fields) r r' := by
  generalize hvalues : Json.under f.names ms = values at h
  cases h with
  | omitted => exact .absent hvalues (hnone ▸ hrest)
  | null => exact .present hvalues (by rw [hstore]; rfl) hrest
  | value x =>
      refine .present hvalues ?_ hrest
      have hmem : write x ∈ Json.under f.names ms := hvalues ▸ List.mem_singleton_self _
      have hreads := (Agrees.ofRestores hread hnull).reads depth
        (Json.nesting_le_of_mem_under hmem hnesting)
      rw [hstore]
      exact Except.map_eq_ok.mpr ⟨some x, hreads, rfl⟩

end Gathers

/-! ### Objects -/

/-- An object is read as the record that is gathered from it, if the fields that must be there are
there. -/
theorem reads_gathered_object (hapart : fields.Pairwise Field.Apart)
    (hcommute : fields.Pairwise Field.Commute)
    (hrequired : ∀ f ∈ fields, f.required = true → Json.under f.names ms ≠ [])
    (h : ∀ depth, (∀ m ∈ ms, m.2.nesting ≤ depth) → Gathers depth ms fields blank r) :
    (object fields blank).Reads (.object ms) r := by
  intro depth hdepth
  obtain ⟨d, rfl, hnesting⟩ := Json.nesting_object_le.mp hdepth
  have hfresh : ∀ f ∈ fields, Json.under f.names ms ≠ [] → f.name ∉ [] :=
    fun _ _ _ => List.not_mem_nil
  obtain ⟨seen, hread⟩ := (h d hnesting).members_eq hapart hcommute hfresh
  have hcomplete : (fields.any fun f => f.required && !seen.contains f.name) = false := by
    rw [List.any_eq_false]
    intro f hf
    have hmem : f.required = true → f.name ∈ seen := fun hreq =>
      (mem_seen_iff hapart hread hf).mpr (.inr (hrequired f hf hreq))
    simpa using hmem
  refine Except.bind_eq_ok.mpr ⟨(seen, r), hread, Except.bind_eq_ok.mpr ⟨(), rfl, ?_⟩⟩
  exact if_neg (by rw [hcomplete]; exact Bool.false_ne_true)

/-- An object is read as what is gathered from it, whatever the order of its members and whichever
of the names they have. -/
theorem reads_gathered (hapart : fields.Pairwise Field.Apart)
    (hcommute : fields.Pairwise Field.Commute)
    (hrequired : ∀ f ∈ fields, f.required = true → Json.under f.names ms ≠ [])
    (h : ∀ depth, (∀ m ∈ ms, m.2.nesting ≤ depth) → Gathers depth ms fields blank r) :
    (record fields blank).Reads (.object ms) r := by
  intro depth hdepth
  have hread := reads_gathered_object hapart hcommute hrequired h depth hdepth
  obtain ⟨d, rfl, -⟩ := Json.nesting_object_le.mp hdepth
  exact hread

/-- An object that gives nothing for a field that must be there is refused. -/
theorem object_missing (hapart : fields.Pairwise Field.Apart) (hf : f ∈ fields)
    (hrequired : f.required = true) (hnone : Json.under f.names ms = []) (depth : Nat) :
    ∃ flaw, object fields blank depth (.ofJson (.object ms)) = .error flaw := by
  cases depth with
  | zero => exact ⟨.malformed, rfl⟩
  | succ depth =>
      cases hread : members fields depth (Draft.ofMembers ms) [] blank with
      | error flaw => exact ⟨flaw, Except.bind_eq_error.mpr (.inl hread)⟩
      | ok x =>
          obtain ⟨seen, r⟩ := x
          have hmissing : (fields.any fun f => f.required && !seen.contains f.name) = true := by
            rw [List.any_eq_true]
            exact ⟨f, hf, by simp [hrequired, mem_seen_iff hapart hread hf, hnone]⟩
          refine ⟨.mismatched, Except.bind_eq_error.mpr (.inr ⟨(seen, r), hread, ?_⟩)⟩
          exact Except.bind_eq_error.mpr (.inr ⟨(), rfl, if_pos hmissing⟩)

end Reader

end CausalTrace
