import CausalTrace.Proofs.Json.Shape

/-!
# Reading back what was written

A reader restores a value if it reads it again from its JSON form, whenever the brackets of that
form may all be opened.  Not every value of a type is restored: a number may be too large for its
reader, an object out of order.  But a value that was read is, and so the readers come with two
kinds of laws: what they restore, and what is known of that which they yield.

## Main definitions

* `Reader.Reads`, `Reader.Restores` — what is read from a complete value
* `Reader.Agrees` — a member that may be left out, and a value that may be missing
* `Reader.Yields` — a value that is read from some draft
* `Reader.Fills` — members that take one record to another when they are read
* `Field.Keeps` — a property of records that no value of a field spoils

## Main statements

* `Reader.record_ofMembers` — a record is read member by member
* `Reader.record_sound` — what all fields keep holds of every record that is read

## Design notes

Members that are left out when a record is written leave the field of the record as it is in a blank
record.  That is where writing and reading have to agree on what stands for absence, and the rule
`Reader.Fills.omitted` makes it a goal of its own.
-/

namespace CausalTrace

namespace Reader

variable {α β ρ : Type}

/-- A complete value is read as this, if its brackets may all be opened. -/
def Reads (read : Reader α) (v : Json) (x : α) : Prop :=
  ∀ depth, v.nesting ≤ depth → read depth (.ofJson v) = .ok x

/-- A value is read again from its JSON form. -/
def Restores (read : Reader α) (write : α → Json) (x : α) : Prop := read.Reads (write x) x

/-- A value is read from some draft. -/
def Yields (read : Reader α) (x : α) : Prop := ∃ depth d, read depth d = .ok x

/-- A member that may be left out, or be `null`, says the same as a value that may be missing. -/
inductive Agrees (read : Reader α) : Option Json → Option α → Prop
  | absent : Agrees read none none
  | null : Agrees read (some .null) none
  | present {v : Json} {x : α} (h : read.Reads v x) (hnull : v ≠ .null) :
      Agrees read (some v) (some x)

/-! ### Scalars -/

theorem restores_string (s : String) : Reader.string.Restores .string s := fun _ _ => rfl

theorem restores_bool (b : Bool) : Reader.bool.Restores .bool b := fun _ _ => rfl

/-- Only numbers that are not finite are written as `null`. -/
theorem float_ne_null {x : Float} (h : x.isFinite = true) : Json.float x ≠ .null := by
  simp [Json.float, h]

/-- A finite number is read again: the digits that are written denote it. -/
theorem restores_float {x : Float} (h : x.isFinite = true) : Reader.float.Restores .float x := by
  intro depth _
  unfold Json.float
  rw [if_pos h]
  rfl

/-- A natural number is read again by as many bits as it fits in. -/
theorem restores_natOfBits {bits n : Nat} (h : n < 2 ^ bits) :
    (natOfBits bits).Restores .nat n := by
  intro depth _
  exact if_pos (by simpa using h)

theorem lt_of_yields_natOfBits {bits n : Nat} (h : (natOfBits bits).Yields n) : n < 2 ^ bits := by
  obtain ⟨depth, d, h⟩ := h
  revert h
  fun_cases natOfBits bits depth d with
  | case1 _ m hm =>
      rintro ⟨⟩
      simp only [Bool.and_eq_true, decide_eq_true_eq] at hm
      exact hm.2
  | _ => rintro ⟨⟩

/-! ### Values that may be missing -/

/-- A member agrees with a value when it is the JSON form of something read as that value, and this
form is not the sign of absence. -/
theorem Agrees.map {read : Reader α} {write : β → Json} {f : β → α} {o : Option β}
    (h : ∀ y ∈ o, read.Reads (write y) (f y)) (hnull : ∀ y ∈ o, write y ≠ .null) :
    read.Agrees (o.map write) (o.map f) := by
  cases o with
  | none => exact .absent
  | some y => exact .present (h y rfl) (hnull y rfl)

/-- A value that is there agrees with its JSON form, unless that is the sign of absence. -/
theorem Agrees.ofRestores {read : Reader α} {write : α → Json} {o : Option α}
    (h : ∀ x ∈ o, read.Restores write x) (hnull : ∀ x ∈ o, write x ≠ .null) :
    read.Agrees (o.map write) o := by
  have hmap := Agrees.map (f := fun x => x) h hnull
  rwa [Option.map_id'] at hmap

/-- What agrees is read from the member, or from `null` in its place. -/
theorem Agrees.reads {read : Reader α} {m : Option Json} {o : Option α} (h : read.Agrees m o) :
    read.optional.Reads (m.getD .null) o := by
  cases h with
  | absent | null => exact fun _ _ => rfl
  | @present v x h hnull =>
      intro depth hdepth
      have hread := h depth hdepth
      cases v with
      | null => exact absurd rfl hnull
      | _ => exact Except.map_eq_ok.mpr ⟨x, hread, rfl⟩

/-- A value that may be missing is read again from its JSON form, or from `null`. -/
theorem Restores.optional {read : Reader α} {write : α → Json} {o : Option α}
    (h : ∀ x ∈ o, read.Restores write x) (hnull : ∀ x ∈ o, write x ≠ .null) :
    read.optional.Restores (.ofOption write) o := by
  have hreads := (Agrees.ofRestores h hnull).reads
  cases o <;> exact hreads

theorem restores_text? (o : Option String) : Reader.string.optional.Restores .ofText? o := by
  have h : Reader.string.optional.Restores (.ofOption .string) o :=
    .optional (fun s _ => restores_string s) fun _ _ h => by cases h
  exact h

theorem restores_bool? (o : Option Bool) : Reader.bool.optional.Restores (.ofOption .bool) o :=
  .optional (fun b _ => restores_bool b) fun _ _ h => by cases h

theorem restores_natOfBits? {bits : Nat} {o : Option Nat} (h : ∀ n ∈ o, n < 2 ^ bits) :
    (natOfBits bits).optional.Restores (.ofOption .nat) o :=
  .optional (fun n hn => restores_natOfBits (h n hn)) fun _ _ h => by cases h

/-- A value that is there is read from the same draft without regard to absence. -/
theorem eq_ok_of_optional {read : Reader α} {depth : Nat} {d : Draft} {o : Option α}
    (h : read.optional depth d = .ok o) {x : α} (hx : x ∈ o) : read depth d = .ok x := by
  revert h
  fun_cases Reader.optional read depth d with
  | case1 =>
      rintro ⟨⟩
      cases hx
  | case2 =>
      intro h
      obtain ⟨y, hy, rfl⟩ := Except.map_eq_ok.mp h
      cases hx
      exact hy

/-- What is read as a value that may be missing is, if it is there, read as a value. -/
theorem Yields.of_mem_optional {read : Reader α} {o : Option α} (h : read.optional.Yields o)
    {x : α} (hx : x ∈ o) : read.Yields x := by
  obtain ⟨depth, d, h⟩ := h
  exact ⟨depth, d, eq_ok_of_optional h hx⟩

/-! ### Lists and tables -/

/-- An array is read item by item. -/
theorem Reads.list {read : Reader α} {items : List Json} {xs : List α}
    (h : List.Forall₂ read.Reads items xs) : read.list.Reads (.array items) xs := by
  intro depth hdepth
  obtain ⟨d, rfl, hitems⟩ := Json.nesting_array_le.mp hdepth
  clear hdepth
  refine Except.bind_eq_ok.mpr ⟨xs, Draft.mapM_ofItems ?_, rfl⟩
  induction h with
  | nil => exact .nil
  | cons hx _ ih =>
      rw [List.forall_mem_cons] at hitems
      exact .cons (hx d hitems.1) (ih hitems.2)

/-- A list is read again if its elements are. -/
theorem Restores.list {read : Reader α} {write : α → Json} {xs : List α}
    (h : ∀ x ∈ xs, read.Restores write x) : read.list.Restores (.ofList write) xs := by
  refine Reads.list ?_
  rw [List.forall₂_map_left_iff, List.forall₂_same]
  exact h

/-- The items of an array are read with one bracket less. -/
theorem eq_ok_of_list {read : Reader α} {depth : Nat} {d : Draft} {xs : List α}
    (h : read.list depth d = .ok xs) {x : α} (hx : x ∈ xs) :
    ∃ depth' d', depth = depth' + 1 ∧ read depth' d' = .ok x := by
  revert h
  fun_cases Reader.list read depth d with
  | case1 | case2 => rintro ⟨⟩
  | case3 depth d =>
      fun_cases itemsOf (read depth) d with
      | case1 items ending =>
          intro h
          obtain ⟨ys, hys, h⟩ := Except.bind_eq_ok.mp h
          obtain ⟨-, -, h⟩ := Except.bind_eq_ok.mp h
          cases h
          obtain ⟨d, -, hd⟩ := exists_of_mem_forall₂ (Except.mapM_eq_ok.mp hys).flip hx
          exact ⟨depth, d, rfl, hd⟩
      | case2 => rintro ⟨⟩

theorem Yields.of_mem_list {read : Reader α} {xs : List α} (h : read.list.Yields xs) {x : α}
    (hx : x ∈ xs) : read.Yields x := by
  obtain ⟨depth, d, h⟩ := h
  obtain ⟨depth', d', -, hd'⟩ := eq_ok_of_list h hx
  exact ⟨depth', d', hd'⟩

/-- An arbitrary value is read as itself if its objects are tables. -/
theorem reads_any {v : Json} (h : v.IsTabular) : Reader.any.Reads v v :=
  fun _ hdepth => Draft.take_ofJson h hdepth

/-- The objects of an arbitrary value that is read are tables. -/
theorem isTabular_of_yields_any {v : Json} (h : Reader.any.Yields v) : v.IsTabular := by
  obtain ⟨depth, d, h⟩ := h
  exact Draft.isTabular_of_take h

/-- A table of arbitrary values is a tabular object. -/
theorem restores_table {t : Table String Json} (h : (Json.ofTable t).IsTabular) :
    (Reader.table .any).Restores .ofTable t := by
  intro depth hdepth
  obtain ⟨d, rfl, hvalues⟩ := Json.nesting_object_le.mp hdepth
  cases h with
  | object hkeys htabular =>
      have hread : List.Forall₂ (fun m e => m.1 = e.1 ∧ (Draft.ofJson m.2).take d = .ok e.2) t t :=
        List.forall₂_same.mpr fun e he =>
          ⟨rfl, Draft.take_ofJson (htabular e he) (hvalues e he)⟩
      have hentries := Draft.takeMembers_ofMembers [] hread
      rw [Table.foldl_insert hkeys fun _ h => absurd h List.not_mem_nil, List.nil_append]
        at hentries
      exact Except.bind_eq_ok.mpr ⟨t, hentries, rfl⟩

theorem isTabular_of_yields_table {t : Table String Json} (h : (Reader.table .any).Yields t) :
    (Json.ofTable t).IsTabular := by
  obtain ⟨depth, d, h⟩ := h
  revert h
  fun_cases Reader.table Reader.any depth d with
  | case2 depth members ending =>
      intro h
      obtain ⟨entries, hentries, h⟩ := Except.bind_eq_ok.mp h
      obtain ⟨-, -, h⟩ := Except.bind_eq_ok.mp h
      cases h
      obtain ⟨hkeys, hvalues⟩ := Draft.takeMembers_sound
        (fun _ _ hd => Draft.isTabular_of_take hd) hentries List.Pairwise.nil
        (fun _ he => absurd he List.not_mem_nil)
      exact .object hkeys hvalues
  | case1 | case3 => rintro ⟨⟩

/-! ### Values of one of two shapes -/

/-- What is read again is so under a function, if it is written by way of what was read. -/
theorem Restores.map {read : Reader α} {f : α → β} {write : β → Json} {x : α}
    (h : read.Restores (fun x => write (f x)) x) : (read.map f).Restores write (f x) :=
  fun depth hdepth => Except.map_eq_ok.mpr ⟨x, h depth hdepth, rfl⟩

/-- What is read through a function is its image of something that is read. -/
theorem Yields.of_map {read : Reader α} {f : α → β} {y : β} (h : (read.map f).Yields y) :
    ∃ x, read.Yields x ∧ f x = y := by
  obtain ⟨depth, d, h⟩ := h
  obtain ⟨x, hx, hxy⟩ := Except.map_eq_ok.mp h
  exact ⟨x, ⟨depth, d, hx⟩, hxy⟩

section

variable {first second : Reader α} {write : α → Json} {x : α}

/-- The first of two readers decides when it reads the value again. -/
theorem Restores.either_first (h : first.Restores write x) :
    (either first second).Restores write x := by
  intro depth hdepth
  obtain ⟨u, hu⟩ := Draft.exists_take_ofJson (write x) hdepth
  simp only [either, hu, h depth hdepth, Except.ok_bind]

/-- The second decides when the first refuses what is written. -/
theorem Restores.either_second (h : second.Restores write x)
    (hfirst : ∀ depth, ∃ flaw, first depth (.ofJson (write x)) = .error flaw) :
    (either first second).Restores write x := by
  intro depth hdepth
  obtain ⟨u, hu⟩ := Draft.exists_take_ofJson (write x) hdepth
  obtain ⟨flaw, hflaw⟩ := hfirst depth
  simp only [either, hu, hflaw, h depth hdepth, Except.ok_bind]

/-- What one of two readers yields is yielded by the first or by the second. -/
theorem Yields.of_either (h : (either first second).Yields x) :
    first.Yields x ∨ second.Yields x := by
  obtain ⟨depth, d, h⟩ := h
  obtain ⟨-, -, h⟩ := Except.bind_eq_ok.mp h
  split at h
  next hfirst =>
    cases h
    exact .inl ⟨depth, d, hfirst⟩
  next =>
    split at h
    next hsecond =>
      cases h
      exact .inr ⟨depth, d, hsecond⟩
    next => cases h

end

/-! ### Writing records -/

/-- Reading the members takes one record to another: a member that names a field is stored there, if
its brackets may all be opened, any other is passed over. -/
inductive Fills (fields : List (Field ρ)) (depth : Nat) :
    List (String × Option Json) → ρ → ρ → Prop
  | nil (r : ρ) : Fills fields depth [] r r
  | absent {k : String} {rest : List (String × Option Json)} {r r' : ρ}
      (hrest : Fills fields depth rest r r') : Fills fields depth ((k, none) :: rest) r r'
  | unknown {k : String} {v : Json} {rest : List (String × Option Json)} {r r' : ρ}
      (hfind : fields.find? (·.isNamed k) = none) (hrest : Fills fields depth rest r r') :
      Fills fields depth ((k, some v) :: rest) r r'
  | stored {k : String} {v : Json} {f : Field ρ} {set : ρ → ρ}
      {rest : List (String × Option Json)} {r r' : ρ}
      (hfind : fields.find? (·.isNamed k) = some f)
      (hstore : v.nesting ≤ depth → f.store depth (.ofJson v) = .ok set)
      (hrest : Fills fields depth rest (set r) r') :
      Fills fields depth ((k, some v) :: rest) r r'

section

variable {fields : List (Field ρ)} {depth : Nat} {k : String}
  {rest : List (String × Option Json)} {r r' : ρ}

/-- A member that is always there. -/
theorem Fills.always {read : Reader α} {set : α → ρ → ρ} {x : α} {v : Json}
    (hfind : fields.find? (·.isNamed k) = some (.ofReader k read set)) (h : read.Reads v x)
    (hrest : Fills fields depth rest (set x r) r') :
    Fills fields depth ((k, some v) :: rest) r r' :=
  .stored hfind (fun hdepth => Except.map_eq_ok.mpr ⟨x, h depth hdepth, rfl⟩) hrest

/-- A member that is left out when it has no value, in a record whose field has none yet. -/
theorem Fills.omitted {read : Reader α} {read? : Reader (Option α)} {set : Option α → ρ → ρ}
    {m : Option Json} {o : Option α}
    (hfind : fields.find? (·.isNamed k) = some (.ofReader k read? set))
    (hread : read? depth = read.optional depth) (h : read.Agrees m o) (hnone : set none r = r)
    (hrest : Fills fields depth rest (set o r) r') : Fills fields depth ((k, m) :: rest) r r' := by
  have hreads := h.reads
  cases h with
  | absent => exact .absent (hnone ▸ hrest)
  | null | present =>
      refine .stored hfind (fun hdepth => ?_) hrest
      exact Except.map_eq_ok.mpr ⟨_, hread ▸ hreads depth hdepth, rfl⟩

/-- The fields all have one name, and none must be there. -/
def IsPlain (fields : List (Field ρ)) : Prop :=
  ∀ f ∈ fields, f.aliases = [] ∧ f.required = false

/-- In a plain record a field is found under its own name only. -/
theorem name_eq_of_find? (hplain : IsPlain fields) {f : Field ρ}
    (h : fields.find? (·.isNamed k) = some f) : f.name = k := by
  have halias := (hplain f (List.mem_of_find?_eq_some h)).1
  have hnamed := List.find?_some h
  simpa [Field.isNamed, halias] using hnamed

/-- A member that names no field is passed over. -/
theorem members_unknown {v : Json} (hfind : fields.find? (·.isNamed k) = none)
    (entries : List (Key × Draft)) (seen : List String) (r : ρ) :
    members fields depth ((.text (some k), .ofJson v) :: entries) seen r
      = members fields depth entries seen r := by
  simp only [members, Key.take, Except.ok_bind, hfind, Draft.skip_ofJson]

/-- A member that names a field is stored there, unless one was seen before it. -/
theorem members_stored {d : Draft} {f : Field ρ} {set : ρ → ρ}
    (hfind : fields.find? (·.isNamed k) = some f) (hset : f.store depth d = .ok set)
    {seen : List String} (hseen : f.name ∉ seen) (entries : List (Key × Draft)) (r : ρ) :
    members fields depth ((.text (some k), d) :: entries) seen r
      = members fields depth entries (f.name :: seen) (set r) := by
  simp only [members, Key.take, Except.ok_bind, hfind, List.contains_eq_mem, hseen, decide_false,
    Bool.false_eq_true, if_false, hset]

/-- Members with different keys, none of which was seen, are read one after the other. -/
theorem Fills.members (hplain : IsPlain fields) {ms : List (String × Option Json)}
    (h : Fills fields depth ms r r') (hkeys : (ms.map Prod.fst).Nodup)
    (hnesting : ∀ m ∈ ms, ∀ v, m.2 = some v → v.nesting ≤ depth) :
    ∀ seen : List String, (∀ m ∈ ms, m.1 ∉ seen) →
      ∃ seen', Reader.members fields depth
        (Draft.ofMembers (ms.filterMap fun m => m.2.map fun v => (m.1, v))) seen r
          = .ok (seen', r') := by
  induction h with
  | nil r => exact fun seen _ => ⟨seen, rfl⟩
  | absent _ ih =>
      intro seen hseen
      rw [List.forall_mem_cons] at hseen hnesting
      exact ih (List.nodup_cons.mp hkeys).2 hnesting.2 seen hseen.2
  | unknown hfind _ ih =>
      intro seen hseen
      rw [List.forall_mem_cons] at hseen hnesting
      obtain ⟨seen', hread⟩ := ih (List.nodup_cons.mp hkeys).2 hnesting.2 seen hseen.2
      exact ⟨seen', (members_unknown hfind _ _ _).trans hread⟩
  | @stored k v f set rest _ _ hfind hstore _ ih =>
      intro seen hseen
      rw [List.forall_mem_cons] at hseen hnesting
      rw [List.map_cons, List.nodup_cons] at hkeys
      have hname := name_eq_of_find? hplain hfind
      have hnew : ∀ m ∈ rest, m.1 ∉ f.name :: seen := by
        rintro ⟨k', o⟩ hm hmem
        rcases List.mem_cons.mp hmem with heq | hmem
        · exact hkeys.1 (List.mem_map.mpr ⟨(k', o), hm, heq.trans hname⟩)
        · exact hseen.2 (k', o) hm hmem
      obtain ⟨seen', hread⟩ := ih hkeys.2 hnesting.2 (f.name :: seen) hnew
      have hstored := members_stored hfind (hstore (hnesting.1 v rfl)) (hname ▸ hseen.1)
      exact ⟨seen', (hstored _ _).trans hread⟩

/-- A record is read member by member. -/
theorem record_ofMembers (hplain : IsPlain fields) {ms : List (String × Option Json)} {blank : ρ}
    (hkeys : (ms.map Prod.fst).Nodup) (hnesting : (Json.ofMembers ms).nesting ≤ depth + 1)
    (h : Fills fields depth ms blank r) :
    record fields blank (depth + 1) (.ofJson (.ofMembers ms)) = .ok r := by
  obtain ⟨d, hd, hvalues⟩ := Json.nesting_ofMembers_le.mp hnesting
  obtain rfl : depth = d := Nat.succ.inj hd
  obtain ⟨seen, hread⟩ := h.members hplain hkeys hvalues [] fun _ _ => List.not_mem_nil
  have hcomplete : (fields.any fun f => f.required && !seen.contains f.name) = false := by
    rw [List.any_eq_false]
    intro f hf
    simp [(hplain f hf).2]
  refine Except.bind_eq_ok.mpr ⟨(seen, r), hread, Except.bind_eq_ok.mpr ⟨(), rfl, ?_⟩⟩
  exact if_neg (by rw [hcomplete]; exact Bool.false_ne_true)

/-- What members say is read from the object of them. -/
theorem reads_record (hplain : IsPlain fields) {ms : List (String × Option Json)} {blank : ρ}
    (hkeys : (ms.map Prod.fst).Nodup) (h : ∀ depth, Fills fields depth ms blank r) :
    (record fields blank).Reads (.ofMembers ms) r := by
  intro depth hdepth
  obtain ⟨d, rfl, -⟩ := Json.nesting_ofMembers_le.mp hdepth
  exact record_ofMembers hplain hkeys hdepth (h d)

/-- An object whose keys differ is read as the record that its members fill. -/
theorem reads_object (hplain : IsPlain fields) {ms : List (String × Json)} {blank : ρ}
    (hkeys : (ms.map Prod.fst).Nodup)
    (h : ∀ depth, Fills fields depth (ms.map fun m => (m.1, some m.2)) blank r) :
    (record fields blank).Reads (.object ms) r := by
  rw [Json.object_eq_ofMembers]
  exact reads_record hplain (by rwa [List.map_map]) h

end

end Reader

/-! ### What is known of a record that was read -/

theorem Key.take_eq_ok {key : Key} {s : String} : key.take = .ok s ↔ key = .text (some s) := by
  cases key with
  | text value => cases value <;> simp [Key.take]
  | broken | foreign => simp [Key.take]

namespace Field

variable {α ρ : Type}

/-- No value of the field spoils a property of records. -/
def Keeps (P : ρ → Prop) (f : Field ρ) : Prop :=
  ∀ depth d set, f.store depth d = .ok set → ∀ r, P r → P (set r)

/-- A field keeps what setting it to any value that can be read keeps. -/
theorem keeps_ofReader {P : ρ → Prop} {name : String} {read : Reader α} {set : α → ρ → ρ}
    (h : ∀ x, read.Yields x → ∀ r, P r → P (set x r)) : (ofReader name read set).Keeps P := by
  intro depth d _ hstore
  obtain ⟨x, hx, rfl⟩ := Except.map_eq_ok.mp hstore
  exact h x ⟨depth, d, hx⟩

end Field

namespace Reader

variable {ρ : Type} {P : ρ → Prop} {fields : List (Field ρ)} {depth : Nat}

/-- What the members of an object are read as says what became of the first of them: it names no
field and is passed over, or it is stored in a field that was not seen before. -/
theorem members_cons_cases {key : Key} {d : Draft} {rest : List (Key × Draft)}
    {seen : List String} {r : ρ} {x : List String × ρ}
    (h : members fields depth ((key, d) :: rest) seen r = .ok x) :
    ∃ name, key = .text (some name) ∧
      ((fields.find? (·.isNamed name) = none ∧ members fields depth rest seen r = .ok x) ∨
        ∃ f set, fields.find? (·.isNamed name) = some f ∧ f.name ∉ seen ∧
          f.store depth d = .ok set ∧
          members fields depth rest (f.name :: seen) (set r) = .ok x) := by
  obtain ⟨name, hname, h⟩ := Except.bind_eq_ok.mp h
  refine ⟨name, Key.take_eq_ok.mp hname, ?_⟩
  cases hfind : fields.find? (·.isNamed name) with
  | none =>
      rw [hfind] at h
      obtain ⟨-, -, h⟩ := Except.bind_eq_ok.mp h
      exact .inl ⟨rfl, h⟩
  | some f =>
      rw [hfind] at h
      dsimp only at h
      split at h
      · cases h
      next hseen =>
        obtain ⟨set, hset, h⟩ := Except.bind_eq_ok.mp h
        exact .inr ⟨f, set, rfl, by simpa using hseen, hset, h⟩

/-- The members of an object keep what all fields keep. -/
theorem members_sound (hkeeps : ∀ f ∈ fields, f.Keeps P) {entries : List (Key × Draft)} :
    ∀ {seen seen' : List String} {r r' : ρ},
      members fields depth entries seen r = .ok (seen', r') → P r → P r' := by
  induction entries with
  | nil =>
      intro seen seen' r r' h hr
      cases h
      exact hr
  | cons e rest ih =>
      intro seen seen' r r' h hr
      obtain ⟨_, -, ⟨-, h⟩ | ⟨f, set, hfind, -, hset, h⟩⟩ := members_cons_cases h
      · exact ih h hr
      · exact ih h (hkeeps f (List.mem_of_find?_eq_some hfind) depth e.2 set hset r hr)

/-- The items of an array that stands for a record keep what all fields keep. -/
theorem items_sound {ending : Ending} (hkeeps : ∀ f ∈ fields, f.Keeps P) {entries : List Draft}
    {r r' : ρ} (h : items depth ending fields entries r = .ok r') (hr : P r) : P r' := by
  fun_induction items depth ending fields entries r with
  | case1 r =>
      obtain ⟨-, -, h⟩ := Except.bind_eq_ok.mp h
      cases h
      exact hr
  | case2 => cases h
  | case3 f fields r =>
      obtain ⟨-, -, h⟩ := Except.bind_eq_ok.mp h
      split at h
      · cases h
      · cases h
        exact hr
  | case4 f fields d rest r ih =>
      rw [List.forall_mem_cons] at hkeeps
      obtain ⟨set, hset, h⟩ := Except.bind_eq_ok.mp h
      exact ih set hkeeps.2 h (hkeeps.1 depth d set hset r hr)

/-- What holds of a blank record, and is kept by all fields, holds of every record that is read. -/
theorem record_sound {blank : ρ} (hkeeps : ∀ f ∈ fields, f.Keeps P) (hblank : P blank)
    {d : Draft} {r : ρ} (h : record fields blank depth d = .ok r) : P r := by
  revert h
  fun_cases record fields blank depth d with
  | case1 => rintro ⟨⟩
  | case2 => exact fun h => items_sound hkeeps h hblank
  | case3 depth d =>
      fun_cases object fields blank depth d with
      | case2 depth entries ending =>
          intro h
          obtain ⟨⟨seen, r'⟩, hread, h⟩ := Except.bind_eq_ok.mp h
          obtain ⟨-, -, h⟩ := Except.bind_eq_ok.mp h
          have hr' := members_sound hkeeps hread hblank
          split at h
          · cases h
          · cases h
            exact hr'
      | case1 | case3 => rintro ⟨⟩

end Reader

end CausalTrace
