import CausalTrace.Json.Reader
import CausalTrace.Proofs.Outcome
import CausalTrace.Proofs.Table

/-!
# The shape of JSON values

How deeply the brackets of a value are nested decides whether it can be read, and how its objects
list their members decides whether an arbitrary value is the same after it was read: objects are
read into tables.

## Main definitions

* `Json.nesting` — how many arrays and objects stand one inside the other
* `Json.IsTabular` — every object in a value is a table

## Main statements

* `Draft.take_ofJson` — reading a tabular value gives it back
* `Draft.isTabular_of_take` — what was read as an arbitrary value is tabular
-/

namespace CausalTrace

namespace Json

/-! ### Nesting -/

mutual

/-- How many arrays and objects stand one inside the other in a value. -/
def nesting : Json → Nat
  | .array items => nestingItems items + 1
  | .object members => nestingMembers members + 1
  | _ => 0

/-- The deepest nesting of several values. -/
def nestingItems : List Json → Nat
  | [] => 0
  | v :: rest => max (nesting v) (nestingItems rest)

/-- The deepest nesting of the values of members. -/
def nestingMembers : List (String × Json) → Nat
  | [] => 0
  | (_, v) :: rest => max (nesting v) (nestingMembers rest)

end

theorem nestingItems_le {items : List Json} {depth : Nat} :
    nestingItems items ≤ depth ↔ ∀ v ∈ items, v.nesting ≤ depth := by
  induction items with
  | nil => simp [nestingItems]
  | cons v rest ih => rw [nestingItems, Nat.max_le, ih, List.forall_mem_cons]

theorem nestingMembers_le {members : List (String × Json)} {depth : Nat} :
    nestingMembers members ≤ depth ↔ ∀ m ∈ members, m.2.nesting ≤ depth := by
  induction members with
  | nil => simp [nestingMembers]
  | cons m rest ih => rw [nestingMembers, Nat.max_le, ih, List.forall_mem_cons]

/-- An array is nested one level deeper than its items. -/
theorem nesting_array_le {items : List Json} {depth : Nat} :
    (array items).nesting ≤ depth ↔ ∃ d, depth = d + 1 ∧ ∀ v ∈ items, v.nesting ≤ d := by
  cases depth with
  | zero => simp [nesting]
  | succ d => simp [nesting, nestingItems_le]

/-- An object is nested one level deeper than the values of its members. -/
theorem nesting_object_le {members : List (String × Json)} {depth : Nat} :
    (object members).nesting ≤ depth ↔ ∃ d, depth = d + 1 ∧ ∀ m ∈ members, m.2.nesting ≤ d := by
  cases depth with
  | zero => simp [nesting]
  | succ d => simp [nesting, nestingMembers_le]

/-! ### Members that may be left out -/

/-- What holds of the members that are present holds of the object of them. -/
theorem forall_mem_present {members : List (String × Option Json)} (P : Json → Prop) :
    (∀ m ∈ members.filterMap fun m => m.2.map fun v => (m.1, v), P m.2) ↔
      ∀ m ∈ members, ∀ v, m.2 = some v → P v := by
  simp only [List.mem_filterMap, Option.map_eq_some_iff]
  constructor
  · exact fun h m hm v hv => h (m.1, v) ⟨m, hm, v, hv, rfl⟩
  · rintro h _ ⟨m, hm, v, hv, rfl⟩
    exact h m hm v hv

/-- Members that are left out do not count. -/
theorem nesting_ofMembers_le {members : List (String × Option Json)} {depth : Nat} :
    (ofMembers members).nesting ≤ depth ↔
      ∃ d, depth = d + 1 ∧ ∀ m ∈ members, ∀ v, m.2 = some v → v.nesting ≤ d := by
  rw [ofMembers, nesting_object_le]
  exact exists_congr fun d => and_congr_right fun _ => forall_mem_present (·.nesting ≤ d)

/-- An object is what is left of its members when none is left out. -/
theorem object_eq_ofMembers (members : List (String × Json)) :
    object members = .ofMembers (members.map fun m => (m.1, some m.2)) := by
  simp [ofMembers, List.filterMap_map]

/-! ### Tables -/

/-- Every object in a value is a table: its keys ascend. -/
inductive IsTabular : Json → Prop
  | null : IsTabular .null
  | bool (b : Bool) : IsTabular (.bool b)
  | number (n : Number) : IsTabular (.number n)
  | string (s : String) : IsTabular (.string s)
  | array {items : List Json} (h : ∀ v ∈ items, IsTabular v) : IsTabular (.array items)
  | object {members : List (String × Json)} (keys : Table.Sorted members)
      (h : ∀ m ∈ members, IsTabular m.2) : IsTabular (.object members)

/-- Induction over a value: arrays and objects from what stands in them. -/
theorem induction {motive : Json → Prop} (null : motive .null) (bool : ∀ b, motive (.bool b))
    (number : ∀ n, motive (.number n)) (string : ∀ s, motive (.string s))
    (array : ∀ items, (∀ v ∈ items, motive v) → motive (.array items))
    (object : ∀ members : List (String × Json), (∀ m ∈ members, motive m.2) →
      motive (.object members)) (v : Json) : motive v :=
  match v with
  | .null => null
  | .bool b => bool b
  | .number n => number n
  | .string s => string s
  | .array items =>
    array items fun v _ => induction null bool number string array object v
  | .object members =>
    object members fun m _ => induction null bool number string array object m.2
termination_by sizeOf v
decreasing_by
  · have := List.sizeOf_lt_of_mem ‹v ∈ items›
    simp only [Json.array.sizeOf_spec]
    omega
  · have := List.sizeOf_lt_of_mem ‹m ∈ members›
    obtain ⟨k, v⟩ := m
    simp only [Json.object.sizeOf_spec, Prod.mk.sizeOf_spec] at this ⊢
    omega

end Json

/-! ### Drafts of complete values -/

namespace Draft

theorem ofItems_eq_map (items : List Json) : ofItems items = items.map ofJson := by
  induction items with
  | nil => rfl
  | cons v rest ih => simp [ofItems, ih]

/-- A complete value can be passed over. -/
theorem skip_ofJson (v : Json) : (ofJson v).skip = .ok () := by
  induction v using Json.induction with
  | null | bool | number | string => rfl
  | array items ih =>
      have hitems : skipItems (ofItems items) = .ok () := by
        induction items with
        | nil => rfl
        | cons v rest hrest =>
            rw [List.forall_mem_cons] at ih
            rw [ofItems, skipItems, ih.1]
            exact hrest ih.2
      rw [ofJson, skip, hitems]
      rfl
  | object members ih =>
      have hmembers : skipMembers (ofMembers members) = .ok () := by
        induction members with
        | nil => rfl
        | cons m rest hrest =>
            rw [List.forall_mem_cons] at ih
            rw [ofMembers, skipMembers, ih.1]
            exact hrest ih.2
      rw [ofJson, skip, hmembers]
      rfl

/-- The items of an array are read one after the other. -/
theorem mapM_ofItems {α : Type} {read : Draft → Except Flaw α} {items : List Json} {xs : List α}
    (h : List.Forall₂ (fun v x => read (ofJson v) = .ok x) items xs) :
    (ofItems items).mapM read = .ok xs := by
  rw [ofItems_eq_map, Except.mapM_eq_ok, List.forall₂_map_left_iff]
  exact h

/-- The members of an object are stored one after the other. -/
theorem takeMembers_ofMembers {α : Type} {read : Draft → Except Flaw α}
    {members : List (String × Json)} {entries : List (String × α)} (t : Table String α)
    (h : List.Forall₂ (fun m e => m.1 = e.1 ∧ read (ofJson m.2) = .ok e.2) members entries) :
    takeMembers read t (ofMembers members)
      = .ok (entries.foldl (fun t e => t.insert e.1 e.2) t) := by
  induction h generalizing t with
  | nil => rfl
  | @cons m e _ _ hme _ ih =>
      rw [ofMembers, takeMembers]
      exact Except.bind_eq_ok.mpr ⟨e.1, by rw [← hme.1]; rfl,
        Except.bind_eq_ok.mpr ⟨e.2, hme.2, ih _⟩⟩

/-- An array is taken when its items are, with one bracket less. -/
theorem take_array {items : List Json} {values : List Json} {depth : Nat}
    (h : List.Forall₂ (fun v u => (ofJson v).take depth = .ok u) items values) :
    (ofJson (.array items)).take (depth + 1) = .ok (.array values) :=
  Except.bind_eq_ok.mpr ⟨values, mapM_ofItems h, rfl⟩

/-- An object is taken when its members are; of members with one key the last stands. -/
theorem take_object {members entries : List (String × Json)} {depth : Nat}
    (h : List.Forall₂ (fun m e => m.1 = e.1 ∧ (ofJson m.2).take depth = .ok e.2) members entries) :
    (ofJson (.object members)).take (depth + 1) = .ok (.ofTable (Table.ofList entries)) :=
  Except.bind_eq_ok.mpr ⟨Table.ofList entries, takeMembers_ofMembers [] h, rfl⟩

/-- Every complete value whose brackets are not nested too deeply can be read. -/
theorem exists_take_ofJson (v : Json) {depth : Nat} (h : v.nesting ≤ depth) :
    ∃ u, (ofJson v).take depth = .ok u := by
  induction v using Json.induction generalizing depth with
  | null => exact ⟨.null, by cases depth <;> rfl⟩
  | bool b => exact ⟨.bool b, by cases depth <;> rfl⟩
  | number n => exact ⟨.number n, by cases depth <;> rfl⟩
  | string s => exact ⟨.string s, by cases depth <;> rfl⟩
  | array items ih =>
      obtain ⟨d, rfl, hitems⟩ := Json.nesting_array_le.mp h
      obtain ⟨values, hvalues⟩ := exists_forall₂ fun v hv => ih v hv (hitems v hv)
      exact ⟨.array values, take_array hvalues⟩
  | object members ih =>
      obtain ⟨d, rfl, hmembers⟩ := Json.nesting_object_le.mp h
      have hread : ∀ m ∈ members, ∃ e : String × Json,
          m.1 = e.1 ∧ (ofJson m.2).take d = .ok e.2 := by
        intro m hm
        obtain ⟨u, hu⟩ := ih m hm (hmembers m hm)
        exact ⟨(m.1, u), rfl, hu⟩
      obtain ⟨entries, hentries⟩ := exists_forall₂ hread
      exact ⟨.ofTable (Table.ofList entries), take_object hentries⟩

/-- Reading an arbitrary value gives it back if its objects are tables. -/
theorem take_ofJson {v : Json} (hv : v.IsTabular) {depth : Nat} (h : v.nesting ≤ depth) :
    (ofJson v).take depth = .ok v := by
  induction hv generalizing depth with
  | null | bool | number | string => cases depth <;> rfl
  | @array items _ ih =>
      obtain ⟨d, rfl, hitems⟩ := Json.nesting_array_le.mp h
      exact take_array (List.forall₂_same.mpr fun v hv => ih v hv (hitems v hv))
  | @object members hkeys _ ih =>
      obtain ⟨d, rfl, hmembers⟩ := Json.nesting_object_le.mp h
      have hsame : Table.ofList members = members :=
        Table.foldl_insert hkeys fun _ h => absurd h List.not_mem_nil
      rw [take_object (List.forall₂_same.mpr fun m hm => ⟨rfl, ih m hm (hmembers m hm)⟩), hsame]
      rfl

/-! ### What was read -/

/-- What is read from the members of an object stands in a table, and has what all values that are
read have. -/
theorem takeMembers_sound {α : Type} {P : α → Prop} {read : Draft → Except Flaw α}
    (hread : ∀ d x, read d = .ok x → P x) {members : List (Key × Draft)} :
    ∀ {t u : Table String α}, takeMembers read t members = .ok u → t.Sorted →
      (∀ e ∈ t, P e.2) → u.Sorted ∧ ∀ e ∈ u, P e.2 := by
  induction members with
  | nil =>
      intro t u h hkeys hvalues
      cases h
      exact ⟨hkeys, hvalues⟩
  | cons m rest ih =>
      intro t u h hkeys hvalues
      obtain ⟨k, -, h⟩ := Except.bind_eq_ok.mp h
      obtain ⟨x, hx, h⟩ := Except.bind_eq_ok.mp h
      refine ih h (hkeys.insert k x) fun e he => ?_
      rcases Table.mem_insert he with rfl | he
      · exact hread m.2 x hx
      · exact hvalues e he

/-- Whatever is read as an arbitrary value has tables for objects. -/
theorem isTabular_of_take {depth : Nat} {d : Draft} {v : Json} (h : d.take depth = .ok v) :
    v.IsTabular := by
  induction depth using Nat.strongRecOn generalizing d v with
  | _ depth ih =>
      revert h
      fun_cases take depth d with
      | case1 =>
          rintro ⟨⟩
          exact .null
      | case2 _ b =>
          rintro ⟨⟩
          exact .bool b
      | case3 _ n =>
          rintro ⟨⟩
          exact .number n
      | case5 _ s =>
          rintro ⟨⟩
          exact .string s
      | case10 depth items ending =>
          intro h
          obtain ⟨values, hvalues, h⟩ := Except.bind_eq_ok.mp h
          obtain ⟨-, -, h⟩ := Except.bind_eq_ok.mp h
          cases h
          refine .array fun v hv => ?_
          obtain ⟨d, -, hd⟩ := exists_of_mem_forall₂ (Except.mapM_eq_ok.mp hvalues).flip hv
          exact ih depth (Nat.lt_succ_self depth) hd
      | case11 depth members ending =>
          intro h
          obtain ⟨entries, hentries, h⟩ := Except.bind_eq_ok.mp h
          obtain ⟨-, -, h⟩ := Except.bind_eq_ok.mp h
          cases h
          obtain ⟨hkeys, hvalues⟩ := takeMembers_sound
            (fun d v hd => ih depth (Nat.lt_succ_self depth) hd) hentries List.Pairwise.nil
            (fun _ he => absurd he List.not_mem_nil)
          exact .object hkeys hvalues
      | _ =>
          -- the other drafts are refused
          rintro ⟨⟩

end Draft

end CausalTrace
