import CausalTrace.Proofs.Json.Literals
import CausalTrace.Proofs.Json.Shape

/-!
# Values are read from their texts

The text of a value on one line, taken apart again, is the draft of the value, if its numbers read
back.  All the rest of the grammar, from escapes to brackets, is lossless.

## Main definitions

* `Json.Legible` — all numbers in a value read back
* `Json.Reading.view` — what is read of a text, and the text behind it

## Main statements

* `Json.Reading.isRead_of_legible` — a written value before a text that goes on differently
* `Json.Sheet.ofText_compact` — the sheet of the text of a value

## Design notes

A numeral ends where the text goes on with something that is no part of one, so the induction is
over the value with any such text behind it: in an array or an object that is a comma or the closing
bracket.
-/

namespace CausalTrace.Json

/-- All numbers in a value read back from their texts. -/
inductive Legible : Json → Prop
  | null : Legible .null
  | bool (b : Bool) : Legible (.bool b)
  | number {n : Number} (h : n.ReadsBack) : Legible (.number n)
  | string (s : String) : Legible (.string s)
  | array {items : List Json} (h : ∀ v ∈ items, Legible v) : Legible (.array items)
  | object {members : List (String × Json)} (h : ∀ m ∈ members, Legible m.2) :
      Legible (.object members)

@[simp] theorem legible_null : Legible .null := .null

@[simp] theorem legible_bool (b : Bool) : Legible (.bool b) := .bool b

@[simp] theorem legible_string (s : String) : Legible (.string s) := .string s

@[simp] theorem legible_number {n : Number} : Legible (.number n) ↔ n.ReadsBack :=
  ⟨fun h => by cases h; assumption, .number⟩

@[simp] theorem legible_array {items : List Json} :
    Legible (.array items) ↔ ∀ v ∈ items, v.Legible :=
  ⟨fun h => by cases h; assumption, .array⟩

@[simp] theorem legible_object {members : List (String × Json)} :
    Legible (.object members) ↔ ∀ m ∈ members, m.2.Legible :=
  ⟨fun h => by cases h; assumption, .object⟩

/-- An object is legible if those of its members are that are not left out. -/
theorem legible_ofMembers {members : List (String × Option Json)} :
    (ofMembers members).Legible ↔ ∀ m ∈ members, ∀ v, m.2 = some v → v.Legible := by
  rw [ofMembers, legible_object]
  exact forall_mem_present Legible

/-! ### Texts -/

theorem compactItems_eq_map (items : List Json) : compactItems items = items.map compact := by
  induction items with
  | nil => rfl
  | cons v rest ih => simp [compactItems, ih]

/-- The text of a member. -/
def compactMember (m : String × Json) : List Char :=
  '"' :: m.1.toList.flatMap escape ++ '"' :: ':' :: m.2.compact.toList

/-- The members of an object are written one by one. -/
theorem toList_compactMembers (members : List (String × Json)) :
    (compactMembers members).map String.toList = members.map compactMember := by
  induction members with
  | nil => rfl
  | cons m rest ih => simp [compactMembers, compactMember, quote, ih]

/-- The text behind the first part of an array or an object: the other parts, each with a comma
before it, then the closing bracket and what follows. -/
def behind (bracket : Char) (t : List Char) : List (List Char) → List Char
  | [] => bracket :: t
  | part :: rest => ',' :: (part ++ behind bracket t rest)

/-- Parts with commas between them, as a text that begins with the first part. -/
theorem intercalate_append (bracket : Char) (t part : List Char) (rest : List (List Char)) :
    [','].intercalate (part :: rest) ++ bracket :: t = part ++ behind bracket t rest := by
  induction rest generalizing part with
  | nil => rw [List.intercalate_singleton, behind]
  | cons next rest ih =>
      rw [List.intercalate_cons_cons, List.append_assoc, ih, List.append_assoc, behind]
      rfl

/-- The text of a string, before any other: its characters, escaped, between quotation marks. -/
theorem toList_compact_string (s : String) (t : List Char) :
    (string s).compact.toList ++ t = '"' :: s.toList.flatMap escape ++ '"' :: t := by
  simp [compact, quote]

theorem toList_compact_array (items : List Json) (t : List Char) :
    (array items).compact.toList ++ t
      = '[' :: ([','].intercalate (items.map fun v => v.compact.toList) ++ ']' :: t) := by
  simp [compact, separate, compactItems_eq_map, String.toList_intercalate, Function.comp_def]

theorem toList_compact_object (members : List (String × Json)) (t : List Char) :
    (object members).compact.toList ++ t
      = '{' :: ([','].intercalate (members.map compactMember) ++ '}' :: t) := by
  simp [compact, separate, toList_compactMembers, String.toList_intercalate]

namespace Reading

variable {α : Type} {n : Nat} {s t : List Char}

/-- What is read, and the text behind it. -/
def view (r : Reading α n) : α × Option (List Char) := (r.content, r.rest.map Subtype.val)

theorem view_eq_some {r : Reading α n} {x : α} :
    r.view = (x, some t) ↔ r.content = x ∧ ∃ h, r.rest = some ⟨t, h⟩ := by
  rw [view, Prod.mk.injEq, Option.map_eq_some_iff]
  simp

/-- Widening a reading changes what is read, and not where it ends. -/
theorem view_widen {β : Type} {m : Nat} (r : Reading α m) (f : α → β) (h : m ≤ n) :
    (r.widen f h).view = (f r.view.1, r.view.2) := by
  simp [view, widen, Function.comp_def]

theorem next_cons {c : Char} (hc : isSpace c = false) (r : List Char) :
    next (c :: r) = some (c, ⟨r, Nat.lt_succ_self _⟩) := by
  have hskip : skipSpace (c :: r) = c :: r := by
    unfold skipSpace
    rw [List.dropWhile_cons, hc]
    rfl
  unfold next
  split
  next h => cases hskip.symm.trans h
  next h =>
    obtain ⟨rfl, rfl⟩ := List.cons.inj (hskip.symm.trans h)
    rfl

/-! ### Literals -/

/-- A word that is scanned stands for its draft. -/
theorem view_word {w : List Char} (d : Draft) (h : scanWord w s = .ok t) :
    (word w d s).view = (d, some t) := by
  unfold word
  split
  next rest heq =>
    cases h.symm.trans heq
    rfl
  next heq => cases h.symm.trans heq

/-- A written string ends with its closing quotation mark. -/
theorem eq_closed_of_scanString {s t : List Char} {ending : StringEnd}
    (h : (scanString (s.flatMap escape ++ '"' :: t)).2 = ending) : ending = .closed t := by
  rw [← h, scanString_quoted]

/-- The characters of a written string are read up to its closing quotation mark. -/
theorem view_string (s t : List Char) :
    (string (s.flatMap escape ++ '"' :: t)).view = (.string (some (String.ofList s)), some t) := by
  unfold string
  split
  next heq =>
    cases eq_closed_of_scanString heq
    simp [view, scanString_quoted, pair?_map_piece]
  next heq => cases eq_closed_of_scanString heq

theorem view_key (s t : List Char) :
    (key (s.flatMap escape ++ '"' :: t)).view = (.text (some (String.ofList s)), some t) := by
  unfold key
  split
  next heq =>
    cases eq_closed_of_scanString heq
    simp [view, scanString_quoted, pair?_map_piece]
  next heq => cases eq_closed_of_scanString heq

/-- A numeral that is scanned is read as the number that it denotes. -/
theorem view_numeral {m : Numeral} (h : scanNumeral s = .found m t) :
    (numeral s).view = (.number m.value?, some t) := by
  unfold numeral
  split
  next heq =>
    cases h.symm.trans heq
    rfl
  next heq => cases h.symm.trans heq

/-! ### Scalars -/

theorem view_null (t : List Char) :
    (value ('n' :: 'u' :: 'l' :: 'l' :: t)).view = (.null, some t) := by
  rw [value, next_cons rfl]
  exact view_word .null rfl

theorem view_true (t : List Char) :
    (value ('t' :: 'r' :: 'u' :: 'e' :: t)).view = (.bool true, some t) := by
  rw [value, next_cons rfl]
  exact view_word (.bool true) rfl

theorem view_false (t : List Char) :
    (value ('f' :: 'a' :: 'l' :: 's' :: 'e' :: t)).view = (.bool false, some t) := by
  rw [value, next_cons rfl]
  exact view_word (.bool false) rfl

/-- A value that begins with a quotation mark is a string. -/
theorem view_quoted (s t : List Char) :
    (value ('"' :: s.flatMap escape ++ '"' :: t)).view
      = (.string (some (String.ofList s)), some t) := by
  rw [List.cons_append, value, next_cons rfl]
  simp [view_widen, view_string]

/-- A number that reads back, before a text that stops its numeral. -/
theorem view_number {m : Number} (hm : m.ReadsBack) (ht : Stops t) :
    (value (m.text.toList ++ t)).view = (.number (some m), some t) := by
  obtain ⟨k, hscan, hvalue⟩ := hm
  obtain ⟨c, r, hs, hc⟩ := exists_of_scanNumeral hscan
  have hview := view_numeral (scanNumeral_append ht hscan)
  rw [hs] at hview ⊢
  rw [List.cons_append, List.nil_append, hvalue] at hview
  have hne : ∀ d, d.isDigit = false → d ≠ '-' → c ≠ d := by
    rintro d hdigit hd rfl
    rcases hc with hc | hc
    · exact hd hc
    · cases hdigit.symm.trans hc
  have hspace : isSpace c = false := by
    simp [isSpace, hne ' ', hne '\t', hne '\n', hne '\r']
  rw [List.cons_append, value, next_cons hspace]
  simp [view_widen, hne 'n', hne 't', hne 'f', hne '"', hc, hview]

/-! ### Arrays -/

/-- A value that begins with a square bracket is an array, and ends where its items do. -/
theorem view_array (s : List Char) :
    (value ('[' :: s)).view = (.array (array s).view.1.1 (array s).view.1.2, (array s).view.2) := by
  rw [value, next_cons rfl]
  simp [view_widen]

theorem view_array_nil (t : List Char) : (array (']' :: t)).view = (([], .closed), some t) := by
  rw [array, next_cons rfl]
  rfl

/-- Where a value can be read the array does not end. -/
theorem array_eq_items {d : Draft} (h : (value s).view = (d, some t)) : array s = items s := by
  rw [array]
  rw [value] at h
  cases hnext : next s with
  | none =>
      rw [hnext] at h
      cases h
  | some found =>
      obtain ⟨c, r⟩ := found
      rw [hnext] at h
      dsimp only at h ⊢
      refine if_neg ?_
      -- no value starts with the bracket
      rintro rfl
      cases h

theorem view_items_last {d : Draft} (h : (value s).view = (d, some (']' :: t))) :
    (items s).view = (([d], .closed), some t) := by
  obtain ⟨hcontent, hshorter, hrest⟩ := view_eq_some.mp h
  rw [items]
  simp [hrest, hcontent, next_cons, isSpace, view]

/-- Behind an item and a comma the other items are read. -/
theorem view_items_more {d : Draft} (h : (value s).view = (d, some (',' :: t))) :
    (items s).view = ((d :: (items t).view.1.1, (items t).view.1.2), (items t).view.2) := by
  obtain ⟨hcontent, hshorter, hrest⟩ := view_eq_some.mp h
  rw [items]
  simp [hrest, hcontent, next_cons, isSpace, view_widen]

/-! ### Objects -/

/-- A value that begins with a curly bracket is an object, and ends where its members do. -/
theorem view_object (s : List Char) :
    (value ('{' :: s)).view
      = (.object (object s).view.1.1 (object s).view.1.2, (object s).view.2) := by
  rw [value, next_cons rfl]
  simp [view_widen]

theorem view_object_nil (t : List Char) : (object ('}' :: t)).view = (([], .closed), some t) := by
  rw [object, next_cons rfl]
  rfl

/-- Where a member begins the object does not end. -/
theorem object_eq_members (m : String × Json) (t : List Char) :
    object (compactMember m ++ t) = members (compactMember m ++ t) := by
  have hnext : next (compactMember m ++ t) = some ('"', _) := next_cons rfl _
  rw [object, hnext]
  rfl

/-- A member is read as its key, and the value behind the colon. -/
theorem view_member (k s : List Char) :
    (member ('"' :: k.flatMap escape ++ '"' :: ':' :: s)).view
      = ((.text (some (String.ofList k)), (value s).view.1), (value s).view.2) := by
  obtain ⟨hcontent, hshorter, hrest⟩ := view_eq_some.mp (view_key k (':' :: s))
  rw [List.cons_append, member, next_cons rfl]
  simp [hrest, hcontent, next_cons, isSpace, view_widen]

theorem view_members_last {m : Key × Draft} (h : (member s).view = (m, some ('}' :: t))) :
    (members s).view = (([m], .closed), some t) := by
  obtain ⟨hcontent, hshorter, hrest⟩ := view_eq_some.mp h
  rw [members]
  simp [hrest, hcontent, next_cons, isSpace, view]

/-- Behind a member and a comma the other members are read. -/
theorem view_members_more {m : Key × Draft} (h : (member s).view = (m, some (',' :: t))) :
    (members s).view = ((m :: (members t).view.1.1, (members t).view.1.2), (members t).view.2) := by
  obtain ⟨hcontent, hshorter, hrest⟩ := view_eq_some.mp h
  rw [members]
  simp [hrest, hcontent, next_cons, isSpace, view_widen]

/-! ### Values -/

theorem stops_cons {c : Char} (hdigit : c.isDigit = false) (h : c ∉ ['.', 'e', 'E'])
    (t : List Char) : Stops (c :: t) := by
  rintro _ ⟨⟩
  simp only [List.mem_cons, List.not_mem_nil, or_false, not_or] at h
  exact ⟨hdigit, h⟩

/-- What stands behind a part of an array or an object stops a numeral. -/
theorem stops_behind {bracket : Char} (hdigit : bracket.isDigit = false)
    (h : bracket ∉ ['.', 'e', 'E']) (t : List Char) (rest : List (List Char)) :
    Stops (behind bracket t rest) := by
  cases rest with
  | nil => exact stops_cons hdigit h t
  | cons part rest => exact stops_cons rfl (by decide) _

/-- The text of a value is read before any text that cannot go on with a numeral. -/
def IsRead (v : Json) : Prop :=
  ∀ t, Stops t → (value (v.compact.toList ++ t)).view = (.ofJson v, some t)

/-- An item is read up to the comma or the bracket behind it. -/
theorem IsRead.item {v : Json} (h : IsRead v) (t : List Char) (rest : List (List Char)) :
    (value (v.compact.toList ++ behind ']' t rest)).view = (.ofJson v, some (behind ']' t rest)) :=
  h _ (stops_behind rfl (by decide) t rest)

/-- A member is read up to the comma or the bracket behind it. -/
theorem IsRead.member {m : String × Json} (h : IsRead m.2) (t : List Char)
    (rest : List (List Char)) :
    (Reading.member (compactMember m ++ behind '}' t rest)).view
      = ((.text (some m.1), .ofJson m.2), some (behind '}' t rest)) := by
  have hmember := view_member m.1.toList (m.2.compact.toList ++ behind '}' t rest)
  rw [h _ (stops_behind rfl (by decide) t rest), String.ofList_toList] at hmember
  rw [← hmember]
  unfold compactMember
  rw [List.append_assoc]
  rfl

/-- Items are read one after the other, up to the closing bracket. -/
theorem view_items {v : Json} {rest : List Json} (h : ∀ u ∈ v :: rest, IsRead u) (t : List Char) :
    (items (v.compact.toList ++ behind ']' t (rest.map fun u => u.compact.toList))).view
      = ((Draft.ofItems (v :: rest), .closed), some t) := by
  induction rest generalizing v with
  | nil => exact view_items_last ((h v List.mem_cons_self).item t [])
  | cons w rest ih =>
      rw [List.forall_mem_cons] at h
      rw [view_items_more (h.1.item t _), ih h.2]
      rfl

/-- Members are read one after the other, up to the closing bracket. -/
theorem view_members {m : String × Json} {rest : List (String × Json)}
    (h : ∀ e ∈ m :: rest, IsRead e.2) (t : List Char) :
    (members (compactMember m ++ behind '}' t (rest.map compactMember))).view
      = ((Draft.ofMembers (m :: rest), .closed), some t) := by
  induction rest generalizing m with
  | nil => exact view_members_last ((h m List.mem_cons_self).member t [])
  | cons e rest ih =>
      rw [List.forall_mem_cons] at h
      rw [view_members_more (h.1.member t _), ih h.2]
      rfl

/-- A written value is read up to a text that cannot go on with a numeral. -/
theorem isRead_of_legible {v : Json} (hv : v.Legible) : IsRead v := by
  intro t ht
  induction hv generalizing t with
  | null => exact view_null t
  | bool b =>
      cases b with
      | false => exact view_false t
      | true => exact view_true t
  | number hn => exact view_number hn ht
  | string s =>
      rw [toList_compact_string, view_quoted, String.ofList_toList]
      rfl
  | @array items _ ih =>
      rw [toList_compact_array, view_array]
      cases items with
      | nil =>
          rw [List.map_nil, List.intercalate_nil, List.nil_append, view_array_nil]
          rfl
      | cons v rest =>
          -- an array that begins with a value does not end there
          rw [List.map_cons, intercalate_append,
            array_eq_items (IsRead.item (ih v List.mem_cons_self) t _), view_items ih]
          rfl
  | @object members _ ih =>
      rw [toList_compact_object, view_object]
      cases members with
      | nil =>
          rw [List.map_nil, List.intercalate_nil, List.nil_append, view_object_nil]
          rfl
      | cons m rest =>
          rw [List.map_cons, intercalate_append, object_eq_members, view_members ih]
          rfl

end Reading

/-- A written value is the only thing in its text. -/
theorem Sheet.ofText_compact {v : Json} (hv : v.Legible) :
    Sheet.ofText v.compact = ⟨.ofJson v, false⟩ := by
  have hview := Reading.isRead_of_legible hv [] fun _ h => by cases h
  rw [List.append_nil] at hview
  obtain ⟨hcontent, hshorter, hrest⟩ := Reading.view_eq_some.mp hview
  simp [ofText, hcontent, hrest, skipSpace]

end CausalTrace.Json
