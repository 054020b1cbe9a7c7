import CausalTrace.Json.Draft
import CausalTrace.Json.Numeral

/-!
# Drafts of texts

Takes a text apart into its draft.  The scanners for strings, numerals and words are recursions on
the characters; arrays and objects recurse on the length of what is left.

## Main definitions

* `Json.scanString`, `Json.scanNumeral`, `Json.scanWord` — the literals
* `Json.Reading` — a draft and, unless the text broke off inside it, the text behind it
* `Json.Sheet.ofText` — the draft of a whole text

## Design notes

A string is scanned into pieces first, characters and 16-bit units from escapes, and its surrogates
are paired afterwards: a reader who passes over the string does not mind unpaired ones.
-/

namespace CausalTrace.Json

/-- White space between the tokens of a JSON text. -/
def isSpace (c : Char) : Bool := c = ' ' || c = '\t' || c = '\n' || c = '\r'

/-- The text from its first token on. -/
def skipSpace (s : List Char) : List Char := s.dropWhile isSpace

/-! ### Strings -/

/-- A piece of a string: a character, or a 16-bit unit given by an escape. -/
inductive Piece
  | char (c : Char)
  | unit (n : Nat)
  deriving DecidableEq, Repr

/-- How the pieces of a string end. -/
inductive StringEnd
  /-- With the quotation mark, before this text. -/
  | closed (rest : List Char)
  /-- With a flaw. -/
  | flawed (flaw : Flaw)
  deriving DecidableEq, Repr

/-- The value of a hexadecimal digit. -/
def hexValue? (c : Char) : Option Nat :=
  let n := c.toNat
  if 48 ≤ n && n ≤ 57 then some (n - 48)
  else if 65 ≤ n && n ≤ 70 then some (n - 55)
  else if 97 ≤ n && n ≤ 102 then some (n - 87)
  else none

/-- The unit of four hexadecimal digits. -/
def unit? (a b c d : Char) : Option Nat := do
  return 4096 * (← hexValue? a) + 256 * (← hexValue? b) + 16 * (← hexValue? c) + (← hexValue? d)

/-- The character that a one-letter escape stands for. -/
def escaped? (c : Char) : Option Char :=
  if c = '"' || c = '\\' || c = '/' then some c
  else if c = 'b' then some (Char.ofNat 0x8)
  else if c = 'f' then some (Char.ofNat 0xC)
  else if c = 'n' then some '\n'
  else if c = 'r' then some '\r'
  else if c = 't' then some '\t'
  else none

/-- The number of bytes of a text in UTF-8. -/
def byteCount (s : List Char) : Nat := (String.ofList s).utf8ByteSize

/-- The pieces of a string, from behind its opening quotation mark on.  An escaped unit takes up
four bytes: with fewer left the text ends too early, whatever they are. -/
def scanString : List Char → List Piece × StringEnd
  | [] => ([], .flawed .truncated)
  | '"' :: rest => ([], .closed rest)
  | ['\\'] => ([], .flawed .truncated)
  | '\\' :: 'u' :: a :: b :: c :: d :: rest =>
    match unit? a b c d with
    | some n =>
      let (pieces, ending) := scanString rest
      (.unit n :: pieces, ending)
    | none => ([], .flawed .malformed)
  | '\\' :: 'u' :: few =>
    ([], .flawed (if byteCount few < 4 then .truncated else .malformed))
  | '\\' :: c :: rest =>
    match escaped? c with
    | some c =>
      let (pieces, ending) := scanString rest
      (.char c :: pieces, ending)
    | none => ([], .flawed .malformed)
  | c :: rest =>
    if c.toNat < 0x20 then ([], .flawed .malformed)
    else
      let (pieces, ending) := scanString rest
      (.char c :: pieces, ending)

/-- Whether a unit is the first half of a surrogate pair. -/
def isLeading (n : Nat) : Bool := 0xD800 ≤ n && n ≤ 0xDBFF

/-- Whether a unit is the second half of a surrogate pair. -/
def isTrailing (n : Nat) : Bool := 0xDC00 ≤ n && n ≤ 0xDFFF

/-- The characters of pieces whose surrogates are all paired. -/
def pair? : List Piece → Option (List Char)
  | [] => some []
  | .char c :: rest => (pair? rest).map (c :: ·)
  | .unit n :: rest =>
    if isLeading n then
      match rest with
      | .unit m :: rest' =>
        if isTrailing m then
          (pair? rest').map (Char.ofNat (0x10000 + (n - 0xD800) * 0x400 + (m - 0xDC00)) :: ·)
        else none
      | _ => none
    else if isTrailing n then none
    else (pair? rest).map (Char.ofNat n :: ·)

/-- The pieces without a first half of a pair at their end, which the missing rest of the text
might have completed. -/
def dropOpenPair (pieces : List Piece) : List Piece :=
  match pieces.getLast? with
  | some (.unit n) => if isLeading n then pieces.dropLast else pieces
  | _ => pieces

/-- The flaw of a string that breaks off, for a reader who wants its text: an unpaired surrogate
before the break comes first. -/
def brokenString (pieces : List Piece) (flaw : Flaw) : Flaw :=
  if (pair? (dropOpenPair pieces)).isSome then flaw else .malformed

/-- A string takes at least its closing quotation mark. -/
theorem length_scanString {s rest : List Char} (h : (scanString s).2 = .closed rest) :
    rest.length < s.length := by
  fun_induction scanString s with
  | case2 r =>
    cases h
    simp
  | case4 | case7 | case10 =>
    simp_all
    omega
  | _ => simp at h

/-! ### Numerals -/

/-- The value of a decimal digit. -/
def digitValue (c : Char) : Nat := c.toNat - 48

/-- The values of the digits a text starts with. -/
def digits (s : List Char) : List Nat := (s.takeWhile Char.isDigit).map digitValue

/-- The text behind the digits it starts with. -/
def afterDigits (s : List Char) : List Char := s.dropWhile Char.isDigit

/-- What a scan for a numeral finds. -/
inductive NumeralScan
  | found (n : Numeral) (rest : List Char)
  /-- A digit is missing: the text has this character there, or ends. -/
  | missing (next : Option Char)
  deriving Repr

/-- The exponent of a numeral, if the text goes on with one. -/
def scanExponent (negative : Bool) (whole : List Nat) (fraction : Option (List Nat))
    (s : List Char) : NumeralScan :=
  let signed (minus : Bool) (rest : List Char) : NumeralScan :=
    if (digits rest).isEmpty then .missing rest.head?
    else .found ⟨negative, whole, fraction, some (minus, digits rest)⟩ (afterDigits rest)
  match s with
  | c :: rest =>
    if c = 'e' || c = 'E' then
      match rest with
      | '+' :: rest' => signed false rest'
      | '-' :: rest' => signed true rest'
      | _ => signed false rest
    else .found ⟨negative, whole, fraction, none⟩ s
  | [] => .found ⟨negative, whole, fraction, none⟩ s

/-- The fraction and the exponent of a numeral, if the text goes on with them. -/
def scanFraction (negative : Bool) (whole : List Nat) : List Char → NumeralScan
  | '.' :: rest =>
    if (digits rest).isEmpty then .missing rest.head?
    else scanExponent negative whole (some (digits rest)) (afterDigits rest)
  | s => scanExponent negative whole none s

/-- A numeral from behind its sign on.  No digit follows a leading zero. -/
def scanMagnitude (negative : Bool) (s : List Char) : NumeralScan :=
  match s with
  | '0' :: rest =>
    match rest with
    | c :: _ => if c.isDigit then .missing (some c) else scanFraction negative [0] rest
    | [] => scanFraction negative [0] rest
  | _ =>
    if (digits s).isEmpty then .missing s.head?
    else scanFraction negative (digits s) (afterDigits s)

/-- A numeral. -/
def scanNumeral : List Char → NumeralScan
  | '-' :: rest => scanMagnitude true rest
  | s => scanMagnitude false s

theorem length_dropWhile_le (p : Char → Bool) (s : List Char) :
    (s.dropWhile p).length ≤ s.length := (List.dropWhile_suffix p).length_le

theorem length_afterDigits_le (s : List Char) : (afterDigits s).length ≤ s.length :=
  length_dropWhile_le _ s

theorem length_skipSpace_le (s : List Char) : (skipSpace s).length ≤ s.length :=
  length_dropWhile_le _ s

theorem length_afterDigits_lt {s : List Char} (h : (digits s).isEmpty = false) :
    (afterDigits s).length < s.length := by
  cases s with
  | nil => simp [digits] at h
  | cons c r =>
    by_cases hc : c.isDigit
    · have := length_afterDigits_le r
      simp only [afterDigits, List.dropWhile_cons, hc] at this ⊢
      simp only [↓reduceIte, List.length_cons]
      omega
    · simp [digits, hc] at h

theorem length_scanExponent {negative : Bool} {whole : List Nat} {fraction : Option (List Nat)}
    {s rest : List Char} {n : Numeral}
    (h : scanExponent negative whole fraction s = .found n rest) : rest.length ≤ s.length := by
  unfold scanExponent at h
  split at h
  · next c r =>
    split at h
    · split at h
      all_goals
        dsimp only at h
        split at h
        · simp at h
        · simp only [NumeralScan.found.injEq] at h
          obtain ⟨-, rfl⟩ := h
          refine Nat.le_trans (length_afterDigits_le _) ?_
          simp only [List.length_cons]
          omega
    · simp only [NumeralScan.found.injEq] at h
      simp [← h.2]
  · simp only [NumeralScan.found.injEq] at h
    simp [← h.2]

theorem length_scanFraction {negative : Bool} {whole : List Nat} {s rest : List Char} {n : Numeral}
    (h : scanFraction negative whole s = .found n rest) : rest.length ≤ s.length := by
  unfold scanFraction at h
  split at h
  · next r =>
    split at h
    · simp at h
    · have h1 := length_scanExponent h
      have h2 := length_afterDigits_le r
      simp only [List.length_cons]
      omega
  · exact length_scanExponent h

theorem length_scanMagnitude {negative : Bool} {s rest : List Char} {n : Numeral}
    (h : scanMagnitude negative s = .found n rest) : rest.length < s.length := by
  unfold scanMagnitude at h
  split at h
  · next r =>
    split at h
    · split at h
      · simp at h
      · have := length_scanFraction h
        simp only [List.length_cons] at this ⊢
        omega
    · have := length_scanFraction h
      simp only [List.length_cons, List.length_nil] at this ⊢
      omega
  · split at h
    · simp at h
    · next hd =>
      have h1 := length_scanFraction h
      have h2 := length_afterDigits_lt (by simpa using hd)
      omega

/-- A numeral takes at least one character. -/
theorem length_scanNumeral {s rest : List Char} {n : Numeral}
    (h : scanNumeral s = .found n rest) : rest.length < s.length := by
  unfold scanNumeral at h
  split at h
  · have := length_scanMagnitude h
    simp only [List.length_cons]
    omega
  · exact length_scanMagnitude h

/-- The draft of a numeral that lacks a digit.  At the end of the text it is truncated for a reader
who wants the number, and malformed for one who passes over it. -/
def brokenNumeral : Option Char → Draft
  | none => .broken .truncated .malformed .malformed
  | some _ => .broken .malformed .malformed .malformed

/-! ### Words -/

/-- The text behind a word it starts with, or the flaw of a text that does not go on as the word
does. -/
def scanWord : List Char → List Char → Except Flaw (List Char)
  | [], s => .ok s
  | _ :: _, [] => .error .truncated
  | w :: ws, c :: s => if c = w then scanWord ws s else .error .malformed

theorem length_scanWord {w s rest : List Char} (h : scanWord w s = .ok rest) :
    rest.length ≤ s.length := by
  fun_induction scanWord w s with
  | case1 => simp_all
  | case3 _ _ _ ih =>
    have := ih h
    simp only [List.length_cons]
    omega
  | _ => simp at h

/-! ### Values -/

/-- What is read of a text of length `n`. -/
structure Reading (α : Type) (n : Nat) where
  content : α
  /-- The text behind it, which is shorter; none when the text breaks off inside it. -/
  rest : Option { r : List Char // r.length < n }

namespace Reading

/-- A reading of a shorter text, as one of a longer text. -/
def widen {α β : Type} {m n : Nat} (r : Reading α m) (f : α → β) (h : m ≤ n) :
    Reading β n :=
  ⟨f r.content, r.rest.map fun t => ⟨t.1, by have := t.2; omega⟩⟩

/-- The word that starts with a letter already seen. -/
def word (w : List Char) (d : Draft) (s : List Char) : Reading Draft (s.length + 1) :=
  match h : scanWord w s with
  | .ok rest => ⟨d, some ⟨rest, by have := length_scanWord h; omega⟩⟩
  | .error flaw => ⟨.broken flaw flaw .malformed, none⟩

/-- The string behind its opening quotation mark. -/
def string (s : List Char) : Reading Draft (s.length + 1) :=
  match h : (scanString s).2 with
  | .closed rest =>
    ⟨.string ((pair? (scanString s).1).map String.ofList),
      some ⟨rest, by have := length_scanString h; omega⟩⟩
  | .flawed flaw =>
    let taken := brokenString (scanString s).1 flaw
    ⟨.broken taken flaw taken, none⟩

/-- The numeral at the start of a text. -/
def numeral (s : List Char) : Reading Draft s.length :=
  match h : scanNumeral s with
  | .found n rest => ⟨.number n.value?, some ⟨rest, length_scanNumeral h⟩⟩
  | .missing next => ⟨brokenNumeral next, none⟩

/-- The key behind its opening quotation mark. -/
def key (s : List Char) : Reading Key (s.length + 1) :=
  match h : (scanString s).2 with
  | .closed rest =>
    ⟨.text ((pair? (scanString s).1).map String.ofList),
      some ⟨rest, by have := length_scanString h; omega⟩⟩
  | .flawed flaw => ⟨.broken (brokenString (scanString s).1 flaw) flaw, none⟩

/-- The next character that is no white space, and the text behind it. -/
def next (s : List Char) : Option (Char × { r : List Char // r.length < s.length }) :=
  match h : skipSpace s with
  | [] => none
  | c :: r => some (c, ⟨r, by
      have := length_skipSpace_le s
      rw [h] at this
      simp only [List.length_cons] at this
      omega⟩)

mutual

/-- The value at the start of a text, behind white space. -/
def value (s : List Char) : Reading Draft s.length :=
  match next s with
  | none => ⟨.broken .truncated .truncated .truncated, none⟩
  | some (c, ⟨r, hr⟩) =>
    if c = 'n' then (word ['u', 'l', 'l'] .null r).widen id hr
    else if c = 't' then (word ['r', 'u', 'e'] (.bool true) r).widen id hr
    else if c = 'f' then (word ['a', 'l', 's', 'e'] (.bool false) r).widen id hr
    else if c = '"' then (string r).widen id hr
    else if c = '-' || c.isDigit then (numeral (c :: r)).widen id hr
    else if c = '[' then (array r).widen (fun p => .array p.1 p.2) (by omega)
    else if c = '{' then (object r).widen (fun p => .object p.1 p.2) (by omega)
    else ⟨.broken .malformed .malformed .malformed, none⟩
termination_by (s.length, 0)

/-- The items of an array, behind its opening bracket. -/
def array (s : List Char) : Reading (List Draft × Ending) s.length :=
  match next s with
  | none => ⟨([], .cut), none⟩
  | some (c, r) => if c = ']' then ⟨([], .closed), some r⟩ else items s
termination_by (s.length, 2)

/-- One item of an array and those behind it. -/
def items (s : List Char) : Reading (List Draft × Ending) s.length :=
  let first := value s
  match first.rest with
  | none => ⟨([first.content], .cut), none⟩
  | some ⟨r, hr⟩ =>
    match next r with
    | none => ⟨([first.content], .cut), none⟩
    | some (c, ⟨t, ht⟩) =>
      if c = ',' then (items t).widen (fun p => (first.content :: p.1, p.2)) (by omega)
      else if c = ']' then ⟨([first.content], .closed), some ⟨t, by omega⟩⟩
      else ⟨([first.content], .stray), none⟩
termination_by (s.length, 1)

/-- The members of an object, behind its opening bracket. -/
def object (s : List Char) : Reading (List (Key × Draft) × Ending) s.length :=
  match next s with
  | none => ⟨([], .cut), none⟩
  | some (c, r) => if c = '}' then ⟨([], .closed), some r⟩ else members s
termination_by (s.length, 3)

/-- One member of an object and those behind it. -/
def members (s : List Char) : Reading (List (Key × Draft) × Ending) s.length :=
  let first := member s
  match first.rest with
  | none => ⟨([first.content], .cut), none⟩
  | some ⟨r, hr⟩ =>
    match next r with
    | none => ⟨([first.content], .cut), none⟩
    | some (c, ⟨t, ht⟩) =>
      if c = ',' then (members t).widen (fun p => (first.content :: p.1, p.2)) (by omega)
      else if c = '}' then ⟨([first.content], .closed), some ⟨t, by omega⟩⟩
      else ⟨([first.content], .stray), none⟩
termination_by (s.length, 2)

/-- One member of an object.  Where its key or its colon is missing the text breaks off. -/
def member (s : List Char) : Reading (Key × Draft) s.length :=
  match next s with
  | none => ⟨(.broken .truncated .truncated, .null), none⟩
  | some (c, ⟨r, hr⟩) =>
    if c = '"' then
      let k := key r
      match k.rest with
      | none => ⟨(k.content, .null), none⟩
      | some ⟨t, ht⟩ =>
        match next t with
        | none => ⟨(k.content, .broken .truncated .truncated .truncated), none⟩
        | some (c', ⟨u, hu⟩) =>
          if c' = ':' then (value u).widen (fun d => (k.content, d)) (by omega)
          else ⟨(k.content, .broken .malformed .malformed .malformed), none⟩
    else ⟨(.foreign, .null), none⟩
termination_by (s.length, 1)

end

end Reading

/-- A whole text: its value, and whether something else than white space follows it. -/
structure Sheet where
  value : Draft
  trailing : Bool
  deriving Repr

/-- Takes a text apart. -/
def Sheet.ofText (s : String) : Sheet :=
  let r := Reading.value s.toList
  ⟨r.content, match r.rest with
    | none => false
    | some t => !(skipSpace t.1).isEmpty⟩

end CausalTrace.Json
