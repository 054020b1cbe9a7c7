import CausalTrace.Text.Graphic

/-!
# Quoted text

Shows a text between quotation marks so that every character of it can be told, for messages that
name a value which could not be understood.

## Main definitions

* `Text.escape` — a character in a quoted text
* `Text.quoted` — the quoted text
-/

namespace CausalTrace.Text

/-- A character by its code point, in lower-case hexadecimal digits between braces. -/
def codePoint (c : Char) : List Char :=
  "\\u\x7b".toList ++ Nat.toDigits 16 c.toNat ++ ['\x7d']

/-- A character in a quoted text.  Quotation marks, backslashes and the control characters with
letters of their own follow a backslash; other characters that are not graphic are written by their
code points. -/
def escape (c : Char) : List Char :=
  match c with
  | '\x00' => ['\\', '0']
  | '\t' => ['\\', 't']
  | '\r' => ['\\', 'r']
  | '\n' => ['\\', 'n']
  | '\\' => ['\\', '\\']
  | '"' => ['\\', '"']
  | c => if isGraphic c then [c] else codePoint c

/-- A text between quotation marks. -/
def quoted (s : String) : String := String.ofList ('"' :: s.toList.flatMap escape ++ ['"'])

end CausalTrace.Text
