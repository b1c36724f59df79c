import Peg.Unicode.Binary

/-!
# Quoted text

Text between quotation marks, with escapes for what would be misread or not be
seen: quotation marks, backslashes, controls, and characters without a shape of
their own.

## Main definitions

* `Text.quote`.
-/

namespace Peg.Text

/-- A number in hexadecimal digits. -/
def hex (code : Nat) : List Char :=
  Nat.toDigits 16 code

/-- A character as it stands between quotation marks. -/
def escape (c : Char) : List Char :=
  match c with
  | '\x00' => ['\\', '0']
  | '\t' => ['\\', 't']
  | '\r' => ['\\', 'r']
  | '\n' => ['\\', 'n']
  | '\\' => ['\\', '\\']
  | '"' => ['\\', '"']
  | c => if Unicode.isPrintable c then [c] else "\\u\x7b".toList ++ hex c.toNat ++ ['\x7d']

/-- A text between quotation marks. -/
def quote (s : String) : String :=
  String.ofList ('"' :: s.toList.flatMap escape ++ ['"'])

end Peg.Text
