import LibraryContract.Text.ExtendingMark

/-!
# Quoted text

A string in double quotes on one line. What would end it, would not be seen, or would change the
look of its neighbour is written as an escape.
-/

namespace LibraryContract

namespace Text

/-- The digits of a number in base sixteen, in lower case. -/
def hexText (n : Nat) : String := String.ofList (Nat.toDigits 16 n)

/-- How a character is written between double quotes. -/
def escape (c : Char) : String :=
  match c with
  | '\x00' => "\\0"
  | '\t' => "\\t"
  | '\r' => "\\r"
  | '\n' => "\\n"
  | '\\' => "\\\\"
  | '"' => "\\\""
  | c =>
    if isExtendingMark c || !isPrintable c then "\\u\x7b" ++ hexText c.toNat ++ "\x7d"
    else String.singleton c

/-- A string in double quotes. -/
def quoted (s : String) : String := "\"" ++ String.join (s.toList.map escape) ++ "\""

end Text

end LibraryContract
