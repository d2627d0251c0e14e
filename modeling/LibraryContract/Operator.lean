/-!
# Operators

The operators of expressions and the tokens they are written with. A token that no operator has
makes a tree malformed.
-/

namespace LibraryContract

inductive UnaryOperator
  | negate
  | invert
deriving DecidableEq, Repr

namespace UnaryOperator

def tokens : List (String × UnaryOperator) := [("-", .negate), ("!", .invert)]

def ofToken? (token : String) : Option UnaryOperator := tokens.lookup token

end UnaryOperator

inductive BinaryOperator
  | add
  | subtract
  | multiply
  | divide
  | modulo
  | equal
  | notEqual
  | less
  | lessEqual
  | greater
  | greaterEqual
  | and
  | or
deriving DecidableEq, Repr

namespace BinaryOperator

def tokens : List (String × BinaryOperator) :=
  [("+", .add), ("-", .subtract), ("*", .multiply), ("/", .divide), ("%", .modulo),
    ("==", .equal), ("!=", .notEqual), ("<", .less), ("<=", .lessEqual), (">", .greater),
    (">=", .greaterEqual), ("&&", .and), ("||", .or)]

def ofToken? (token : String) : Option BinaryOperator := tokens.lookup token

end BinaryOperator

end LibraryContract
