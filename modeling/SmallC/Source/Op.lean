/-!
# Operators and reserved words

The operators of the language are numbered, and a tree handed over from outside
may hold a number that names none of them. Such a number is kept as it is, in
`Op.unnamed`, so that a message can still show it. `Op.ofNumber` is the only
way in for numbers and never produces an `unnamed` operator that has a name.
-/

namespace SmallC

/-- A unary or binary operator. -/
inductive Op where
  | illegal
  | add | sub | mul | div
  | geq | leq | neq | eql | gtr | lss
  | and | or | xor
  | land | lor
  | unnamed (n : Int)
deriving DecidableEq, Repr, Inhabited

namespace Op

/-- The operators that can be written in a program, in the order of their numbers. -/
def all : List Op :=
  [add, sub, mul, div, geq, leq, neq, eql, gtr, lss, and, or, xor, land, lor]

/-- The operator with a given number. -/
def ofNumber (n : Int) : Op :=
  if n = 0 then illegal
  else if n < 0 then unnamed n
  else (all[n.toNat - 1]?).getD (unnamed n)

/-- The number of an operator. -/
def number : Op → Int
  | illegal => 0
  | add => 1 | sub => 2 | mul => 3 | div => 4
  | geq => 5 | leq => 6 | neq => 7 | eql => 8 | gtr => 9 | lss => 10
  | and => 11 | or => 12 | xor => 13
  | land => 14 | lor => 15
  | unnamed n => n

/-- How an operator is written. -/
def text : Op → String
  | illegal => "ILLEGAL"
  | add => "+" | sub => "-" | mul => "*" | div => "/"
  | geq => ">=" | leq => "<=" | neq => "!=" | eql => "==" | gtr => ">" | lss => "<"
  | and => "&" | or => "|" | xor => "^"
  | land => "&&" | lor => "||"
  | unnamed n => "Op(" ++ toString n ++ ")"

/-- The operator written `s`, if there is one. -/
def ofText? (s : String) : Option Op := all.find? (·.text == s)

/-- The operators `+ - * /`. -/
def isArithmetic : Op → Bool
  | add | sub | mul | div => true
  | _ => false

/-- The relational and equality operators. -/
def isComparison : Op → Bool
  | geq | leq | neq | eql | gtr | lss => true
  | _ => false

/-- The operators `& | ^`. -/
def isBitwise : Op → Bool
  | and | or | xor => true
  | _ => false

/-- The operators `&& ||`. -/
def isLogical : Op → Bool
  | land | lor => true
  | _ => false

end Op

/-- The words of the language that no declaration may use as a name. -/
def keywords : List String :=
  ["return", "for", "int", "char", "void", "double", "float", "bool", "if", "else", "while",
   "true", "false"]

/-- Whether a name is one of the reserved words. -/
def isKeyword (name : String) : Bool := keywords.contains name

end SmallC
