import LineBasic.Statement.Reading

/-!
# The grammar of statements

Which lists of tokens are statements, and which statement each of them is, said without a reader.

Expressions are stratified. A comparison is a chain of sums with relational operators between them,
a sum is a chain of products, a product is a chain of signed operands, and a signed operand is an
operand with any number of signs in front. A chain groups to the left, which a left-recursive rule
says: what stands before the last operator of a chain is itself a chain of the stratum. There are no
numeric binding strengths here, only strata and the operators that belong to them.

A statement derives from all of its tokens. Only a comment derives from more tokens than its
keyword, and so does a conditional statement that ends in one.

## Main definitions

* `Expr.Derives`: the tokens of an expression of a stratum;
* `Statement.Derives`: the tokens of a statement.
-/

namespace LineBasic

/-- The strata of expressions, from the loosest to the tightest. -/
inductive Stratum where
  | comparison | sum | product | signed | operand
  deriving DecidableEq, Repr

namespace Stratum

/-- The operators that stand between the members of a chain. -/
def operators : Stratum → List Operator
  | comparison => [.equal, .notEqual, .less, .lessEqual, .greater, .greaterEqual]
  | sum => [.add, .subtract]
  | product => [.multiply, .divide]
  | signed | operand => []

/-- The stratum of the members of a chain. -/
def member : Stratum → Stratum
  | comparison => sum
  | sum => product
  | product => signed
  | signed | operand => operand

end Stratum

/-- The digits of a literal that is near to a finite value. -/
def DenotesValue (digits : String) (value : Float) : Prop :=
  ∃ n : Numeral, Numeral.ofLiteral? digits.toList = some n ∧ n.word ≠ Binary64.infinity ∧
    value = (Binary64.Datum.finite false n.word).toFloat

/-- The digits of a line number: decimal digits only, of a value from `1` to `4294967295`. -/
structure DenotesLine (digits : String) (line : LineNumber) : Prop where
  decimal : digits.toList.all Char.isDigit
  value : Numeral.ofDigits digits.toList = line
  positive : 1 ≤ line
  bounded : line ≤ 4294967295

/-- The tokens of an expression of a stratum. -/
inductive Expr.Derives : Stratum → List Token → Expr → Prop where
  /-- A chain of one member. -/
  | member {s : Stratum} {tokens : List Token} {e : Expr} :
      Derives s.member tokens e → Derives s tokens e
  /-- A chain, an operator of its stratum and one more member. -/
  | chain {s : Stratum} {before after : List Token} {left right : Expr} {op : Operator} :
      op ∈ s.operators → Derives s before left → Derives s.member after right →
        Derives s (before ++ .operator op :: after) (.binary left op right)
  | plus {tokens : List Token} {e : Expr} :
      Derives .signed tokens e → Derives .signed (.operator .add :: tokens) (.sign .plus e)
  | minus {tokens : List Token} {e : Expr} :
      Derives .signed tokens e → Derives .signed (.operator .subtract :: tokens) (.sign .minus e)
  | number {digits : String} {value : Float} :
      DenotesValue digits value → Derives .operand [.number digits] (.number value)
  | text {content : String} : Derives .operand [.text content] (.text content)
  | name {word : String} : Derives .operand [.name word] (.variable word)
  | parens {tokens : List Token} {e : Expr} :
      Derives .comparison tokens e →
        Derives .operand (.leftParen :: (tokens ++ [.rightParen])) e

/-- The tokens of expressions with commas between them. -/
inductive Expr.DeriveList : List Token → List Expr → Prop where
  | one {tokens : List Token} {e : Expr} :
      Derives .comparison tokens e → DeriveList tokens [e]
  | more {tokens later : List Token} {e : Expr} {items : List Expr} :
      Derives .comparison tokens e → DeriveList later items →
        DeriveList (tokens ++ .comma :: later) (e :: items)

/-- The tokens of a statement. -/
inductive Statement.Derives : List Token → Statement → Prop where
  /-- What follows the keyword of a comment may be any tokens. -/
  | comment (commentary : List Token) : Derives (.keyword .REM :: commentary) .comment
  | letAssign {name : String} {tokens : List Token} {value : Expr} :
      Expr.Derives .comparison tokens value →
        Derives (.keyword .LET :: .name name :: .operator .equal :: tokens) (.assign name value)
  | assign {name : String} {tokens : List Token} {value : Expr} :
      Expr.Derives .comparison tokens value →
        Derives (.name name :: .operator .equal :: tokens) (.assign name value)
  | printNothing : Derives [.keyword .PRINT] (.print [])
  | print {tokens : List Token} {items : List Expr} :
      Expr.DeriveList tokens items → Derives (.keyword .PRINT :: tokens) (.print items)
  | input {name : String} : Derives [.keyword .INPUT, .name name] (.input name)
  /-- The digits of the target are the last token. -/
  | ifJump {tokens : List Token} {condition : Expr} {digits : String} {target : LineNumber} :
      Expr.Derives .comparison tokens condition → DenotesLine digits target →
        Derives (.keyword .IF :: (tokens ++ [.keyword .THEN, .number digits]))
          (.ifJump condition target)
  | ifThen {tokens body : List Token} {condition : Expr} {statement : Statement} :
      Expr.Derives .comparison tokens condition → Derives body statement →
        Derives (.keyword .IF :: (tokens ++ .keyword .THEN :: body)) (.ifThen condition statement)
  | jump {digits : String} {target : LineNumber} :
      DenotesLine digits target → Derives [.keyword .GOTO, .number digits] (.jump target)
  | stop : Derives [.keyword .END] .stop

end LineBasic
