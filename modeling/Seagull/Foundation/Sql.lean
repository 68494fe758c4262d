import Mathlib.Tactic

/-!
# Conditions of a query, read from their text

A fragment of SQL: the condition of a `WHERE`, from its letters to what it says of a row.  The text is
cut into tokens, its placeholders are bound to arguments in order, the tokens are read with the usual
precedence (comparisons, then `NOT`, `AND` and `OR`), and the expression is evaluated on a row.  The
columns of the row and the functions of the store are parameters.

`Means` says all of it at once of one text, and its rules follow the text: what is written next to
each other is read next to each other.
-/

namespace Seagull.Sql

/-- A number of a column or an argument. -/
inductive Number where
  | finite (value : ℚ)
  | infinite (negative : Bool)
  | nan
  deriving DecidableEq

namespace Number

/-- Whether two numbers are equal.  What is not a number equals nothing. -/
def equal : Number → Number → Bool
  | .nan, _ => false
  | number, other => number == other

/-- Whether one number is below another. -/
def less : Number → Number → Bool
  | .nan, _ => false
  | _, .nan => false
  | .finite value, .finite other => value < other
  | .infinite true, other => other != .infinite true
  | .infinite false, _ => false
  | .finite _, .infinite negative => !negative

end Number

/-- A single value.  Instants are counted in milliseconds. -/
inductive Scalar where
  | text (text : String)
  | number (number : Number)
  | truth (truth : Bool)
  | instant (millis : ℤ)
  deriving DecidableEq

namespace Scalar

/-- Whether two values are equal; values of two kinds are not compared. -/
def equal : Scalar → Scalar → Option Bool
  | .text one, .text other => some (one == other)
  | .number one, .number other => some (one.equal other)
  | .truth one, .truth other => some (one == other)
  | .instant one, .instant other => some (one == other)
  | _, _ => none

/-- Whether one value is below another of its kind. -/
def less : Scalar → Scalar → Option Bool
  | .text one, .text other => some (decide (one < other))
  | .number one, .number other => some (one.less other)
  | .truth one, .truth other => some (!one && other)
  | .instant one, .instant other => some (decide (one < other))
  | _, _ => none

/-- Values in order, the first that differ deciding. -/
def lessAll : List Scalar → List Scalar → Option Bool
  | [], [] => some false
  | one :: ones, other :: others => do
      let less ← one.less other
      let equal ← one.equal other
      let behind ← lessAll ones others
      some (less || equal && behind)
  | _, _ => none

def equalAll : List Scalar → List Scalar → Option Bool
  | [], [] => some true
  | one :: ones, other :: others => do
      let equal ← one.equal other
      let behind ← equalAll ones others
      some (equal && behind)
  | _, _ => none

/-- Whether a value equals one of several. -/
def among (held : Scalar) : List Scalar → Option Bool
  | [] => some false
  | item :: items => do
      let equal ← held.equal item
      let behind ← among held items
      some (equal || behind)

end Scalar

/-- A value of a column or of an expression. -/
inductive Value where
  | one (scalar : Scalar)
  | list (items : List Scalar)
  | tuple (items : List Scalar)
  deriving DecidableEq

namespace Value

def truth (holds : Bool) : Value := .one (.truth holds)

def asTruth : Value → Option Bool
  | .one (.truth holds) => some holds
  | _ => none

def asOne : Value → Option Scalar
  | .one scalar => some scalar
  | _ => none

end Value

/-- A comparison of two values. -/
inductive Comparison where
  | equal
  | unequal
  | less
  | atMost
  | greater
  | atLeast
  deriving DecidableEq

namespace Comparison

/-- What a comparison says of two values, of which it is known how they compare. -/
def decide : Comparison → Bool → Bool → Bool → Bool
  | .equal, _, same, _ => same
  | .unequal, _, same, _ => !same
  | .less, below, _, _ => below
  | .atMost, below, same, _ => below || same
  | .greater, _, _, above => above
  | .atLeast, _, same, above => above || same

def apply (comparison : Comparison) : Value → Value → Option Bool
  | .one scalar, .one other => do
      let less ← scalar.less other
      let equal ← scalar.equal other
      let greater ← other.less scalar
      some (comparison.decide less equal greater)
  | .tuple items, .tuple others => do
      let less ← Scalar.lessAll items others
      let equal ← Scalar.equalAll items others
      let greater ← Scalar.lessAll others items
      some (comparison.decide less equal greater)
  | _, _ => none

end Comparison

/-- An expression of a condition. -/
inductive Expr where
  | value (scalar : Scalar)
  | column (name : String)
  | call (name : String) (arguments : List Expr)
  | compare (comparison : Comparison) (left right : Expr)
  | oneOf (held : Expr) (items : List Expr)
  | tuple (items : List Expr)
  | not (term : Expr)
  | and (left right : Expr)
  | or (left right : Expr)

/-- The columns of a row, and the functions of the store. -/
structure Context where
  column : String → Option Value
  call : String → List Value → Option Value

mutual

/-- The value of an expression; none where kinds do not fit. -/
def Expr.eval (context : Context) : Expr → Option Value
  | .value scalar => some (.one scalar)
  | .column name => context.column name
  | .call name arguments => (Expr.evalAll context arguments).bind (context.call name)
  | .compare comparison left right =>
    (left.eval context).bind fun held =>
      (right.eval context).bind fun other => (comparison.apply held other).map Value.truth
  | .oneOf held items =>
    ((held.eval context).bind Value.asOne).bind fun held =>
      ((Expr.evalAll context items).bind (List.mapM Value.asOne)).bind fun items =>
        (held.among items).map Value.truth
  | .tuple items =>
    ((Expr.evalAll context items).bind (List.mapM Value.asOne)).map Value.tuple
  | .not term => ((term.eval context).bind Value.asTruth).map fun holds => Value.truth !holds
  | .and left right =>
    ((left.eval context).bind Value.asTruth).bind fun holds =>
      ((right.eval context).bind Value.asTruth).map fun other => Value.truth (holds && other)
  | .or left right =>
    ((left.eval context).bind Value.asTruth).bind fun holds =>
      ((right.eval context).bind Value.asTruth).map fun other => Value.truth (holds || other)

def Expr.evalAll (context : Context) : List Expr → Option (List Value)
  | [] => some []
  | term :: terms =>
    (term.eval context).bind fun value => (Expr.evalAll context terms).map (value :: ·)

end

/-- A token of a condition. -/
inductive Token where
  /-- A column or a function. -/
  | name (letters : String)
  /-- A literal, or a value bound to a placeholder. -/
  | value (scalar : Scalar)
  /-- A placeholder. -/
  | mark
  | opening
  | closing
  | comma
  | compare (comparison : Comparison)
  | oneOf
  | not
  | and
  | or
  deriving DecidableEq

def isWordLetter (letter : Char) : Bool := letter.isAlphanum || letter == '_'

def keywordOf : List Char → Option Token
  | ['A', 'N', 'D'] => some .and
  | ['O', 'R'] => some .or
  | ['N', 'O', 'T'] => some .not
  | ['I', 'N'] => some .oneOf
  | ['T', 'R', 'U', 'E'] => some (.value (.truth true))
  | ['F', 'A', 'L', 'S', 'E'] => some (.value (.truth false))
  | _ => none

def Token.ofWord (letters : List Char) : Token :=
  match keywordOf (letters.map Char.toUpper) with
  | some token => token
  | none =>
    if letters.all Char.isDigit then
      .value (.number (.finite (letters.foldl (fun number digit => 10 * number +
        (digit.toNat - '0'.toNat)) 0 : ℕ)))
    else .name (String.ofList letters)

/-- Where in a token the text is read. -/
inductive Mode where
  | between
  | word (letters : List Char)
  | quoted (letters : List Char)
  /-- Behind the first letter of an order. -/
  | order (letter : Char)

def orderOf : Char → Option Comparison
  | '<' => some .less
  | '>' => some .greater
  | _ => none

def orderOrEqual : Char → Option Comparison
  | '<' => some .atMost
  | '>' => some .atLeast
  | '!' => some .unequal
  | _ => none

def start (letter : Char) : Option (List Token × Mode) :=
  if letter = ' ' then some ([], .between)
  else if isWordLetter letter then some ([], .word [letter])
  else if letter = '\'' then some ([], .quoted [])
  else if letter = '(' then some ([.opening], .between)
  else if letter = ')' then some ([.closing], .between)
  else if letter = ',' then some ([.comma], .between)
  else if letter = '?' then some ([.mark], .between)
  else if letter = '=' then some ([.compare .equal], .between)
  else if letter = '<' ∨ letter = '>' ∨ letter = '!' then some ([], .order letter)
  else none

def finish : Mode → Option (List Token)
  | .between => some []
  | .word letters => some [.ofWord letters]
  | .quoted _ => none
  | .order letter => (orderOf letter).map fun comparison => [.compare comparison]

def restart (mode : Mode) (letter : Char) : Option (List Token × Mode) :=
  (finish mode).bind fun ended => (start letter).map fun (tokens, mode) => (ended ++ tokens, mode)

/-- One letter read.  Texts with a quote or an escape in them are not read. -/
def step : Mode → Char → Option (List Token × Mode)
  | .between, letter => start letter
  | .word letters, letter =>
    if isWordLetter letter then some ([], .word (letters ++ [letter]))
    else restart (.word letters) letter
  | .quoted letters, letter =>
    if letter = '\'' then some ([.value (.text (String.ofList letters))], .between)
    else if letter = '\\' then none
    else some ([], .quoted (letters ++ [letter]))
  | .order first, letter =>
    if letter = '=' then (orderOrEqual first).map fun comparison =>
      ([.compare comparison], .between)
    else restart (.order first) letter

def feed : Mode → List Char → Option (List Token × Mode)
  | mode, [] => some ([], mode)
  | mode, letter :: letters =>
    (step mode letter).bind fun (read, mode) =>
      (feed mode letters).map fun (tokens, mode) => (read ++ tokens, mode)

def lex (text : String) : Option (List Token) :=
  (feed .between text.toList).bind fun (tokens, mode) => (finish mode).map (tokens ++ ·)

/-- The placeholders bound to arguments, in order and one each. -/
def bind : List Token → List Scalar → Option (List Token)
  | [], [] => some []
  | [], _ :: _ => none
  | .mark :: _, [] => none
  | .mark :: tokens, argument :: arguments =>
    (bind tokens arguments).map (.value argument :: ·)
  | token :: tokens, arguments => (bind tokens arguments).map (token :: ·)

/-- What is read, from what binds least to what binds most. -/
inductive Level where
  | disjunction
  | conjunction
  | negation
  | comparison
  | operand
  deriving DecidableEq

mutual

/-- The expression tokens start with, and the tokens behind it. -/
def parse : ℕ → Level → List Token → Option (Expr × List Token)
  | 0, _, _ => none
  | fuel + 1, .disjunction, tokens =>
    (parse fuel .conjunction tokens).bind fun (left, behind) =>
      match behind with
      | .or :: others =>
        (parse fuel .disjunction others).map fun (right, rest) => (.or left right, rest)
      | rest => some (left, rest)
  | fuel + 1, .conjunction, tokens =>
    (parse fuel .negation tokens).bind fun (left, behind) =>
      match behind with
      | .and :: others =>
        (parse fuel .conjunction others).map fun (right, rest) => (.and left right, rest)
      | rest => some (left, rest)
  | fuel + 1, .negation, tokens =>
    match tokens with
    | .not :: others => (parse fuel .negation others).map fun (term, rest) => (.not term, rest)
    | others => parse fuel .comparison others
  | fuel + 1, .comparison, tokens =>
    (parse fuel .operand tokens).bind fun (left, behind) =>
      match behind with
      | .compare comparison :: others =>
        (parse fuel .operand others).map fun (right, rest) =>
          (.compare comparison left right, rest)
      | .oneOf :: .opening :: others =>
        (parseList fuel others).map fun (items, rest) => (.oneOf left items, rest)
      | rest => some (left, rest)
  | fuel + 1, .operand, tokens =>
    match tokens with
    | .value scalar :: rest => some (.value scalar, rest)
    | .name letters :: .opening :: others =>
      (parseList fuel others).map fun (arguments, rest) => (.call letters arguments, rest)
    | .name letters :: rest => some (.column letters, rest)
    | .opening :: others =>
      (parseList fuel others).map fun (items, rest) =>
        (match items with
          | [term] => term
          | terms => .tuple terms, rest)
    | _ => none

def parseList : ℕ → List Token → Option (List Expr × List Token)
  | 0, _ => none
  | fuel + 1, tokens =>
    (parse fuel .disjunction tokens).bind fun (item, behind) =>
      match behind with
      | .comma :: others => (parseList fuel others).map fun (items, rest) => (item :: items, rest)
      | .closing :: rest => some ([item], rest)
      | _ => none

end

/-- The condition a text writes, with its placeholders bound.  Five calls lead from one token to the
next. -/
def read (text : String) (arguments : List Scalar) : Option Expr :=
  (lex text).bind fun raw => (bind raw arguments).bind fun tokens =>
    match parse (5 * tokens.length) .disjunction tokens with
    | some (expr, []) => some expr
    | _ => none

/-- Whether a condition holds; none where it cannot be read or evaluated. -/
def holds (context : Context) (text : String) (arguments : List Scalar) : Option Bool :=
  ((read text arguments).bind (Expr.eval context)).bind Value.asTruth

end Seagull.Sql
