import Seagull.Foundation.Sql

/-!
# What a condition means, by the way it is written

`Writes` says which tokens a piece of text stands for, and that all of them are fixed: names and
literals of two given lists.  `Parses` says which expression tokens are read as, whatever stands
behind them.  `Means` joins the two with the value of the expression.
-/

namespace Seagull.Sql

/-! ## Letters -/

def isDelimiter (letter : Char) : Bool :=
  letter == ' ' || letter == '(' || letter == ')' || letter == ','

theorem feed_append (mode : Mode) (front back : List Char) :
    feed mode (front ++ back) = (feed mode front).bind fun (tokens, mode) =>
      (feed mode back).map fun (others, mode) => (tokens ++ others, mode) := by
  induction front generalizing mode with
  | nil => simp [feed]
  | cons letter front ih =>
    simp only [List.cons_append, feed]
    cases step mode letter with
    | none => rfl
    | some read =>
      simp only [Option.bind_some, ih]
      cases feed read.2 front with
      | none => rfl
      | some tokens => simp [Function.comp_def]

theorem restart_between (letter : Char) : restart .between letter = start letter := by
  simp [restart, finish]

theorem step_of_delimiter {mode : Mode} {letter : Char} (delimits : isDelimiter letter = true)
    {ended : List Token} (ends : finish mode = some ended) :
    step mode letter = restart mode letter := by
  have among : letter = ' ' ∨ letter = '(' ∨ letter = ')' ∨ letter = ',' := by
    simpa [isDelimiter, or_assoc] using delimits
  cases mode with
  | between => rw [restart_between, step]
  | word letters =>
    have outside : isWordLetter letter = false := by
      rcases among with rfl | rfl | rfl | rfl <;> rfl
    simp [step, outside]
  | quoted letters => cases ends
  | order first =>
    have unequal : letter ≠ '=' := by
      rcases among with rfl | rfl | rfl | rfl <;> decide
    simp [step, unequal]

def Spells (text : String) (tokens : List Token) : Prop :=
  ∃ read mode ended, feed .between text.toList = some (read, mode) ∧ finish mode = some ended ∧
    tokens = read ++ ended

def Closes (text : String) (tokens : List Token) : Prop :=
  feed .between text.toList = some (tokens, .between)

instance (text : String) (tokens : List Token) : Decidable (Closes text tokens) :=
  decidable_of_iff ((feed .between text.toList).any fun (read, mode) =>
      read == tokens && match mode with
        | .between => true
        | _ => false) <| by
    unfold Closes
    rcases feed .between text.toList with _ | ⟨read, mode⟩
    · simp
    · cases mode <;> simp

variable {tokens : List Token}

theorem Closes.spells {text : String} (closes : Closes text tokens) : Spells text tokens :=
  ⟨tokens, .between, [], closes, rfl, (List.append_nil tokens).symm⟩

theorem Spells.lex {text : String} (spells : Spells text tokens) : lex text = some tokens := by
  obtain ⟨read, mode, ended, fed, ends, rfl⟩ := spells
  simp [Sql.lex, fed, ends]

variable {others : List Token}

theorem Closes.append {front back : String} (closes : Closes front tokens)
    (spells : Spells back others) : Spells (front ++ back) (tokens ++ others) := by
  obtain ⟨read, mode, ended, fed, ends, rfl⟩ := spells
  refine ⟨tokens ++ read, mode, ended, ?_, ends, by rw [List.append_assoc]⟩
  have first : feed .between front.toList = some (tokens, .between) := closes
  simp [feed_append, first, fed]

theorem Spells.append {front back : String} (spells : Spells front tokens)
    (starts : back.toList.head?.any isDelimiter = true) (behind : Spells back others) :
    Spells (front ++ back) (tokens ++ others) := by
  obtain ⟨read, mode, ended, fed, ends, rfl⟩ := spells
  obtain ⟨later, last, left, fed_back, ends_back, rfl⟩ := behind
  obtain ⟨letter, first, delimits⟩ := (Option.any_eq_true _ _).mp starts
  obtain ⟨letters, written⟩ := List.head?_eq_some_iff.mp first
  refine ⟨read ++ (ended ++ later), last, left, ?_, ends_back, by simp⟩
  rw [written, feed] at fed_back
  obtain ⟨⟨opened, next⟩, started, rest⟩ := Option.bind_eq_some_iff.mp fed_back
  obtain ⟨⟨tail, final⟩, fed_tail, same⟩ := Option.map_eq_some_iff.mp rest
  obtain ⟨rfl, rfl⟩ := Prod.mk.inj same
  have restarted : step mode letter = some (ended ++ opened, next) := by
    have opens : start letter = some (opened, next) := started
    rw [step_of_delimiter delimits ends, restart, ends, Option.bind_some, opens, Option.map_some]
  simp [feed_append, fed, written, feed, restarted, fed_tail]

theorem feed_word (read letters : List Char) (word : letters.all isWordLetter = true) :
    feed (.word read) letters = some ([], .word (read ++ letters)) := by
  induction letters generalizing read with
  | nil => simp [feed]
  | cons letter letters ih =>
    rw [List.all_cons, Bool.and_eq_true] at word
    simp [feed, step, word.1, ih _ word.2]

def isColumn (letters : String) : Bool :=
  letters.toList.all isWordLetter && !letters.toList.all Char.isDigit &&
    (keywordOf (letters.toList.map Char.toUpper)).isNone

variable {letters : String}

theorem ofWord_column (column : isColumn letters = true) :
    Token.ofWord letters.toList = .name letters := by
  simp only [isColumn, Bool.and_eq_true, Option.isNone_iff_eq_none, Bool.not_eq_true'] at column
  rw [Token.ofWord, column.2]
  simp only [column.1.2, Bool.false_eq_true, if_false, String.ofList_toList]

theorem spells_column (column : isColumn letters = true) :
    Spells letters [.name letters] := by
  have read := ofWord_column column
  simp only [isColumn, Bool.and_eq_true] at column
  obtain ⟨⟨word, solid⟩, -⟩ := column
  refine ⟨[], .word letters.toList, [.name letters], ?_, by rw [finish, read], rfl⟩
  cases written : letters.toList with
  | nil => simp [written] at solid
  | cons first rest =>
    rw [written, List.all_cons, Bool.and_eq_true] at word
    have apart : first ≠ ' ' := by rintro rfl; exact absurd word.1 nofun
    simp [feed, step, start, apart, word.1, feed_word _ _ word.2]

theorem count_mark_column (column : isColumn letters = true) :
    letters.toList.count '?' = 0 := by
  simp only [isColumn, Bool.and_eq_true] at column
  refine List.count_eq_zero.mpr fun member => ?_
  exact absurd (List.all_eq_true.mp column.1.1 _ member) nofun

/-! ## Placeholders -/

theorem bind_cons_of_ne {token : Token} (unmarked : token ≠ .mark) (tokens : List Token)
    (arguments : List Scalar) :
    bind (token :: tokens) arguments = (bind tokens arguments).map (token :: ·) := by
  cases token <;> first | rfl | exact absurd rfl unmarked

theorem bind_append {front back bound : List Token} {arguments more : List Scalar}
    (first : bind front arguments = some bound) (second : bind back more = some others) :
    bind (front ++ back) (arguments ++ more) = some (bound ++ others) := by
  induction front generalizing arguments bound with
  | nil =>
    cases arguments with
    | nil => simpa [← (Option.some.inj first : [] = bound)] using second
    | cons argument arguments => cases first
  | cons token front ih =>
    by_cases marked : token = .mark
    · subst marked
      cases arguments with
      | nil => cases first
      | cons argument arguments =>
        obtain ⟨rest, found, rfl⟩ := Option.map_eq_some_iff.mp first
        simp [bind, ih found]
    · rw [bind_cons_of_ne marked] at first
      obtain ⟨rest, found, rfl⟩ := Option.map_eq_some_iff.mp first
      simp [bind_cons_of_ne marked, ih found]

theorem bind_nil (unmarked : .mark ∉ tokens) : bind tokens [] = some tokens := by
  induction tokens with
  | nil => rfl
  | cons token tokens ih =>
    obtain ⟨first, rest⟩ := List.ne_and_not_mem_of_not_mem_cons unmarked
    rw [bind_cons_of_ne first.symm, ih rest, Option.map_some]

/-! ## Pieces of a text -/

/-- A token that is fixed: a name or a literal of the given ones, or a sign. -/
def Token.Fixed (names : List String) (values : List Scalar) : Token → Prop
  | .name letters => letters ∈ names
  | .value scalar => scalar ∈ values
  | _ => True

section Pieces

variable (names : List String) (values : List Scalar)

/-- A piece of text that stands for tokens, with arguments for its placeholders. -/
structure Writes (text : String) (arguments : List Scalar) (tokens : List Token) : Prop where
  spells : ∃ raw, Spells text raw ∧ bind raw arguments = some tokens ∧
    ∀ token ∈ raw, token.Fixed names values
  marks : text.toList.count '?' = arguments.length

/-- A piece of text that separates others, and takes no argument. -/
structure Separates (text : String) (tokens : List Token) : Prop where
  closes : Closes text tokens
  unmarked : .mark ∉ tokens
  fixed : ∀ token ∈ tokens, token.Fixed names values
  marks : text.toList.count '?' = 0

variable {names values}

variable {text : String} {tokens : List Token}

theorem Writes.of_spells (spells : Spells text tokens) (unmarked : .mark ∉ tokens)
    (fixed : ∀ token ∈ tokens, token.Fixed names values) (marks : text.toList.count '?' = 0) :
    Writes names values text [] tokens :=
  ⟨⟨tokens, spells, bind_nil unmarked, fixed⟩, marks⟩

theorem Separates.writes (separates : Separates names values text tokens) :
    Writes names values text [] tokens :=
  .of_spells separates.closes.spells separates.unmarked separates.fixed separates.marks

/-- A token that is neither a name, nor a literal, nor a placeholder. -/
def Token.isSign : Token → Bool
  | .name _ => false
  | .value _ => false
  | .mark => false
  | _ => true

theorem Separates.of_signs
    (signs : Closes text tokens ∧ tokens.all Token.isSign = true ∧ text.toList.count '?' = 0) :
    Separates names values text tokens := by
  obtain ⟨closes, sign, unmarked⟩ := signs
  rw [List.all_eq_true] at sign
  refine ⟨closes, fun member => absurd (sign _ member) nofun, fun token member => ?_, unmarked⟩
  have := sign token member
  cases token <;> trivial

variable {front back : String} {others : List Token} {arguments : List Scalar}

theorem Separates.append (separates : Separates names values front tokens)
    (writes : Writes names values back arguments others) :
    Writes names values (front ++ back) arguments (tokens ++ others) := by
  obtain ⟨raw, spells, bound, fixed⟩ := writes.spells
  constructor
  · refine ⟨tokens ++ raw, separates.closes.append spells, ?_, ?_⟩
    · simpa using bind_append (bind_nil separates.unmarked) bound
    · intro token member
      rcases List.mem_append.mp member with first | second
      · exact separates.fixed token first
      · exact fixed token second
  · rw [String.toList_append, List.count_append, separates.marks, writes.marks, Nat.zero_add]

theorem Writes.append {more : List Scalar} (writes : Writes names values front arguments tokens)
    (starts : back.toList.head?.any isDelimiter = true)
    (behind : Writes names values back more others) :
    Writes names values (front ++ back) (arguments ++ more) (tokens ++ others) := by
  obtain ⟨raw, spells, bound, fixed⟩ := writes.spells
  obtain ⟨later, spells_back, bound_back, fixed_back⟩ := behind.spells
  constructor
  · refine ⟨raw ++ later, spells.append starts spells_back, bind_append bound bound_back, ?_⟩
    intro token member
    rcases List.mem_append.mp member with first | second
    · exact fixed token first
    · exact fixed_back token second
  · rw [String.toList_append, List.count_append, writes.marks, behind.marks, List.length_append]

theorem Writes.join {separator : String} {between : List Token} {more : List Scalar}
    (writes : Writes names values front arguments tokens)
    (separates : Separates names values separator between)
    (starts : separator.toList.head?.any isDelimiter = true)
    (behind : Writes names values back more others) :
    Writes names values (front ++ separator ++ back) (arguments ++ more)
      (tokens ++ (between ++ others)) := by
  rw [String.append_assoc]
  refine writes.append ?_ (separates.append behind)
  obtain ⟨letter, first, delimits⟩ := (Option.any_eq_true _ _).mp starts
  obtain ⟨letters, written⟩ := List.head?_eq_some_iff.mp first
  simp [written, delimits]

end Pieces

/-! ## Expressions -/

/-- How far a level is from the one that binds least. -/
def Level.depth : Level → ℕ
  | .disjunction => 0
  | .conjunction => 1
  | .negation => 2
  | .comparison => 3
  | .operand => 4

/-- Tokens behind an expression that are no part of it. -/
def stops (level : Level) : List Token → Bool
  | [] => true
  | .closing :: _ => true
  | .comma :: _ => true
  | .or :: _ => decide (0 < level.depth)
  | .and :: _ => decide (1 < level.depth)
  | .compare _ :: _ => decide (3 < level.depth)
  | .oneOf :: _ => decide (3 < level.depth)
  | _ => false

/-- Tokens are read as an expression, whatever stands behind them. -/
def Parses (level : Level) (tokens : List Token) (expr : Expr) : Prop :=
  ∀ fuel rest, 5 * tokens.length ≤ fuel + level.depth → stops level rest = true →
    parse fuel level (tokens ++ rest) = some (expr, rest)

/-- Tokens are read as expressions between commas, up to a parenthesis. -/
def ParsesList (tokens : List Token) (items : List Expr) : Prop :=
  ∀ fuel rest, 5 * tokens.length < fuel →
    parseList fuel (tokens ++ .closing :: rest) = some (items, rest)

theorem stops_mono {level deeper : Level} (below : level.depth ≤ deeper.depth) {rest : List Token}
    (stopped : stops level rest = true) : stops deeper rest = true := by
  unfold stops at *
  split at stopped <;> simp_all <;> omega

def Level.next : Level → Level
  | .disjunction => .conjunction
  | .conjunction => .negation
  | .negation => .comparison
  | _ => .operand

section Options

variable {α β : Type} {found : Option α} {item : α} {result : β}

theorem bind_eq_some {next : α → Option β} (first : found = some item)
    (second : next item = some result) : found.bind next = some result :=
  Option.bind_eq_some_iff.mpr ⟨item, first, second⟩

theorem map_eq_some {next : α → β} (first : found = some item) (second : next item = result) :
    found.map next = some result :=
  Option.map_eq_some_iff.mpr ⟨item, first, second⟩

end Options

theorem parse_alone {level : Level} (inner : level ≠ .operand) {fuel : ℕ} {rest : List Token}
    {expr : Expr} (read : parse fuel level.next tokens = some (expr, rest))
    (stopped : stops level rest = true) : parse (fuel + 1) level tokens = some (expr, rest) := by
  cases level with
  | operand => exact absurd rfl inner
  | negation =>
    cases tokens with
    | nil => exact read
    | cons token others =>
      cases token with
      | not =>
        -- no comparison starts with a negation
        obtain _ | _ | fuel := fuel <;> cases read
      | _ => exact read
  | _ =>
    refine bind_eq_some read ?_
    cases rest with
    | nil => rfl
    | cons token rest => cases token <;> first | rfl | simp [stops, Level.depth] at stopped

namespace Parses

variable {level : Level} {tokens others : List Token} {expr left right : Expr} {items : List Expr}

theorem tokens_ne_nil (parses : Parses level tokens expr) : tokens ≠ [] := by
  rintro rfl
  cases parses 0 [] (by simp) rfl

theorem of_succ (some_token : tokens ≠ [])
    (read : ∀ fuel rest, 5 * tokens.length ≤ fuel + 1 + level.depth → stops level rest = true →
      parse (fuel + 1) level (tokens ++ rest) = some (expr, rest)) : Parses level tokens expr := by
  intro fuel rest enough stopped
  obtain _ | fuel := fuel
  · have := List.length_pos_iff.mpr some_token
    have : level.depth ≤ 4 := by cases level <;> decide
    omega
  · exact read fuel rest enough stopped

theorem alone (inner : level ≠ .operand) (parses : Parses level.next tokens expr) :
    Parses level tokens expr := by
  refine of_succ parses.tokens_ne_nil fun fuel rest enough stopped => ?_
  have deeper : level.next.depth = level.depth + 1 := by
    cases level <;> first | rfl | exact absurd rfl inner
  exact parse_alone inner (parses fuel rest (by omega) (stops_mono (by omega) stopped)) stopped

theorem or (first : Parses .conjunction tokens left) (second : Parses .disjunction others right) :
    Parses .disjunction (tokens ++ .or :: others) (.or left right) := by
  refine of_succ (by simp) fun fuel rest enough stopped => ?_
  simp only [List.length_append, List.length_cons, Level.depth] at enough
  have read := first fuel (.or :: (others ++ rest)) (by simp only [Level.depth]; omega) rfl
  have behind := second fuel rest (by simp only [Level.depth]; omega) stopped
  rw [List.append_assoc]
  exact bind_eq_some read (map_eq_some behind rfl)

theorem and (first : Parses .negation tokens left) (second : Parses .conjunction others right) :
    Parses .conjunction (tokens ++ .and :: others) (.and left right) := by
  refine of_succ (by simp) fun fuel rest enough stopped => ?_
  simp only [List.length_append, List.length_cons, Level.depth] at enough
  have read := first fuel (.and :: (others ++ rest)) (by simp only [Level.depth]; omega) rfl
  have behind := second fuel rest (by simp only [Level.depth]; omega) stopped
  rw [List.append_assoc]
  exact bind_eq_some read (map_eq_some behind rfl)

theorem not (parses : Parses .negation tokens expr) :
    Parses .negation (.not :: tokens) (.not expr) := by
  refine of_succ (by simp) fun fuel rest enough stopped => ?_
  simp only [List.length_cons, Level.depth] at enough
  have read := parses fuel rest (by simp only [Level.depth]; omega) stopped
  exact map_eq_some read rfl

theorem compare (first : Parses .operand tokens left) (comparison : Comparison)
    (second : Parses .operand others right) :
    Parses .comparison (tokens ++ .compare comparison :: others)
      (.compare comparison left right) := by
  refine of_succ (by simp) fun fuel rest enough stopped => ?_
  simp only [List.length_append, List.length_cons, Level.depth] at enough
  have read := first fuel (.compare comparison :: (others ++ rest))
    (by simp only [Level.depth]; omega) rfl
  have behind := second fuel rest (by simp only [Level.depth]; omega)
    (stops_mono (by decide) stopped)
  rw [List.append_assoc]
  exact bind_eq_some read (map_eq_some behind rfl)

theorem oneOf (parses : Parses .operand tokens expr) (listed : ParsesList others items) :
    Parses .comparison (tokens ++ .oneOf :: .opening :: (others ++ [.closing]))
      (.oneOf expr items) := by
  refine of_succ (by simp) fun fuel rest enough stopped => ?_
  simp only [List.length_append, List.length_cons, List.length_nil, Level.depth] at enough
  have read := parses fuel (.oneOf :: .opening :: (others ++ .closing :: rest))
    (by simp only [Level.depth]; omega) rfl
  have behind := listed fuel rest (by omega)
  simp only [List.append_assoc, List.cons_append, List.nil_append]
  exact bind_eq_some read (map_eq_some behind rfl)

theorem value (scalar : Scalar) : Parses .operand [.value scalar] (.value scalar) :=
  of_succ (by simp) fun _ _ _ _ => rfl

theorem column (letters : String) : Parses .operand [.name letters] (.column letters) := by
  refine of_succ (by simp) fun fuel rest _ stopped => ?_
  cases rest with
  | nil => rfl
  | cons token rest =>
    cases token with
    | opening => simp [stops] at stopped
    | _ => rfl

theorem bracketed (front : List Token) (listed : ParsesList others items)
    (read : ∀ fuel behind rest, parseList fuel behind = some (items, rest) →
      parse (fuel + 1) .operand (front ++ .opening :: behind) = some (expr, rest)) :
    Parses .operand (front ++ .opening :: (others ++ [.closing])) expr := by
  refine of_succ (by simp) fun fuel rest enough _ => ?_
  simp only [List.length_append, List.length_cons, List.length_nil, Level.depth] at enough
  simp only [List.append_assoc, List.cons_append, List.nil_append]
  exact read fuel _ rest (listed fuel rest (by omega))

theorem call (letters : String) (listed : ParsesList others items) :
    Parses .operand (.name letters :: .opening :: (others ++ [.closing]))
      (.call letters items) :=
  bracketed [.name letters] listed fun _ _ _ behind => map_eq_some behind rfl

theorem group (listed : ParsesList others [expr]) :
    Parses .operand (.opening :: (others ++ [.closing])) expr :=
  bracketed [] listed fun _ _ _ behind => map_eq_some behind rfl

theorem tuple (listed : ParsesList others (left :: right :: items)) :
    Parses .operand (.opening :: (others ++ [.closing])) (.tuple (left :: right :: items)) :=
  bracketed [] listed fun _ _ _ behind => map_eq_some behind rfl

theorem single (parses : Parses .disjunction tokens expr) : ParsesList tokens [expr] := by
  intro fuel rest enough
  obtain _ | fuel := fuel
  · omega
  · have read := parses fuel (.closing :: rest) (by simp only [Level.depth]; omega) rfl
    exact bind_eq_some read rfl

theorem cons (parses : Parses .disjunction tokens expr) (listed : ParsesList others items) :
    ParsesList (tokens ++ .comma :: others) (expr :: items) := by
  intro fuel rest enough
  simp only [List.length_append, List.length_cons] at enough
  obtain _ | fuel := fuel
  · omega
  · have read := parses fuel (.comma :: (others ++ .closing :: rest))
      (by simp only [Level.depth]; omega) rfl
    have behind := listed fuel rest (by omega)
    rw [List.append_assoc]
    exact bind_eq_some read (map_eq_some behind rfl)

end Parses

/-! ## Meaning -/

section Meaning

variable (names : List String) (values : List Scalar) (context : Context)

def Means (level : Level) (text : String) (arguments : List Scalar) (value : Value) : Prop :=
  ∃ tokens expr, Writes names values text arguments tokens ∧ Parses level tokens expr ∧
    expr.eval context = some value

/-- A text of expressions between commas, which have values. -/
def MeansList (text : String) (arguments : List Scalar) (items : List Value) : Prop :=
  ∃ tokens exprs, Writes names values text arguments tokens ∧ ParsesList tokens exprs ∧
    Expr.evalAll context exprs = some items

variable {names values context} {level : Level} {text other : String}
variable {arguments more : List Scalar}

theorem Writes.holds {tokens : List Token} {expr : Expr}
    (writes : Writes names values text arguments tokens) (parses : Parses .disjunction tokens expr) :
    Sql.holds context text arguments = (expr.eval context).bind Value.asTruth := by
  obtain ⟨raw, spells, bound, -⟩ := writes.spells
  have parsed := parses (5 * tokens.length) [] (by simp [Level.depth]) rfl
  rw [List.append_nil] at parsed
  simp [Sql.holds, read, spells.lex, bound, parsed]

theorem Means.holds {holds : Bool}
    (means : Means names values context .disjunction text arguments (.truth holds)) :
    Sql.holds context text arguments = some holds := by
  obtain ⟨tokens, expr, writes, parses, evaluated⟩ := means
  simp [writes.holds parses, evaluated, Value.truth, Value.asTruth]

variable {value : Value}

theorem Means.fixed (means : Means names values context level text arguments value) :
    ∃ raw, lex text = some raw ∧ ∀ token ∈ raw, token.Fixed names values := by
  obtain ⟨tokens, expr, writes, -, -⟩ := means
  obtain ⟨raw, spells, -, fixed⟩ := writes.spells
  exact ⟨raw, spells.lex, fixed⟩

theorem Means.marks (means : Means names values context level text arguments value) :
    text.toList.count '?' = arguments.length := by
  obtain ⟨tokens, expr, writes, -, -⟩ := means
  exact writes.marks

theorem Means.alone (inner : level ≠ .operand)
    (means : Means names values context level.next text arguments value) :
    Means names values context level text arguments value := by
  obtain ⟨tokens, expr, writes, parses, evaluated⟩ := means
  exact ⟨tokens, expr, writes, parses.alone inner, evaluated⟩

theorem bind_asTruth {value : Option Value} {holds : Bool} (evaluated : value = some (.truth holds)) :
    value.bind Value.asTruth = some holds := by
  rw [evaluated]
  rfl

theorem Means.or {holds holds' : Bool}
    (first : Means names values context .conjunction text arguments (.truth holds))
    (second : Means names values context .disjunction other more (.truth holds')) :
    Means names values context .disjunction (text ++ " OR " ++ other) (arguments ++ more)
      (.truth (holds || holds')) := by
  obtain ⟨tokens, left, writes, parses, evaluated⟩ := first
  obtain ⟨others, right, writes', parses', evaluated'⟩ := second
  have sign : Separates names values " OR " [.or] := .of_signs (by decide)
  refine ⟨_, _, writes.join sign (by decide) writes', parses.or parses', ?_⟩
  exact bind_eq_some (bind_asTruth evaluated) (map_eq_some (bind_asTruth evaluated') rfl)

theorem Means.and {holds holds' : Bool}
    (first : Means names values context .negation text arguments (.truth holds))
    (second : Means names values context .conjunction other more (.truth holds')) :
    Means names values context .conjunction (text ++ " AND " ++ other) (arguments ++ more)
      (.truth (holds && holds')) := by
  obtain ⟨tokens, left, writes, parses, evaluated⟩ := first
  obtain ⟨others, right, writes', parses', evaluated'⟩ := second
  have sign : Separates names values " AND " [.and] := .of_signs (by decide)
  refine ⟨_, _, writes.join sign (by decide) writes', parses.and parses', ?_⟩
  exact bind_eq_some (bind_asTruth evaluated) (map_eq_some (bind_asTruth evaluated') rfl)

theorem Means.not {holds : Bool}
    (means : Means names values context .negation text arguments (.truth holds)) :
    Means names values context .negation ("NOT " ++ text) arguments (.truth !holds) := by
  obtain ⟨tokens, expr, writes, parses, evaluated⟩ := means
  have sign : Separates names values "NOT " [.not] := .of_signs (by decide)
  refine ⟨_, _, sign.append writes, parses.not, ?_⟩
  exact map_eq_some (bind_asTruth evaluated) rfl

/-- A text that is the sign of a comparison and nothing else. -/
abbrev Signs (sign : String) (comparison : Comparison) : Prop :=
  Closes sign [.compare comparison] ∧ sign.toList.count '?' = 0 ∧
    sign.toList.head?.any isDelimiter = true

theorem Means.compare (comparison : Comparison) {held held' : Value} {holds : Bool} {sign : String}
    (first : Means names values context .operand text arguments held)
    (second : Means names values context .operand other more held')
    (signs : Signs sign comparison)
    (compared : comparison.apply held held' = some holds) :
    Means names values context .comparison (text ++ sign ++ other) (arguments ++ more)
      (.truth holds) := by
  obtain ⟨tokens, left, writes, parses, evaluated⟩ := first
  obtain ⟨others, right, writes', parses', evaluated'⟩ := second
  have separates : Separates names values sign [.compare comparison] :=
    .of_signs ⟨signs.1, rfl, signs.2.1⟩
  refine ⟨_, _, writes.join separates signs.2.2 writes', parses.compare comparison parses', ?_⟩
  exact bind_eq_some evaluated (bind_eq_some evaluated' (map_eq_some compared rfl))

theorem Writes.name (column : isColumn letters = true) (named : letters ∈ names) :
    Writes names values letters [] [.name letters] := by
  refine .of_spells (spells_column column) (by simp) ?_ (count_mark_column column)
  intro token member
  rw [List.mem_singleton.mp member]
  exact named

theorem Means.column {held : Value} (column : isColumn letters = true) (named : letters ∈ names)
    (found : context.column letters = some held) :
    Means names values context .operand letters [] held :=
  ⟨_, _, .name column named, .column letters, found⟩

theorem Writes.mark (argument : Scalar) : Writes names values "?" [argument] [.value argument] :=
  ⟨⟨[.mark], Closes.spells (by decide), rfl, by simp [Token.Fixed]⟩, rfl⟩

theorem Means.mark (argument : Scalar) :
    Means names values context .operand "?" [argument] (.one argument) :=
  ⟨_, _, .mark argument, .value argument, rfl⟩

theorem Means.literal {scalar : Scalar} (spells : Spells text [.value scalar])
    (given : scalar ∈ values) (marks : text.toList.count '?' = 0) :
    Means names values context .operand text [] (.one scalar) := by
  refine ⟨_, _, .of_spells spells (by simp) ?_ marks, .value scalar, rfl⟩
  intro token member
  rw [List.mem_singleton.mp member]
  exact given

/-! ## Lists -/

theorem MeansList.one (means : Means names values context .disjunction text arguments value) :
    MeansList names values context text arguments [value] := by
  obtain ⟨tokens, expr, writes, parses, evaluated⟩ := means
  exact ⟨tokens, [expr], writes, parses.single, bind_eq_some evaluated rfl⟩

theorem MeansList.cons {items : List Value}
    (means : Means names values context .disjunction text arguments value)
    (listed : MeansList names values context other more items) :
    MeansList names values context (text ++ ", " ++ other) (arguments ++ more) (value :: items) := by
  obtain ⟨tokens, expr, writes, parses, evaluated⟩ := means
  obtain ⟨others, exprs, writes', parses', evaluated'⟩ := listed
  have sign : Separates names values ", " [.comma] := .of_signs (by decide)
  exact ⟨_, _, writes.join sign (by decide) writes', parses.cons parses',
    bind_eq_some evaluated (map_eq_some evaluated' rfl)⟩

theorem Parses.whole {tokens : List Token} {expr : Expr} (parses : Parses .operand tokens expr) :
    Parses .disjunction tokens expr :=
  .alone nofun (.alone nofun (.alone nofun (.alone nofun parses)))

theorem Means.whole (means : Means names values context .operand text arguments value) :
    Means names values context .disjunction text arguments value := by
  obtain ⟨tokens, expr, writes, parses, evaluated⟩ := means
  exact ⟨tokens, expr, writes, parses.whole, evaluated⟩

theorem Means.term (means : Means names values context .operand text arguments value) :
    Means names values context .negation text arguments value :=
  .alone nofun (.alone nofun means)

theorem MeansList.marks (argument : Scalar) (arguments : List Scalar) :
    MeansList names values context
      (String.intercalate ", " (List.replicate (arguments.length + 1) "?"))
      (argument :: arguments) ((argument :: arguments).map Value.one) := by
  induction arguments generalizing argument with
  | nil => exact .one (Means.mark argument).whole
  | cons next arguments ih =>
    rw [List.length_cons, List.replicate_succ, List.replicate_succ, String.intercalate_cons_cons,
      ← List.replicate_succ]
    exact .cons (Means.mark argument).whole (ih next)

theorem Writes.parenthesized {tokens : List Token}
    (writes : Writes names values text arguments tokens) :
    Writes names values ("(" ++ text ++ ")") arguments (.opening :: (tokens ++ [.closing])) := by
  have opening : Separates names values "(" [.opening] := .of_signs (by decide)
  have closing : Separates names values ")" [.closing] := .of_signs (by decide)
  rw [String.append_assoc]
  simpa using opening.append (writes.append (by decide) closing.writes)

theorem Means.group (means : Means names values context .disjunction text arguments value) :
    Means names values context .operand ("(" ++ text ++ ")") arguments value := by
  obtain ⟨tokens, expr, writes, parses, evaluated⟩ := means
  exact ⟨_, expr, writes.parenthesized, .group parses.single, evaluated⟩

theorem mapM_asOne (scalars : List Scalar) :
    (scalars.map Value.one).mapM Value.asOne = some scalars := by
  induction scalars with
  | nil => rfl
  | cons scalar scalars ih => simp [Value.asOne, ih]

theorem Means.tuple {first second : Scalar} {items : List Scalar}
    (listed : MeansList names values context text arguments
      ((first :: second :: items).map Value.one)) :
    Means names values context .operand ("(" ++ text ++ ")") arguments
      (.tuple (first :: second :: items)) := by
  obtain ⟨tokens, exprs, writes, parses, evaluated⟩ := listed
  match exprs with
  | [] => cases evaluated
  | [expr] => obtain ⟨_, -, ⟨⟩⟩ := Option.bind_eq_some_iff.mp evaluated
  | left :: right :: exprs =>
    exact ⟨_, _, writes.parenthesized, .tuple parses,
      map_eq_some (bind_eq_some evaluated (mapM_asOne _)) rfl⟩

theorem Means.oneOf {held : Scalar} {items : List Scalar} {holds : Bool}
    (means : Means names values context .operand text arguments (.one held))
    (listed : MeansList names values context other more (items.map Value.one))
    (found : held.among items = some holds) :
    Means names values context .comparison (text ++ " IN (" ++ other ++ ")") (arguments ++ more)
      (.truth holds) := by
  obtain ⟨tokens, expr, writes, parses, evaluated⟩ := means
  obtain ⟨others, exprs, writes', parses', evaluated'⟩ := listed
  have sign : Separates names values " IN " [.oneOf] := .of_signs (by decide)
  have written : text ++ " IN (" ++ other ++ ")" = text ++ " IN " ++ ("(" ++ other ++ ")") := by
    simp [← String.toList_inj]
  rw [written]
  refine ⟨_, _, writes.join sign (by decide) writes'.parenthesized, parses.oneOf parses', ?_⟩
  exact bind_eq_some (bind_eq_some evaluated rfl)
    (bind_eq_some (bind_eq_some evaluated' (mapM_asOne _)) (map_eq_some found rfl))

theorem Means.call {items : List Value} (column : isColumn letters = true) (named : letters ∈ names)
    (listed : MeansList names values context other more items)
    (called : context.call letters items = some value) :
    Means names values context .operand (letters ++ "(" ++ other ++ ")") more value := by
  obtain ⟨others, exprs, writes, parses, evaluated⟩ := listed
  have word : Writes names values letters [] [.name letters] := .name column named
  have written : letters ++ "(" ++ other ++ ")" = letters ++ ("(" ++ other ++ ")") := by
    simp [← String.toList_inj]
  rw [written]
  exact ⟨_, _, word.append (by simp [isDelimiter]) writes.parenthesized, .call letters parses,
    bind_eq_some evaluated called⟩

/-! ## Several conditions -/

/-- A part of a condition: its text, its arguments, and whether it holds. -/
structure Part where
  text : String
  arguments : List Scalar
  holds : Bool

theorem Means.every {parts : List Part} (some_part : parts ≠ [])
    (means : ∀ part ∈ parts,
      Means names values context .negation part.text part.arguments (.truth part.holds)) :
    Means names values context .conjunction (String.intercalate " AND " (parts.map Part.text))
      (parts.flatMap Part.arguments) (.truth (parts.all Part.holds)) := by
  induction parts with
  | nil => exact absurd rfl some_part
  | cons part parts ih =>
    have first := means part List.mem_cons_self
    cases parts with
    | nil => simpa using first.alone (by decide)
    | cons next parts =>
      have rest := ih (List.cons_ne_nil next parts)
        fun other member => means other (List.mem_cons_of_mem part member)
      rw [List.map_cons, List.map_cons, String.intercalate_cons_cons, ← List.map_cons,
        List.flatMap_cons, List.all_cons]
      exact first.and rest

theorem Means.some {parts : List Part} (some_part : parts ≠ [])
    (means : ∀ part ∈ parts,
      Means names values context .conjunction part.text part.arguments (.truth part.holds)) :
    Means names values context .disjunction (String.intercalate " OR " (parts.map Part.text))
      (parts.flatMap Part.arguments) (.truth (parts.any Part.holds)) := by
  induction parts with
  | nil => exact absurd rfl some_part
  | cons part parts ih =>
    have first := means part List.mem_cons_self
    cases parts with
    | nil => simpa using first.alone (by decide)
    | cons next parts =>
      have rest := ih (List.cons_ne_nil next parts)
        fun other member => means other (List.mem_cons_of_mem part member)
      rw [List.map_cons, List.map_cons, String.intercalate_cons_cons, ← List.map_cons,
        List.flatMap_cons, List.any_cons]
      exact first.or rest

end Meaning

end Seagull.Sql
