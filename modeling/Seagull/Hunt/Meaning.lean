import Seagull.Hunt.Statement

/-!
# A statement asks what the question asked

What a question means is said of a row without its statement.  The condition of the statement, read
as the store reads it, is true of exactly the rows the question means.  This is shown along the
text: every piece is read at a level of precedence, and the pieces are put together by the rules of
the text.
-/

namespace Seagull.Hunt

open Sql (Scalar Means MeansList)

/-! ## Rows -/

/-- The functions of a store, and what is assumed of those a condition calls. -/
structure Functions where
  call : String → List Sql.Value → Option Sql.Value
  /-- The place of a text in another, counted from one; zero where it has none. -/
  position : ∀ held part, ∃ place : ℕ,
    call "position" [.one (.text held), .one (.text part)] = some (.one (.number (.finite place))) ∧
      (0 < place ↔ Text.bytes part <:+: Text.bytes held)
  startsWith : ∀ held start, call "startsWith" [.one (.text held), .one (.text start)] =
    some (.truth (Text.bytes start <+: Text.bytes held))
  endsWith : ∀ held ending, call "endsWith" [.one (.text held), .one (.text ending)] =
    some (.truth (Text.bytes ending <:+ Text.bytes held))
  /-- A list is asked only for what is of the kind of its items. -/
  has : ∀ items item, call "has" [.list items, .one item] = (item.among items).map .truth
  notEmpty : ∀ items, call "notEmpty" [.list items] = some (.truth !items.isEmpty)
  fromMillis : ∀ millis : ℤ, call "fromUnixTimestamp64Milli"
    [.one (.number (.finite millis)), .one (.text "UTC")] = some (.one (.instant millis))

/-- A value is of a kind. -/
def ofKind : Kind → Scalar → Bool
  | .text, .text _ => true
  | .choice, .text _ => true
  | .number, .number _ => true
  | .truth, .truth _ => true
  | .instant, .instant _ => true
  | _, _ => false

/-- A column holds what the contract says of its field. -/
def Fits (held : Held) : Sql.Value → Prop
  | .one scalar => held.repeated = false ∧ ofKind held.kind scalar = true
  | .list items => held.repeated = true ∧ ∀ item ∈ items, ofKind held.kind item = true
  | .tuple _ => False

/-- A row of the table of a dataset: every declared field is kept as what it is. -/
structure StoredRow (vocabulary : Vocabulary) (dataset : Dataset) where
  functions : Functions
  column : String → Option Sql.Value
  tenant : String
  instant : ℤ
  names : List String
  tenant_kept : column "tenant_id" = some (.one (.text tenant))
  instant_kept : column (huntTables dataset).instant = some (.one (.instant instant))
  names_kept : (huntTables dataset).names.map column =
    names.map fun name => some (.one (.text name))
  keeps : ∀ field held kept, lookup vocabulary dataset field = some held →
    columnOf dataset field = some kept → ∃ value, column kept = some value ∧ Fits held value

/-! ## What a question means -/

/-- The value a literal stands for.  Instants are compared by the millisecond. -/
def meant : Value → Scalar
  | .instant moment => .instant (unixMilli moment)
  | value => bindOne value

def same (held value : Scalar) : Bool := (held.equal value).getD false

def under (held value : Scalar) : Bool := (held.less value).getD false

def related (relation : List UInt8 → List UInt8 → Bool) : Scalar → Scalar → Bool
  | .text held, .text value => relation (Text.bytes value) (Text.bytes held)
  | _, _ => false

def Operator.holds : Operator → Scalar → Scalar → Bool
  | .equals, held, value => same held value
  | .oneOf, held, value => same held value
  | .contains, held, value => related (fun part whole => part <:+: whole) held value
  | .startsWith, held, value => related (fun part whole => part <+: whole) held value
  | .endsWith, held, value => related (fun part whole => part <:+ whole) held value
  | .above, held, value => under value held
  | .atLeast, held, value => under value held || same held value
  | .below, held, value => under held value
  | .atMost, held, value => under held value || same held value
  | .present, _, _ => false

/-- A field carries something: its value is not the zero of its kind. -/
def isThere : Scalar → Bool
  | .text held => held != ""
  | .number held => !held.equal (.finite 0)
  | .truth held => held
  | .instant held => held != 0

/-- A column carries something: a list that is not empty, or a field that does. -/
def isFilled : Sql.Value → Bool
  | .one held => isThere held
  | .list items => !items.isEmpty
  | .tuple _ => false

/-- What an operator says of a column and one literal.  A list is asked for the value. -/
def Operator.answers : Operator → Sql.Value → Scalar → Bool
  | operator, .one held, value => operator.holds held value
  | _, .list items, value => items.any (same value)
  | _, .tuple _, _ => false

section Meaning

variable {vocabulary : Vocabulary} {dataset : Dataset} (row : StoredRow vocabulary dataset)

def Predicate.holds (asked : Predicate) : Bool :=
  match (columnOf dataset asked.field).bind row.column with
  | none => false
  | some held =>
    if asked.operator = .present then isFilled held
    else asked.values.any fun value => asked.operator.answers held (meant value)

mutual

def Expression.holds : Expression → Bool
  | .predicate asked => asked.holds row
  | .all terms => Expression.holdsAll terms
  | .any terms => Expression.holdsAny terms
  | .not term => !Expression.holds term

def Expression.holdsAll : List Expression → Bool
  | [] => true
  | term :: terms => Expression.holds term && Expression.holdsAll terms

def Expression.holdsAny : List Expression → Bool
  | [] => false
  | term :: terms => Expression.holds term || Expression.holdsAny terms

end

def namesBelow : List String → List String → Bool
  | [], [] => false
  | name :: names, other :: others =>
    decide (name < other) || name == other && namesBelow names others
  | _, _ => false

def isBehind (after : After) : Bool :=
  decide (row.instant < unixMilli after.time) ||
    row.instant == unixMilli after.time && namesBelow row.names after.names

/-- What a compiled question selects. -/
def Query.selects (query : Query) (row : StoredRow vocabulary query.dataset) : Prop :=
  row.tenant ∈ query.scope.tenants ∧
    (unixMilli query.window.start ≤ row.instant ∧ row.instant < unixMilli query.window.stop) ∧
    (∀ after, query.after = some after → isBehind row after = true) ∧
    ∀ filter, query.filter = some filter → filter.holds row = true

end Meaning

/-! ## What was asked -/

section Asked

open Contract

/-- What an operator of the contract says of what a field holds and a literal. -/
def relates : HuntV1.Operator → Scalar → Scalar → Bool
  | .equals, held, value | .oneOf, held, value => same held value
  | .contains, held, value => related (fun part whole => part <:+: whole) held value
  | .startsWith, held, value => related (fun part whole => part <+: whole) held value
  | .endsWith, held, value => related (fun part whole => part <:+ whole) held value
  | .above, held, value => under value held
  | .atLeast, held, value => under value held || same held value
  | .below, held, value => under held value
  | .atMost, held, value => under held value || same held value
  | .present, _, _ | .unspecified, _, _ | .undeclared _, _, _ => false

variable {vocabulary : Vocabulary} {dataset : Dataset} (platform : Platform)
  (row : StoredRow vocabulary dataset)

/-- What a predicate asks: that its column carries something, or that what it holds, or an item of
it, is related to one of the literals, each read as what the field holds. -/
def AsksOne (asked : HuntV1.Predicate) : Prop :=
  ∃ kept, (columnOf dataset asked.field).bind row.column = some kept ∧
    (asked.operator = .present ∧ isFilled kept = true ∨
      ∃ held value, lookup vocabulary dataset asked.field = some held ∧
        (∃ written ∈ asked.values, literal platform held written = .ok value) ∧
        match kept with
        | .one scalar => relates asked.operator scalar (meant value) = true
        | .list items => asked.operator ≠ .present ∧ ∃ item ∈ items, same (meant value) item = true
        | .tuple _ => False)

mutual

/-- What a term asks of a row.  Nothing asked is asked of every row. -/
def Asks : HuntV1.Expression → Prop
  | .absent | .formless => True
  | .predicate asked => AsksOne platform row asked
  | .all terms => AsksAll terms
  | .any terms => AsksAny terms
  | .negated term => ¬ Asks term

def AsksAll : List HuntV1.Expression → Prop
  | [] => True
  | term :: terms => Asks term ∧ AsksAll terms

def AsksAny : List HuntV1.Expression → Prop
  | [] => False
  | term :: terms => Asks term ∨ AsksAny terms

end

/-- The rows a question is to read: those of the scope and of the window, below the position it goes
on from, that the filter asks for. -/
def Wanted (scope : Scope) (asked : HuntV1.Query) (after : Option After) : Prop :=
  row.tenant ∈ scope.tenants ∧
    (∃ start stop, asked.range = some ⟨some start, some stop⟩ ∧
      unixMilli (timeOf start) ≤ row.instant ∧ row.instant < unixMilli (timeOf stop)) ∧
    (∀ position, after = some position → isBehind row position = true) ∧
    Asks platform row asked.filter

variable {platform}

theorem predicate_holds_iff {asked : HuntV1.Predicate} {budget left : ℤ} {compiled : Predicate}
    (built : predicate platform vocabulary dataset asked budget = .ok (compiled, left)) :
    compiled.holds row = true ↔ AsksOne platform row asked := by
  obtain ⟨held, operator, values, rfl, named, read, accepted⟩ := predicate_eq_ok built
  have declared : lookup vocabulary dataset asked.field = some held := accepted.declared
  have among := (read_of_literals read).2
  have related : ∀ scalar value, relates asked.operator scalar value =
      operator.holds scalar value := by
    intro scalar value
    cases wire : asked.operator <;> rw [wire] at named <;> cases named <;> rfl
  have presence : asked.operator = .present ↔ operator = .present := by
    cases wire : asked.operator <;> rw [wire] at named <;> cases named <;> simp
  unfold Predicate.holds AsksOne
  cases kept : (columnOf dataset asked.field).bind row.column with
  | none => simp
  | some stored =>
    simp only [Option.some.injEq, exists_eq_left', declared, related, presence]
    by_cases present : operator = .present
    · cases stored <;> simp [present, presence, Operator.holds]
    · cases stored <;> simp [present, presence, among, Operator.answers]

mutual

theorem expression_holds_iff (asked : HuntV1.Expression) {depth : ℕ} {budget left : ℤ}
    {compiled : Option Expression}
    (built : expression platform vocabulary dataset asked depth budget = .ok (compiled, left)) :
    (∀ term, compiled = some term → term.holds row = true) ↔ Asks platform row asked := by
  cases asked with
  | absent =>
    obtain ⟨rfl, -⟩ : none = compiled ∧ budget = left := by simpa [expression] using built
    simp [Asks]
  | formless => simp [expression, checked_eq_ok] at built
  | predicate asked =>
    obtain ⟨-, built⟩ := passes_eq_ok.mp built
    obtain ⟨⟨compiled', left'⟩, found, built⟩ := checked_eq_ok.mp built
    obtain ⟨rfl, -⟩ := Prod.mk.inj (Except.ok.inj built)
    simp [Asks, Expression.holds, predicate_holds_iff row found]
  | all terms =>
    obtain ⟨-, built⟩ := passes_eq_ok.mp built
    obtain ⟨-, built⟩ := passes_eq_ok.mp built
    obtain ⟨⟨compiled', left'⟩, found, built⟩ := checked_eq_ok.mp built
    obtain ⟨rfl, -⟩ := Prod.mk.inj (Except.ok.inj built)
    simp [Asks, Expression.holds, (group_holds_iff terms found).1]
  | any terms =>
    obtain ⟨-, built⟩ := passes_eq_ok.mp built
    obtain ⟨-, built⟩ := passes_eq_ok.mp built
    obtain ⟨⟨compiled', left'⟩, found, built⟩ := checked_eq_ok.mp built
    obtain ⟨rfl, -⟩ := Prod.mk.inj (Except.ok.inj built)
    simp [Asks, Expression.holds, (group_holds_iff terms found).2]
  | negated term =>
    obtain ⟨-, built⟩ := passes_eq_ok.mp built
    obtain ⟨⟨compiled', left'⟩, found, built⟩ := checked_eq_ok.mp built
    obtain ⟨said', told, finished⟩ := checked_eq_ok.mp built
    obtain ⟨rfl, -⟩ := Prod.mk.inj (Except.ok.inj finished)
    have inner := expression_holds_iff term found
    rw [said_eq_ok.mp told] at inner
    simp [Asks, Expression.holds, ← inner]

theorem group_holds_iff (asked : List HuntV1.Expression) {depth : ℕ} {budget left : ℤ}
    {compiled : List Expression}
    (built : group platform vocabulary dataset asked depth budget = .ok (compiled, left)) :
    (Expression.holdsAll row compiled = true ↔ AsksAll platform row asked) ∧
      (Expression.holdsAny row compiled = true ↔ AsksAny platform row asked) := by
  cases asked with
  | nil =>
    obtain ⟨rfl, -⟩ : [] = compiled ∧ budget = left := by simpa [group] using built
    simp [Expression.holdsAll, Expression.holdsAny, AsksAll, AsksAny]
  | cons one written =>
    obtain ⟨⟨term, left'⟩, found, built⟩ := checked_eq_ok.mp built
    obtain ⟨said', told, built⟩ := checked_eq_ok.mp built
    obtain ⟨⟨terms, left''⟩, rest, finished⟩ := checked_eq_ok.mp built
    obtain ⟨rfl, -⟩ := Prod.mk.inj (Except.ok.inj finished)
    have first := expression_holds_iff one found
    have behind := group_holds_iff written rest
    rw [said_eq_ok.mp told] at first
    simp [Expression.holdsAll, Expression.holdsAny, AsksAll, AsksAny, ← first, behind]

end

end Asked

variable (vocabulary : Vocabulary) (dataset : Dataset)

mutual

def Expression.AsksNoInstants : Expression → Prop
  | .predicate asked => ∀ held, lookup vocabulary dataset asked.field = some held →
      held.repeated = true → held.kind = .instant → asked.operator = .present
  | .all terms => Expression.AsksNoInstantsAll terms
  | .any terms => Expression.AsksNoInstantsAll terms
  | .not term => Expression.AsksNoInstants term

def Expression.AsksNoInstantsAll : List Expression → Prop
  | [] => True
  | term :: terms => Expression.AsksNoInstants term ∧ Expression.AsksNoInstantsAll terms

end

/-! ## Fixed tokens -/

/-- The functions a condition may call. -/
def functionNames : List String :=
  ["position", "startsWith", "endsWith", "has", "notEmpty", "fromUnixTimestamp64Milli"]

/-- The names a condition may hold: columns of the table, and functions. -/
def fixedNames (dataset : Dataset) : List String :=
  "tenant_id" :: (huntTables dataset).instant :: (huntTables dataset).names ++
    ((huntColumns dataset).map Prod.snd ++ functionNames)

/-- The literals a condition may hold. -/
def fixedValues : List Scalar := [.text "UTC", .text "", .number (.finite 0), .truth true]

theorem isColumn_of_mem_fixedNames {dataset : Dataset} :
    ∀ name ∈ fixedNames dataset, Sql.isColumn name = true := by
  cases dataset <;> decide

theorem columnOf_mem_fixedNames {dataset : Dataset} {field column : String}
    (kept : columnOf dataset field = some column) : column ∈ fixedNames dataset := by
  have listed : (field, column) ∈ huntColumns dataset := by
    obtain ⟨front, back, split, -⟩ := List.lookup_eq_some_iff.mp kept
    simp [split]
  simp only [fixedNames, List.mem_append, List.mem_map]
  exact .inr (.inl ⟨_, listed, rfl⟩)

/-! ## Comparisons -/

variable {kind : Kind}

theorem comparable_of_kind {held value : Scalar} (held_kind : ofKind kind held = true)
    (value_kind : ofKind kind value = true) :
    held.equal value = some (same held value) ∧ held.less value = some (under held value) := by
  cases kind <;> cases held <;> cases value <;>
    first
      | exact ⟨rfl, rfl⟩
      | exact absurd held_kind Bool.false_ne_true
      | exact absurd value_kind Bool.false_ne_true

theorem apply_of_kind (comparison : Sql.Comparison) {held value : Scalar}
    (held_kind : ofKind kind held = true) (value_kind : ofKind kind value = true) :
    comparison.apply (.one held) (.one value) =
      some (comparison.decide (under held value) (same held value) (under value held)) := by
  simp [Sql.Comparison.apply, comparable_of_kind held_kind value_kind,
    comparable_of_kind value_kind held_kind]

theorem among_of_kind {held : Scalar} (held_kind : ofKind kind held = true) {values : List Scalar}
    (values_kind : ∀ value ∈ values, ofKind kind value = true) :
    held.among values = some (values.any (same held)) := by
  induction values with
  | nil => rfl
  | cons value values ih =>
    obtain ⟨first, rest⟩ := List.forall_mem_cons.mp values_kind
    simp [Scalar.among, comparable_of_kind held_kind first, ih rest]

theorem ofKind_meant (value : Value) : ofKind value.kind (meant value) = true := by
  cases value <;> rfl

variable {value : Value}

theorem bindOne_eq_meant (other : value.kind ≠ .instant) :
    bindOne value = meant value := by
  cases value <;> first | rfl | exact absurd rfl other

/-! ## Pieces of a condition -/

section Pieces

variable {vocabulary dataset} (row : StoredRow vocabulary dataset)

/-- What the condition of a statement is read in. -/
def contextOf : Sql.Context := ⟨row.column, row.functions.call⟩

abbrev Reads (level : Sql.Level) (clause : Clause) (value : Sql.Value) : Prop :=
  Means (fixedNames dataset) fixedValues (contextOf row) level clause.text clause.arguments value

/-- A column a condition may name, and what it holds. -/
structure Keeps (column : String) (value : Sql.Value) : Prop where
  named : column ∈ fixedNames dataset
  kept : row.column column = some value

variable {row} in
theorem Keeps.reads {column : String} {value : Sql.Value} (keeps : Keeps row column value) :
    Reads row .operand ⟨column, []⟩ value :=
  .column (isColumn_of_mem_fixedNames column keeps.named) keeps.named keeps.kept

theorem function_mem_fixedNames {name : String} (named : name ∈ functionNames) :
    name ∈ fixedNames dataset := by
  simp only [fixedNames, List.mem_append]
  exact .inr (.inr named)

variable {arguments : List Scalar}

theorem reads_call (name : String) {list : String} {items : List Sql.Value} {value : Sql.Value}
    (named : name ∈ functionNames)
    (listed : MeansList (fixedNames dataset) fixedValues (contextOf row) list arguments items)
    (called : row.functions.call name items = some value) :
    Reads row .operand ⟨name ++ "(" ++ list ++ ")", arguments⟩ value := by
  have fixed : name ∈ fixedNames dataset := function_mem_fixedNames named
  exact .call (isColumn_of_mem_fixedNames name fixed) fixed listed called

theorem reads_instant (millis : ℤ) :
    Reads row .operand ⟨instantPlaceholder, [.number (.finite millis)]⟩
      (.one (.instant millis)) := by
  have zone : Reads row .operand ⟨"'UTC'", []⟩ (.one (.text "UTC")) :=
    .literal (Sql.Closes.spells (by decide)) (by decide) (by decide)
  have listed := MeansList.cons (Means.mark (.number (.finite millis))).whole
    (MeansList.one zone.whole)
  have written : instantPlaceholder =
      "fromUnixTimestamp64Milli" ++ "(" ++ ("?" ++ ", " ++ "'UTC'") ++ ")" := by decide
  rw [written]
  exact reads_call row _ (by decide) listed (row.functions.fromMillis millis)

variable {kind : Kind}

theorem reads_placeholder (fits : value.kind = kind) :
    Reads row .operand ⟨placeholder kind, [bindOne value]⟩ (.one (meant value)) := by
  subst fits
  cases value with
  | instant moment => exact reads_instant row (unixMilli moment)
  | _ => exact Means.mark _

/-! ## Predicates -/

variable {platform : Platform} {row}

variable {column : String} {scalar : Scalar}

theorem reads_against {sign other : String} (comparison : Sql.Comparison) {value : Scalar}
    (keeps : Keeps row column (.one scalar)) (scalar_kind : ofKind kind scalar = true)
    (second : Reads row .operand ⟨other, arguments⟩ (.one value))
    (value_kind : ofKind kind value = true)
    (signs : Sql.Signs sign comparison) :
    Reads row .comparison ⟨column ++ sign ++ other, arguments⟩
      (.truth (comparison.decide (under scalar value) (same scalar value) (under value scalar))) :=
  Means.compare comparison keeps.reads second signs
    (apply_of_kind comparison scalar_kind value_kind)

theorem reads_textual (name : String) (argument : Scalar) {value : Sql.Value}
    (function : name ∈ functionNames) (keeps : Keeps row column (.one scalar))
    (called : row.functions.call name [.one scalar, .one argument] = some value) :
    Reads row .operand ⟨name ++ "(" ++ (column ++ ", " ++ "?") ++ ")", [argument]⟩ value :=
  reads_call row name function (MeansList.cons keeps.reads.whole
    (MeansList.one (Means.mark argument).whole)) called

theorem repeated_marks (count : ℕ) :
    repeated "?, " (count + 1) = String.intercalate ", " (List.replicate (count + 1) "?") ++ ", " ∧
      repeated ", ?" (count + 1) =
        ", " ++ String.intercalate ", " (List.replicate (count + 1) "?") := by
  induction count with
  | zero => decide
  | succ count ih =>
    have written : List.replicate (count + 1 + 1) "?" = "?" :: "?" :: List.replicate count "?" :=
      rfl
    have more : ∀ text, repeated text (count + 1 + 1) = text ++ repeated text (count + 1) := by
      intro text
      rw [repeated, List.replicate_succ, String.join_cons, ← repeated]
    rw [more, more, ih.1, ih.2, written, String.intercalate_cons_cons, ← List.replicate_succ]
    simp [← String.toList_inj]

theorem trimSuffix_append (text ending : String) : trimSuffix (text ++ ending) ending = text := by
  rw [trimSuffix, if_pos (by simp [List.suffix_append])]
  simp

theorem placeholders_succ (count : ℕ) :
    placeholders (count + 1) = String.intercalate ", " (List.replicate (count + 1) "?") := by
  rw [placeholders, if_neg count.succ_ne_zero, (repeated_marks count).1, trimSuffix_append]

theorem reads_oneOf (kind : Kind) (keeps : Keeps row column (.one scalar))
    (scalar_kind : ofKind kind scalar = true)
    (arguments_kind : ∀ argument ∈ arguments, ofKind kind argument = true)
    (some_argument : arguments ≠ []) :
    Reads row .comparison ⟨column ++ " IN (" ++ placeholders arguments.length ++ ")", arguments⟩
      (.truth (arguments.any (same scalar))) := by
  obtain ⟨argument, others, rfl⟩ := List.exists_cons_of_ne_nil some_argument
  rw [List.length_cons, placeholders_succ]
  exact Means.oneOf keeps.reads (MeansList.marks argument others)
    (among_of_kind scalar_kind arguments_kind)

variable {asked : Predicate}

theorem reads_carries {items : List Scalar} (keeps : Keeps row column (.list items))
    (items_kind : ∀ item ∈ items, ofKind kind item = true)
    (values_kind : ∀ value ∈ asked.values, value.kind = kind) (bound : kind ≠ .instant)
    (some_value : asked.values ≠ []) :
    Reads row .operand (carries column asked)
      (.truth (asked.values.any fun value => items.any (same (meant value)))) := by
  have each : ∀ value ∈ asked.values, Reads row .operand
      ⟨"has" ++ "(" ++ (column ++ ", " ++ "?") ++ ")", [bindOne value]⟩
      (.truth (items.any (same (meant value)))) := by
    intro value member
    have value_kind : ofKind kind (meant value) = true :=
      values_kind value member ▸ ofKind_meant value
    have other : value.kind ≠ .instant := by rw [values_kind value member]; exact bound
    rw [bindOne_eq_meant other]
    exact reads_call row "has" (by decide) (MeansList.cons keeps.reads.whole
      (MeansList.one (Means.mark (meant value)).whole))
      (by rw [row.functions.has, among_of_kind value_kind items_kind]; rfl)
  let parts : List Sql.Part := asked.values.map fun value =>
    ⟨"has(" ++ column ++ ", ?)", [bindOne value], items.any (same (meant value))⟩
  have joined : Means (fixedNames dataset) fixedValues (contextOf row) .disjunction
      (String.intercalate " OR " (parts.map Sql.Part.text)) (parts.flatMap Sql.Part.arguments)
      (.truth (parts.any Sql.Part.holds)) := by
    refine Means.some (by simpa [parts] using some_value) ?_
    intro part member
    obtain ⟨value, value_mem, rfl⟩ := List.mem_map.mp member
    have written : "has(" ++ column ++ ", ?)" = "has" ++ "(" ++ (column ++ ", " ++ "?") ++ ")" := by
      simp [← String.toList_inj]
    have read := each value value_mem
    rw [← written] at read
    exact .alone (by decide) (.alone (by decide) (.alone (by decide) read))
  have arguments : parts.flatMap Sql.Part.arguments = bind asked.values := by
    simp only [parts, bind, List.flatMap_map]
    rw [List.map_eq_flatMap]
  rw [arguments] at joined
  simpa [parts, carries, Function.comp_def] using joined.group

theorem reads_fixed (comparison : Sql.Comparison) {sign text whole : String} {value : Scalar}
    (written : whole = sign ++ text) (keeps : Keeps row column (.one scalar))
    (scalar_kind : ofKind kind scalar = true) (spells : Sql.Spells text [.value value])
    (fixed : value ∈ fixedValues ∧ text.toList.count '?' = 0 ∧ ofKind kind value = true)
    (signs : Sql.Signs sign comparison) :
    Reads row .comparison ⟨column ++ whole, []⟩
      (.truth (comparison.decide (under scalar value) (same scalar value) (under value scalar))) := by
  rw [written, ← String.append_assoc]
  exact reads_against comparison keeps scalar_kind (.literal spells fixed.1 fixed.2.1)
    fixed.2.2 signs

theorem reads_present {held : Held} {value : Sql.Value} (keeps : Keeps row column value)
    (fits : Fits held value) :
    Reads row .comparison (present column held.kind held.repeated) (.truth (isFilled value)) := by
  obtain ⟨kind, repeated, choices⟩ := held
  cases value with
  | tuple items => exact absurd fits id
  | list items =>
    obtain ⟨rfl, -⟩ := fits
    exact .alone (by decide) (reads_call row "notEmpty" (by decide)
      (MeansList.one keeps.reads.whole) (row.functions.notEmpty items))
  | one scalar =>
    obtain ⟨rfl, scalar_kind⟩ : repeated = false ∧ ofKind kind scalar = true := fits
    cases kind with
    | number =>
      rw [show isFilled (.one scalar) = !same scalar (.number (.finite 0)) by
          cases scalar <;> first | rfl | exact absurd scalar_kind Bool.false_ne_true]
      exact reads_fixed .unequal (by decide : " != 0" = " != " ++ "0") keeps scalar_kind
        ⟨[], .word ['0'], _, rfl, rfl, by decide⟩ (by decide) (by decide)
    | truth =>
      rw [show isFilled (.one scalar) = same scalar (.truth true) by
          cases scalar <;> first
            | exact absurd scalar_kind Bool.false_ne_true
            | simp [isFilled, isThere, same, Scalar.equal]]
      exact reads_fixed .equal (by decide : " = true" = " = " ++ "true") keeps scalar_kind
        ⟨[], .word "true".toList, _, rfl, rfl, by decide⟩ (by decide) (by decide)
    | instant =>
      rw [show isFilled (.one scalar) = !same scalar (.instant 0) by
          cases scalar <;> first | rfl | exact absurd scalar_kind Bool.false_ne_true]
      exact reads_against .unequal keeps scalar_kind (reads_instant row 0) rfl (by decide)
    | text | choice =>
      rw [show isFilled (.one scalar) = !same scalar (.text "") by
          cases scalar <;> first | rfl | exact absurd scalar_kind Bool.false_ne_true]
      exact reads_fixed .unequal (by decide : " != ''" = " != " ++ "''") keeps scalar_kind
        (Sql.Closes.spells (by decide)) (by decide) (by decide)

section Accepted

variable {held : Held} (accepted : asked.Accepted platform vocabulary dataset held)

include accepted

theorem Predicate.Accepted.kind_eq : ∀ value ∈ asked.values, value.kind = held.kind := by
  intro value member
  obtain ⟨written, read⟩ := accepted.read value member
  exact kind_of_literal read

theorem Predicate.Accepted.values_ne_nil (reads : asked.operator ≠ .present) :
    asked.values ≠ [] := by
  have least := accepted.least
  rintro none_read
  rw [none_read] at least
  cases operator : asked.operator <;> simp_all [Operator.takes]

theorem Predicate.Accepted.values_eq_singleton (reads : asked.operator ≠ .present)
    (one : asked.operator ≠ .oneOf) : ∃ value, asked.values = [value] := by
  rw [← List.length_eq_one_iff]
  have least := accepted.least
  have most := accepted.most
  cases operator : asked.operator <;> simp_all [Operator.takes] <;> omega

end Accepted

theorem exists_texts (scalar_kind : ofKind .text scalar = true)
    (value_kind : value.kind = .text) : ∃ held part, scalar = .text held ∧ value = .text part := by
  cases scalar <;> cases value <;>
    first
      | exact ⟨_, _, rfl, rfl⟩
      | exact absurd scalar_kind Bool.false_ne_true
      | cases value_kind

theorem reads_function (name : String) (relation : List UInt8 → List UInt8 → Bool)
    {opening : String} (opens : opening = name ++ "(") (function : name ∈ functionNames)
    (keeps : Keeps row column (.one scalar)) (scalar_kind : ofKind .text scalar = true)
    (value_kind : value.kind = .text)
    (called : ∀ held part, row.functions.call name [.one (.text held), .one (.text part)] =
      some (.truth (relation (Text.bytes part) (Text.bytes held)))) :
    Reads row .comparison ⟨opening ++ column ++ ", ?)", [bindOne value]⟩
    (.truth (related relation scalar (meant value))) := by
  obtain ⟨held, part, rfl, rfl⟩ := exists_texts scalar_kind value_kind
  have written : opening ++ column ++ ", ?)" =
      name ++ "(" ++ (column ++ ", " ++ "?") ++ ")" := by
    simp [opens, ← String.toList_inj]
  rw [written]
  exact .alone (by decide) (reads_textual name (.text part) function keeps (called held part))

theorem reads_contains (keeps : Keeps row column (.one scalar))
    (scalar_kind : ofKind .text scalar = true) (value_kind : value.kind = .text) :
    Reads row .comparison ⟨"position(" ++ column ++ ", ?) > 0", [bindOne value]⟩
      (.truth (related (fun part whole => part <:+: whole) scalar (meant value))) := by
  obtain ⟨held, part, rfl, rfl⟩ := exists_texts scalar_kind value_kind
  obtain ⟨place, called, carries⟩ := row.functions.position held part
  have placed := reads_textual "position" (.text part) (by decide) keeps called
  have zero : Reads row .operand ⟨"0", []⟩ (.one (.number (.finite 0))) :=
    .literal ⟨[], .word ['0'], _, rfl, rfl, by decide⟩ (by decide) (by decide)
  have written : "position(" ++ column ++ ", ?) > 0" =
      "position" ++ "(" ++ (column ++ ", " ++ "?") ++ ")" ++ " > " ++ "0" := by
    simp [← String.toList_inj]
  rw [written]
  refine Means.compare .greater placed zero (by decide) ?_
  simp [Sql.Comparison.apply, Sql.Comparison.decide, Scalar.less, Scalar.equal, Sql.Number.less,
    related, meant, bindOne, ← carries]

theorem kind_of_textual {operator : Operator}
    (textual : operator ∈ [Operator.contains, .startsWith, .endsWith])
    (asks : operator.asks kind = true) : kind = .text := by
  simp only [List.mem_cons, List.not_mem_nil, or_false] at textual
  rcases textual with rfl | rfl | rfl <;> simpa [Operator.asks, Operator.accepts] using asks

section

variable {held : Held} (accepted : asked.Accepted platform vocabulary dataset held)
  (mapped : columnOf dataset asked.field = some column)

include accepted mapped

theorem reads_single
    (kept : row.column column = some (.one scalar)) (single : held.repeated = false)
    (scalar_kind : ofKind held.kind scalar = true) (reads : asked.operator ≠ .present) :
    ∃ clause, asksOf vocabulary dataset asked = .ok clause ∧
      Reads row .comparison clause (.truth (asked.values.any fun value =>
        asked.operator.answers (.one scalar) (meant value))) := by
  have keeps : Keeps row column (.one scalar) := ⟨columnOf_mem_fixedNames mapped, kept⟩
  have kinds := accepted.kind_eq
  have asks := accepted.asks
  by_cases one : asked.operator = .oneOf
  · refine ⟨⟨column ++ " IN (" ++ placeholders asked.values.length ++ ")", bind asked.values⟩,
      by simp [asksOf, mapped, accepted.declared, single, one], ?_⟩
    have other : held.kind ≠ .instant := by
      rintro instant
      simp [one, instant, Operator.asks, Operator.accepts] at asks
    have bound : bind asked.values = asked.values.map meant :=
      List.map_congr_left fun value member =>
        bindOne_eq_meant (by rw [kinds value member]; exact other)
    have arguments_kind : ∀ argument ∈ asked.values.map meant,
        ofKind held.kind argument = true := by
      intro argument member
      obtain ⟨value, value_mem, rfl⟩ := List.mem_map.mp member
      exact kinds value value_mem ▸ ofKind_meant value
    have read : Reads row .comparison
        ⟨column ++ " IN (" ++ placeholders (asked.values.map meant).length ++ ")",
          asked.values.map meant⟩ (.truth ((asked.values.map meant).any (same scalar))) :=
      reads_oneOf held.kind keeps scalar_kind arguments_kind
        (by simpa using accepted.values_ne_nil reads)
    rw [bound]
    simpa [one, Operator.answers, Operator.holds, Function.comp_def] using read
  · obtain ⟨value, only⟩ := accepted.values_eq_singleton reads one
    have value_kind : value.kind = held.kind := kinds value (by simp [only])
    have placed := reads_placeholder row value_kind
    have meant_kind : ofKind held.kind (meant value) = true := value_kind ▸ ofKind_meant value
    simp only [asksOf, mapped, accepted.declared, Option.getD_some, reads, if_false, single,
      Bool.false_eq_true, only, bind, List.map_cons, List.map_nil, List.any_cons, List.any_nil,
      Bool.or_false, Operator.answers]
    cases operator : asked.operator with
    | present => exact absurd operator reads
    | oneOf => exact absurd operator one
    | equals =>
      exact ⟨_, rfl, reads_against .equal keeps scalar_kind placed meant_kind (by decide)⟩
    | above =>
      exact ⟨_, rfl, reads_against .greater keeps scalar_kind placed meant_kind (by decide)⟩
    | atLeast =>
      exact ⟨_, rfl, reads_against .atLeast keeps scalar_kind placed meant_kind (by decide)⟩
    | below =>
      exact ⟨_, rfl, reads_against .less keeps scalar_kind placed meant_kind (by decide)⟩
    | atMost =>
      exact ⟨_, rfl, reads_against .atMost keeps scalar_kind placed meant_kind (by decide)⟩
    | startsWith =>
      have text := kind_of_textual (by simp [operator]) asks
      exact ⟨_, rfl, reads_function "startsWith" (fun part whole => part <+: whole) (by decide)
        (by decide) keeps (text ▸ scalar_kind) (value_kind.trans text) row.functions.startsWith⟩
    | endsWith =>
      have text := kind_of_textual (by simp [operator]) asks
      exact ⟨_, rfl, reads_function "endsWith" (fun part whole => part <:+ whole) (by decide)
        (by decide) keeps (text ▸ scalar_kind) (value_kind.trans text) row.functions.endsWith⟩
    | contains =>
      have text := kind_of_textual (by simp [operator]) asks
      exact ⟨_, rfl, reads_contains keeps (text ▸ scalar_kind) (value_kind.trans text)⟩

theorem reads_predicate
    (no_instants : held.repeated = true → held.kind = .instant → asked.operator = .present) :
    ∃ clause, asksOf vocabulary dataset asked = .ok clause ∧
      Reads row .comparison clause (.truth (asked.holds row)) := by
  obtain ⟨value, kept, fits⟩ := row.keeps asked.field held column accepted.declared mapped
  have keeps : Keeps row column value := ⟨columnOf_mem_fixedNames mapped, kept⟩
  have holding : asked.holds row = if asked.operator = .present then isFilled value
      else asked.values.any fun literal => asked.operator.answers value (meant literal) := by
    simp [Predicate.holds, mapped, kept]
  rw [holding]
  by_cases presence : asked.operator = .present
  · rw [if_pos presence]
    refine ⟨present column held.kind held.repeated, ?_, reads_present keeps fits⟩
    simp [asksOf, mapped, accepted.declared, presence]
  · rw [if_neg presence]
    cases value with
    | tuple items => exact absurd fits id
    | list items =>
      refine ⟨carries column asked, ?_, .alone (by decide) (reads_carries keeps fits.2
        accepted.kind_eq (fun instant => presence (no_instants fits.1 instant))
        (accepted.values_ne_nil presence))⟩
      simp [asksOf, mapped, accepted.declared, presence, show held.repeated = true from fits.1]
    | one scalar => exact reads_single accepted mapped kept fits.1 fits.2 presence

end

/-! ## Expressions -/

def clauseOf (part : Sql.Part) : Clause := ⟨part.text, part.arguments⟩

theorem columnOf_of_declared (agrees : agreesWithVocabulary vocabulary = none) {field : String}
    {held : Held} (declared : lookup vocabulary dataset field = some held) :
    ∃ column, columnOf dataset field = some column := by
  rw [agreesWithVocabulary, List.findSome?_eq_none_iff] at agrees
  have listed : (field, held) ∈ vocabulary dataset := by
    obtain ⟨front, back, split, -⟩ := List.lookup_eq_some_iff.mp declared
    simp [split]
  have checked := agrees dataset (by cases dataset <;> decide)
  simp only [Option.orElse_eq_none, List.findSome?_eq_none_iff] at checked
  have mapped := checked.2.1 (field, held) listed
  cases found : columnOf dataset field with
  | none => simp [found] at mapped
  | some column => exact ⟨column, rfl⟩

mutual

theorem reads_expression (agrees : agreesWithVocabulary vocabulary = none) (term : Expression)
    (accepted : term.Accepted platform vocabulary dataset)
    (no_instants : term.AsksNoInstants vocabulary dataset) :
    ∃ clause, condition vocabulary dataset term = .ok clause ∧
      Reads row .negation clause (.truth (term.holds row)) := by
  cases term with
  | predicate asked =>
    obtain ⟨held, accepted⟩ := accepted
    obtain ⟨column, mapped⟩ := columnOf_of_declared agrees accepted.declared
    obtain ⟨clause, written, read⟩ :=
      reads_predicate accepted mapped (no_instants held accepted.declared)
    exact ⟨clause, written, read.alone (by decide)⟩
  | all terms =>
    obtain ⟨parts, written, some_part, every, -, read⟩ :=
      reads_expressions agrees terms accepted.2 no_instants
    refine ⟨_, by rw [condition, written]; rfl, ?_⟩
    rw [List.map_map, List.flatMap_map, Expression.holds, ← every]
    exact (Means.group (.alone (by decide) (Means.every (some_part accepted.1) read))).term
  | any terms =>
    obtain ⟨parts, written, some_part, -, any, read⟩ :=
      reads_expressions agrees terms accepted.2 no_instants
    refine ⟨_, by rw [condition, written]; rfl, ?_⟩
    rw [List.map_map, List.flatMap_map, Expression.holds, ← any]
    exact (Means.group (Means.some (some_part accepted.1) fun part member =>
      (read part member).alone (by decide))).term
  | not term =>
    obtain ⟨clause, written, read⟩ := reads_expression agrees term accepted no_instants
    exact ⟨_, by rw [condition, written]; rfl, read.not⟩

theorem reads_expressions (agrees : agreesWithVocabulary vocabulary = none)
    (terms : List Expression) (accepted : Expression.AcceptedAll platform vocabulary dataset terms)
    (no_instants : Expression.AsksNoInstantsAll vocabulary dataset terms) :
    ∃ parts : List Sql.Part, conditions vocabulary dataset terms =
        .ok (parts.map clauseOf) ∧ (terms ≠ [] → parts ≠ []) ∧
      parts.all Sql.Part.holds = Expression.holdsAll row terms ∧
      parts.any Sql.Part.holds = Expression.holdsAny row terms ∧
      ∀ part ∈ parts, Reads row .negation (clauseOf part) (.truth part.holds) := by
  cases terms with
  | nil => exact ⟨[], rfl, (absurd rfl ·), rfl, rfl, by simp⟩
  | cons term terms =>
    obtain ⟨clause, written, read⟩ := reads_expression agrees term accepted.1 no_instants.1
    obtain ⟨parts, written_rest, -, every, any, read_rest⟩ :=
      reads_expressions agrees terms accepted.2 no_instants.2
    refine ⟨⟨clause.text, clause.arguments, term.holds row⟩ :: parts, ?_, by simp,
      by simp [every, Expression.holdsAll], by simp [any, Expression.holdsAny], ?_⟩
    · rw [conditions, written, written_rest]
      rfl
    · intro part member
      rcases List.mem_cons.mp member with rfl | later
      · exact read
      · exact read_rest part later

end

/-! ## Statements -/

theorem reads_scope {scope : Scope} (some_tenant : scope.tenants ≠ []) :
    Reads row .comparison (inScope scope) (.truth (decide (row.tenant ∈ scope.tenants))) := by
  have read : Reads row .comparison
      ⟨"tenant_id" ++ " IN (" ++ placeholders (scope.tenants.map Scalar.text).length ++ ")",
        scope.tenants.map Scalar.text⟩
      (.truth ((scope.tenants.map Scalar.text).any (same (.text row.tenant)))) :=
    reads_oneOf .text ⟨by simp [fixedNames], row.tenant_kept⟩ rfl (by simp [ofKind])
      (by simpa using some_tenant)
  have member : (scope.tenants.map Scalar.text).any (same (.text row.tenant)) =
      decide (row.tenant ∈ scope.tenants) := by
    rw [Bool.eq_iff_iff]
    simp [same, Scalar.equal]
  rw [member] at read
  rw [inScope, show "tenant_id IN (" = "tenant_id" ++ " IN (" by decide]
  simpa using read

theorem keeps_instant : Keeps row (huntTables dataset).instant (.one (.instant row.instant)) :=
  ⟨by simp [fixedNames], row.instant_kept⟩

theorem reads_millis (comparison : Sql.Comparison) {sign : String} (millis : ℤ)
    (signs : Sql.Signs sign comparison) :
    Reads row .comparison ⟨(huntTables dataset).instant ++ sign ++ instantPlaceholder,
      [.number (.finite millis)]⟩ (.truth (comparison.decide (decide (row.instant < millis))
        (row.instant == millis) (decide (millis < row.instant)))) :=
  reads_against comparison keeps_instant
    (show ofKind .instant (.instant row.instant) = true from rfl) (reads_instant row millis) rfl
    signs

variable {names others : List String}

section

variable (same_length : names.length = others.length)

include same_length

theorem lessAll_texts :
    Scalar.lessAll (names.map .text) (others.map .text) = some (namesBelow names others) := by
  induction names generalizing others with
  | nil => simp [List.length_eq_zero_iff.mp same_length.symm, Scalar.lessAll, namesBelow]
  | cons name names ih =>
    obtain ⟨other, others, rfl⟩ := List.exists_cons_of_length_eq_add_one same_length.symm
    simp [Scalar.lessAll, Scalar.less, Scalar.equal, namesBelow, ih (by simpa using same_length)]

theorem equalAll_texts :
    ∃ equal, Scalar.equalAll (names.map .text) (others.map .text) = some equal := by
  induction names generalizing others with
  | nil => exact ⟨true, by simp [List.length_eq_zero_iff.mp same_length.symm, Scalar.equalAll]⟩
  | cons name names ih =>
    obtain ⟨other, others, rfl⟩ := List.exists_cons_of_length_eq_add_one same_length.symm
    obtain ⟨equal, rest⟩ := ih (by simpa using same_length)
    exact ⟨name == other && equal, by simp [Scalar.equalAll, Scalar.equal, rest]⟩

theorem apply_key {instant millis : ℤ} :
    Sql.Comparison.less.apply (.tuple (.instant instant :: names.map .text))
        (.tuple (.instant millis :: others.map .text)) =
      some (decide (instant < millis) || instant == millis && namesBelow names others) := by
  obtain ⟨equal, equals⟩ := equalAll_texts same_length
  simp [Sql.Comparison.apply, Sql.Comparison.decide, Scalar.lessAll, Scalar.equalAll, Scalar.less,
    Scalar.equal, lessAll_texts same_length, lessAll_texts same_length.symm, equals]

end

theorem reads_columns {columns : List String} (some_column : columns ≠ [])
    (named : ∀ column ∈ columns, column ∈ fixedNames dataset)
    (kept : columns.map row.column = names.map fun name => some (.one (.text name))) :
    MeansList (fixedNames dataset) fixedValues (contextOf row) (String.intercalate ", " columns) []
      ((names.map Scalar.text).map Sql.Value.one) := by
  induction columns generalizing names with
  | nil => exact absurd rfl some_column
  | cons column columns ih =>
    obtain ⟨name, names, rfl⟩ : ∃ name others, names = name :: others := by
      cases names with
      | nil => simp at kept
      | cons name names => exact ⟨name, names, rfl⟩
    simp only [List.map_cons, List.cons.injEq] at kept
    obtain ⟨first_named, rest_named⟩ := List.forall_mem_cons.mp named
    have first := (Keeps.mk first_named kept.1).reads.whole
    cases columns with
    | nil =>
      obtain rfl : names = [] := by simpa using kept.2.symm
      exact .one first
    | cons next columns =>
      rw [String.intercalate_cons_cons]
      exact .cons first (ih (List.cons_ne_nil next columns) rest_named kept.2)

theorem reads_behind {after : After}
    (named : after.names.length = (huntTables dataset).names.length) :
    Reads row .comparison (behind (huntTables dataset) after) (.truth (isBehind row after)) := by
  have same_length : row.names.length = after.names.length := by
    have kept := congrArg List.length row.names_kept
    simp only [List.length_map] at kept
    rw [named, kept]
  have names_fixed : ∀ name ∈ (huntTables dataset).names, name ∈ fixedNames dataset := by
    intro name member
    simp [fixedNames, member]
  have some_name : (huntTables dataset).names ≠ [] := by cases dataset <;> decide
  have key := MeansList.cons keeps_instant.reads.whole
    (reads_columns some_name names_fixed row.names_kept)
  obtain ⟨first, others, split⟩ : ∃ first others, after.names = first :: others :=
    List.exists_cons_of_length_pos
      (named.symm ▸ List.length_pos_iff.mpr some_name)
  obtain ⟨name, names, row_split⟩ : ∃ name names, row.names = name :: names :=
    List.exists_cons_of_length_pos (by simp [same_length, split])
  have place := MeansList.cons (reads_instant row (unixMilli after.time)).whole
    (MeansList.marks (.text first) (others.map Scalar.text))
  have compared : Sql.Comparison.less.apply (.tuple (.instant row.instant :: row.names.map .text))
      (.tuple (.instant (unixMilli after.time) :: after.names.map .text)) =
        some (isBehind row after) := apply_key same_length
  rw [row_split] at key
  rw [row_split, split] at compared
  have count : (huntTables dataset).names.length = others.length + 1 := by rw [← named, split]; rfl
  have written : (behind (huntTables dataset) after).text =
      "(" ++ ((huntTables dataset).instant ++ ", " ++
        String.intercalate ", " (huntTables dataset).names) ++ ")" ++ " < " ++
      ("(" ++ (instantPlaceholder ++ ", " ++
        String.intercalate ", " (List.replicate ((others.map Scalar.text).length + 1) "?")) ++ ")") := by
    rw [behind, count, (repeated_marks _).2, List.length_map]
    simp [← String.toList_inj]
  have arguments : (behind (huntTables dataset) after).arguments =
      [] ++ [] ++ ([.number (.finite (unixMilli after.time))] ++
        (.text first :: others.map Scalar.text)) := by
    rw [behind, split]
    rfl
  rw [Reads, written, arguments]
  exact Means.compare .less (Means.tuple key) (Means.tuple place) (by decide) compared

theorem intercalate_split (first second : String) (rest : List String) :
    String.intercalate " AND " ((first ++ " AND " ++ second) :: rest) =
      String.intercalate " AND " (first :: second :: rest) := by
  cases rest with
  | nil => simp
  | cons next rest =>
    rw [String.intercalate_cons_cons, String.intercalate_cons_cons, String.intercalate_cons_cons]
    simp [← String.toList_inj]

end Pieces

section Statements

variable {vocabulary : Vocabulary} {platform : Platform} {query : Query}
variable (row : StoredRow vocabulary query.dataset)

theorem reads_resumed (named : ∀ after, query.after = some after →
      after.names.length = (huntTables query.dataset).names.length) :
    ∃ parts : List Sql.Part,
      resumed query = .ok (parts.map clauseOf) ∧
      (parts.all Sql.Part.holds = true ↔
        ∀ after, query.after = some after → isBehind row after = true) ∧
      ∀ part ∈ parts, Reads row .negation (clauseOf part) (.truth part.holds) := by
  cases found : query.after with
  | none => exact ⟨[], by simp [resumed, found], by simp, by simp⟩
  | some after =>
    let clause := behind (huntTables query.dataset) after
    refine ⟨[⟨clause.text, clause.arguments, isBehind row after⟩], ?_, by simp, ?_⟩
    · simp [resumed, found, named after found, clause, clauseOf]
    · intro part member
      rw [List.mem_singleton.mp member]
      exact (reads_behind (named after found)).alone (by decide)

theorem reads_filtered (agrees : agreesWithVocabulary vocabulary = none)
    (accepted : ∀ filter, query.filter = some filter →
      filter.Accepted platform vocabulary query.dataset)
    (no_instants : ∀ filter, query.filter = some filter →
      filter.AsksNoInstants vocabulary query.dataset) :
    ∃ parts : List Sql.Part,
      filtered vocabulary query = .ok (parts.map clauseOf) ∧
      (parts.all Sql.Part.holds = true ↔
        ∀ filter, query.filter = some filter → filter.holds row = true) ∧
      ∀ part ∈ parts, Reads row .negation (clauseOf part) (.truth part.holds) := by
  cases found : query.filter with
  | none => exact ⟨[], by simp [filtered, found], by simp, by simp⟩
  | some filter =>
    obtain ⟨clause, written, read⟩ : ∃ clause,
        condition vocabulary query.dataset filter = .ok clause ∧
          Reads row .negation clause (.truth (filter.holds row)) :=
      reads_expression agrees filter (accepted filter found) (no_instants filter found)
    refine ⟨[⟨clause.text, clause.arguments, filter.holds row⟩], ?_, by simp, ?_⟩
    · simp only [filtered, found, written]
      rfl
    · intro part member
      rw [List.mem_singleton.mp member]
      exact read

def windowParts : List Sql.Part :=
  [⟨(huntTables query.dataset).instant ++ " >= " ++ instantPlaceholder,
      [.number (.finite (unixMilli query.window.start))],
      decide (unixMilli query.window.start ≤ row.instant)⟩,
    ⟨(huntTables query.dataset).instant ++ " < " ++ instantPlaceholder,
      [.number (.finite (unixMilli query.window.stop))],
      decide (row.instant < unixMilli query.window.stop)⟩]

theorem reads_window :
    ∀ part ∈ windowParts row,
      Reads row .negation (clauseOf part) (.truth part.holds) := by
  have start : Reads row .comparison
      ⟨(huntTables query.dataset).instant ++ " >= " ++ instantPlaceholder,
        [.number (.finite (unixMilli query.window.start))]⟩ _ :=
    reads_millis .atLeast (unixMilli query.window.start) (by decide)
  have stop : Reads row .comparison
      ⟨(huntTables query.dataset).instant ++ " < " ++ instantPlaceholder,
        [.number (.finite (unixMilli query.window.stop))]⟩ _ :=
    reads_millis .less (unixMilli query.window.stop) (by decide)
  have from_start : (decide (unixMilli query.window.start < row.instant) ||
      row.instant == unixMilli query.window.start) =
        decide (unixMilli query.window.start ≤ row.instant) := by
    rw [Bool.eq_iff_iff]
    simp only [Bool.or_eq_true, decide_eq_true_eq, beq_iff_eq]
    omega
  intro part member
  simp only [windowParts, List.mem_cons, List.not_mem_nil, or_false] at member
  rcases member with rfl | rfl
  · rw [← from_start]
    exact start.alone (by decide)
  · exact stop.alone (by decide)

theorem window_written (rest : List String) :
    String.intercalate " AND "
        ((inWindow (huntTables query.dataset) query.window).text :: rest) =
      String.intercalate " AND " ((windowParts row).map Sql.Part.text ++ rest) := by
  have written : (inWindow (huntTables query.dataset) query.window).text =
      (huntTables query.dataset).instant ++ " >= " ++ instantPlaceholder ++ " AND " ++
        ((huntTables query.dataset).instant ++ " < " ++ instantPlaceholder) := by
    simp [inWindow, ← String.toList_inj]
  rw [written, intercalate_split]
  rfl

theorem condition_written (parts : List Sql.Part) :
    (⟨String.intercalate " AND " (List.map Clause.text
        ([inScope query.scope, inWindow (huntTables query.dataset) query.window] ++
          parts.map clauseOf)),
      List.flatMap Clause.arguments
        ([inScope query.scope, inWindow (huntTables query.dataset) query.window] ++
          parts.map clauseOf)⟩ : Clause) =
    ⟨String.intercalate " AND "
        ((inScope query.scope).text :: (windowParts row ++ parts).map Sql.Part.text),
      (inScope query.scope).arguments ++ (windowParts row ++ parts).flatMap Sql.Part.arguments⟩ := by
  have texts : (parts.map clauseOf).map Clause.text = parts.map Sql.Part.text := by
    rw [List.map_map]
    rfl
  have arguments : (parts.map clauseOf).flatMap Clause.arguments =
      parts.flatMap Sql.Part.arguments := by
    rw [List.flatMap_map]
    rfl
  rw [List.map_append, texts, List.flatMap_append, arguments, List.map_append, List.flatMap_append]
  have window := window_written row (parts.map Sql.Part.text)
  congr 1
  · rw [List.map_cons, List.map_cons, List.map_nil, List.cons_append, List.cons_append,
      List.nil_append, String.intercalate_cons_cons, window,
      String.intercalate_cons_of_ne_nil (by simp [windowParts])]
  · simp [inWindow, windowParts]

theorem reads_statement (agrees : agreesWithVocabulary vocabulary = none)
    (some_tenant : query.scope.tenants ≠ [])
    (accepted : ∀ filter, query.filter = some filter →
      filter.Accepted platform vocabulary query.dataset)
    (no_instants : ∀ filter, query.filter = some filter →
      filter.AsksNoInstants vocabulary query.dataset)
    (named : ∀ after, query.after = some after →
      after.names.length = (huntTables query.dataset).names.length) :
    ∃ clause holds,
      statementOf vocabulary query = .ok ⟨(huntTables query.dataset).columns,
        (huntTables query.dataset).table, clause,
        (huntTables query.dataset).instant :: (huntTables query.dataset).names, query.limit⟩ ∧
      Reads row .disjunction clause (.truth holds) ∧ (holds = true ↔ query.selects row) := by
  obtain ⟨places, placed, place_holds, reads_places⟩ := reads_resumed row named
  obtain ⟨asked, matched, asked_holds, reads_asked⟩ :=
    reads_filtered row agrees accepted no_instants
  let scope : Sql.Part := ⟨(inScope query.scope).text, (inScope query.scope).arguments,
    decide (row.tenant ∈ query.scope.tenants)⟩
  let parts := scope :: (windowParts row ++ (places ++ asked))
  have reads_every : ∀ part ∈ parts,
      Reads row .negation (clauseOf part) (.truth part.holds) := by
    intro part member
    simp only [parts, List.mem_cons, List.mem_append] at member
    rcases member with rfl | inside | place | matching
    · exact (reads_scope some_tenant).alone (by decide)
    · exact reads_window row part inside
    · exact reads_places part place
    · exact reads_asked part matching
  refine ⟨⟨String.intercalate " AND " (parts.map Sql.Part.text),
    parts.flatMap Sql.Part.arguments⟩, parts.all Sql.Part.holds, ?_, ?_, ?_⟩
  · have written := condition_written row (places ++ asked)
    rw [show (places ++ asked).map clauseOf = places.map clauseOf ++ asked.map clauseOf from
      List.map_append] at written
    rw [statementOf, placed, matched]
    exact congrArg (fun clause => Except.ok (⟨_, _, clause, _, _⟩ : Statement)) written
  · exact .alone (by decide) (Means.every (List.cons_ne_nil scope _) reads_every)
  · rw [List.all_cons, List.all_append, List.all_append, Bool.and_eq_true, Bool.and_eq_true,
      Bool.and_eq_true, place_holds, asked_holds]
    simp [scope, windowParts, Query.selects]

omit row in
theorem windowOf_eq_ok {compiler : Compiler} {asked : Option Contract.HuntV1.TimeRange}
    {window : TimeRange} (built : windowOf compiler asked = .ok window) :
    ∃ start stop, asked = some ⟨some start, some stop⟩ ∧
      window = ⟨timeOf start, timeOf stop⟩ := by
  unfold windowOf at built
  split at built
  · obtain ⟨-, built⟩ := passes_eq_ok.mp built
    obtain ⟨-, built⟩ := passes_eq_ok.mp built
    exact ⟨_, _, rfl, (Except.ok.inj built).symm⟩
  · cases built

end Statements

/-! ## A question and a row -/

/-- A contract whose fields are texts, but for the instants and a counter. -/
def plainHeld (field : String) : Held :=
  if field ∈ ["time.event_time", "time.observed_time", "reception.ingest_time", "event_time",
    "detected_time"] then ⟨.instant, false, []⟩
  else if field = "collection.sequence" then ⟨.number, false, []⟩
  else ⟨.text, false, []⟩

def plainVocabulary : Vocabulary := fun dataset =>
  (huntColumns dataset).map fun (field, _) => (field, plainHeld field)

def plainColumn (column : String) : Sql.Value :=
  if column ∈ ["event_time", "observed_time", "ingest_time", "detected_time"] then
    .one (.instant 1787745600000)
  else if column = "sequence" then .one (.number (.finite 42))
  else if column = "tenant_id" then .one (.text "acme")
  else if column = "auth_user_name" then .one (.text "root")
  else .one (.text "web-01")

instance (held : Held) (value : Sql.Value) : Decidable (Fits held value) :=
  match value with
  | .one _ => instDecidableAnd
  | .list _ => instDecidableAnd
  | .tuple _ => instDecidableFalse

theorem position_pos_iff (held part : List UInt8) :
    (0 < match held.tails.findIdx? (part.isPrefixOf ·) with
      | some index => index + 1
      | none => 0) ↔ part <:+: held := by
  cases found : held.tails.findIdx? (part.isPrefixOf ·) with
  | none =>
    simp only [List.findIdx?_eq_none_iff, List.mem_tails] at found
    simp only [lt_self_iff_false, false_iff]
    intro carried
    obtain ⟨rest, starts, ends⟩ := List.infix_iff_prefix_suffix.mp carried
    exact Bool.false_ne_true ((found rest ends).symm.trans (List.isPrefixOf_iff_prefix.mpr starts))
  | some index =>
    obtain ⟨inside, starts, -⟩ := List.findIdx?_eq_some_iff_getElem.mp found
    simp only [Nat.succ_pos, true_iff]
    exact List.infix_iff_prefix_suffix.mpr ⟨held.tails[index],
      List.isPrefixOf_iff_prefix.mp starts, (List.mem_tails _ _).mp (List.getElem_mem inside)⟩

/-- The functions of the store, computed. -/
def plainFunctions : Functions where
  call
    | "position", [.one (.text held), .one (.text part)] =>
      some (.one (.number (.finite
        (match (Text.bytes held).tails.findIdx? ((Text.bytes part).isPrefixOf ·) with
          | some index => index + 1
          | none => 0 : ℕ))))
    | "startsWith", [.one (.text held), .one (.text start)] =>
      some (.truth (Text.bytes start <+: Text.bytes held))
    | "endsWith", [.one (.text held), .one (.text ending)] =>
      some (.truth (Text.bytes ending <:+ Text.bytes held))
    | "has", [.list items, .one item] => (item.among items).map .truth
    | "notEmpty", [.list items] => some (.truth !items.isEmpty)
    | "fromUnixTimestamp64Milli", [.one (.number (.finite millis)), .one (.text "UTC")] =>
      some (.one (.instant millis.num))
    | _, _ => none
  position held part := ⟨_, rfl, position_pos_iff (Text.bytes held) (Text.bytes part)⟩
  startsWith _ _ := rfl
  endsWith _ _ := rfl
  has _ _ := rfl
  notEmpty _ := rfl
  fromMillis _ := rfl

/-- A logon of root. -/
def plainRow : StoredRow plainVocabulary .events where
  functions := plainFunctions
  column := some ∘ plainColumn
  tenant := "acme"
  instant := 1787745600000
  names := ["web-01", "web-01"]
  tenant_kept := by decide
  instant_kept := by decide
  names_kept := by decide
  keeps := by
    intro field held kept declared mapped
    obtain ⟨front, back, split, -⟩ := List.lookup_eq_some_iff.mp declared
    have declared_mem : (field, held) ∈ plainVocabulary .events := by simp [split]
    obtain ⟨pair, -, same_held⟩ := List.mem_map.mp declared_mem
    obtain ⟨same_field, rfl⟩ := Prod.mk.inj same_held
    obtain ⟨before, rest, split_columns, -⟩ := List.lookup_eq_some_iff.mp mapped
    have mapped_mem : (field, kept) ∈ huntColumns .events := by simp [split_columns]
    have fits : ∀ pair ∈ huntColumns .events, Fits (plainHeld pair.1) (plainColumn pair.2) := by
      decide
    exact ⟨plainColumn kept, rfl, same_field ▸ fits (field, kept) mapped_mem⟩

/-- Readers that read no fraction and no instant. -/
def plainPlatform : Platform where
  isPrint letter := decide (32 ≤ letter.toNat ∧ letter.toNat < 127)
  parseFloat _ := none
  formatFloat _ := "NaN"
  parseInstant _ := none
  formatInstant := Decimal.format

/-- A hash and a signature of one value. -/
def plainSeals : Seals where
  sha256 _ := List.replicate 32 0
  sha256_length _ := rfl
  hmac _ _ := [1]

def plainCompiler : Compiler where
  limits := ⟨Duration.hour, 50, 500, Duration.second, 1000⟩
  key := List.replicate 32 107
  valid := by decide
  long := by decide

def acmeScope : Scope := ⟨["acme"], by decide⟩

def turnedAway : Contract.HuntV1.Query where
  range := some ⟨some ⟨1787744000, 0⟩, some ⟨1787747600, 0⟩⟩
  filter := .all [
    .negated (.any [.predicate ⟨"authentication.user.name", .oneOf, ["admin", "guest"]⟩,
      .predicate ⟨"origin.host.hostname", .contains, ["db"]⟩]),
    .predicate ⟨"collection.sequence", .above, ["41"]⟩]
  limit := 0
  cursor := encodeCursor plainSeals (List.replicate 32 107) (List.replicate 32 0)
    (Alerts.ofUnixMilli 1787745600001) ["web-01", "aaaa"]

/-- The same question, compiled. -/
def turnedAwayQuery : Query where
  dataset := .events
  scope := acmeScope
  window := ⟨timeOf ⟨1787744000, 0⟩, timeOf ⟨1787747600, 0⟩⟩
  filter := some (.all [
    .not (.any [.predicate ⟨"authentication.user.name", .oneOf, [.text "admin", .text "guest"]⟩,
      .predicate ⟨"origin.host.hostname", .contains, [.text "db"]⟩]),
    .predicate ⟨"collection.sequence", .above, [.whole 41]⟩])
  limit := 50
  after := some ⟨Alerts.ofUnixMilli 1787745600001, ["web-01", "aaaa"]⟩
  fingerprint := List.replicate 32 0

theorem expression_turnedAway : expression plainPlatform plainVocabulary .events
    turnedAway.filter 0 maxPredicates = .ok (turnedAwayQuery.filter, 29) := by
  rfl

theorem compile_turnedAway :
    compile plainPlatform plainSeals plainVocabulary plainCompiler .events acmeScope turnedAway =
      .ok turnedAwayQuery := by
  have started : startOf plainSeals plainCompiler (List.replicate 32 0) turnedAway.cursor =
      .ok turnedAwayQuery.after := by
    decide +kernel
  have ranged : windowOf plainCompiler turnedAway.range = .ok turnedAwayQuery.window := by
    rfl
  have paged : pageOf plainCompiler turnedAway.limit = .ok turnedAwayQuery.limit := by
    rfl
  exact passes_eq_ok.mpr ⟨rfl, checked_eq_ok.mpr ⟨_, ranged, checked_eq_ok.mpr ⟨_, paged,
    checked_eq_ok.mpr ⟨_, expression_turnedAway, checked_eq_ok.mpr ⟨_, started, rfl⟩⟩⟩⟩⟩

theorem single_of_plain {dataset : Dataset} {field : String} {held : Held}
    (declared : lookup plainVocabulary dataset field = some held) : held.repeated = false := by
  obtain ⟨front, back, split, -⟩ := List.lookup_eq_some_iff.mp declared
  have declared_mem : (field, held) ∈ plainVocabulary dataset := by simp [split]
  obtain ⟨pair, -, same_held⟩ := List.mem_map.mp declared_mem
  obtain ⟨-, rfl⟩ := Prod.mk.inj same_held
  unfold plainHeld
  split_ifs <;> rfl

theorem wanted_turnedAway :
    Wanted plainPlatform plainRow acmeScope turnedAway turnedAwayQuery.after := by
  refine ⟨by decide, ⟨_, _, rfl, by decide, by decide⟩, ?_, ?_⟩
  · rintro position ⟨⟩
    rfl
  · refine (expression_holds_iff plainRow turnedAway.filter expression_turnedAway).mp ?_
    rintro term ⟨⟩
    rfl

/-! ## What a statement selects -/

/-- For every question the compiler accepts, the statement's condition, with its placeholders bound
to the arguments in order, is true of a row exactly when the question was to read the row.  There is
one placeholder for each argument, and every token of the condition is fixed with the dataset. -/
theorem statement_selects {vocabulary : Vocabulary} {platform : Platform} {query : Query}
    {seals : Seals} {compiler : Compiler} {dataset : Dataset} {scope : Scope}
    {asked : Contract.HuntV1.Query} (row : StoredRow vocabulary dataset)
    (agrees : agreesWithVocabulary vocabulary = none)
    (built : compile platform seals vocabulary compiler dataset scope asked = .ok query)
    (named : ∀ after, query.after = some after →
      after.names.length = (huntTables dataset).names.length)
    (no_instants : ∀ filter, query.filter = some filter →
      filter.AsksNoInstants vocabulary dataset) :
    query.after = (if asked.cursor = "" then none
      else decodeCursor seals compiler.key query.fingerprint asked.cursor) ∧
    ∃ clause holds raw,
      statementOf vocabulary query = .ok ⟨(huntTables dataset).columns,
        (huntTables dataset).table, clause,
        (huntTables dataset).instant :: (huntTables dataset).names, query.limit⟩ ∧
      Sql.holds (contextOf row) clause.text clause.arguments = some holds ∧
      (holds = true ↔ Wanted platform row scope asked query.after) ∧
      clause.text.toList.count '?' = clause.arguments.length ∧
      Sql.lex clause.text = some raw ∧
      ∀ token ∈ raw, token.Fixed (fixedNames dataset) fixedValues := by
  obtain ⟨some_tenant, built⟩ := passes_eq_ok.mp built
  obtain ⟨window, ranged, built⟩ := checked_eq_ok.mp built
  obtain ⟨limit, -, built⟩ := checked_eq_ok.mp built
  obtain ⟨⟨filter, left⟩, compiled, built⟩ := checked_eq_ok.mp built
  obtain ⟨after, started, built⟩ := checked_eq_ok.mp built
  obtain rfl := Except.ok.inj built
  obtain ⟨start, stop, range_eq, rfl⟩ := windowOf_eq_ok ranged
  refine ⟨?_, ?_⟩
  · unfold startOf at started
    split at started
    · rename_i no_cursor
      rw [if_pos no_cursor]
      exact (Except.ok.inj started).symm
    · rename_i cursor
      rw [if_neg cursor]
      split at started
      · cases started
      · rename_i found
        rw [found]
        exact (Except.ok.inj started).symm
  · have accepted : ∀ term, filter = some term → term.Accepted platform vocabulary dataset := by
      rintro term rfl
      exact expression_accepted asked.filter compiled
    obtain ⟨clause, holds, written, read, selects⟩ :=
      reads_statement row agrees (by simpa using some_tenant) accepted no_instants named
    obtain ⟨raw, lexed, fixed⟩ := read.fixed
    refine ⟨clause, holds, raw, written, read.holds, selects.trans ?_, read.marks, lexed, fixed⟩
    simp [Query.selects, Wanted, range_eq, ← expression_holds_iff row asked.filter compiled]

theorem statement_selects_turnedAway :
    Wanted plainPlatform plainRow acmeScope turnedAway turnedAwayQuery.after ∧
    ∃ clause holds raw,
      statementOf plainVocabulary turnedAwayQuery = .ok ⟨(huntTables .events).columns,
        (huntTables .events).table, clause,
        (huntTables .events).instant :: (huntTables .events).names, turnedAwayQuery.limit⟩ ∧
      Sql.holds (contextOf plainRow) clause.text clause.arguments = some holds ∧
      (holds = true ↔ Wanted plainPlatform plainRow acmeScope turnedAway turnedAwayQuery.after) ∧
      clause.text.toList.count '?' = clause.arguments.length ∧
      Sql.lex clause.text = some raw ∧
      ∀ token ∈ raw, token.Fixed (fixedNames .events) fixedValues := by
  have agrees : agreesWithVocabulary plainVocabulary = none := by rfl
  have named : ∀ after, turnedAwayQuery.after = some after →
      after.names.length = (huntTables turnedAwayQuery.dataset).names.length := by
    rintro after ⟨⟩
    rfl
  have no_instants : ∀ filter, turnedAwayQuery.filter = some filter →
      filter.AsksNoInstants plainVocabulary turnedAwayQuery.dataset := by
    rintro filter ⟨⟩
    have single : ∀ (asked : Predicate) (held : Held),
        lookup plainVocabulary .events asked.field = some held → held.repeated = true →
          held.kind = .instant → asked.operator = .present := by
      intro asked held declared repeats
      simp [single_of_plain declared] at repeats
    exact ⟨⟨single _, single _, trivial⟩, single _, trivial⟩
  exact ⟨wanted_turnedAway,
    (statement_selects plainRow agrees compile_turnedAway named no_instants).2⟩

end Seagull.Hunt
