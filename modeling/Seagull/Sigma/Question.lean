import Seagull.Foundation.AddressForm
import Seagull.Foundation.Checked
import Seagull.Sigma.Document

/-!
# Sigma questions

A selection asks questions of fields, each under the field's Sigma name and with modifiers behind
it.  A question is translated to a predicate of the rule language on the field of the contract the
name stands for, with its literal in the form the canonical stage gave that field.
-/

namespace Seagull.Sigma

open Detection Text

/-- What the canonical form did to a field before a rule reads it. -/
inductive Holding where
  | folded
  | preserved
  | canonical
  | typed

/-- The field of the contract a Sigma name stands for. -/
structure Mapped where
  field : Field
  holds : Holding

/-- The Sigma names this build understands. -/
def taxonomy : List (String × Mapped) :=
  [("Outcome", ⟨"authentication.outcome", .typed⟩),
    ("Activity", ⟨"authentication.activity", .typed⟩),
    ("AuthenticationPackageName", ⟨"authentication.method", .folded⟩),
    ("TargetUserName", ⟨"authentication.user.name", .preserved⟩),
    ("TargetDomainName", ⟨"authentication.user.domain", .folded⟩),
    ("ServiceName", ⟨"authentication.service.name", .folded⟩),
    ("Protocol", ⟨"authentication.service.protocol", .folded⟩),
    ("SourceIp", ⟨"authentication.network.source.ip", .canonical⟩),
    ("SourcePort", ⟨"authentication.network.source.port", .typed⟩),
    ("DestinationIp", ⟨"authentication.network.destination.ip", .canonical⟩),
    ("DestinationPort", ⟨"authentication.network.destination.port", .typed⟩),
    ("Transport", ⟨"authentication.network.transport", .typed⟩),
    ("Computer", ⟨"origin.host.hostname", .folded⟩)]

def fieldsNamed : String :=
  String.intercalate ", " ((taxonomy.map Prod.fst).insertionSort (· ≤ ·))

def comparators : List (String × Operator) :=
  [("contains", .contains), ("startswith", .startsWith), ("endswith", .endsWith), ("lt", .below),
    ("lte", .atMost), ("gt", .above), ("gte", .atLeast)]

def reencoded : String :=
  "compares against an encoding of the value, and a rule here reads the record the platform " ++
    "normalised rather than a re-encoding of it"

def timed : String :=
  "reads a part of a timestamp, and time is not addressable by a rule: a window is not a predicate"

/-- The modifiers that are known and not translated, and why. -/
def untranslatable : List (String × String) :=
  [("re", "matches a regular expression, and the rule language has no pattern operator on " ++
      "purpose: a pattern makes evaluation cost something a rule author sets and the platform pays"),
    ("cidr", "matches a network range, and the rule language compares text and numbers; the " ++
      "prefix of an address is written as a wildcard"),
    ("base64", reencoded), ("base64offset", reencoded), ("utf16", reencoded),
    ("utf16le", reencoded), ("utf16be", reencoded), ("wide", reencoded),
    ("windash", "expands one value into several spellings of a Windows command line, and this " ++
      "platform carries no command line"),
    ("expand", "resolves a placeholder from a backend's own configuration, and nothing here " ++
      "holds one"),
    ("fieldref", "compares one field against another, and every question the rule language asks " ++
      "is about one field and a literal"),
    ("minute", timed), ("hour", timed), ("day", timed), ("week", timed), ("month", timed),
    ("year", timed)]

/-- What a question asks, from its name and its modifiers. -/
structure Asked where
  held : Mapped
  kind : Kind
  operator : Option Operator
  cased : Bool
  all : Bool
  there : Bool

def modified (part : String) (question : Asked) (modifier : String) : Except Fault Asked :=
  if modifier = "all" then .ok { question with all := true }
  else if modifier = "cased" then .ok { question with cased := true }
  else if modifier = "exists" then .ok { question with there := true }
  else match comparators.lookup modifier with
    | some operator =>
      match question.operator with
      | some earlier => .error ⟨part, "asks " ++ earlier.written ++ " and " ++ operator.written ++
          " at once, and a question asks one thing"⟩
      | none => .ok { question with operator := some operator }
    | none =>
      match untranslatable.lookup modifier with
      | some reason => .error ⟨part, "is written |" ++ modifier ++ ", which " ++ reason⟩
      | none => .error ⟨part, "is written |" ++ modifier ++
          ", which is not a Sigma modifier this build reads"⟩

/-- Whether every value of a list can be asked at once. -/
def together : Option Operator → Bool
  | none | some .contains | some .startsWith | some .endsWith => true
  | some _ => false

def modifiers (part : String) (written : List Char) (question : Asked) : Except Fault Asked :=
  if written = [] then .ok question
  else do
    let question ← ((written.splitOn '|').map String.ofList).foldlM (modified part) question
    refuse (question.there = true ∧
        (question.all = true ∨ question.cased = true ∨ question.operator ≠ none))
      ⟨part, "asks whether the field is there and asks something of its value at the same time"⟩
    refuse (question.all = true ∧ together question.operator = false)
      ⟨part, "asks |all of " ++ ((question.operator.map Operator.written).getD "") ++
        ", and every value of a field can only hold together for contains, startswith and " ++
        "endswith"⟩
    return question

/-- A value without its escapes, behind its first letter, and whether it ends in a wildcard. -/
def globTail : List Char → Option (List Char × Bool)
  | [] => some ([], false)
  | ['\\'] => some (['\\'], false)
  | '\\' :: escaped :: rest =>
    (globTail rest).map fun (literal, trailing) =>
      ((if escaped = '*' ∨ escaped = '?' ∨ escaped = '\\' then [escaped] else ['\\', escaped]) ++
        literal, trailing)
  | ['*'] => some ([], true)
  | letter :: rest =>
    if letter = '*' ∨ letter = '?' then none
    else (globTail rest).map fun (literal, trailing) => (letter :: literal, trailing)

/-- A value without its escapes, and whether a wildcard starts or ends it. -/
def glob : List Char → Option (List Char × Bool × Bool)
  | '*' :: rest => (globTail rest).map fun (literal, trailing) => (literal, true, trailing)
  | value => (globTail value).map fun (literal, trailing) => (literal, false, trailing)

def address (literal : String) : String :=
  match Address.parse (trimmed literal.toList) with
  | none => trimSpace literal
  | some parsed => String.ofList parsed.unmap.form

section

variable (platform : Platform) (parseFloat : String → Option Float64)

def pattern (part : String) (question : Asked) (value : String) :
    Except Fault (Operator × String) :=
  match glob value.toList with
  | none => .error ⟨part, "is compared against " ++ quoted platform value ++
      ", and a wildcard is read only at the start or the end of a value: the rule language has " ++
      "no pattern operator"⟩
  | some (literal, leading, trailing) =>
    match question.operator with
    | some operator =>
      if leading || trailing then
        .error ⟨part, "is asked " ++ operator.written ++ " of " ++ quoted platform value ++
          ", which says how to match twice"⟩
      else if isBlank (String.ofList literal) then
        .error ⟨part, "is compared against " ++ quoted platform value ++
          ", which every event carrying the field answers"⟩
      else .ok (operator, String.ofList literal)
    | none =>
      if isBlank (String.ofList literal) then
        .error ⟨part, "is compared against " ++ quoted platform value ++
          ", which every event carrying the field answers"⟩
      else
        .ok ((match leading, trailing with
          | true, true => .contains
          | true, false => .endsWith
          | false, true => .startsWith
          | false, false => .equals), String.ofList literal)

/-- A literal in the form the canonical stage gave the field. -/
def written (part : String) (question : Asked) (operator : Operator) (literal : String) :
    Except Fault String :=
  let choices := String.intercalate ", " (choicesOf platform question.held.field)
  if question.kind = .choice then
    if question.cased then
      .error ⟨part, "is written |cased and is one of " ++ choices ++
        ", which the contract declares and an event does not spell"⟩
    else .ok (toLower platform (trimSpace literal))
  else match question.held.holds with
    | .preserved =>
      if question.cased then .ok literal
      else .error ⟨part, "compares without case, and the canonical form keeps the case of " ++
        question.held.field ++ " on purpose, so a translation of this could only match less " ++
        "than the rule says: write |cased to compare it as this platform stores it"⟩
    | .canonical =>
      if question.cased then
        .error ⟨part, "is written |cased, and " ++ question.held.field ++
          " is rewritten to one text form for every address, so case is not something an event " ++
          "holds in it"⟩
      else if operator = .equals then .ok (address literal)
      else .ok literal
    | .typed =>
      if question.cased then
        .error ⟨part, "is written |cased, and " ++ question.held.field ++ " holds " ++
          question.kind.written⟩
      else .ok literal
    | .folded =>
      if question.cased then
        .error ⟨part, "is written |cased, and the canonical form folded " ++
          question.held.field ++ " before a rule reads it, so a comparison that kept case " ++
          "could never hold"⟩
      else .ok (toLower platform (trimSpace literal))

def textTerm (part : String) (question : Asked) (value : String) : Except Fault Expression := do
  let choices := String.intercalate ", " (choicesOf platform question.held.field)
  refuse (question.kind = .choice ∧ question.operator ≠ none)
    ⟨part, "is one of " ++ choices ++ ", and " ++
      ((question.operator.map Operator.written).getD "") ++ " does not ask that"⟩
  let (operator, literal) ← pattern platform part question value
  let literal ← written platform part question operator literal
  return .predicate question.held.field operator [.text literal]

def term (part : String) (question : Asked) : Yaml → Except Fault Expression
  | .scalar tag value truth =>
    if tag = "!!null" then
      .error ⟨part, "is compared against something that is not a value"⟩
    else match question.kind with
      | .number =>
        match parseFloat (trimSpace value) with
        | none => .error ⟨part, "holds a number and is compared against " ++
            quoted platform value⟩
        | some number => .ok (.predicate question.held.field
            (question.operator.getD .equals) [.number number])
      | .truth =>
        match truth with
        | some truth =>
          if tag = "!!bool" ∧ question.operator = none then
            .ok (.predicate question.held.field .equals [.truth truth])
          else
            .error ⟨part, "holds true or false and is compared against something else"⟩
        | none => .error ⟨part, "holds true or false and is compared against something else"⟩
      | .text | .choice => textTerm platform part question value
  | _ => .error ⟨part, "is compared against something that is not a value"⟩

def plainValue (part : String) (question : Asked) (item : Yaml) : Option Value :=
  match term platform parseFloat part question item.resolve with
  | .ok (.predicate _ .equals (value :: _)) => some value
  | _ => none

def oneOf (part : String) (question : Asked) (items : List Yaml) : Option Expression :=
  if question.all = true ∨ question.operator ≠ none ∨ question.kind = .truth then none
  else (items.mapM (plainValue platform parseFloat part question)).map
    (.predicate question.held.field .oneOf ·)

def termsFrom (part : String) (question : Asked) : ℕ → List Yaml → Except Fault (List Expression)
  | _, [] => .ok []
  | index, item :: items => do
      let first ← term platform parseFloat (indexed part index) question item.resolve
      let later ← termsFrom part question (index + 1) items
      return first :: later

def presence (part : String) (question : Asked) : Yaml → Except Fault Expression
  | .scalar tag _ (some there) =>
    if tag ≠ "!!bool" then .error ⟨part, "is written |exists and reads true or false"⟩
    else if there then .ok (.predicate question.held.field .present [])
    else .ok (.not (.predicate question.held.field .present []))
  | _ => .error ⟨part, "is written |exists and reads true or false"⟩

def compared (part : String) (question : Asked) (node : Yaml) : Except Fault Expression :=
  if question.there then presence part question node
  else match node with
    | .scalar tag value truth =>
      if tag = "!!null" then .ok (.not (.predicate question.held.field .present []))
      else term platform parseFloat part question (.scalar tag value truth)
    | .sequence [] =>
      .error ⟨part, "is compared against an empty list, which no event answers"⟩
    | .sequence items =>
      match oneOf platform parseFloat part question items with
      | some listed => .ok listed
      | none => (termsFrom platform parseFloat part question 0 items).map
          (if question.all then .all else .any)
    | _ => .error ⟨part, "is compared against neither a value nor a list of values"⟩

/-- A Sigma name with modifiers, and what its field is compared against. -/
def question (part key : String) (node : Yaml) : Except Fault Expression :=
  let name := String.ofList (key.toList.takeWhile (· ≠ '|'))
  match taxonomy.lookup name with
  | none => .error ⟨part, "names " ++ quoted platform name ++
      ", which this build does not translate: it reads " ++ fieldsNamed⟩
  | some held =>
    match kindOf held.field with
    | none => .error ⟨part, "stands for " ++ quoted platform held.field ++
        ", which the contract no longer declares"⟩
    | some kind => do
        let asked ← modifiers part (key.toList.dropWhile (· ≠ '|')).tail
          ⟨held, kind, none, false, false, false⟩
        compared platform parseFloat part asked node

def questionsFrom (part : String) : Mapping → Except Fault (List Expression)
  | [] => .ok []
  | (key, value) :: entries => do
      let first ← question platform parseFloat (part ++ "." ++ key) key value.resolve
      let later ← questionsFrom part entries
      return first :: later

def questions (part : String) (node : Yaml) : Except Fault Expression :=
  match fieldsOf node with
  | .error refused => .error ⟨part, refused⟩
  | .ok [] => .error ⟨part, "asks nothing of an event"⟩
  | .ok held => do
      match ← questionsFrom platform parseFloat part held with
      | [term] => return term
      | terms => return .all terms

def alternativesFrom (part : String) : ℕ → List Yaml → Except Fault (List Expression)
  | _, [] => .ok []
  | index, item :: items =>
    match item.resolve with
    | .mapping entries => do
        let first ← questions platform parseFloat (indexed part index) (.mapping entries)
        let later ← alternativesFrom part (index + 1) items
        return first :: later
    | _ => .error ⟨indexed part index, "is a value rather than a map of fields: a keyword " ++
        "searches a whole record, and a rule here asks about named fields"⟩

/-- A part of a detection: a map is every question in it, a list of maps any. -/
def selection (part : String) (node : Yaml) : Except Fault Expression :=
  match node.resolve with
  | .mapping entries => questions platform parseFloat part (.mapping entries)
  | .sequence [] => .error ⟨part, "is an empty list, so it says nothing about an event"⟩
  | .sequence items => (alternativesFrom platform parseFloat part 0 items).map .any
  | _ => .error ⟨part, "is neither a map of fields nor a list of them"⟩

end

end Seagull.Sigma
