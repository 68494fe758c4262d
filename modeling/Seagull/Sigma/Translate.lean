import Seagull.Sigma.Condition

/-!
# Translating a Sigma rule

One Sigma document becomes one rule of the platform, as a draft, compiled before it is handed
back.  What is written in the document and not translated refuses it.
-/

namespace Seagull.Sigma

open Detection Text Contract

/-- Where a document could not be translated, and of which rule. -/
structure Refusal where
  rule : String
  part : String
  reason : String

def levels : List (String × Severity) :=
  [("informational", .low), ("low", .low), ("medium", .medium), ("high", .high),
    ("critical", .critical)]

/-- What a Sigma rule is read for. -/
def understood : List String :=
  ["title", "id", "status", "description", "references", "tags", "logsource", "detection",
    "falsepositives", "level"]

/-- What a Sigma rule may say and nothing is made of. -/
def ignored : List String :=
  ["author", "date", "modified", "license", "name", "related", "fields", "scope", "taxonomy"]

def beyond : List (String × String) :=
  [("correlation", "is a Sigma correlation, which is a document naming other rules by their own " ++
      "names; this translates one rule at a time"),
    ("action", "joins several documents into one rule, and a repeated rule read without the one " ++
      "it repeats says less than its author wrote"),
    ("filter", "is a Sigma filter, which suppresses another rule rather than detecting anything: " ++
      "what this platform removes from an alert is tuning, and it is written where alerts are tuned")]

section

variable (platform : Platform) (parseFloat : String → Option Float64)

/-- The letters an id is made of: words joined by `_`. -/
def identifierFrom : (built : List Char) → List Char → List Char
  | built, [] => built
  | built, letter :: rest =>
    if isLower letter || isDigit letter then identifierFrom (built ++ [letter]) rest
    else if built ≠ [] ∧ built.getLast? ≠ some '_' then identifierFrom (built ++ ['_']) rest
    else identifierFrom built rest

def identify (title : String) : Except Fault String :=
  let built := identifierFrom [] (toLower platform title).toList
  let identifier := (built.dropWhile (· = '_')).rdropWhile (· = '_')
  match identifier with
  | first :: _ =>
    if isDigit first then
      .error ⟨"title", "is " ++ quoted platform title ++ ", and the id this build makes of it is " ++
        quoted platform (String.ofList identifier) ++
        ", which is not one a rule can carry: a rule id is lowercase words joined by . or _"⟩
    else .ok (String.ofList identifier)
  | [] =>
    .error ⟨"title", "is " ++ quoted platform title ++ ", and the id this build makes of it is " ++
      quoted platform "" ++
      ", which is not one a rule can carry: a rule id is lowercase words joined by . or _"⟩

def severity (held : Mapping) : Except Fault Severity := do
  let level ← held.words "level" "level"
  match levels.lookup (toLower platform (trimSpace level)) with
  | some severity => return severity
  | none => .error ⟨"level", "is " ++ quoted platform level ++
      ", and how loud a detection is is a decision rather than a default: write informational, " ++
      "low, medium, high or critical"⟩

/-- Where a rule came from. -/
def provenance (held : Mapping) (title : String) : Except Fault Source := do
  let identifier ← held.words "id" "id"
  return ⟨"sigma", if isBlank identifier then title else identifier⟩

/-- What a rule is known to be wrong about. -/
def falsePositives (held : Mapping) : Except Fault String := do
  let entries ← held.list "falsepositives" "falsepositives"
  return String.intercalate "; " ((entries.map trimSpace).filter (· ≠ ""))

/-- What says which events a rule reads. -/
structure Logsource where
  category : String
  product : String
  service : String
  deriving DecidableEq

/-- The log sources that are translated. -/
def logsources : List (Logsource × EventClass) :=
  [(⟨"", "linux", "auth"⟩, .authentication), (⟨"", "linux", "sshd"⟩, .authentication)]

def Logsource.written (source : Logsource) : String :=
  match [("category", source.category), ("product", source.product),
      ("service", source.service)].filter (fun part => part.2 ≠ "") with
  | [] => "no category, product or service"
  | parts => String.intercalate ", " (parts.map fun part => part.1 ++ ": " ++ part.2)

def classOf (source : Logsource) : Except String EventClass :=
  match logsources.lookup source with
  | some eventClass => .ok eventClass
  | none => .error ("is " ++ source.written ++
      ", and this build translates a Sigma rule written for " ++ String.intercalate " or "
        (logsources.map fun known => "\x7b" ++ known.1.written ++ "\x7d"))

def logsource (held : Mapping) : Except Fault EventClass :=
  match held.take "logsource" with
  | none => .error ⟨"logsource", "is missing, and it is what says which events the rule reads"⟩
  | some node =>
    match fieldsOf node with
    | .error refused => .error ⟨"logsource", refused⟩
    | .ok entries => do
        let category ← Mapping.words entries "logsource.category" "category"
        let product ← Mapping.words entries "logsource.product" "product"
        let service ← Mapping.words entries "logsource.service" "service"
        match Mapping.rest entries ["category", "product", "service"] with
        | left :: _ => .error ⟨"logsource." ++ left, "is not part of a log source"⟩
        | [] =>
          match classOf ⟨category, product, service⟩ with
          | .ok eventClass => return eventClass
          | .error reason => .error ⟨"logsource", reason⟩

def units : List (Char × ℤ) :=
  [('s', Duration.second), ('m', 60 * Duration.second), ('h', Duration.hour),
    ('d', 24 * Duration.hour)]

/-- The window a text says: a number and a unit, multiplied in 64 bits. -/
def window (written : String) : Option ℤ := do
  let letters := trimmed written.toList
  let last ← letters.getLast?
  let unit ← units.lookup last.toLower
  let quantity ← Decimal.parseInt letters.dropLast
  if quantity ≤ 0 then none else some ((quantity * unit).bmod (2 ^ 64))

def timeframe (entries : Mapping) : Except Fault ℤ :=
  match entries.take "timeframe" with
  | none => .ok 0
  | some (.scalar _ value _) =>
    match window value with
    | some within => .ok within
    | none => .error ⟨"detection.timeframe", "is " ++ quoted platform value ++
        ", and a window reads like 30s, 15m, 2h or 1d"⟩
  | some _ => .error ⟨"detection.timeframe", "is not a window"⟩

def threshold (reading : Reading) (within : ℤ) : Except Fault Count :=
  if reading.peek = "" then
    if within ≠ 0 then
      .error ⟨"detection.timeframe", "is written and the condition counts nothing, so there is no " ++
        "window for it to scope"⟩
    else .ok .none
  else do
    let count ← aggregation platform reading
    if within = 0 then
      .error ⟨"detection.timeframe", "is missing, and a count is how many events happened inside " ++
        "a window"⟩
    else return { count with within := within }

def selectionsOf : Mapping → Except Fault Selections
  | [] => .ok []
  | (name, node) :: entries => do
      let first ← selection platform parseFloat ("detection." ++ name) node
      let later ← selectionsOf entries
      return (name, first) :: later

def every (names used : List String) : Except Fault Unit :=
  match names.filter (· ∉ used) with
  | [] => .ok ()
  | name :: _ => .error ⟨"detection." ++ name,
      "is written and the condition never names it, so it decides nothing"⟩

def detectionOf (entries : Mapping) : Except Fault (Expression × Count) := do
  let condition ← entries.words "detection.condition" "condition"
  refuse (isBlank condition = true)
    ⟨"detection.condition", "is missing, and it is what puts the selections together"⟩
  let within ← timeframe platform entries
  let selections ← selectionsOf platform parseFloat
    (entries.filter fun entry => entry.1 ∉ ["condition", "timeframe"])
  refuse (selections = [])
    ⟨"detection", "holds a condition and nothing for it to put together"⟩
  let (asks, reading) ← expression platform selections 0 ⟨tokensOf condition, []⟩
  let count ← threshold platform reading within
  every selections.names reading.used
  return (asks, count)

def detection (held : Mapping) : Except Fault (Expression × Count) :=
  match held.take "detection" with
  | none => .error ⟨"detection", "is missing, and it is what the rule looks for"⟩
  | some node =>
    match fieldsOf node with
    | .error refused => .error ⟨"detection", refused⟩
    | .ok entries => detectionOf platform parseFloat entries

/-- What is left of a rule: a status that withdraws it, or a name nothing reads. -/
def left (held : Mapping) : Except Fault Unit := do
  let status ← held.words "status" "status"
  let standing := toLower platform (trimSpace status)
  refuse (standing = "deprecated" ∨ standing = "unsupported")
    ⟨"status", "is " ++ quoted platform standing ++
      ", and importing a rule its own catalogue has withdrawn is importing a decision somebody " ++
      "already made"⟩
  match held.rest (understood ++ ignored) with
  | [] => return ()
  | name :: _ =>
    match beyond.lookup name with
    | some reason => .error ⟨name, reason⟩
    | none => .error ⟨name, "is not part of a Sigma rule this build reads: it reads " ++
        String.intercalate ", " understood⟩

def translateTitled (held : Mapping) (title : String) : Except Fault Rule := do
  let id ← identify platform title
  let description ← held.words "description" "description"
  let severity ← severity platform held
  let source ← provenance held title
  let falsePositives ← falsePositives held
  let tags ← held.list "tags" "tags"
  let references ← held.list "references" "references"
  let eventClass ← logsource held
  let (asks, count) ← detection platform parseFloat held
  left platform held
  return {
    id, revision := 1, name := title, description, eventClass, asks, count, sequence := .none,
    severity, status := .draft, technique := ⟨"", "", ""⟩, falsePositives, response := "", source,
    tags, references }

def Translate (body : Yaml) : Except Refusal Rule :=
  match fieldsOf body with
  | .error refused => .error ⟨"", "", "a Sigma rule " ++ refused⟩
  | .ok held =>
    match held.words "title" "title" with
    | .error fault => .error ⟨"", fault.part, fault.reason⟩
    | .ok title =>
      if isBlank title then
        .error ⟨"", "title", "is missing, and it is what the rule is called here"⟩
      else match translateTitled platform parseFloat held title with
        | .error fault => .error ⟨title, fault.part, fault.reason⟩
        | .ok rule =>
          match rule.compile platform with
          | .error violation => .error ⟨title,
              "the rule this translates into: " ++ violation.part, violation.reason⟩
          | .ok _ => .ok rule

end

end Seagull.Sigma
