import Seagull.Detection.Compile

/-!
# Sigma documents

A Sigma rule is a document of mappings, lists and scalars.  What the decoder makes of the bytes is
where this starts; positions in the file go into no decision and are left out.
-/

namespace Seagull.Sigma

open Detection Text

/-- A node of a document.  A key of a mapping stands for its text. -/
inductive Yaml where
  /-- A scalar, its tag, and what it reads as where true or false is asked for. -/
  | scalar (tag value : String) (truth : Option Bool)
  | sequence (items : List Yaml)
  | mapping (entries : List (String × Yaml))
  | aliased (target : Yaml)

def Yaml.text (value : String) : Yaml := .scalar "!!str" value none

def Yaml.resolveWithin : ℕ → Yaml → Yaml
  | depth + 1, .aliased target => Yaml.resolveWithin depth target
  | _, node => node

/-- An alias stands for the node it was anchored to. -/
def Yaml.resolve (node : Yaml) : Yaml := node.resolveWithin maxDepth

/-- Where a document could not be translated, and why. -/
structure Fault where
  part : String
  reason : String
  deriving DecidableEq

/-- The entries of a mapping, in order and no two of one name. -/
abbrev Mapping := List (String × Yaml)

/-- The first name written a second time. -/
def saidTwice : List String → List String → Option String
  | _, [] => none
  | said, name :: names => if name ∈ said then some name else saidTwice (name :: said) names

def fieldsOf (node : Yaml) : Except String Mapping :=
  match node.resolve with
  | .mapping entries =>
    match saidTwice [] (entries.map Prod.fst) with
    | some name => .error ("says " ++ name ++ " twice")
    | none => .ok entries
  | _ => .error "is not a mapping"

namespace Mapping

def take (held : Mapping) (name : String) : Option Yaml := (held.lookup name).map Yaml.resolve

/-- The names left when some were taken, in the order they are written. -/
def rest (held : Mapping) (taken : List String) : List String :=
  (held.map Prod.fst).filter (· ∉ taken)

def words (held : Mapping) (part name : String) : Except Fault String :=
  match held.take name with
  | none => .ok ""
  | some (.scalar tag value _) => if tag = "!!str" then .ok value else .error ⟨part, "is not text"⟩
  | some _ => .error ⟨part, "is not text"⟩

def textsFrom (part : String) : ℕ → List Yaml → Except Fault (List String)
  | _, [] => .ok []
  | index, item :: items =>
    match item.resolve with
    | .scalar tag value _ =>
      if tag = "!!str" then (textsFrom part (index + 1) items).map (value :: ·)
      else .error ⟨indexed part index, "is not text"⟩
    | _ => .error ⟨indexed part index, "is not text"⟩

/-- The texts under a name, where a list of one may be the text alone. -/
def list (held : Mapping) (part name : String) : Except Fault (List String) :=
  match held.take name with
  | none => .ok []
  | some (.scalar tag value _) =>
    if tag = "!!str" then .ok [value] else .error ⟨part, "is neither text nor a list of text"⟩
  | some (.sequence items) => textsFrom part 0 items
  | some _ => .error ⟨part, "is neither text nor a list of text"⟩

end Mapping

/-- `strings.ToLower`. -/
def toLower (platform : Platform) (text : String) : String :=
  String.ofList (text.toList.map platform.toLower)

def quoted (platform : Platform) (text : String) : String := Quote.quote platform.isPrint text

end Seagull.Sigma
