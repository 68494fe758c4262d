import Seagull.Detection.Program

/-!
# A compiled rule written back out

What a refusal quotes, and what a ruleset is named by: a comparison as its field, its operator and
its literals, joined as the tree joins them, and the stages of a sequence behind their names.
-/

namespace Seagull.Detection

def Comparison.written (platform : Platform) (compare : Comparison) : String :=
  let literals := compare.literals.map (wrote platform compare.leaf)
  match compare.operator with
  | .present => compare.field ++ " " ++ compare.operator.written
  | .oneOf =>
    compare.field ++ " " ++ compare.operator.written ++ " [" ++
      String.intercalate ", " literals ++ "]"
  | _ => compare.field ++ " " ++ compare.operator.written ++ " " ++ literals.headD ""

mutual

/-- A tree in one line. -/
def Node.written (platform : Platform) : Node → String
  | .comparison compare => compare.written platform
  | .conjunction terms => "(" ++ String.intercalate " and " (Node.writtenAll platform terms) ++ ")"
  | .disjunction terms => "(" ++ String.intercalate " or " (Node.writtenAll platform terms) ++ ")"
  | .negation term => "not " ++ Node.written platform term

def Node.writtenAll (platform : Platform) : List Node → List String
  | [] => []
  | term :: terms => Node.written platform term :: Node.writtenAll platform terms

end

def Staged.written (platform : Platform) (stage : Staged) : String :=
  stage.name ++ ": " ++ stage.root.written platform

/-- The compiled form of a rule in one line. -/
def Program.written (platform : Platform) (program : Program) : String :=
  match program.root with
  | some root => root.written platform
  | none =>
    "[" ++ String.intercalate " then " (program.stages.map (Staged.written platform)) ++ "]"

end Seagull.Detection
