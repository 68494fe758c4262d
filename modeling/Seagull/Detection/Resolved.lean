import Seagull.Detection.Compile

/-!
# Compiled trees

What compilation leaves of a rule: a tree of comparisons, each with the leaf its field names and
literals in the type of the leaf.  What the engine decides is the value of the tree.
-/

namespace Seagull.Detection

open Contract

mutual

def Node.comparisons : Node → List Comparison
  | .comparison compare => [compare]
  | .conjunction terms | .disjunction terms => Node.comparisonsAll terms
  | .negation term => Node.comparisons term

def Node.comparisonsAll : List Node → List Comparison
  | [] => []
  | term :: terms => Node.comparisons term ++ Node.comparisonsAll terms

end

mutual

def Node.value (answer : Comparison → Bool) : Node → Bool
  | .comparison compare => answer compare
  | .conjunction terms => Node.valueAll answer terms
  | .disjunction terms => Node.valueAny answer terms
  | .negation term => !Node.value answer term

def Node.valueAll (answer : Comparison → Bool) : List Node → Bool
  | [] => true
  | term :: terms => Node.value answer term && Node.valueAll answer terms

def Node.valueAny (answer : Comparison → Bool) : List Node → Bool
  | [] => false
  | term :: terms => Node.value answer term || Node.valueAny answer terms

end

def answerOf (record : Event) (compare : Comparison) : Bool :=
  compare.answered (read record compare.leaf)

mutual

theorem Node.holds_fst (platform : Platform) (record : Event) : (node : Node) →
    ∀ negated into, (node.holds platform record negated into).1 = node.value (answerOf record)
  | .comparison compare => fun _ _ => rfl
  | .conjunction terms => fun negated into => by
    rw [Node.holds, Node.value, Node.holdsAll_fst platform record terms]
  | .disjunction terms => fun negated into => by
    rw [Node.holds, Node.value, Node.holdsAny_fst platform record terms]
  | .negation term => fun negated into => by
    rw [Node.holds, Node.value, Node.holds_fst platform record term]

theorem Node.holdsAll_fst (platform : Platform) (record : Event) : (terms : List Node) →
    ∀ negated into, (Node.holdsAll platform record terms negated into).1 =
      Node.valueAll (answerOf record) terms
  | [] => fun _ _ => rfl
  | term :: terms => fun negated into => by
    rw [Node.holdsAll, Node.valueAll, Node.holds_fst platform record term]
    split_ifs with first
    · rw [Node.holdsAll_fst platform record terms, first, Bool.true_and]
    · simp [first]

theorem Node.holdsAny_fst (platform : Platform) (record : Event) : (terms : List Node) →
    ∀ negated mark into, (Node.holdsAny platform record terms negated mark into).1 =
      Node.valueAny (answerOf record) terms
  | [] => fun _ _ _ => rfl
  | term :: terms => fun negated mark into => by
    rw [Node.holdsAny, Node.valueAny, Node.holds_fst platform record term]
    split_ifs with first
    · simp [first]
    · rw [Node.holdsAny_fst platform record terms, eq_false_of_ne_true first, Bool.false_or]

end

def Leaf.Takes (platform : Platform) (leaf : Leaf) (literal : Scalar) : Prop :=
  match leaf.type, literal with
  | .string, .text _ => True
  | .enum enumeration, .choice number => ∃ name, (enumeration platform).numberOf name = some number
  | .uint32, .number number | .uint64, .number number => number ≤ exactly
  | _, _ => False

/-- A comparison whose field is resolved to a leaf that holds its literals. -/
structure Comparison.Resolved (platform : Platform) (compare : Comparison) : Prop where
  leaf_eq : pathOf compare.field = some compare.leaf
  known : compare.operator.known = true
  asks : compare.operator.asks compare.leaf.kind = true
  enough : compare.operator.takes.1 ≤ compare.literals.length
  few : 0 < compare.operator.takes.2 → compare.literals.length ≤ compare.operator.takes.2
  literals : ∀ literal ∈ compare.literals, compare.leaf.Takes platform literal

variable {platform : Platform}

theorem wholeNumber_eq_ok {value : Value} {high : ℕ} {literal : Scalar}
    (resolved : wholeNumber platform value high = .ok literal) :
    ∃ number ≤ high, literal = .number number := by
  unfold wholeNumber at resolved
  split at resolved
  · rename_i number number_eq
    split_ifs at resolved with whole outside
    obtain rfl := Except.ok.inj resolved
    rw [not_or, not_lt, not_lt] at outside
    refine ⟨_, ?_, rfl⟩
    have integral : (number.num : ℚ) = number := Rat.coe_int_num_of_den_eq_one whole
    have bounded : (number.num : ℚ) ≤ (high : ℤ) := by
      rw [integral]
      exact_mod_cast outside.2
    have small : number.num ≤ high := by exact_mod_cast bounded
    omega
  · cases resolved

theorem literalOf_takes {leaf : Leaf} {value : Value} {literal : Scalar}
    (resolved : literalOf platform value leaf = .ok literal) : leaf.Takes platform literal := by
  unfold literalOf at resolved
  unfold Leaf.Takes
  split at resolved
  · rename_i type_eq
    cases resolved
    simp [type_eq]
  · rename_i enumeration type_eq
    split at resolved
    · rename_i number number_eq
      cases resolved
      simpa [type_eq] using ⟨_, number_eq⟩
    · cases resolved
  · rename_i type_eq
    obtain ⟨number, small, rfl⟩ := wholeNumber_eq_ok resolved
    simpa [type_eq] using small.trans (by decide : 2 ^ 32 - 1 ≤ exactly)
  · rename_i type_eq
    obtain ⟨number, small, rfl⟩ := wholeNumber_eq_ok resolved
    simpa [type_eq] using small

theorem literalsOf_takes {leaf : Leaf} {values : List Value} {literals : List Scalar}
    (resolved : literalsOf platform leaf values = .ok literals) :
    literals.length = values.length ∧ ∀ literal ∈ literals, leaf.Takes platform literal := by
  induction values generalizing literals with
  | nil =>
    cases resolved
    exact ⟨rfl, List.forall_mem_nil _⟩
  | cons value values ih =>
    rw [literalsOf] at resolved
    split at resolved
    · cases resolved
    · rename_i literal literal_eq
      split at resolved
      · cases resolved
      · rename_i rest rest_eq
        cases resolved
        obtain ⟨same_length, takes⟩ := ih rest_eq
        exact ⟨by simp [same_length],
          List.forall_mem_cons.mpr ⟨literalOf_takes literal_eq, takes⟩⟩

variable {rule : Rule}

theorem compareOn_resolved {place : String} {field : Field} {operator : Operator}
    {values : List Value} {kind : Kind} {node : Node}
    (asked : WellAsked platform rule.eventClass field operator values kind)
    (compiled : rule.compareOn platform place field operator values = .ok node) :
    ∀ compare ∈ node.comparisons, compare.Resolved platform := by
  rw [Rule.compareOn] at compiled
  split at compiled
  · cases compiled
  · rename_i leaf leaf_eq
    split at compiled
    · cases compiled
    · rename_i literals literals_eq
      cases compiled
      obtain ⟨same_length, takes⟩ := literalsOf_takes literals_eq
      have kind_eq : leaf.kind = kind := by
        have declared := asked.declared
        rw [kindOf, leaf_eq] at declared
        exact Option.some.inj declared
      intro compare among
      obtain rfl := List.mem_singleton.mp among
      exact {
        leaf_eq := leaf_eq
        known := asked.known
        asks := by rw [kind_eq]; exact asked.asks
        enough := by rw [same_length]; exact asked.enough
        few := by rw [same_length]; exact asked.few
        literals := takes }

mutual

theorem compileExpression_resolved {platform : Platform} {rule : Rule} :
    (expression : Expression) → ∀ part depth node,
      WellFormed platform rule.eventClass expression depth →
      rule.compileExpression platform part expression = .ok node →
      ∀ compare ∈ node.comparisons, compare.Resolved platform
  | .predicate field operator values => fun part depth node formed compiled => by
    cases formed with
    | predicate shallow kind asked => exact compareOn_resolved asked compiled
  | .not term => fun part depth node formed compiled => by
    rw [Rule.compileExpression] at compiled
    cases formed with
    | not shallow inner =>
      split at compiled
      · cases compiled
      · rename_i inner_node inner_eq
        cases compiled
        exact compileExpression_resolved term _ _ inner_node inner inner_eq
  | .all terms => fun part depth node formed compiled => by
    rw [Rule.compileExpression] at compiled
    cases formed with
    | all shallow nonempty each =>
      split at compiled
      · cases compiled
      · rename_i nodes nodes_eq
        cases compiled
        exact compileTerms_resolved terms _ _ _ _ each nodes_eq
  | .any terms => fun part depth node formed compiled => by
    rw [Rule.compileExpression] at compiled
    cases formed with
    | any shallow nonempty each =>
      split at compiled
      · cases compiled
      · rename_i nodes nodes_eq
        cases compiled
        exact compileTerms_resolved terms _ _ _ _ each nodes_eq
  | .absent => fun part depth node formed compiled => by cases compiled

theorem compileTerms_resolved {platform : Platform} {rule : Rule} :
    (terms : List Expression) → ∀ part index depth nodes,
      (∀ term ∈ terms, WellFormed platform rule.eventClass term depth) →
      rule.compileTerms platform part index terms = .ok nodes →
      ∀ compare ∈ Node.comparisonsAll nodes, compare.Resolved platform
  | [] => fun part index depth nodes each compiled => by
    cases compiled
    exact List.forall_mem_nil _
  | term :: terms => fun part index depth nodes each compiled => by
    obtain ⟨first, later⟩ := List.forall_mem_cons.mp each
    rw [Rule.compileTerms] at compiled
    split at compiled
    · cases compiled
    · rename_i node node_eq
      split at compiled
      · cases compiled
      · rename_i rest rest_eq
        cases compiled
        rw [Node.comparisonsAll]
        exact List.forall_mem_append.mpr
          ⟨compileExpression_resolved term _ _ _ first node_eq,
            compileTerms_resolved terms _ _ _ _ later rest_eq⟩

end

theorem compileSatisfiable_resolved {part : String} {expression : Expression} {node : Node}
    (formed : WellFormed platform rule.eventClass expression 0)
    (compiled : rule.compileSatisfiable platform part expression = .ok node) :
    ∀ compare ∈ node.comparisons, compare.Resolved platform := by
  rw [Rule.compileSatisfiable] at compiled
  split at compiled
  · cases compiled
  · rename_i root root_eq
    split at compiled
    · cases compiled
    · cases compiled
      exact compileExpression_resolved expression _ _ _ formed root_eq

theorem compileStages_resolved {stages : List Stage}
    (formed : ∀ stage ∈ stages, WellFormed platform rule.eventClass stage.asks 0) {index : ℕ}
    {staged : List Staged} (compiled : rule.compileStages platform index stages = .ok staged) :
    ∀ stage ∈ staged, ∀ compare ∈ stage.root.comparisons, compare.Resolved platform := by
  induction stages generalizing index staged with
  | nil =>
    cases compiled
    exact List.forall_mem_nil _
  | cons stage stages ih =>
    obtain ⟨first, later⟩ := List.forall_mem_cons.mp formed
    rw [Rule.compileStages] at compiled
    split at compiled
    · cases compiled
    · rename_i root root_eq
      split at compiled
      · cases compiled
      · rename_i rest rest_eq
        cases compiled
        exact List.forall_mem_cons.mpr
          ⟨compileSatisfiable_resolved first root_eq, ih later rest_eq⟩

theorem Rule.Compiles.resolved {program : Program} (compiles : rule.Compiles platform program) :
    (∀ root ∈ program.root, ∀ compare ∈ root.comparisons, compare.Resolved platform) ∧
      ∀ stage ∈ program.stages, ∀ compare ∈ stage.root.comparisons, compare.Resolved platform := by
  have matching := compiles.matching
  rw [Rule.compileMatching] at matching
  split_ifs at matching with correlates
  · split at matching
    · cases matching
    · rename_i staged staged_eq
      obtain ⟨root_eq, stages_eq⟩ := Prod.mk.inj (Except.ok.inj matching)
      rw [← root_eq, ← stages_eq]
      exact ⟨by simp, compileStages_resolved (compiles.accepted.sequence correlates).asked staged_eq⟩
  · split at matching
    · cases matching
    · rename_i root root_eq
      obtain ⟨root_is, stages_eq⟩ := Prod.mk.inj (Except.ok.inj matching)
      rw [← root_is, ← stages_eq]
      have formed := compiles.accepted.asked (eq_false_of_ne_true correlates)
      exact ⟨fun found is_root => by
        obtain rfl := Option.some.inj is_root
        exact compileSatisfiable_resolved formed root_eq, List.forall_mem_nil _⟩

end Seagull.Detection
