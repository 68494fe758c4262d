import Seagull.Sigma.Translate

/-!
# The grammar of conditions

What a condition is, apart from how it is read: a row of `or` over rows of `and` over factors.  Each
has a value under truth values of the selections, and the tokens it may be written with.
-/

namespace Seagull.Sigma

open Detection

mutual

/-- What `and` joins. -/
inductive Factor where
  | named (name : String)
  /-- All or any of the selections a target stands for. -/
  | quantified (every : Bool) (target : String)
  | not (factor : Factor)
  | brackets (condition : Condition)

/-- Factors joined by `and`. -/
inductive Conjunction where
  | one (factor : Factor)
  | and (factor : Factor) (more : Conjunction)

/-- Conjunctions joined by `or`. -/
inductive Condition where
  | one (terms : Conjunction)
  | or (terms : Conjunction) (more : Condition)

end

/-- Whether a quantifier over a target is over a name: `them` is every selection. -/
def reaches (target name : String) : Bool :=
  equalFold target "them" || Wildcard.fits '*' target.toList name.toList

mutual

def Factor.value (names : List String) (truth : String → Bool) : Factor → Bool
  | .named name => truth name
  | .quantified true target => (names.filter (reaches target)).all truth
  | .quantified false target => (names.filter (reaches target)).any truth
  | .not factor => !factor.value names truth
  | .brackets condition => condition.value names truth

def Conjunction.value (names : List String) (truth : String → Bool) : Conjunction → Bool
  | .one factor => factor.value names truth
  | .and factor more => factor.value names truth && more.value names truth

def Condition.value (names : List String) (truth : String → Bool) : Condition → Bool
  | .one terms => terms.value names truth
  | .or terms more => terms.value names truth || more.value names truth

end

/-- The words that say how many of a set of selections. -/
def Quantity (every : Bool) (word : String) : Prop :=
  if every then equalFold word "all" = true else word = "1" ∨ equalFold word "any" = true

mutual

def Factor.Spelled (names : List String) : Factor → List String → Prop
  | .named name, tokens => tokens = [name] ∧ name ∈ names
  | .quantified every target, tokens =>
    ∃ quantity keyword, tokens = [quantity, keyword, target] ∧ Quantity every quantity ∧
      equalFold keyword "of" = true ∧ target ≠ "" ∧
      (equalFold target "them" = true ∨ ∃ name ∈ names, reaches target name = true)
  | .not factor, tokens =>
    ∃ keyword rest, tokens = keyword :: rest ∧ equalFold keyword "not" = true ∧
      factor.Spelled names rest
  | .brackets condition, tokens =>
    ∃ inner, tokens = "(" :: (inner ++ [")"]) ∧ condition.Spelled names inner

def Conjunction.Spelled (names : List String) : Conjunction → List String → Prop
  | .one factor, tokens => factor.Spelled names tokens
  | .and factor more, tokens =>
    ∃ first keyword rest, tokens = first ++ keyword :: rest ∧ factor.Spelled names first ∧
      equalFold keyword "and" = true ∧ more.Spelled names rest

def Condition.Spelled (names : List String) : Condition → List String → Prop
  | .one terms, tokens => terms.Spelled names tokens
  | .or terms more, tokens =>
    ∃ first keyword rest, tokens = first ++ keyword :: rest ∧ terms.Spelled names first ∧
      equalFold keyword "or" = true ∧ more.Spelled names rest

end

mutual

/-- How deep a factor goes below where it stands. -/
def Factor.depth : Factor → ℕ
  | .named _ | .quantified _ _ => 0
  | .not factor => factor.depth + 1
  | .brackets condition => condition.depth + 1

def Conjunction.deepest : Conjunction → ℕ
  | .one factor => factor.depth
  | .and factor more => max factor.depth more.deepest

/-- How deep a conjunction goes: every factor but the first stands one deeper. -/
def Conjunction.depth : Conjunction → ℕ
  | .one factor => factor.depth
  | .and factor more => max factor.depth (more.deepest + 1)

def Condition.deepest : Condition → ℕ
  | .one terms => terms.depth
  | .or terms more => max terms.depth more.deepest

/-- How deep a condition goes: every conjunction but the first stands one deeper. -/
def Condition.depth : Condition → ℕ
  | .one terms => terms.depth
  | .or terms more => max terms.depth (more.deepest + 1)

end

def isWordLetter (letter : Char) : Bool :=
  letter ∉ [' ', '\t', '\n', '\r', '(', ')', '|', ',', '>', '<', '=', '!']

def Word (token : String) : Prop :=
  token ≠ "" ∧ ∀ letter ∈ token.toList, isWordLetter letter = true

-- Not over every letter there is.
instance (token : String) : Decidable (Word token) :=
  @instDecidableAnd _ _ _ (List.decidableBAll _ _)

/-- A text is words and brackets with blanks around them, at least one between two words. -/
def Writes : List String → List Char → Prop
  | [], text => ∀ letter ∈ text, letter ∈ [' ', '\t', '\n', '\r']
  | token :: tokens, text =>
    ∃ space rest, text = space ++ (token.toList ++ rest) ∧
      (∀ letter ∈ space, letter ∈ [' ', '\t', '\n', '\r']) ∧ Writes tokens rest ∧
      (token = "(" ∨ token = ")" ∨
        Word token ∧ ∀ letter ∈ rest.head?, isWordLetter letter = false)

/-- Selections whose names are words and none of them a keyword, a number or a quantifier. -/
structure Selections.Plain (selections : Selections) : Prop where
  nodup : selections.names.Nodup
  words : ∀ name ∈ selections.names, Word name
  free : ∀ name ∈ selections.names,
    ∀ keyword ∈ ["not", "and", "or", "of", "them", "all", "any"], equalFold name keyword = false
  unnumbered : ∀ name ∈ selections.names, Decimal.parseInt name.toList = none

theorem tokensFrom_cons (built : List Char) (letter : Char) (rest : List Char) :
    tokensFrom built (letter :: rest) =
      if letter ∈ [' ', '\t', '\n', '\r'] then flush built (tokensFrom [] rest)
      else if letter ∈ ['(', ')', '|', ','] then
        flush built (String.ofList [letter] :: tokensFrom [] rest)
      else if letter ∈ ['>', '<', '=', '!'] then
        match rest with
        | '=' :: behind => flush built (String.ofList [letter, '='] :: tokensFrom [] behind)
        | rest => flush built (String.ofList [letter] :: tokensFrom [] rest)
      else tokensFrom (built ++ [letter]) rest :=
  (tokensFrom.eq_def built (letter :: rest)).trans rfl

theorem tokensFrom_space {letters text : List Char}
    (blank : ∀ letter ∈ letters, letter ∈ [' ', '\t', '\n', '\r']) :
    tokensFrom [] (letters ++ text) = tokensFrom [] text := by
  induction letters with
  | nil => rfl
  | cons letter letters ih =>
    obtain ⟨first, later⟩ := List.forall_mem_cons.mp blank
    rw [List.cons_append, tokensFrom_cons, if_pos first, ih later, flush, if_pos rfl]

theorem tokensFrom_word {built letters text : List Char}
    (word : ∀ letter ∈ letters, isWordLetter letter = true) :
    tokensFrom built (letters ++ text) = tokensFrom (built ++ letters) text := by
  induction letters generalizing built with
  | nil => simp
  | cons letter letters ih =>
    obtain ⟨first, later⟩ := List.forall_mem_cons.mp word
    have unseparated : letter ∉ [' ', '\t', '\n', '\r'] ∧ letter ∉ ['(', ')', '|', ','] ∧
        letter ∉ ['>', '<', '=', '!'] := by
      simpa [isWordLetter, and_assoc] using first
    obtain ⟨not_blank, not_mark, not_comparison⟩ := unseparated
    rw [List.cons_append, tokensFrom_cons, if_neg not_blank, if_neg not_mark, if_neg not_comparison,
      ih later, List.append_assoc]
    rfl

theorem tokensFrom_flush {built text : List Char}
    (ends : ∀ letter ∈ text.head?, isWordLetter letter = false) :
    tokensFrom built text = flush built (tokensFrom [] text) := by
  cases text with
  | nil => rfl
  | cons letter text =>
    have separates := ends letter rfl
    simp only [isWordLetter, decide_eq_false_iff_not, not_not] at separates
    rw [tokensFrom_cons, tokensFrom_cons]
    split_ifs with blank mark comparison
    · rfl
    · rfl
    · split <;> rfl
    · simp only [List.mem_cons, List.not_mem_nil, or_false] at blank mark comparison separates
      tauto

theorem tokensFrom_mark {letter : Char} (mark : letter ∈ ['(', ')']) (rest : List Char) :
    tokensFrom [] (letter :: rest) = String.ofList [letter] :: tokensFrom [] rest := by
  simp only [List.mem_cons, List.not_mem_nil, or_false] at mark
  rcases mark with rfl | rfl <;> simp [tokensFrom_cons, flush]

theorem tokensFrom_writes {tokens : List String} {text : List Char}
    (writes : Writes tokens text) : tokensFrom [] text = tokens := by
  induction tokens generalizing text with
  | nil => simpa [tokensFrom, flush] using @tokensFrom_space text [] writes
  | cons token tokens ih =>
    obtain ⟨space, rest, rfl, blank, more, shape⟩ := writes
    rw [tokensFrom_space blank]
    obtain rfl | rfl | ⟨⟨nonempty, word⟩, ends⟩ := shape
    · rw [show "(".toList = ['('] by decide, List.singleton_append,
        tokensFrom_mark List.mem_cons_self, ih more]
    · rw [show ")".toList = [')'] by decide, List.singleton_append,
        tokensFrom_mark (List.mem_cons_of_mem _ List.mem_cons_self), ih more]
    · have letters_ne : token.toList ≠ [] := by simpa using nonempty
      rw [tokensFrom_word word, List.nil_append, tokensFrom_flush ends, ih more, flush,
        if_neg letters_ne, String.ofList_toList]

end Seagull.Sigma
