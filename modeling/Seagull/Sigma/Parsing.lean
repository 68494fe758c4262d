import Seagull.Sigma.Grammar

/-!
# Reading conditions

What the parser takes from its tokens is a condition that is not too deep, and it takes every such
condition that what follows does not carry on.  What it builds has the value of the condition.
-/

namespace Seagull.Sigma

open Detection

variable {platform : Platform} {selections : Selections}

/-! ## What is built -/

def Selections.reached (selections : Selections) (target : String) : Selections :=
  selections.filter fun selection => reaches target selection.1

mutual

def Factor.build (selections : Selections) : Factor → Expression
  | .named name => (selections.lookup name).getD .absent
  | .quantified every target =>
    collapse (if every then .all else .any) ((selections.reached target).map Prod.snd)
  | .not factor => .not (factor.build selections)
  | .brackets condition => collapse .any (condition.terms selections)

def Conjunction.terms (selections : Selections) : Conjunction → List Expression
  | .one factor => [factor.build selections]
  | .and factor more => factor.build selections :: more.terms selections

def Condition.terms (selections : Selections) : Condition → List Expression
  | .one terms => [collapse .all (terms.terms selections)]
  | .or terms more => collapse .all (terms.terms selections) :: more.terms selections

end

def Conjunction.build (selections : Selections) (terms : Conjunction) : Expression :=
  collapse .all (terms.terms selections)

def Condition.build (selections : Selections) (condition : Condition) : Expression :=
  collapse .any (condition.terms selections)

mutual

def valueOf (holds : Field → Operator → List Value → Bool) : Expression → Bool
  | .predicate field operator values => holds field operator values
  | .all terms => valueOfAll holds terms
  | .any terms => valueOfAny holds terms
  | .not term => !valueOf holds term
  | .absent => false

def valueOfAll (holds : Field → Operator → List Value → Bool) : List Expression → Bool
  | [] => true
  | term :: terms => valueOf holds term && valueOfAll holds terms

def valueOfAny (holds : Field → Operator → List Value → Bool) : List Expression → Bool
  | [] => false
  | term :: terms => valueOf holds term || valueOfAny holds terms

end

section Value

variable {holds : Field → Operator → List Value → Bool} {terms : List Expression}

theorem valueOfAll_eq :
    valueOfAll holds terms = terms.all (valueOf holds) := by
  induction terms with
  | nil => rfl
  | cons term terms ih => simp [valueOfAll, ih]

theorem valueOfAny_eq :
    valueOfAny holds terms = terms.any (valueOf holds) := by
  induction terms with
  | nil => rfl
  | cons term terms ih => simp [valueOfAny, ih]

@[simp]
theorem valueOf_collapse_all :
    valueOf holds (collapse .all terms) = terms.all (valueOf holds) := by
  unfold collapse
  split
  · simp
  · rw [valueOf, valueOfAll_eq]

@[simp]
theorem valueOf_collapse_any :
    valueOf holds (collapse .any terms) = terms.any (valueOf holds) := by
  unfold collapse
  split
  · simp
  · rw [valueOf, valueOfAny_eq]

def truthOf (holds : Field → Operator → List Value → Bool) (selections : Selections)
    (name : String) : Bool :=
  valueOf holds ((selections.lookup name).getD .absent)

theorem truthOf_of_mem (nodup : selections.names.Nodup) {selection : String × Expression}
    (declared : selection ∈ selections) :
    truthOf holds selections selection.1 = valueOf holds selection.2 := by
  obtain ⟨front, back, rfl⟩ := List.append_of_mem declared
  have found : (front ++ selection :: back).lookup selection.1 = some selection.2 := by
    refine List.lookup_eq_some_iff.mpr ⟨front, back, rfl, fun earlier among => ?_⟩
    rw [Selections.names, List.map_append, List.map_cons] at nodup
    have apart := List.disjoint_of_nodup_append nodup (List.mem_map_of_mem among)
    exact bne_iff_ne.mpr fun same => apart (same ▸ List.mem_cons_self)
  rw [truthOf, found]
  rfl

theorem map_reached_truthOf (holds : Field → Operator → List Value → Bool)
    (nodup : selections.names.Nodup) (target : String) :
    (selections.names.filter (reaches target)).map (truthOf holds selections) =
      ((selections.reached target).map Prod.snd).map (valueOf holds) := by
  rw [Selections.names, List.filter_map, List.map_map, List.map_map]
  refine List.map_congr_left fun selection among => ?_
  exact truthOf_of_mem nodup (List.mem_of_mem_filter among)

mutual

theorem Factor.valueOf_build (nodup : selections.names.Nodup) : (factor : Factor) →
    valueOf holds (factor.build selections) =
      factor.value selections.names (truthOf holds selections)
  | .named name => rfl
  | .quantified true target => by
    have same := congrArg (List.all · id) (map_reached_truthOf holds nodup target)
    simpa [Factor.build, Factor.value, List.all_map] using same.symm
  | .quantified false target => by
    have same := congrArg (List.any · id) (map_reached_truthOf holds nodup target)
    simpa [Factor.build, Factor.value, List.any_map] using same.symm
  | .not factor => by
    rw [Factor.build, Factor.value, valueOf, Factor.valueOf_build nodup factor]
  | .brackets condition => by
    rw [Factor.build, Factor.value, valueOf_collapse_any,
      Condition.any_valueOf_terms nodup condition]

theorem Conjunction.all_valueOf_terms (nodup : selections.names.Nodup) : (terms : Conjunction) →
    (terms.terms selections).all (valueOf holds) =
      terms.value selections.names (truthOf holds selections)
  | .one factor => by
    simp [Conjunction.terms, Conjunction.value, Factor.valueOf_build nodup factor]
  | .and factor more => by
    simp [Conjunction.terms, Conjunction.value, Factor.valueOf_build nodup factor,
      Conjunction.all_valueOf_terms nodup more]

theorem Condition.any_valueOf_terms (nodup : selections.names.Nodup) : (condition : Condition) →
    (condition.terms selections).any (valueOf holds) =
      condition.value selections.names (truthOf holds selections)
  | .one terms => by
    simp [Condition.terms, Condition.value, Conjunction.all_valueOf_terms nodup terms]
  | .or terms more => by
    simp [Condition.terms, Condition.value, Conjunction.all_valueOf_terms nodup terms,
      Condition.any_valueOf_terms nodup more]

end

theorem Condition.valueOf_build (nodup : selections.names.Nodup) (condition : Condition) :
    valueOf holds (condition.build selections) =
      condition.value selections.names (truthOf holds selections) := by
  rw [Condition.build, valueOf_collapse_any, condition.any_valueOf_terms nodup]

end Value

/-! ## Patterns -/

theorem globs_eq_fits (pattern name : String) :
    globs pattern name = Wildcard.fits '*' pattern.toList name.toList := by
  rw [Bool.eq_iff_iff, ← Wildcard.anchored_splitOn_iff, globs]
  match parts : pattern.toList.splitOn '*' with
  | [] => exact absurd parts (List.splitOn_ne_nil _ _)
  | [part] =>
    have whole : pattern.toList = part := by
      have rejoined : ['*'].intercalate (pattern.toList.splitOn '*') = pattern.toList :=
        List.intercalate_splitOn '*'
      rw [← rejoined, parts]
      simp
    rw [beq_iff_eq, Wildcard.Anchored, ← whole, String.toList_inj, eq_comm]
  | first :: next :: rest =>
    rw [Wildcard.anchored_cons_cons, Bool.and_eq_true, Wildcard.inOrder_iff,
      List.isPrefixOf_iff_prefix]
    constructor
    · rintro ⟨⟨behind, eq⟩, gapped⟩
      rw [← eq, List.drop_left] at gapped
      exact ⟨behind, eq.symm, gapped⟩
    · rintro ⟨behind, eq, gapped⟩
      rw [eq, List.drop_left]
      exact ⟨⟨behind, rfl⟩, gapped⟩

theorem reached_eq (target : String) :
    selections.reached target =
      if equalFold target "them" then selections
      else selections.filter fun selection => globs target selection.1 := by
  unfold Selections.reached reaches
  split_ifs with every
  · simp [every]
  · simp [every, globs_eq_fits]

variable {reading : Reading}

theorem matching_eq_ok_iff {target : String} {after : Reading} {matched : List Expression} :
    matching platform selections target reading = .ok (matched, after) ↔
      (equalFold target "them" = true ∨ ∃ name ∈ selections.names, reaches target name = true) ∧
        (selections.reached target).map Prod.snd = matched ∧
        reading.use (selections.reached target).names = after := by
  have some_reached : (∃ name ∈ selections.names, reaches target name = true) ↔
      selections.reached target ≠ [] := by
    simp [Selections.names, Selections.reached]
  rw [matching, some_reached, reached_eq]
  split_ifs with every
  · simp [every]
  · cases found : selections.filter fun selection => globs target selection.1 with
    | nil => simp [every]
    | cons first rest => simp [Selections.names]

/-! ## What is taken is a condition -/

theorem equalFold_nil {keyword : String} (nonempty : keyword ≠ "") :
    equalFold "" keyword = false := by
  simp [equalFold, nonempty]

def Takes {α : Type} (read : Parses α) (shape : List String → α → Prop) : Prop :=
  ∀ reading built after, read reading = .ok (built, after) →
    ∃ taken, reading.tokens = taken ++ after.tokens ∧ shape taken built

/-- Terms behind the first of a row, each behind the token that joins it. -/
inductive Joined (joiner : String) (shape : List String → Expression → Prop) :
    List String → List Expression → Prop
  | nil : Joined joiner shape [] []
  | cons {keyword : String} {first rest : List String} {term : Expression}
      {terms : List Expression} (joins : equalFold keyword joiner = true)
      (takes : shape first term) (more : Joined joiner shape rest terms) :
      Joined joiner shape (keyword :: (first ++ rest)) (term :: terms)

variable {joiner : String}

theorem gatherRest_takes {read : Parses Expression} {shape : List String → Expression → Prop}
    (word : joiner ≠ "") (takes : Takes read shape) (left : ℕ) :
    Takes (gatherRest joiner read left) (Joined joiner shape) := by
  induction left with
  | zero =>
    rintro reading terms after read_eq
    cases read_eq
    exact ⟨[], rfl, .nil⟩
  | succ left ih =>
    intro reading terms after read_eq
    rw [gatherRest] at read_eq
    split_ifs at read_eq with joins
    · obtain ⟨⟨term, behind⟩, first_eq, rest_eq⟩ := checked_eq_ok.mp read_eq
      obtain ⟨⟨terms, behind_all⟩, more_eq, built⟩ := checked_eq_ok.mp rest_eq
      cases built
      obtain ⟨first, first_tokens, first_shape⟩ := takes _ _ _ first_eq
      obtain ⟨rest, rest_tokens, rest_shape⟩ := ih _ _ _ more_eq
      -- the token that joins is there: no keyword is empty
      cases tokens : reading.tokens with
      | nil => simp [Reading.peek, tokens, equalFold_nil word] at joins
      | cons keyword tail =>
        refine ⟨keyword :: (first ++ rest), ?_, .cons ?_ first_shape rest_shape⟩
        · rw [Reading.next, tokens] at first_tokens
          simp only [List.tail_cons] at first_tokens
          rw [first_tokens, rest_tokens]
          simp
        · simpa [Reading.peek, tokens] using joins
    · cases read_eq
      exact ⟨[], rfl, .nil⟩

def Row (joiner : String) (first following : List String → Expression → Prop)
    (tokens : List String) (terms : List Expression) : Prop :=
  ∃ front behind term rest, tokens = front ++ behind ∧ terms = term :: rest ∧
    first front term ∧ Joined joiner following behind rest

theorem gather_takes {first following : Parses Expression}
    {firstShape followingShape : List String → Expression → Prop} (word : joiner ≠ "")
    (first_takes : Takes first firstShape) (following_takes : Takes following followingShape) :
    Takes (gather joiner first following) (Row joiner firstShape followingShape) := by
  intro reading terms after read_eq
  obtain ⟨⟨term, behind⟩, first_eq, rest_eq⟩ := checked_eq_ok.mp read_eq
  obtain ⟨⟨rest, behind_all⟩, more_eq, built⟩ := checked_eq_ok.mp rest_eq
  cases built
  obtain ⟨front, front_tokens, front_shape⟩ := first_takes _ _ _ first_eq
  obtain ⟨back, back_tokens, back_shape⟩ := gatherRest_takes word following_takes _ _ _ _ more_eq
  refine ⟨front ++ back, ?_, front, back, term, rest, rfl, rfl, front_shape, back_shape⟩
  rw [front_tokens, back_tokens, List.append_assoc]

def IsFactor (selections : Selections) (depth : ℕ) (tokens : List String)
    (term : Expression) : Prop :=
  ∃ factor : Factor, factor.Spelled selections.names tokens ∧ depth + factor.depth ≤ maxDepth ∧
    factor.build selections = term

def IsConjunction (selections : Selections) (depth : ℕ) (tokens : List String)
    (term : Expression) : Prop :=
  ∃ terms : Conjunction, terms.Spelled selections.names tokens ∧ depth + terms.depth ≤ maxDepth ∧
    terms.build selections = term

def IsCondition (selections : Selections) (depth : ℕ) (tokens : List String)
    (term : Expression) : Prop :=
  ∃ condition : Condition, condition.Spelled selections.names tokens ∧
    depth + condition.depth ≤ maxDepth ∧ condition.build selections = term

variable {depth : ℕ} {front : List String}

theorem Joined.conjunction {tokens : List String} {built : List Expression}
    (joined : Joined "and" (IsFactor selections (depth + 1)) tokens built) (factor : Factor)
    (spelled : factor.Spelled selections.names front) :
    ∃ terms : Conjunction, terms.Spelled selections.names (front ++ tokens) ∧
      terms.terms selections = factor.build selections :: built ∧
      (depth + 1 + factor.depth ≤ maxDepth → depth + 1 + terms.deepest ≤ maxDepth) ∧
      (depth + factor.depth ≤ maxDepth → depth + terms.depth ≤ maxDepth) := by
  induction joined generalizing factor front with
  | nil => exact ⟨.one factor, by simpa [Conjunction.Spelled] using spelled, rfl, id, id⟩
  | @cons keyword first rest term terms joins takes more ih =>
    obtain ⟨next, next_spelled, next_fits, rfl⟩ := takes
    obtain ⟨later, later_spelled, later_terms, later_deepest, -⟩ := ih next next_spelled
    have fits := later_deepest next_fits
    refine ⟨.and factor later, ⟨front, keyword, first ++ rest, rfl, spelled, joins,
      later_spelled⟩, by rw [Conjunction.terms, later_terms], fun shallow => ?_, fun shallow => ?_⟩
    · rw [Conjunction.deepest]
      omega
    · rw [Conjunction.depth]
      omega

theorem Joined.condition {tokens : List String} {built : List Expression}
    (joined : Joined "or" (IsConjunction selections (depth + 1)) tokens built) (terms : Conjunction)
    (spelled : terms.Spelled selections.names front) :
    ∃ condition : Condition, condition.Spelled selections.names (front ++ tokens) ∧
      condition.terms selections = terms.build selections :: built ∧
      (depth + 1 + terms.depth ≤ maxDepth → depth + 1 + condition.deepest ≤ maxDepth) ∧
      (depth + terms.depth ≤ maxDepth → depth + condition.depth ≤ maxDepth) := by
  induction joined generalizing terms front with
  | nil => exact ⟨.one terms, by simpa [Condition.Spelled] using spelled, rfl, id, id⟩
  | @cons keyword first rest term built joins takes more ih =>
    obtain ⟨next, next_spelled, next_fits, rfl⟩ := takes
    obtain ⟨later, later_spelled, later_terms, later_deepest, -⟩ := ih next next_spelled
    have fits := later_deepest next_fits
    refine ⟨.or terms later, ⟨front, keyword, first ++ rest, rfl, spelled, joins,
      later_spelled⟩, by rw [Condition.terms, later_terms]; rfl,
      fun shallow => ?_, fun shallow => ?_⟩
    · rw [Condition.deepest]
      omega
    · rw [Condition.depth]
      omega

variable {term : Expression}

theorem quantified_takes (shallow : depth ≤ maxDepth) {after : Reading}
    (counts : reading.quantifies = true)
    (read_eq : quantified platform selections reading = .ok (term, after)) :
    ∃ taken, reading.tokens = taken ++ after.tokens ∧ IsFactor selections depth taken term := by
  rw [quantified, passes_eq_ok] at read_eq
  obtain ⟨target_eq, rest_eq⟩ := read_eq
  obtain ⟨⟨matched, behind⟩, matching_eq, built⟩ := checked_eq_ok.mp rest_eq
  obtain ⟨reached, rfl, rfl⟩ := matching_eq_ok_iff.mp matching_eq
  rw [refuse_eq_ok] at target_eq
  obtain ⟨tokens, used⟩ := reading
  match tokens with
  | [] => simp [Reading.quantifies] at counts
  | [_] => simp [Reading.quantifies] at counts
  | [_, _] => simp [Reading.next, Reading.peek] at target_eq
  | quantity :: keyword :: target :: rest =>
    split_ifs at built with every some_of
    · obtain ⟨rfl, rfl⟩ := Prod.mk.inj (pure_eq_ok.mp built)
      exact ⟨[quantity, keyword, target], rfl, .quantified true target,
        ⟨quantity, keyword, rfl, every, counts, target_eq, reached⟩, shallow, rfl⟩
    · obtain ⟨rfl, rfl⟩ := Prod.mk.inj (pure_eq_ok.mp built)
      exact ⟨[quantity, keyword, target], rfl, .quantified false target,
        ⟨quantity, keyword, rfl, some_of, counts, target_eq, reached⟩, shallow, rfl⟩

theorem Reading.tokens_eq (there : reading.peek ≠ "") :
    reading.tokens = reading.peek :: reading.next.tokens := by
  obtain ⟨tokens, used⟩ := reading
  cases tokens with
  | nil => exact absurd rfl there
  | cons token tokens => rfl

theorem within_takes (fuel : ℕ) : ∀ depth,
    Takes (expressionWithin platform selections fuel depth) (IsCondition selections depth) ∧
    Takes (conjunctionWithin platform selections fuel depth) (IsConjunction selections depth) ∧
    Takes (factorWithin platform selections fuel depth) (IsFactor selections depth) := by
  induction fuel with
  | zero =>
    intro depth
    refine ⟨?_, ?_, ?_⟩ <;> rintro reading term after read_eq <;> cases read_eq
  | succ fuel ih =>
    intro depth
    refine ⟨?_, ?_, ?_⟩
    · intro reading term after read_eq
      simp only [expressionWithin] at read_eq
      split_ifs at read_eq with deep
      obtain ⟨⟨terms, behind⟩, gather_eq, built⟩ := checked_eq_ok.mp read_eq
      cases built
      obtain ⟨taken, tokens_eq, front, back, first, rest, rfl, rfl, first_shape, joined⟩ :=
        gather_takes (by decide) (ih depth).2.1 (ih (depth + 1)).2.1 _ _ _ gather_eq
      obtain ⟨conjunction, spelled, fits, rfl⟩ := first_shape
      obtain ⟨condition, whole, terms_eq, -, shallow⟩ := joined.condition conjunction spelled
      exact ⟨_, tokens_eq, condition, whole, shallow fits, by rw [Condition.build, terms_eq]⟩
    · intro reading term after read_eq
      rw [conjunctionWithin] at read_eq
      obtain ⟨⟨terms, behind⟩, gather_eq, built⟩ := checked_eq_ok.mp read_eq
      cases built
      obtain ⟨taken, tokens_eq, front, back, first, rest, rfl, rfl, first_shape, joined⟩ :=
        gather_takes (by decide) (ih depth).2.2 (ih (depth + 1)).2.2 _ _ _ gather_eq
      obtain ⟨factor, spelled, fits, rfl⟩ := first_shape
      obtain ⟨conjunction, whole, terms_eq, -, shallow⟩ := joined.conjunction factor spelled
      exact ⟨_, tokens_eq, conjunction, whole, shallow fits,
        by rw [Conjunction.build, terms_eq]⟩
    · intro reading term after read_eq
      simp only [factorWithin] at read_eq
      split_ifs at read_eq with deep ended negates opens counts
      · obtain ⟨⟨inner, behind⟩, inner_eq, built⟩ := checked_eq_ok.mp read_eq
        cases built
        obtain ⟨taken, tokens_eq, factor, spelled, fits, rfl⟩ :=
          (ih (depth + 1)).2.2 _ _ _ inner_eq
        refine ⟨reading.peek :: taken, ?_, .not factor, ⟨_, _, rfl, negates, spelled⟩, ?_, rfl⟩
        · rw [Reading.tokens_eq ended, tokens_eq, List.cons_append]
        · rw [Factor.depth]
          omega
      · obtain ⟨⟨inner, behind⟩, inner_eq, rest_eq⟩ := checked_eq_ok.mp read_eq
        obtain ⟨closes, built⟩ := passes_eq_ok.mp rest_eq
        rw [refuse_eq_ok, not_not] at closes
        cases built
        obtain ⟨taken, tokens_eq, condition, spelled, fits, rfl⟩ :=
          (ih (depth + 1)).1 _ _ _ inner_eq
        have closed : behind.tokens = ")" :: behind.next.tokens := by
          rw [← closes]
          exact Reading.tokens_eq (by rw [closes]; decide)
        refine ⟨"(" :: (taken ++ [")"]), ?_, .brackets condition, ⟨taken, rfl, spelled⟩, ?_, rfl⟩
        · rw [Reading.tokens_eq ended, opens, tokens_eq, closed]
          simp
        · rw [Factor.depth]
          omega
      · exact quantified_takes (not_lt.mp deep) counts read_eq
      · rw [named] at read_eq
        cases found : selections.lookup reading.peek with
        | none => simp [found] at read_eq
        | some declared =>
          rw [found] at read_eq
          cases read_eq
          have among : reading.peek ∈ selections.names := by
            obtain ⟨front, back, rfl, -⟩ := List.lookup_eq_some_iff.mp found
            simp [Selections.names]
          exact ⟨[reading.peek], Reading.tokens_eq ended, .named reading.peek, ⟨rfl, among⟩,
            not_lt.mp deep, by simp [Factor.build, found]⟩

/-! ## A condition is taken -/

/-- What follows is carried on by none of some keywords. -/
def Ends (keywords rest : List String) : Prop :=
  ∀ keyword ∈ keywords, equalFold (rest.headD "") keyword = false

/-- A part of the parser takes tokens, whatever follows that is not carried on. -/
def Reads (read : Parses Expression) (keywords : List String) (tokens : List String)
    (term : Expression) : Prop :=
  ∀ rest used, Ends keywords rest →
    ∃ after, read ⟨tokens ++ rest, used⟩ = .ok (term, ⟨rest, after⟩)

theorem equalFold_of_fold {word : String} (folds : equalFold word joiner = true) (keyword : String)
    : equalFold word keyword = equalFold joiner keyword := by
  rw [equalFold, beq_iff_eq] at folds
  rw [equalFold, equalFold, folds]

theorem Joined.ends {shape : List String → Expression → Prop} {taken rest keywords : List String}
    {terms : List Expression} (joined : Joined joiner shape taken terms)
    (apart : ∀ keyword ∈ keywords, equalFold joiner keyword = false) (ends : Ends keywords rest) :
    Ends keywords (taken ++ rest) := by
  cases joined with
  | nil => exact ends
  | cons joins takes more =>
    intro keyword among
    exact (equalFold_of_fold joins keyword).trans (apart keyword among)

theorem gatherRest_reads {joiner : String} {read : Parses Expression}
    {keywords taken rest used : List String} {terms : List Expression}
    (joined : Joined joiner (Reads read keywords) taken terms)
    (apart : ∀ keyword ∈ keywords, equalFold joiner keyword = false)
    (ends : Ends (joiner :: keywords) rest) {left : ℕ} (enough : taken.length ≤ left) :
    ∃ after, gatherRest joiner read left ⟨taken ++ rest, used⟩ = .ok (terms, ⟨rest, after⟩) := by
  obtain ⟨unjoined, ends⟩ := List.forall_mem_cons.mp ends
  induction joined generalizing left used with
  | nil =>
    refine ⟨used, ?_⟩
    cases left with
    | zero => rfl
    | succ left => exact if_neg (ne_true_of_eq_false unjoined)
  | @cons keyword first behind term terms joins reads more ih =>
    obtain ⟨left, rfl⟩ : ∃ fewer, left = fewer + 1 :=
      Nat.exists_eq_add_one.mpr (Nat.lt_of_lt_of_le (Nat.succ_pos _) enough)
    obtain ⟨between, first_eq⟩ := reads (behind ++ rest) used (more.ends apart ends)
    have shorter : behind.length ≤ left := by
      simp only [List.length_cons, List.length_append] at enough
      omega
    obtain ⟨after, rest_eq⟩ := @ih between left shorter
    refine ⟨after, ?_⟩
    rw [← List.append_assoc] at first_eq
    rw [gatherRest]
    exact (if_pos joins).trans
      (checked_eq_ok.mpr ⟨_, first_eq, checked_eq_ok.mpr ⟨_, rest_eq, rfl⟩⟩)

theorem gather_reads {joiner : String} {first following : Parses Expression}
    {keywords front back : List String} {term : Expression} {terms : List Expression}
    (reads : Reads first keywords front term)
    (joined : Joined joiner (Reads following keywords) back terms)
    (apart : ∀ keyword ∈ keywords, equalFold joiner keyword = false)
    {rest used : List String} (ends : Ends (joiner :: keywords) rest) :
    ∃ after, gather joiner first following ⟨front ++ back ++ rest, used⟩ =
      .ok (term :: terms, ⟨rest, after⟩) := by
  have carried := joined.ends apart (List.forall_mem_cons.mp ends).2
  obtain ⟨between, first_eq⟩ := reads (back ++ rest) used carried
  have enough : back.length ≤ (back ++ rest).length := by simp
  obtain ⟨after, rest_eq⟩ := @gatherRest_reads joiner following keywords back rest between terms
    joined apart ends _ enough
  refine ⟨after, ?_⟩
  rw [List.append_assoc]
  exact checked_eq_ok.mpr ⟨_, first_eq, checked_eq_ok.mpr ⟨_, rest_eq, rfl⟩⟩

theorem Selections.exists_lookup {name : String} (among : name ∈ selections.names) :
    ∃ term, selections.lookup name = some term := by
  obtain ⟨selection, declared, rfl⟩ := List.mem_map.mp among
  cases found : selections.lookup selection.1 with
  | none => simpa using List.lookup_eq_none_iff.mp found selection declared
  | some term => exact ⟨term, rfl⟩

theorem Quantity.apart {every : Bool} {word : String} (quantity : Quantity every word) :
    word ≠ "" ∧ equalFold word "not" = false ∧ word ≠ "(" := by
  cases every with
  | true =>
    have all : equalFold word "all" = true := quantity
    refine ⟨?_, (equalFold_of_fold all _).trans (by decide), ?_⟩ <;>
      rintro rfl <;> exact absurd all (by decide)
  | false =>
    obtain rfl | any := quantity
    · decide
    · refine ⟨?_, (equalFold_of_fold any _).trans (by decide), ?_⟩ <;>
        rintro rfl <;> exact absurd any (by decide)

theorem quantified_reads {every : Bool} {target quantity keyword : String}
    (counts : Quantity every quantity) (there : target ≠ "")
    (reached : equalFold target "them" = true ∨
      ∃ name ∈ selections.names, reaches target name = true) (rest used : List String) :
    ∃ after, quantified platform selections ⟨quantity :: keyword :: target :: rest, used⟩ =
      .ok ((Factor.quantified every target).build selections, ⟨rest, after⟩) := by
  refine ⟨(selections.reached target).names ++ used, passes_eq_ok.mpr
    ⟨refuse_eq_ok.mpr there, checked_eq_ok.mpr ⟨_, matching_eq_ok_iff.mpr ⟨reached, rfl, rfl⟩, ?_⟩⟩⟩
  cases every with
  | true => exact if_pos counts
  | false =>
    have not_all : equalFold quantity "all" = false := by
      obtain rfl | any := counts
      · decide
      · exact (equalFold_of_fold any _).trans (by decide)
    exact (if_neg (ne_true_of_eq_false not_all)).trans (if_pos counts)

theorem ne_empty_of_fold {word keyword : String} (folds : equalFold word keyword = true)
    (nonempty : keyword ≠ "") : word ≠ "" := by
  rintro rfl
  rw [equalFold_nil nonempty] at folds
  cases folds

variable {fuel : ℕ}

theorem conjunctionWithin_reads {back : List String} {terms : List Expression}
    (reads : Reads (factorWithin platform selections fuel depth) ["of"] front term)
    (joined : Joined "and" (Reads (factorWithin platform selections fuel (depth + 1)) ["of"])
      back terms) :
    Reads (conjunctionWithin platform selections (fuel + 1) depth) ["and", "of"] (front ++ back)
      (collapse .all (term :: terms)) := by
  intro rest used ends
  obtain ⟨after, gather_eq⟩ := @gather_reads "and" _ _ _ _ _ _ _ reads joined (by decide)
    rest used ends
  exact ⟨after, by simp only [conjunctionWithin]; exact checked_eq_ok.mpr ⟨_, gather_eq, rfl⟩⟩

theorem expressionWithin_reads (shallow : depth ≤ maxDepth) {back : List String}
    {terms : List Expression}
    (reads : Reads (conjunctionWithin platform selections fuel depth) ["and", "of"] front term)
    (joined : Joined "or"
      (Reads (conjunctionWithin platform selections fuel (depth + 1)) ["and", "of"]) back terms) :
    Reads (expressionWithin platform selections (fuel + 1) depth) ["or", "and", "of"]
      (front ++ back) (collapse .any (term :: terms)) := by
  intro rest used ends
  obtain ⟨after, gather_eq⟩ := @gather_reads "or" _ _ _ _ _ _ _ reads joined (by decide)
    rest used ends
  refine ⟨after, ?_⟩
  simp only [expressionWithin, if_neg (not_lt.mpr shallow)]
  exact checked_eq_ok.mpr ⟨_, gather_eq, rfl⟩

theorem named_reads (plain : selections.Plain) {name : String} (among : name ∈ selections.names)
    (shallow : depth ≤ maxDepth) :
    Reads (factorWithin platform selections (fuel + 1) depth) ["of"] [name]
      ((Factor.named name).build selections) := by
  intro rest used ends
  obtain ⟨term, found⟩ := Selections.exists_lookup among
  obtain ⟨nonempty, letters⟩ := plain.words name among
  have not_negation : equalFold name "not" = false := plain.free name among "not" (by decide)
  have not_bracket : name ≠ "(" := by
    rintro rfl
    exact absurd (letters '(' (by decide)) (by decide)
  have alone : Reading.quantifies ⟨name :: rest, used⟩ = false := by
    cases rest with
    | nil => rfl
    | cons next rest => exact ends "of" (by decide)
  refine ⟨name :: used, ?_⟩
  simp [factorWithin, not_lt.mpr shallow, Reading.peek, Reading.next, Reading.use, nonempty,
    not_negation, not_bracket, alone, named, found, Factor.build]

mutual

theorem Factor.reads (plain : selections.Plain) : (factor : Factor) →
    ∀ (tokens : List String) (fuel depth : ℕ), factor.Spelled selections.names tokens →
      depth + factor.depth ≤ maxDepth → 3 * (maxDepth + 1 - depth) ≤ fuel + 2 →
      Reads (factorWithin platform selections (fuel + 1) depth) ["of"] tokens
        (factor.build selections)
  | .named name => by
    rintro _ fuel depth ⟨rfl, among⟩ fits enough
    exact named_reads plain among fits
  | .quantified every target => by
    rintro _ fuel depth ⟨quantity, keyword, rfl, counts, counted, there, reached⟩ fits enough
      rest used ends
    obtain ⟨nonempty, not_negation, not_bracket⟩ := counts.apart
    obtain ⟨after, quantified_eq⟩ := @quantified_reads platform selections every target quantity
      keyword counts there reached rest used
    refine ⟨after, ?_⟩
    simpa [factorWithin, not_lt.mpr (show depth ≤ maxDepth from fits), Reading.peek, nonempty,
      not_negation, not_bracket, Reading.quantifies, counted] using quantified_eq
  | .not factor => by
    rintro _ fuel depth ⟨keyword, inner, rfl, negates, spelled⟩ fits enough rest used ends
    rw [Factor.depth] at fits
    have there := ne_empty_of_fold negates (by decide)
    have shallow : ¬ maxDepth < depth := by omega
    obtain ⟨fuel, rfl⟩ : ∃ fewer, fuel = fewer + 1 := ⟨fuel - 1, by omega⟩
    obtain ⟨after, inner_eq⟩ := Factor.reads plain factor inner fuel (depth + 1) spelled
      (by omega) (by omega) rest used ends
    refine ⟨after, ?_⟩
    simp only [factorWithin, if_neg shallow]
    exact (if_neg there).trans ((if_pos negates).trans (checked_eq_ok.mpr ⟨_, inner_eq, rfl⟩))
  | .brackets condition => by
    rintro _ fuel depth ⟨inner, rfl, spelled⟩ fits enough rest used ends
    rw [Factor.depth] at fits
    have shallow : ¬ maxDepth < depth := by omega
    obtain ⟨fuel, rfl⟩ : ∃ fewer, fuel = fewer + 3 := ⟨fuel - 3, by omega⟩
    have closes : Ends ["or", "and", "of"] (")" :: rest) :=
      (by decide : ∀ keyword ∈ ["or", "and", "of"], equalFold ")" keyword = false)
    obtain ⟨after, inner_eq⟩ := Condition.reads plain condition inner fuel (depth + 1) spelled
      (by omega) (by omega) (")" :: rest) used closes
    rw [show "(" :: (inner ++ [")"]) ++ rest = "(" :: (inner ++ ")" :: rest) by simp]
    refine ⟨after, ?_⟩
    simp only [factorWithin, if_neg shallow]
    refine (if_neg (by decide : "(" ≠ "")).trans ((if_neg
      (by decide : ¬ equalFold "(" "not" = true)).trans ((if_pos rfl).trans ?_))
    exact checked_eq_ok.mpr ⟨_, inner_eq, passes_eq_ok.mpr ⟨refuse_eq_ok.mpr (fun h => h rfl), rfl⟩⟩

theorem Conjunction.joined (plain : selections.Plain) : (terms : Conjunction) →
    ∀ (tokens : List String) (keyword : String) (fuel depth : ℕ),
      terms.Spelled selections.names tokens → equalFold keyword "and" = true →
      depth + terms.deepest ≤ maxDepth → 3 * (maxDepth + 1 - depth) ≤ fuel + 2 →
      Joined "and" (Reads (factorWithin platform selections (fuel + 1) depth) ["of"])
        (keyword :: tokens) (terms.terms selections)
  | .one factor => by
    intro tokens keyword fuel depth spelled joins fits enough
    have alone := Joined.cons joins
      (Factor.reads plain factor tokens fuel depth spelled fits enough) .nil
    rwa [List.append_nil] at alone
  | .and factor more => by
    rintro _ keyword fuel depth ⟨first, between, rest, rfl, spelled, joins_more, more_spelled⟩
      joins fits enough
    rw [Conjunction.deepest] at fits
    exact .cons joins (Factor.reads plain factor first fuel depth spelled (by omega) enough)
      (Conjunction.joined plain more rest between fuel depth more_spelled joins_more (by omega)
        enough)

theorem Conjunction.reads (plain : selections.Plain) : (terms : Conjunction) →
    ∀ (tokens : List String) (fuel depth : ℕ), terms.Spelled selections.names tokens →
      depth + terms.depth ≤ maxDepth → 3 * (maxDepth + 1 - depth) ≤ fuel + 2 →
      Reads (conjunctionWithin platform selections (fuel + 2) depth) ["and", "of"] tokens
        (terms.build selections)
  | .one factor => by
    intro tokens fuel depth spelled fits enough
    have alone := conjunctionWithin_reads
      (Factor.reads plain factor tokens fuel depth spelled fits enough) .nil
    rwa [List.append_nil] at alone
  | .and factor more => by
    rintro _ fuel depth ⟨first, keyword, behind, rfl, spelled, joins, more_spelled⟩ fits enough
    rw [Conjunction.depth] at fits
    exact conjunctionWithin_reads
      (Factor.reads plain factor first fuel depth spelled (by omega) enough)
      (Conjunction.joined plain more behind keyword fuel (depth + 1) more_spelled joins (by omega)
        (by omega))

theorem Condition.joined (plain : selections.Plain) : (condition : Condition) →
    ∀ (tokens : List String) (keyword : String) (fuel depth : ℕ),
      condition.Spelled selections.names tokens → equalFold keyword "or" = true →
      depth + condition.deepest ≤ maxDepth → 3 * (maxDepth + 1 - depth) ≤ fuel + 2 →
      Joined "or" (Reads (conjunctionWithin platform selections (fuel + 2) depth) ["and", "of"])
        (keyword :: tokens) (condition.terms selections)
  | .one terms => by
    intro tokens keyword fuel depth spelled joins fits enough
    have alone := Joined.cons joins
      (Conjunction.reads plain terms tokens fuel depth spelled fits enough) .nil
    rwa [List.append_nil] at alone
  | .or terms more => by
    rintro _ keyword fuel depth ⟨first, between, rest, rfl, spelled, joins_more, more_spelled⟩
      joins fits enough
    rw [Condition.deepest] at fits
    exact .cons joins (Conjunction.reads plain terms first fuel depth spelled (by omega) enough)
      (Condition.joined plain more rest between fuel depth more_spelled joins_more (by omega)
        enough)

theorem Condition.reads (plain : selections.Plain) : (condition : Condition) →
    ∀ (tokens : List String) (fuel depth : ℕ), condition.Spelled selections.names tokens →
      depth + condition.depth ≤ maxDepth → 3 * (maxDepth + 1 - depth) ≤ fuel + 2 →
      Reads (expressionWithin platform selections (fuel + 3) depth) ["or", "and", "of"] tokens
        (condition.build selections)
  | .one terms => by
    intro tokens fuel depth spelled fits enough
    have alone := expressionWithin_reads (Nat.le_of_add_right_le fits)
      (Conjunction.reads plain terms tokens fuel depth spelled fits enough) .nil
    rwa [List.append_nil] at alone
  | .or terms more => by
    rintro _ fuel depth ⟨first, keyword, behind, rfl, spelled, joins, more_spelled⟩ fits enough
    have shallow := Nat.le_of_add_right_le fits
    rw [Condition.depth] at fits
    exact expressionWithin_reads shallow
      (Conjunction.reads plain terms first fuel depth spelled (by omega) enough)
      (Condition.joined plain more behind keyword fuel (depth + 1) more_spelled joins (by omega)
        (by omega))

end

/-! ## The parser and the grammar -/

theorem expression_takes (depth : ℕ) :
    Takes (expression platform selections depth) (IsCondition selections depth) :=
  (within_takes (fuelAt depth) depth).1

/-- The parser reads every condition that is not too deep, and nothing else; and what it builds has
the value of the condition under all truth values of the selections. -/
theorem expression_reads_conditions (platform : Platform) {selections : Selections}
    (plain : selections.Plain) :
    (∀ (condition : Condition) (tokens : List String) (text : String),
      condition.Spelled selections.names tokens → Writes tokens text.toList →
      condition.depth ≤ maxDepth →
      ∃ term used, expression platform selections 0 ⟨tokensOf text, []⟩ = .ok (term, ⟨[], used⟩) ∧
        ∀ holds, valueOf holds term =
          condition.value selections.names (truthOf holds selections)) ∧
    ∀ reading term after, expression platform selections 0 reading = .ok (term, after) →
      ∃ (taken : List String) (condition : Condition), reading.tokens = taken ++ after.tokens ∧
        condition.Spelled selections.names taken ∧ condition.depth ≤ maxDepth ∧
        ∀ holds, valueOf holds term =
          condition.value selections.names (truthOf holds selections) := by
  constructor
  · intro condition tokens text spelled writes shallow
    have cut : tokensOf text = tokens := tokensFrom_writes writes
    have fits : 0 + condition.depth ≤ maxDepth := by omega
    have last : Ends ["or", "and", "of"] [] :=
      (by decide : ∀ keyword ∈ ["or", "and", "of"], equalFold "" keyword = false)
    obtain ⟨used, read_eq⟩ := @Condition.reads platform selections plain condition tokens 51 0
      spelled fits (by decide) [] [] last
    rw [List.append_nil] at read_eq
    refine ⟨condition.build selections, used, ?_, fun holds => condition.valueOf_build plain.nodup⟩
    rw [cut]
    exact read_eq
  · intro reading term after read_eq
    obtain ⟨taken, tokens_eq, condition, spelled, fits, rfl⟩ := expression_takes 0 _ _ _ read_eq
    rw [Nat.zero_add] at fits
    exact ⟨taken, condition, tokens_eq, spelled, fits,
      fun holds => condition.valueOf_build plain.nodup⟩

def filtered : Selections :=
  [("selection", .outcome "failure"), ("filter_main", .outcome "success")]

theorem filtered_plain : filtered.Plain where
  nodup := by decide
  words := by decide
  free := by decide
  unnumbered := by decide

def unfiltered : Condition :=
  .one (.and (.named "selection")
    (.one (.brackets (.one (.one (.not (.quantified false "filter_*")))))))

def unfilteredTokens : List String :=
  ["selection", "and", "(", "NOT", "1", "of", "filter_*", ")"]

theorem unfiltered_spelled : unfiltered.Spelled filtered.names unfilteredTokens :=
  ⟨["selection"], "and", ["(", "NOT", "1", "of", "filter_*", ")"], rfl, ⟨rfl, by decide⟩,
    by decide, ["NOT", "1", "of", "filter_*"], rfl, "NOT", ["1", "of", "filter_*"], rfl, by decide,
    "1", "of", rfl, .inl rfl, by decide, by decide, .inr ⟨"filter_main", by decide, by decide⟩⟩

theorem unfiltered_writes : Writes unfilteredTokens "selection and (NOT 1 of filter_*)".toList :=
  have word {token : String} {rest : List Char} (is_word : Word token)
      (ends : rest.head?.all (!isWordLetter ·)) :
      token = "(" ∨ token = ")" ∨
        Word token ∧ ∀ letter ∈ rest.head?, isWordLetter letter = false :=
    .inr (.inr ⟨is_word, by simpa [Option.all_eq_true] using ends⟩)
  ⟨[], " and (NOT 1 of filter_*)".toList, by decide, by simp,
    ⟨[' '], " (NOT 1 of filter_*)".toList, by decide, by simp,
      ⟨[' '], "NOT 1 of filter_*)".toList, by decide, by simp,
        ⟨[], " 1 of filter_*)".toList, by decide, by simp,
          ⟨[' '], " of filter_*)".toList, by decide, by simp,
            ⟨[' '], " filter_*)".toList, by decide, by simp,
              ⟨[' '], ")".toList, by decide, by simp,
                ⟨[], [], by decide, by simp, List.forall_mem_nil _, .inr (.inl rfl)⟩,
                word (by decide) (by decide)⟩, word (by decide) (by decide)⟩,
            word (by decide) (by decide)⟩, word (by decide) (by decide)⟩, .inl rfl⟩,
      word (by decide) (by decide)⟩, word (by decide) (by decide)⟩

theorem expression_reads_unfiltered :
    filtered.Plain ∧
    ∃ term used, expression .plain filtered 0 ⟨tokensOf "selection and (NOT 1 of filter_*)", []⟩ =
        .ok (term, ⟨[], used⟩) ∧
      ∀ holds, valueOf holds term = unfiltered.value filtered.names (truthOf holds filtered) :=
  ⟨filtered_plain, (expression_reads_conditions .plain filtered_plain).1 unfiltered
    unfilteredTokens _ unfiltered_spelled unfiltered_writes (by decide)⟩

def refusal {α : Type} : Except Fault α → Option Fault
  | .error fault => some fault
  | .ok _ => none

/-- A quantifier over a wildcard that no selection matches is refused, and so is a selection whose
name is not a word; and a quantifier over a name without a wildcard is read. -/
theorem expression_unmatched :
    Selections.Plain [("selection", .outcome "failure")] ∧
    refusal (expression .plain [("selection", .outcome "failure")] 0
      ⟨tokensOf "1 of filter_*", []⟩) =
      some (refuseCondition "names \"filter_*\", which matches none of selection") ∧
    refusal (expression .plain [("failed logon", .outcome "failure")] 0
      ⟨tokensOf "failed logon", []⟩) =
      some (refuseCondition "names \"failed\", which is not one of failed logon") ∧
    (expression .plain [("selection", .outcome "failure")] 0
      ⟨tokensOf "1 of selection", []⟩).toOption.map (·.2.tokens) = some [] :=
  ⟨⟨by decide, by decide, by decide, by decide⟩, by decide +kernel, by decide +kernel,
    by decide +kernel⟩

end Seagull.Sigma
