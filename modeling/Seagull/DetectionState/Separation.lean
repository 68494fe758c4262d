import Seagull.Detection.Compile
import Seagull.DetectionState.KeyFor
import Seagull.Event.Validate

/-!
# What a key tells apart

A key digests the tenant, the rule, its revision and the bindings of a group, sorted.  An absent
field is written as a text an event can carry, so the two are told apart by nothing; everything else
is.
-/

namespace Seagull.DetectionState

open Detection

/-- What stands in the place of a value that is absent. -/
def absence : String := "\x00absent"

def shown (binding : Binding) : Field × String :=
  (binding.field, if binding.absent then absence else binding.value)

def ordered (group : List Binding) : List Binding :=
  group.mergeSort fun one other => one.written ≤ other.written

/-- What `KeyFor` writes before it is digested. -/
def keyText (tenant rule : String) (revision : ℤ) (group : List Binding) : String :=
  framedAll ([tenant, rule, toString revision] ++ (compact (ordered group)).flatMap bound)

theorem keyFor_group (platform : Platform) (tenant rule : String) (revision : ℤ)
    (group : List Binding) :
    (keyFor platform tenant rule revision group).group =
      hexEncode ((platform.sha256 (keyText tenant rule revision group)).take 16) := rfl

/-- A group as a rule binds one: declared fields, each once, and no value where absent. -/
structure Bound (group : List Binding) : Prop where
  fields_nodup : (group.map Binding.field).Nodup
  declared : ∀ binding ∈ group, ∃ leaf : Leaf, binding.field = leaf.field
  absent_empty : ∀ binding ∈ group, binding.absent = true → binding.value = ""

theorem groupFrom_fields {rule : Rule} {place : String} {index : ℕ} {fields : List Field}
    {grouped : List Grouping} (resolved : rule.groupFrom place index fields = .ok grouped) :
    grouped.map Grouping.field = fields ∧
      ∀ grouping ∈ grouped, pathOf grouping.field = some grouping.leaf := by
  induction fields generalizing index grouped with
  | nil =>
    obtain rfl := Except.ok.inj resolved
    simp
  | cons field fields ih =>
    unfold Rule.groupFrom at resolved
    split at resolved
    · cases resolved
    · rename_i leaf leaf_eq
      split at resolved
      · cases resolved
      · rename_i rest rest_eq
        obtain rfl := Except.ok.inj resolved
        obtain ⟨fields_eq, resolved_rest⟩ := ih rest_eq
        exact ⟨by rw [List.map_cons, fields_eq], List.forall_mem_cons.mpr ⟨leaf_eq, resolved_rest⟩⟩

theorem groupBy_nodup {platform : Platform} {rule : Rule} (accepted : rule.Accepted platform) :
    rule.groupBy.Nodup := by
  unfold Rule.groupBy
  split
  · rename_i correlates
    exact (accepted.sequence correlates).groups.distinct
  · by_cases counts : rule.count.counts = true
    · exact (accepted.count counts).groups.distinct
    · rw [Bool.not_eq_true, Count.counts, Bool.not_eq_false', Bool.and_eq_true,
        List.isEmpty_iff] at counts
      rw [counts.2]
      exact List.nodup_nil

theorem bindingOf_field (platform : Platform) (record : Contract.Event) (grouping : Grouping) :
    (bindingOf platform record grouping).field = grouping.field := by
  unfold bindingOf
  cases read record grouping.leaf <;> rfl

theorem bindingOf_absent {platform : Platform} {record : Contract.Event} {grouping : Grouping}
    (absent : (bindingOf platform record grouping).absent = true) :
    (bindingOf platform record grouping).value = "" := by
  unfold bindingOf at absent ⊢
  cases value_eq : read record grouping.leaf with
  | none => rfl
  | some value => simp [value_eq] at absent

theorem group_bound {platform : Platform} {rule : Rule} {program : Program}
    (compiled : rule.compile platform = .ok program) (record : Contract.Event) :
    Bound (program.group platform record) := by
  have compiles := Rule.compile_eq_ok_iff.mp compiled
  obtain ⟨fields_eq, resolved⟩ := groupFrom_fields compiles.grouped
  rw [Program.group]
  refine ⟨?_, ?_, ?_⟩
  · have same : Binding.field ∘ bindingOf platform record = Grouping.field :=
      funext (bindingOf_field platform record)
    rw [List.map_map, same, fields_eq]
    exact groupBy_nodup compiles.accepted
  · intro binding among
    obtain ⟨grouping, grouping_mem, rfl⟩ := List.mem_map.mp among
    rw [bindingOf_field]
    exact ⟨grouping.leaf, (pathOf_eq_some_iff.mp (resolved grouping grouping_mem)).symm⟩
  · intro binding among absent
    obtain ⟨grouping, -, rfl⟩ := List.mem_map.mp among
    exact bindingOf_absent absent

theorem append_mark_lt_iff {mark : Char} {front other tail rest : List Char}
    (unmarked : mark ∉ front) (other_unmarked : mark ∉ other) (differ : front ≠ other) :
    front ++ mark :: tail < other ++ mark :: rest ↔ front ++ [mark] < other ++ [mark] := by
  induction front generalizing other with
  | nil =>
    cases other with
    | nil => exact absurd rfl differ
    | cons second other =>
      have marks := (List.ne_and_not_mem_of_not_mem_cons other_unmarked).1
      simp only [List.nil_append, List.cons_append, List.cons_lt_cons_iff, marks, false_and,
        or_false]
  | cons first front ih =>
    cases other with
    | nil =>
      have marks := (List.ne_and_not_mem_of_not_mem_cons unmarked).1.symm
      simp only [List.nil_append, List.cons_append, List.cons_lt_cons_iff, marks, false_and,
        or_false]
    | cons second other =>
      simp only [List.cons_append, List.cons_lt_cons_iff]
      refine or_congr_right (and_congr_right fun same => ?_)
      subst same
      exact ih (List.not_mem_of_not_mem_cons unmarked)
        (List.not_mem_of_not_mem_cons other_unmarked)
        (fun same => differ (congrArg (List.cons first) same))

theorem field_unmarked (leaf : Leaf) : ' ' ∉ leaf.field.toList := by
  have plain : ∀ leaf ∈ Leaf.all, ' ' ∉ leaf.field.toList := by decide
  exact plain leaf (Leaf.mem_all leaf)

theorem toList_written (binding : Binding) :
    ∃ tail, binding.written.toList = binding.field.toList ++ ' ' :: tail := by
  unfold Binding.written
  split
  · exact ⟨"absent".toList, by simp⟩
  · exact ⟨binding.value.toList, by simp⟩

theorem written_le_iff {one other : Binding} (leaf : ∃ leaf : Leaf, one.field = leaf.field)
    (other_leaf : ∃ leaf : Leaf, other.field = leaf.field) (differ : one.field ≠ other.field) :
    one.written ≤ other.written ↔ one.field ++ " " ≤ other.field ++ " " := by
  obtain ⟨leaf, leaf_eq⟩ := leaf
  obtain ⟨other_leaf, other_eq⟩ := other_leaf
  obtain ⟨tail, tail_eq⟩ := toList_written one
  obtain ⟨rest, rest_eq⟩ := toList_written other
  rw [← not_lt, ← not_lt, String.lt_iff, String.lt_iff, tail_eq, rest_eq, String.toList_append,
    String.toList_append]
  refine not_congr (append_mark_lt_iff ?_ ?_ ?_)
  · exact other_eq ▸ field_unmarked other_leaf
  · exact leaf_eq ▸ field_unmarked leaf
  · exact fun same => differ (String.toList_injective same.symm)

theorem perm_ordered (group : List Binding) : (ordered group).Perm group :=
  List.mergeSort_perm _ _

theorem mem_ordered {group : List Binding} {binding : Binding} :
    binding ∈ ordered group ↔ binding ∈ group := (perm_ordered group).mem_iff

theorem compact_eq_self {α : Type} [DecidableEq α] {items : List α} (distinct : items.Nodup) :
    compact items = items := by
  induction items with
  | nil => rfl
  | cons first rest ih =>
    cases rest with
    | nil => rfl
    | cons second rest =>
      rw [List.nodup_cons] at distinct
      have differ : first ≠ second := fun same => distinct.1 (same ▸ List.mem_cons_self)
      rw [compact, if_neg differ, ih distinct.2]

theorem flatMap_bound (group : List Binding) :
    group.flatMap bound = (group.map shown).flatMap fun pair => [pair.1, pair.2] := by
  rw [List.flatMap_map]
  rfl

theorem flatMap_pair_injective {pairs others : List (Field × String)}
    (same : (pairs.flatMap fun pair => [pair.1, pair.2]) =
      others.flatMap fun pair => [pair.1, pair.2]) : pairs = others := by
  induction pairs generalizing others with
  | nil =>
    cases others with
    | nil => rfl
    | cons other others => simp at same
  | cons pair pairs ih =>
    cases others with
    | nil => simp at same
    | cons other others =>
      simp only [List.flatMap_cons, List.cons_append, List.nil_append, List.cons.injEq] at same
      obtain ⟨same_field, same_value, same_rest⟩ := same
      rw [Prod.ext same_field same_value, ih same_rest]

namespace Bound

variable {group other : List Binding}

theorem nodup (bound : Bound group) : group.Nodup := bound.fields_nodup.of_map _

theorem ordered_sorted (bound : Bound group) :
    ((ordered group).map shown).Pairwise fun one other => one.1 ++ " " ≤ other.1 ++ " " := by
  rw [List.pairwise_map]
  have sorted : (ordered group).Pairwise fun one other : Binding =>
      decide (one.written ≤ other.written) = true :=
    List.pairwise_mergeSort (fun one two three => by simpa using le_trans)
      (fun one two => by simpa using le_total _ _) group
  refine sorted.imp_of_mem fun {one two} one_mem two_mem le => ?_
  by_cases same : one.field = two.field
  · exact (congrArg (· ++ " ") same).le
  · exact (written_le_iff (bound.declared one (mem_ordered.mp one_mem))
      (bound.declared two (mem_ordered.mp two_mem)) same).mp (of_decide_eq_true le)

theorem shown_nodup (bound : Bound group) : (group.map shown).Nodup := by
  refine List.Nodup.of_map Prod.fst ?_
  rw [List.map_map]
  exact bound.fields_nodup

theorem ordered_shown_eq_iff (bound : Bound group) (other_bound : Bound other) :
    (ordered group).map shown = (ordered other).map shown ↔
      ∀ pair, pair ∈ group.map shown ↔ pair ∈ other.map shown := by
  constructor
  · intro same pair
    rw [← ((perm_ordered group).map shown).mem_iff, same, ((perm_ordered other).map shown).mem_iff]
  · intro same
    refine List.Perm.eq_of_pairwise ?_ bound.ordered_sorted other_bound.ordered_sorted ?_
    · intro one two one_mem two_mem one_le two_le
      have texts := congrArg String.toList (le_antisymm one_le two_le)
      rw [String.toList_append, String.toList_append] at texts
      have same_field : one.1 = two.1 := String.toList_injective (List.append_cancel_right texts)
      rw [((perm_ordered group).map shown).mem_iff] at one_mem
      rw [((perm_ordered other).map shown).mem_iff, ← same] at two_mem
      -- The fields of a group are distinct, so a field is written with one value.
      refine List.inj_on_of_nodup_map (f := Prod.fst) ?_ one_mem two_mem same_field
      rw [List.map_map]
      exact bound.fields_nodup
    · refine ((perm_ordered group).map shown).trans (.trans ?_ ((perm_ordered other).map shown).symm)
      exact (List.perm_ext_iff_of_nodup bound.shown_nodup other_bound.shown_nodup).mpr same

end Bound

theorem keyText_eq_iff {tenant rule tenant' rule' : String} {revision revision' : ℤ}
    {group group' : List Binding} (bound : Bound group) (bound' : Bound group') :
    keyText tenant rule revision group = keyText tenant' rule' revision' group' ↔
      tenant = tenant' ∧ rule = rule' ∧ revision = revision' ∧
        ∀ pair, pair ∈ group.map shown ↔ pair ∈ group'.map shown := by
  have settled : ∀ {group : List Binding}, Bound group →
      compact (ordered group) = ordered group := fun bound =>
    compact_eq_self ((perm_ordered _).nodup_iff.mpr bound.nodup)
  rw [keyText, keyText, settled bound, settled bound', flatMap_bound, flatMap_bound,
    ← bound.ordered_shown_eq_iff bound']
  constructor
  · intro same
    have parts := framedAll_injective same
    simp only [List.cons_append, List.nil_append, List.cons.injEq] at parts
    obtain ⟨rfl, rfl, same_revision, same_bindings⟩ := parts
    rw [Decimal.toString_eq_format, Decimal.toString_eq_format] at same_revision
    exact ⟨rfl, rfl, Decimal.format_injective same_revision, flatMap_pair_injective same_bindings⟩
  · rintro ⟨rfl, rfl, rfl, same⟩
    rw [same]

/-- One field, absent here and bound to the text for absence there. -/
def Twins (one other : Binding) : Prop :=
  one.field = other.field ∧
    (one.absent = true ∧ other.absent = false ∧ other.value = absence ∨
      one.absent = false ∧ one.value = absence ∧ other.absent = true)

/-- Some field is absent in one group and bound to the text for absence in the other, and all else
is in both. -/
structure Mistaken (group other : List Binding) : Prop where
  differ : ∃ one ∈ group, ∃ two ∈ other, Twins one two
  left : ∀ one ∈ group, one ∈ other ∨ ∃ two ∈ other, Twins one two
  right : ∀ two ∈ other, two ∈ group ∨ ∃ one ∈ group, Twins one two

theorem shown_eq_iff {one two : Binding} (one_empty : one.absent = true → one.value = "")
    (two_empty : two.absent = true → two.value = "") :
    shown one = shown two ↔ one = two ∨ Twins one two := by
  obtain ⟨field, value, absent⟩ := one
  obtain ⟨field', value', absent'⟩ := two
  cases absent <;> cases absent' <;> simp_all [shown, Twins, eq_comm]

variable {group other : List Binding}

theorem shown_iff (bound : Bound group) (other_bound : Bound other) :
    (∀ pair, pair ∈ group.map shown ↔ pair ∈ other.map shown) ↔
      (∀ binding, binding ∈ group ↔ binding ∈ other) ∨ Mistaken group other := by
  have agree : ∀ one ∈ group, ∀ two ∈ other, shown one = shown two ↔ one = two ∨ Twins one two :=
    fun one one_mem two two_mem =>
      shown_eq_iff (bound.absent_empty one one_mem) (other_bound.absent_empty two two_mem)
  constructor
  · intro same
    have left : ∀ one ∈ group, one ∈ other ∨ ∃ two ∈ other, Twins one two := by
      intro one one_mem
      obtain ⟨two, two_mem, two_eq⟩ :=
        List.mem_map.mp ((same (shown one)).mp (List.mem_map_of_mem one_mem))
      rcases (agree one one_mem two two_mem).mp two_eq.symm with rfl | twins
      · exact Or.inl two_mem
      · exact Or.inr ⟨two, two_mem, twins⟩
    have right : ∀ two ∈ other, two ∈ group ∨ ∃ one ∈ group, Twins one two := by
      intro two two_mem
      obtain ⟨one, one_mem, one_eq⟩ :=
        List.mem_map.mp ((same (shown two)).mpr (List.mem_map_of_mem two_mem))
      rcases (agree one one_mem two two_mem).mp one_eq with rfl | twins
      · exact Or.inl one_mem
      · exact Or.inr ⟨one, one_mem, twins⟩
    by_cases differ : ∃ one ∈ group, ∃ two ∈ other, Twins one two
    · exact Or.inr ⟨differ, left, right⟩
    · push Not at differ
      refine Or.inl fun binding => ⟨fun one_mem => ?_, fun two_mem => ?_⟩
      · rcases left binding one_mem with found | ⟨two, two_mem, twins⟩
        · exact found
        · exact absurd twins (differ binding one_mem two two_mem)
      · rcases right binding two_mem with found | ⟨one, one_mem, twins⟩
        · exact found
        · exact absurd twins (differ one one_mem binding two_mem)
  · rintro (same | mistaken) pair
    · simp only [List.mem_map, same]
    · constructor
      · intro pair_mem
        obtain ⟨one, one_mem, rfl⟩ := List.mem_map.mp pair_mem
        rcases mistaken.left one one_mem with found | ⟨two, two_mem, twins⟩
        · exact List.mem_map_of_mem found
        · rw [(agree one one_mem two two_mem).mpr (Or.inr twins)]
          exact List.mem_map_of_mem two_mem
      · intro pair_mem
        obtain ⟨two, two_mem, rfl⟩ := List.mem_map.mp pair_mem
        rcases mistaken.right two two_mem with found | ⟨one, one_mem, twins⟩
        · exact List.mem_map_of_mem found
        · rw [← (agree one one_mem two two_mem).mpr (Or.inr twins)]
          exact List.mem_map_of_mem one_mem

theorem Mistaken.not_same (bound : Bound group) (mistaken : Mistaken group other)
    : ¬ ∀ binding, binding ∈ group ↔ binding ∈ other := by
  intro same
  obtain ⟨one, one_mem, two, two_mem, same_field, kinds⟩ := mistaken.differ
  have equal : one = two :=
    List.inj_on_of_nodup_map bound.fields_nodup one_mem ((same two).mpr two_mem) same_field
  subst equal
  rcases kinds with ⟨absent, present, -⟩ | ⟨present, -, absent⟩
  · rw [absent] at present
    cases present
  · rw [present] at absent
    cases absent

theorem keyText_perm (tenant rule : String) (revision : ℤ) (bound : Bound group)
    (turned : other.Perm group) :
    keyText tenant rule revision other = keyText tenant rule revision group := by
  have other_bound : Bound other :=
    ⟨((turned.map _).nodup_iff).mpr bound.fields_nodup,
      fun binding among => bound.declared binding (turned.mem_iff.mp among),
      fun binding among => bound.absent_empty binding (turned.mem_iff.mp among)⟩
  exact (keyText_eq_iff other_bound bound).mpr
    ⟨rfl, rfl, rfl, fun pair => (turned.map shown).mem_iff⟩

/-- Two keys are written alike only for one tenant, rule, revision and set of bindings, unless their
groups are mistaken for each other.  The order of the bindings leaves no trace, and where the digest
has no collision two keys are the same exactly when they are written alike. -/
theorem keyFor_separates_iff (platform : Platform) {tenant rule tenant' rule' : String}
    {revision revision' : ℤ} {group group' : List Binding} (bound : Bound group)
    (bound' : Bound group')
    (collision_free : (platform.sha256 (keyText tenant rule revision group)).take 16 =
        (platform.sha256 (keyText tenant' rule' revision' group')).take 16 →
      keyText tenant rule revision group = keyText tenant' rule' revision' group') :
    ((keyText tenant rule revision group = keyText tenant' rule' revision' group' →
        tenant = tenant' ∧ rule = rule' ∧ revision = revision' ∧
          ∀ binding, binding ∈ group ↔ binding ∈ group') ↔
      ¬ (tenant = tenant' ∧ rule = rule' ∧ revision = revision' ∧ Mistaken group group')) ∧
    (∀ other : List Binding, other.Perm group →
      keyFor platform tenant rule revision other = keyFor platform tenant rule revision group) ∧
    (keyFor platform tenant rule revision group = keyFor platform tenant' rule' revision' group' ↔
      keyText tenant rule revision group = keyText tenant' rule' revision' group') := by
  have same_iff : keyText tenant rule revision group = keyText tenant' rule' revision' group' ↔
      _ := keyText_eq_iff bound bound'
  rw [shown_iff bound bound'] at same_iff
  refine ⟨?_, fun other turned => ?_, fun same => ?_, fun same => ?_⟩
  · rw [same_iff]
    constructor
    · rintro separates ⟨same_tenant, same_rule, same_revision, mistaken⟩
      exact mistaken.not_same bound
        (separates ⟨same_tenant, same_rule, same_revision, Or.inr mistaken⟩).2.2.2
    · rintro apart ⟨same_tenant, same_rule, same_revision, same | mistaken⟩
      · exact ⟨same_tenant, same_rule, same_revision, same⟩
      · exact absurd ⟨same_tenant, same_rule, same_revision, mistaken⟩ apart
  · have texts := keyText_perm tenant rule revision bound turned
    have groups : (keyFor platform tenant rule revision other).group =
        (keyFor platform tenant rule revision group).group := by
      rw [keyFor_group, keyFor_group, texts]
    exact congrArg (Key.mk tenant rule) groups
  · exact collision_free (hexEncode_injective (congrArg Key.group same))
  · obtain ⟨rfl, rfl, -, -⟩ := same_iff.mp same
    have groups : (keyFor platform tenant rule revision group).group =
        (keyFor platform tenant rule revision' group').group := by
      rw [keyFor_group, keyFor_group, same]
    exact congrArg (Key.mk tenant rule) groups

def account (name : String) : Binding := ⟨"authentication.user.name", name, false⟩

def noAccount : Binding := ⟨"authentication.user.name", "", true⟩

theorem bound_account (binding : Binding) (field_eq : binding.field = Leaf.userName.field)
    (empty : binding.absent = true → binding.value = "") : Bound [binding] where
  fields_nodup := by simp
  declared := by simpa using ⟨Leaf.userName, field_eq⟩
  absent_empty := by simpa using empty

theorem keyFor_separates_iff_account :
    keyText "acme" "failed_logons" 1 [account "root"] ≠
      keyText "acme" "failed_logons" 1 [noAccount] := by
  have apart : ¬ ∀ binding, binding ∈ [account "root"] ↔ binding ∈ [noAccount] := by
    intro same
    have := (same (account "root")).mp List.mem_cons_self
    simp [account, noAccount] at this
  have told : ¬ Mistaken [account "root"] [noAccount] := by
    rintro ⟨⟨one, one_mem, two, two_mem, -, kinds⟩, -, -⟩
    obtain rfl := List.mem_singleton.mp one_mem
    obtain rfl := List.mem_singleton.mp two_mem
    simp [account, noAccount, absence] at kinds
  have separates := (@keyFor_separates_iff Platform.plain "acme" "failed_logons" "acme"
    "failed_logons" 1 1 [account "root"] [noAccount]
    (bound_account (account "root") (by rfl) (by decide))
    (bound_account noAccount (by rfl) (by decide))
    (fun same => absurd same (by decide +kernel))).1.mpr (fun mistaken => told mistaken.2.2.2)
  exact fun same => apart (separates same).2.2.2

def failedLogon (user : Option Contract.User) : Contract.Event where
  eventId := "event-001"
  schemaVersion := 1
  eventClass := .authentication
  time := some ⟨some ⟨0, 0⟩, some ⟨0, 0⟩⟩
  origin := some ⟨"acme", "agent-1", none⟩
  collection := some ⟨"journald", "", 1⟩
  reception := none
  authentication := some ⟨1, 2, "", "", user, none, none, ""⟩

def plainEnumerations : EventContract.Enumerations :=
  ⟨Platform.plain.activity, Platform.plain.outcome, Platform.plain.transport⟩

/-- An event of an account named by the text for absence is admitted, and counted with the events of
no account. -/
theorem keyFor_absence :
    EventContract.validateContract plainEnumerations (failedLogon (some ⟨absence, "", ""⟩)) = none ∧
      EventContract.validateContract plainEnumerations (failedLogon none) = none ∧
      bindingOf .plain (failedLogon (some ⟨absence, "", ""⟩)) ⟨Leaf.userName.field, .userName⟩ =
        account absence ∧
      bindingOf .plain (failedLogon none) ⟨Leaf.userName.field, .userName⟩ = noAccount ∧
      account absence ≠ noAccount ∧
      keyText "acme" "failed_logons" 1 [account absence] =
        keyText "acme" "failed_logons" 1 [noAccount] := by
  decide +kernel

end Seagull.DetectionState
