import Mathlib.Tactic

/-!
# Compacted logs

A log of keyed records that may be compacted at any time: what is left is part of what was written,
in order, and of the records under a key the last one written is sure to be left.
-/

namespace Seagull.CompactedLog

variable {ρ κ : Type} (key : ρ → κ)

def Ordered (rank : ρ → ℕ) (log : List ρ) : Prop :=
  log.Pairwise fun one next => key one = key next → rank one ≤ rank next

variable {record : ρ}

theorem Ordered.append {key : ρ → κ} {rank : ρ → ℕ} {log : List ρ} (ordered : Ordered key rank log)
    (above : ∀ before ∈ log, key before = key record → rank before ≤ rank record) :
    Ordered key rank (log ++ [record]) := by
  refine List.pairwise_append.mpr ⟨ordered, List.pairwise_singleton _ _, ?_⟩
  intro before before_mem after after_mem
  rw [List.mem_singleton.mp after_mem]
  exact above before before_mem

variable [DecidableEq κ]

def lastUnder (log : List ρ) (under : κ) : Option ρ :=
  (log.filter fun record => key record = under).getLast?

/-- Drop every record a later one replaces, but under the spared keys. -/
def prune (spared : κ → Bool) : List ρ → List ρ
  | [] => []
  | record :: rest =>
    if spared (key record) ∨ ∀ later ∈ rest, key later ≠ key record then
      record :: prune spared rest
    else prune spared rest

def Compacts (kept log : List ρ) : Prop :=
  kept.Sublist log ∧ ∀ record ∈ log, lastUnder key kept (key record) = lastUnder key log (key record)

instance [DecidableEq ρ] (kept log : List ρ) : Decidable (Compacts key kept log) :=
  inferInstanceAs (Decidable (_ ∧ _))

variable {key} {rank : ρ → ℕ} {kept log : List ρ}

theorem Ordered.compacts (ordered : Ordered key rank log) (compacts : Compacts key kept log) :
    Ordered key rank kept :=
  ordered.sublist compacts.1

theorem Ordered.rank_le_last (ordered : Ordered key rank log) (member : record ∈ log) :
    ∃ last, lastUnder key log (key record) = some last ∧ last ∈ log ∧ key last = key record ∧
      rank record ≤ rank last := by
  have among : record ∈ log.filter fun other => key other = key record := by simp [member]
  obtain ⟨last, last_eq⟩ : ∃ last, lastUnder key log (key record) = some last :=
    ⟨_, List.getLast?_eq_some_getLast (List.ne_nil_of_mem among)⟩
  have last_among := List.mem_of_getLast? last_eq
  simp only [List.mem_filter, decide_eq_true_eq] at last_among
  obtain ⟨last_mem, last_key⟩ := last_among
  refine ⟨last, last_eq, last_mem, last_key, ?_⟩
  obtain ⟨front, front_eq⟩ := List.getLast?_eq_some_iff.mp last_eq
  rw [front_eq] at among
  rcases List.mem_append.mp among with before | itself
  · have in_order := ordered.sublist (List.filter_sublist (p := fun other => key other = key record))
    rw [front_eq] at in_order
    exact (List.pairwise_append.mp in_order).2.2 record before last (by simp)
      (by simpa using last_key.symm)
  · rw [List.mem_singleton.mp itself]

theorem Compacts.reaches (compacts : Compacts key kept log) (ordered : Ordered key rank log)
    (member : record ∈ log) : ∃ left ∈ kept, key left = key record ∧ rank record ≤ rank left := by
  obtain ⟨last, last_eq, -, last_key, above⟩ := ordered.rank_le_last member
  rw [← compacts.2 record member] at last_eq
  exact ⟨last, List.mem_of_mem_filter (List.mem_of_getLast? last_eq), last_key, above⟩

theorem Compacts.exists_key (compacts : Compacts key kept log) (member : record ∈ log) :
    ∃ left ∈ kept, key left = key record := by
  have ordered : Ordered key (fun _ => 0) log :=
    List.Pairwise.imp (fun _ _ => le_rfl) (List.pairwise_of_forall fun _ _ => trivial)
  obtain ⟨left, left_mem, same_key, -⟩ := compacts.reaches ordered member
  exact ⟨left, left_mem, same_key⟩

theorem Compacts.lastUnder_eq (compacts : Compacts key kept log) (under : κ) :
    lastUnder key kept under = lastUnder key log under := by
  by_cases known : ∃ record ∈ log, key record = under
  · obtain ⟨record, record_mem, rfl⟩ := known
    exact compacts.2 record record_mem
  · have none_under : ∀ part : List ρ, part.Sublist log → lastUnder key part under = none := by
      intro part within
      rw [lastUnder, List.getLast?_eq_none_iff, List.filter_eq_nil_iff]
      intro record record_mem same
      exact known ⟨record, within.subset record_mem, of_decide_eq_true same⟩
    rw [none_under kept compacts.1, none_under log (List.Sublist.refl log)]

theorem lastUnder_concat (log : List ρ) (record : ρ) (under : κ) :
    lastUnder key (log ++ [record]) under =
      if key record = under then some record else lastUnder key log under := by
  unfold lastUnder
  split
  · rename_i same
    simp [same]
  · rename_i differs
    simp [differs]

section Prune

variable {spared : κ → Bool}

theorem prune_cons (record : ρ) (rest : List ρ) :
    prune key spared (record :: rest) =
      if spared (key record) ∨ ∀ later ∈ rest, key later ≠ key record then
        record :: prune key spared rest
      else prune key spared rest := rfl

theorem prune_sublist (log : List ρ) : (prune key spared log).Sublist log := by
  induction log with
  | nil => exact List.Sublist.refl []
  | cons record rest ih =>
    rw [prune_cons]
    split
    · exact ih.cons_cons record
    · exact ih.cons record

theorem prune_cons_sublist (record : ρ) (rest : List ρ) :
    (prune key spared rest).Sublist (prune key spared (record :: rest)) := by
  rw [prune_cons]
  split
  · exact List.sublist_cons_self record _
  · exact List.Sublist.refl _

theorem lastUnder_cons (record : ρ) (rest : List ρ) (under : κ) :
    lastUnder key (record :: rest) under =
      (lastUnder key rest under).or (if key record = under then some record else none) := by
  unfold lastUnder
  by_cases same : key record = under
  · rw [List.filter_cons_of_pos (by simpa using same), if_pos same]
    cases rest.filter fun later => key later = under with
    | nil => rfl
    | cons first others => rw [List.getLast?_cons_cons, List.getLast?_cons, Option.some_or]
  · rw [List.filter_cons_of_neg (by simpa using same), if_neg same, Option.or_none]

theorem compacts_tail {record : ρ} {rest : List ρ} (replaced : ∃ later ∈ rest, key later = key record) :
    Compacts key rest (record :: rest) := by
  refine ⟨List.sublist_cons_self record rest, fun other _ => ?_⟩
  rw [lastUnder_cons]
  split
  · rename_i same
    obtain ⟨later, later_mem, later_key⟩ := replaced
    cases found : lastUnder key rest (key other) with
    | some last => rfl
    | none =>
      rw [lastUnder, List.getLast?_eq_none_iff, List.filter_eq_nil_iff] at found
      exact absurd (decide_eq_true (later_key.trans same)) (found later later_mem)
  · rw [Option.or_none]

theorem lastUnder_isSome {under : κ} :
    (∃ last, lastUnder key log under = some last) ↔ ∃ record ∈ log, key record = under := by
  rw [← Option.isSome_iff_exists]
  simp [lastUnder]

theorem lastUnder_prune (log : List ρ) (under : κ) :
    lastUnder key (prune key spared log) under = lastUnder key log under := by
  induction log with
  | nil => rfl
  | cons record rest ih =>
    rw [prune_cons, lastUnder_cons]
    split
    · rw [lastUnder_cons, ih]
    · rename_i replaced
      push Not at replaced
      obtain ⟨-, later, later_mem, same_key⟩ := replaced
      rw [ih]
      split
      · rename_i here
        obtain ⟨last, found⟩ := lastUnder_isSome.mpr ⟨later, later_mem, same_key.trans here⟩
        rw [found, Option.some_or]
      · rw [Option.or_none]

theorem prune_compacts (log : List ρ) : Compacts key (prune key spared log) log :=
  ⟨prune_sublist log, fun record _ => lastUnder_prune log (key record)⟩

theorem before_prune {log : List ρ} {one next : ρ} (before : [one, next].Sublist log)
    (is_spared : spared (key one)) :
    ∃ last, [one, last].Sublist (prune key spared log) ∧ key last = key next := by
  induction log with
  | nil => cases before
  | cons record rest ih =>
    cases before with
    | cons _ before =>
      obtain ⟨last, still, same_key⟩ := ih before
      exact ⟨last, still.trans (prune_cons_sublist record rest), same_key⟩
    | cons_cons _ after =>
      have left_over : Compacts key (prune key spared rest) rest := prune_compacts rest
      obtain ⟨last, last_mem, same_key⟩ :=
        left_over.exists_key (List.singleton_sublist.mp after)
      refine ⟨last, ?_, same_key⟩
      rw [prune_cons, if_pos (.inl is_spared)]
      exact (List.singleton_sublist.mpr last_mem).cons_cons one

theorem prune_pairwise (log : List ρ) : (prune key spared log).Pairwise fun one next =>
    key next = key one → spared (key one) := by
  induction log with
  | nil => exact List.Pairwise.nil
  | cons record rest ih =>
    rw [prune_cons]
    split
    · rename_i kept_here
      refine List.pairwise_cons.mpr ⟨fun next next_mem same_key => ?_, ih⟩
      rcases kept_here with is_spared | is_last
      · exact is_spared
      · exact absurd same_key (is_last next ((prune_sublist rest).subset next_mem))
    · exact ih

end Prune

section Succession

variable {succeeds : ρ → ρ → Prop}

variable {record : ρ}

theorem key_of_lastUnder {under : κ} (last : lastUnder key log under = some record) :
    key record = under :=
  of_decide_eq_true (List.mem_filter.mp (List.mem_of_getLast? last)).2

variable (key succeeds) in
def Succession (log : List ρ) : Prop :=
  ∀ under, (log.filter fun record => key record = under).IsChain succeeds

theorem succession_nil : Succession key succeeds [] := fun _ => List.IsChain.nil

theorem succession_concat_iff :
    Succession key succeeds (log ++ [record]) ↔
      Succession key succeeds log ∧
        ∀ last, lastUnder key log (key record) = some last → succeeds last record := by
  simp only [Succession, List.filter_append, List.isChain_append]
  constructor
  · intro chains
    exact ⟨fun under => (chains under).1, fun last last_eq =>
      (chains (key record)).2.2 last last_eq record (by simp)⟩
  · rintro ⟨chains, next⟩ under
    refine ⟨chains under, ?_, fun last last_eq other other_eq => ?_⟩
    · by_cases same : key record = under <;> simp [same]
    · by_cases same : key record = under
      · simp only [List.filter_cons, same, decide_true, if_true, List.filter_nil, List.head?_cons,
          Option.mem_def, Option.some.injEq] at other_eq
        subst other_eq same
        exact next last last_eq
      · simp [same] at other_eq

variable {added : List ρ}

theorem lastUnder_append (distinct : (added.map key).Nodup) (member : record ∈ added) :
    lastUnder key (log ++ added) (key record) = some record := by
  induction added using List.reverseRecOn with
  | nil => cases member
  | append_singleton added final ih =>
    rw [List.map_append, List.nodup_append] at distinct
    rw [← List.append_assoc, lastUnder_concat]
    rcases List.mem_append.mp member with earlier | is_final
    · have differs : key final ≠ key record := fun same =>
        distinct.2.2 _ (List.mem_map_of_mem earlier) _ (by simp) same.symm
      rw [if_neg differs, ih distinct.1 earlier]
    · rw [List.mem_singleton.mp is_final, if_pos rfl]

theorem lastUnder_append_of_notMem {under : κ} (absent : under ∉ added.map key) :
    lastUnder key (log ++ added) under = lastUnder key log under := by
  have nothing : (added.filter fun record => key record = under) = [] :=
    List.filter_eq_nil_iff.mpr fun record member same =>
      absent (List.mem_map.mpr ⟨record, member, of_decide_eq_true same⟩)
  rw [lastUnder, List.filter_append, nothing, List.append_nil, lastUnder]

theorem Succession.append (succession : Succession key succeeds log)
    (distinct : (added.map key).Nodup)
    (next : ∀ record ∈ added, ∀ last, lastUnder key log (key record) = some last →
      succeeds last record) : Succession key succeeds (log ++ added) := by
  induction added using List.reverseRecOn with
  | nil => rwa [List.append_nil]
  | append_singleton added final ih =>
    rw [List.map_append, List.nodup_append] at distinct
    rw [← List.append_assoc, succession_concat_iff]
    refine ⟨ih distinct.1 fun record member => next record (by simp [member]), ?_⟩
    have absent : key final ∉ added.map key := fun member =>
      distinct.2.2 _ member _ (by simp) rfl
    rw [lastUnder_append_of_notMem absent]
    exact next final (by simp)

theorem Succession.pairwise {α : Type} [Preorder α] {measure : ρ → α}
    (succession : Succession key succeeds log)
    (grows : ∀ one next, succeeds one next → measure one ≤ measure next) :
    log.Pairwise fun one next => key one = key next → measure one ≤ measure next := by
  refine List.pairwise_iff_forall_sublist.mpr fun {one next} both same => ?_
  have chain := (succession (key one)).imp grows
  have trans : Trans (fun one next => measure one ≤ measure next)
    (fun one next => measure one ≤ measure next) fun one next => measure one ≤ measure next :=
    ⟨fun first second => le_trans first second⟩
  have pairwise := List.pairwise_filter.mp (List.isChain_iff_pairwise.mp chain)
  have related := List.pairwise_iff_forall_sublist.mp pairwise both
  exact related (by simp) (by simp [same])

end Succession

end Seagull.CompactedLog
