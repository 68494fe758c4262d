import Seagull.DetectionState.Bounds
import Seagull.Ruleset.Snapshot

/-!
# Where a reader starts again

A reader that is handed a partition starts behind the position it committed, by the longest window a
running rule keeps and the clock skew the gateway admits, measured in the timestamps of the log from
the last record it committed.  The log starts at offset zero and its offsets have no gaps.
-/

namespace Seagull.Broker

open Detection DetectionState Ruleset

/-- What the records of a stream are keyed by. -/
def partitionedBy : List Field := ["origin.agent_id"]

/-- The timestamps of a log have the resolution of a millisecond. -/
def millisecond : ℤ := 1000000

/-- A record of a partition log. -/
structure Logged (α : Type) where
  carried : α
  /-- The timestamp of the record, in milliseconds. -/
  stamp : ℤ

/-- The instant of a record's timestamp. -/
def Logged.instant {α : Type} (logged : Logged α) : ℤ := logged.stamp * millisecond

/-- A partition log, in offset order. -/
structure Log (α : Type) where
  records : List (Logged α)
  ordered : records.Pairwise fun earlier later => earlier.stamp ≤ later.stamp

/-- Where a reader that committed a position starts: at the first record of the window before the
last it committed, and never after its position. -/
def rewind {α : Type} (log : Log α) (window : ℤ) (position : ℕ) : ℕ :=
  if window ≤ 0 ∨ position = 0 then position
  else
    match log.records[position - 1]? with
    | none => position
    | some last =>
      let since := (last.instant - window) / millisecond
      match log.records.findIdx? fun logged => since ≤ logged.stamp with
      | none => position
      | some earliest => if position ≤ earliest then position else earliest

/-- How far back the running rules reach: their longest window, as far as the store keeps one, and
the skew. -/
def recovering (bounds : Bounds) (skew : ℤ) (running : Snapshot) : ℤ :=
  let active := running.programs.filter fun program => program.rule.status.runs
  let longest := active.foldl
    (fun longest program =>
      max longest (max program.rule.count.within program.rule.sequence.within)) 0
  if longest = 0 then 0 else min longest bounds.window + skew

theorem rewind_le {α : Type} (log : Log α) (window : ℤ) (position : ℕ) :
    rewind log window position ≤ position := by
  unfold rewind
  split_ifs
  · exact le_rfl
  · split
    · exact le_rfl
    · simp only
      split
      · exact le_rfl
      · split_ifs <;> omega

theorem stamp_lt_of_lt_rewind {α : Type} {log : Log α} {window : ℤ} {position : ℕ}
    {last : Logged α} (positive : 0 < window) (committed : log.records[position]? = some last)
    {index : ℕ} {logged : Logged α} (before : index < rewind log window (position + 1))
    (found : log.records[index]? = some logged) :
    logged.stamp < (last.instant - window) / millisecond := by
  rw [rewind, if_neg (by omega), Nat.add_sub_cancel, committed] at before
  simp only at before
  split at before
  · rename_i missing
    have none_after := List.findIdx?_eq_none_iff.mp missing logged (List.mem_of_getElem? found)
    simpa using none_after
  · rename_i earliest earliest_eq
    obtain ⟨bounded, -, earlier⟩ := List.findIdx?_eq_some_iff_getElem.mp earliest_eq
    have reaches : ¬ position + 1 ≤ earliest := by
      intro beyond
      have waits := earlier position (by omega)
      obtain ⟨_, committed⟩ := List.getElem?_eq_some_iff.mp committed
      rw [committed] at waits
      unfold Logged.instant millisecond at waits
      simp only [decide_eq_true_eq, not_le] at waits
      omega
    rw [if_neg reaches] at before
    obtain ⟨_, found⟩ := List.getElem?_eq_some_iff.mp found
    simpa [found] using earlier index before

theorem window_le_recovering {bounds : Bounds} {skew : ℤ} {running : Snapshot}
    {program : Program} (member : program ∈ running.programs) (runs : program.rule.status.runs)
    {window : ℤ} (positive : 0 < window) (kept : window ≤ bounds.window)
    (own : window ≤ max program.rule.count.within program.rule.sequence.within) :
    window + skew ≤ recovering bounds skew running := by
  have longest_le : ∀ (programs : List Program) (longest : ℤ),
      longest ≤ programs.foldl (fun longest program =>
        max longest (max program.rule.count.within program.rule.sequence.within)) longest ∧
      ∀ one ∈ programs, max one.rule.count.within one.rule.sequence.within ≤
        programs.foldl (fun longest program =>
          max longest (max program.rule.count.within program.rule.sequence.within)) longest := by
    intro programs
    induction programs with
    | nil => intro longest; exact ⟨le_rfl, by simp⟩
    | cons first rest ih =>
      intro longest
      obtain ⟨grows, covers⟩ :=
        ih (max longest (max first.rule.count.within first.rule.sequence.within))
      refine ⟨(le_max_left _ _).trans grows, fun one one_mem => ?_⟩
      rcases List.mem_cons.mp one_mem with rfl | later
      · exact (le_max_right _ _).trans grows
      · exact covers one later
  have active : program ∈ running.programs.filter fun program => program.rule.status.runs :=
    List.mem_filter.mpr ⟨member, runs⟩
  have covered := (longest_le _ 0).2 program active
  unfold recovering
  simp only
  generalize (running.programs.filter fun program => program.rule.status.runs).foldl _ 0 = longest
    at covered
  rw [if_neg (by omega)]
  have := le_min (own.trans covered) kept
  omega

end Seagull.Broker
