import Mathlib.Tactic

/-!
# Wildcards

A pattern in which one letter stands for any row of letters.  Looking for the parts between the
wildcards one after another, each at the first place it is found, finds them whenever they stand in
the text in that order.
-/

namespace Seagull.Wildcard

variable {α : Type}

/-- Whether a pattern matches a text.  A wildcard leaves out any letters. -/
def fits [DecidableEq α] (wildcard : α) : List α → List α → Bool
  | [], text => text.isEmpty
  | letter :: pattern, text =>
    if letter = wildcard then text.tails.any (fits wildcard pattern)
    else match text with
      | [] => false
      | first :: rest => first = letter && fits wildcard pattern rest

def behindFirst [DecidableEq α] (part : List α) : List α → Option (List α)
  | [] => if part = [] then some [] else none
  | letter :: text =>
    if part.isPrefixOf (letter :: text) then some ((letter :: text).drop part.length)
    else behindFirst part text

/-- Whether parts stand in a text one behind another, the last at its end. -/
def inOrder [DecidableEq α] : List (List α) → List α → Bool
  | [], _ => true
  | [last], text => last.isSuffixOf text
  | part :: parts, text =>
    match behindFirst part text with
    | none => false
    | some behind => inOrder parts behind

def Anchored : List (List α) → List α → Prop
  | [], text => text = []
  | [part], text => text = part
  | part :: parts, text => ∃ gap tail, text = part ++ (gap ++ tail) ∧ Anchored parts tail

def Gapped (parts : List (List α)) (text : List α) : Prop :=
  ∃ gap tail, text = gap ++ tail ∧ Anchored parts tail

variable {part text : List α} {parts : List (List α)}

theorem anchored_cons_cons {next : List α} :
    Anchored (part :: next :: parts) text ↔
      ∃ rest, text = part ++ rest ∧ Gapped (next :: parts) rest := by
  constructor
  · rintro ⟨gap, tail, rfl, anchored⟩
    exact ⟨gap ++ tail, rfl, gap, tail, rfl, anchored⟩
  · rintro ⟨rest, rfl, gap, tail, rfl, anchored⟩
    exact ⟨gap, tail, rfl, anchored⟩

theorem anchored_cons_letter {letter : α} :
    Anchored ((letter :: part) :: parts) text ↔
      ∃ rest, text = letter :: rest ∧ Anchored (part :: parts) rest := by
  cases parts with
  | nil => simp [Anchored]
  | cons next parts =>
    simp only [anchored_cons_cons]
    constructor
    · rintro ⟨rest, rfl, gapped⟩
      exact ⟨part ++ rest, rfl, rest, rfl, gapped⟩
    · rintro ⟨_, rfl, rest, rfl, gapped⟩
      exact ⟨rest, rfl, gapped⟩

theorem fits_wildcard_iff [DecidableEq α] {wildcard : α} {pattern : List α} :
    fits wildcard (wildcard :: pattern) text = true ↔
      ∃ gap tail, text = gap ++ tail ∧ fits wildcard pattern tail = true := by
  simp only [fits, if_true, List.any_eq_true, List.mem_tails]
  constructor
  · rintro ⟨tail, ⟨gap, rfl⟩, matched⟩
    exact ⟨gap, tail, rfl, matched⟩
  · rintro ⟨gap, tail, rfl, matched⟩
    exact ⟨tail, ⟨gap, rfl⟩, matched⟩

theorem anchored_splitOn_iff [DecidableEq α] {wildcard : α} {pattern : List α} :
    Anchored (pattern.splitOn wildcard) text ↔ fits wildcard pattern text = true := by
  induction pattern generalizing text with
  | nil => simp [Anchored, fits]
  | cons letter pattern ih =>
    obtain ⟨part, parts, split⟩ := List.exists_cons_of_ne_nil
      (List.splitOn_ne_nil wildcard pattern)
    rw [List.splitOn_cons_eq_if_modifyHead]
    by_cases wild : letter = wildcard
    · subst wild
      simp only [beq_self_eq_true, if_true, fits_wildcard_iff, ← ih, split]
      rw [anchored_cons_cons]
      exact ⟨fun ⟨_, rfl, gapped⟩ => gapped, fun gapped => ⟨text, rfl, gapped⟩⟩
    · rw [if_neg (by simpa using wild), split, List.modifyHead_cons, anchored_cons_letter,
        ← split]
      cases text with
      | nil => simp [fits, wild]
      | cons first rest => simp [fits, wild, ih]

theorem behindFirst_eq_some [DecidableEq α] {behind : List α}
    (found : behindFirst part text = some behind) : ∃ gap, text = gap ++ (part ++ behind) := by
  induction text with
  | nil =>
    simp only [behindFirst] at found
    split_ifs at found with empty
    cases found
    exact ⟨[], by simp [empty]⟩
  | cons letter text ih =>
    simp only [behindFirst] at found
    split_ifs at found with here
    · cases found
      obtain ⟨rest, eq⟩ := List.isPrefixOf_iff_prefix.mp here
      exact ⟨[], by simp [← eq]⟩
    · obtain ⟨gap, rfl⟩ := ih found
      exact ⟨letter :: gap, rfl⟩

theorem exists_behindFirst [DecidableEq α] {part gap rest : List α} :
    ∃ skipped, behindFirst part (gap ++ (part ++ rest)) = some (skipped ++ rest) := by
  induction gap with
  | nil =>
    refine ⟨[], ?_⟩
    cases part with
    | nil =>
      cases rest with
      | nil => rfl
      | cons letter rest => simp [behindFirst]
    | cons letter part => simp [behindFirst]
  | cons letter gap ih =>
    simp only [List.cons_append, behindFirst]
    split_ifs with here
    · obtain ⟨behind, eq⟩ := List.isPrefixOf_iff_prefix.mp here
      have longer : (part ++ behind).drop part.length = behind := by simp
      rw [← eq, longer]
      -- both are tails of one text, and what is behind the first place is the longer one
      have rest_of : rest <:+ letter :: (gap ++ (part ++ rest)) :=
        ⟨letter :: (gap ++ part), by simp⟩
      have shorter : rest.length ≤ behind.length := by
        have lengths := congrArg List.length eq
        simp only [List.length_append, List.length_cons] at lengths
        omega
      have tail_of : rest <:+ behind :=
        List.suffix_of_suffix_length_le rest_of ⟨part, eq⟩ shorter
      obtain ⟨skipped, rfl⟩ := tail_of
      exact ⟨skipped, rfl⟩
    · exact ih

theorem Gapped.append (gapped : Gapped parts text) (skipped : List α) :
    Gapped parts (skipped ++ text) := by
  obtain ⟨gap, tail, rfl, anchored⟩ := gapped
  exact ⟨skipped ++ gap, tail, by simp, anchored⟩

theorem inOrder_iff [DecidableEq α] :
    inOrder (part :: parts) text = true ↔ Gapped (part :: parts) text := by
  induction parts generalizing part text with
  | nil =>
    simp only [inOrder, List.isSuffixOf_iff_suffix, Gapped, Anchored]
    exact ⟨fun ⟨gap, eq⟩ => ⟨gap, part, eq.symm, rfl⟩, fun ⟨gap, _, eq, last⟩ =>
      ⟨gap, by rw [eq, last]⟩⟩
  | cons next parts ih =>
    simp only [inOrder]
    constructor
    · intro ordered
      cases found : behindFirst part text with
      | none => simp [found] at ordered
      | some behind =>
        rw [found] at ordered
        obtain ⟨gap, rfl⟩ := behindFirst_eq_some found
        exact ⟨gap, part ++ behind, rfl, anchored_cons_cons.mpr ⟨behind, rfl, ih.mp ordered⟩⟩
    · rintro ⟨gap, tail, rfl, anchored⟩
      obtain ⟨rest, rfl, gapped⟩ := anchored_cons_cons.mp anchored
      obtain ⟨skipped, found⟩ := @exists_behindFirst α _ part gap rest
      rw [found]
      exact ih.mpr (gapped.append skipped)

end Seagull.Wildcard
