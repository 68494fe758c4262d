import Seagull.AgentUpdate.Trust

/-!
# What an agent is offered

An agent is offered the anchor and the roots accepted after it, cut to the newest of them, and walks
those of a higher version than its own.  It reaches the newest root exactly if the cut leaves the
root after its own.
-/

namespace Seagull.AgentUpdate

variable {κ : Type} (library : Library κ)

def maxRoots : ℕ := 64

/-- `Served.Offer`: the newest of the served roots, as they are served. -/
def offer (roots : List Bytes) : Except Failure (List Bytes) := do
  let newest := roots.drop (roots.length - maxRoots)
  let _ ← newest.mapM (decode library)
  return newest

def versionOf (served : Bytes) : ℕ :=
  match decode library served with
  | .error _ => 0
  | .ok envelope => ((library.unmarshalRoot envelope.payload).map RootMessage.version).getD 0

/-- The roots of an offer of a higher version than one's own. -/
def Root.higher (root : Root κ) (offered : List Bytes) : List Bytes :=
  offered.filter fun served => root.version < versionOf library served

variable {library}

def Root.Reads (library : Library κ) (root : Root κ) : Prop :=
  ∃ envelope, decode library root.served = .ok envelope ∧
    library.unmarshalRoot envelope.payload = some root.message

variable {root : Root κ}

theorem Root.Reads.versionOf_eq (reads : root.Reads library) :
    versionOf library root.served = root.version := by
  obtain ⟨envelope, decoded, message_eq⟩ := reads
  rw [versionOf, decoded]
  simp only [message_eq, Option.map_some, Option.getD_some]
  rfl

theorem anchor_reads {served : Bytes} {now : ℤ} (accepted : anchor library served now = .ok root) :
    root.Reads library := by
  simp only [anchor, checked_eq_ok, exists_passed, wrapped_eq_ok, pure_eq_ok] at accepted
  obtain ⟨envelope, -, -, ⟨message, keys⟩, decoded, signed, -, encoded, encoded_eq, rfl⟩ := accepted
  exact ⟨envelope, decode_of_encode encoded_eq, (decodeRoot_eq_ok decoded).1⟩

variable {roots : List (Root κ)}

theorem reads_of_linked (reads : root.Reads library)
    (linked : (root :: roots).IsChain (Follows library)) :
    ∀ held ∈ root :: roots, held.Reads library := by
  induction roots generalizing root with
  | nil => simpa using reads
  | cons next roots ih =>
    obtain ⟨⟨-, envelope, decoded, -, message_eq, -⟩, rest⟩ := List.isChain_cons_cons.mp linked
    exact List.forall_mem_cons.mpr ⟨reads, ih ⟨envelope, decoded, message_eq⟩ rest⟩

variable {held : Root κ}

theorem version_getElem (linked : (root :: roots).IsChain (Follows library)) {index : ℕ}
    (found : (root :: roots)[index]? = some held) : held.version = root.version + index := by
  induction roots generalizing root index with
  | nil =>
    obtain ⟨inside, rfl⟩ := List.getElem?_eq_some_iff.mp found
    obtain rfl : index = 0 := by simpa using inside
    rfl
  | cons next roots ih =>
    obtain ⟨⟨version_eq, -⟩, rest⟩ := List.isChain_cons_cons.mp linked
    cases index with
    | zero => simpa using congrArg Root.version (Option.some.inj found).symm
    | succ index =>
      rw [ih rest found, version_eq]
      omega

theorem mapM_decode_eq_ok (reads : ∀ root ∈ roots, root.Reads library) :
    ∃ envelopes, (roots.map Root.served).mapM (decode library) = .ok envelopes := by
  induction roots with
  | nil => exact ⟨[], rfl⟩
  | cons root roots ih =>
    obtain ⟨⟨envelope, decoded, -⟩, rest⟩ := List.forall_mem_cons.mp reads
    obtain ⟨envelopes, mapped⟩ := ih rest
    refine ⟨envelope :: envelopes, ?_⟩
    simp [decoded, mapped]
    rfl

theorem higher_drop (reads : root.Reads library)
    (linked : (root :: roots).IsChain (Follows library)) {index : ℕ}
    (found : (root :: roots)[index]? = some held) (cut : ℕ) :
    held.higher library (((root :: roots).map Root.served).drop cut) =
      ((root :: roots).drop (max cut (index + 1))).map Root.served := by
  have version_eq := version_getElem linked found
  have all_read := reads_of_linked reads linked
  have counted : ∀ place next, (root :: roots)[place]? = some next →
      (held.version < versionOf library next.served ↔ index < place) := by
    intro place next next_eq
    rw [(all_read next (List.mem_of_getElem? next_eq)).versionOf_eq, version_eq,
      version_getElem linked next_eq]
    omega
  generalize root :: roots = chain at *
  rw [Root.higher, ← List.map_drop, List.filter_map,
    ← List.take_append_drop (index + 1 - cut) (chain.drop cut), List.filter_append,
    List.filter_eq_nil_iff.mpr, List.filter_eq_self.mpr, List.nil_append, List.drop_drop]
  · congr 2
    omega
  · intro next among
    obtain ⟨place, place_eq⟩ := List.mem_iff_getElem?.mp among
    rw [List.getElem?_drop, List.getElem?_drop] at place_eq
    simpa using (counted _ next place_eq).mpr (by omega)
  · intro next among
    obtain ⟨place, inside, next_eq⟩ := List.mem_take_iff_getElem.mp among
    rw [List.getElem_drop] at next_eq
    have := counted _ next (List.getElem?_eq_some_iff.mpr ⟨_, next_eq⟩)
    simp only [Function.comp_apply, decide_eq_true_eq, this]
    omega

theorem walk_gap {next newest : Root κ} {later : ℤ} {rest : List Bytes} (reads : next.Reads library)
    (gap : next.version ≠ held.version + 1) :
    held.walk library later (next.served :: rest) ≠ .ok newest := by
  intro walked
  simp only [Root.walk, Root.next, checked_eq_ok, exists_passed, wrapped_eq_ok, refuse_eq_ok,
    pure_eq_ok, not_not] at walked
  obtain ⟨envelope, decoded, -, ⟨-, -, ⟨message, keys⟩, rooted, -, version_eq, -⟩, -⟩ := walked
  obtain ⟨same, decoded_again, message_eq⟩ := reads
  obtain rfl : envelope = same := Except.ok.inj (decoded.symm.trans decoded_again)
  rw [(decodeRoot_eq_ok rooted).1] at message_eq
  obtain rfl := Option.some.inj message_eq
  exact gap version_eq

/-- Whoever holds the anchor or a root accepted after it follows what it is offered to the newest
root, at any later time, exactly if the newest is at most `maxRoots` versions ahead. -/
theorem walk_offer_iff {served : Bytes} {now later : ℤ} {root : Root κ}
    (anchored : anchor library served now = .ok root) {offers : List Offer} {chain : Chain κ}
    (ran : (publishing library).run ⟨root, []⟩ offers = some chain)
    (passed : ∀ offer ∈ offers, offer.instant ≤ later) {held : Root κ}
    (holds : held ∈ chain.anchor :: chain.accepted) :
    ∃ offered, offer library ((chain.anchor :: chain.accepted).map Root.served) = .ok offered ∧
      (held.walk library later (held.higher library offered) = .ok chain.newest ↔
        chain.newest.version ≤ held.version + maxRoots) := by
  obtain ⟨trusted, rfl⟩ := trusted_of_run (anchor_eq_ok anchored) ran passed
  have reads := anchor_reads anchored
  have all_read := reads_of_linked reads trusted.linked
  obtain ⟨index, held_eq⟩ := List.mem_iff_getElem?.mp holds
  obtain ⟨inside, held_is⟩ := List.getElem?_eq_some_iff.mp held_eq
  have last : (chain.anchor :: chain.accepted).getLast? = some chain.newest := List.getLast?_cons
  have versions : ∀ place root, (chain.anchor :: chain.accepted)[place]? = some root →
      root.version = chain.anchor.version + place := fun _ _ => version_getElem trusted.linked
  rw [versions _ _ held_eq, versions _ _ (List.getLast?_eq_getElem?.symm.trans last)]
  refine ⟨((chain.anchor :: chain.accepted).map Root.served).drop
    ((chain.anchor :: chain.accepted).length - maxRoots), ?_, ?_⟩
  · obtain ⟨envelopes, decoded⟩ := mapM_decode_eq_ok fun root among =>
      all_read root (List.mem_of_mem_drop among)
    simp only [offer, List.length_map, ← List.map_drop, checked_eq_ok]
    exact ⟨envelopes, decoded, rfl⟩
  rw [higher_drop reads trusted.linked held_eq]
  have stepped := trusted.stepped
  generalize chain.anchor :: chain.accepted = held_roots at *
  by_cases kept : held_roots.length - maxRoots ≤ index + 1
  · have from_held : held_roots.drop index = held :: held_roots.drop (index + 1) := by
      rw [List.drop_eq_getElem_cons inside, held_is]
    have walked := walk_of_steps (from_held ▸ stepped.drop index)
    have ends : (held :: held_roots.drop (index + 1)).getLast? = some chain.newest := by
      rw [← from_held, List.getLast?_drop, if_neg (by omega), last]
    rw [List.getLast?_cons, Option.some.injEq] at ends
    rw [max_eq_right kept, walked, ends]
    exact iff_of_true rfl (by omega)
  · have cut_inside : held_roots.length - maxRoots < held_roots.length := by
      have : 0 < maxRoots := by decide
      omega
    rw [max_eq_left (by omega), List.drop_eq_getElem_cons cut_inside, List.map_cons]
    refine iff_of_false (walk_gap (all_read _ (List.getElem_mem cut_inside)) ?_) (by omega)
    rw [versions _ _ (List.getElem?_eq_getElem cut_inside), versions _ _ held_eq]
    omega

/-- A library as the plain one, for all roots of two keys. -/
def longLibrary : Library Bytes :=
  { plainLibrary [8] twoSigned with
    marshal envelope :=
      if envelope = signedRoot twoSigned (envelope.payload.headD 0) then some envelope.payload
      else none
    unmarshal bytes :=
      if bytes = [bytes.headD 0] then some (signedRoot twoSigned (bytes.headD 0)) else none
    unmarshal_marshal := by
      intro envelope encoded written
      split_ifs at written with same
      cases written
      rw [same]
      exact if_pos rfl }

/-- The roots after the first, offered one after another at the epoch. -/
def nextRoots (count : ℕ) : List Offer :=
  (List.range count).map fun index =>
    ⟨⟨some (signedRoot twoSigned (UInt8.ofNat (index + 2))), ""⟩, "operator",
      Contract.Timestamp.unset.asTime⟩

theorem toOption_eq_some_iff {ε α : Type} {result : Except ε α} {value : α} :
    result.toOption = some value ↔ result = .ok value := by
  cases result <;> simp [Except.toOption]

theorem walk_offer_iff_two_roots :
    ∃ (root : Root Bytes) (chain : Chain Bytes) (offered : List Bytes),
      anchor longLibrary [1] Contract.Timestamp.unset.asTime = .ok root ∧
      (publishing longLibrary).run ⟨root, []⟩ (nextRoots 1) = some chain ∧
      offer longLibrary ((chain.anchor :: chain.accepted).map Root.served) = .ok offered ∧
      root.walk longLibrary Contract.Timestamp.unset.asTime (root.higher longLibrary offered) =
        .ok chain.newest := by
  have published : ∃ (root : Root Bytes) (chain : Chain Bytes),
      anchor longLibrary [1] Contract.Timestamp.unset.asTime = .ok root ∧
      (publishing longLibrary).run ⟨root, []⟩ (nextRoots 1) = some chain ∧
      chain.anchor = root ∧ chain.newest.version ≤ root.version + maxRoots :=
    ⟨_, _, rfl, rfl, rfl, by decide⟩
  obtain ⟨root, chain, anchored, ran, anchor_is, near⟩ := published
  obtain ⟨offered, offer_eq, walks⟩ := @walk_offer_iff _ _ _ _ Contract.Timestamp.unset.asTime _
    anchored _ _ ran (by decide) root (anchor_is ▸ List.mem_cons_self)
  exact ⟨root, chain, offered, anchored, ran, offer_eq, walks.mpr near⟩

/-- Sixty-five roots were accepted after the anchor, and its holder is offered the last sixty-four.
-/
theorem walk_offer_cut :
    ∃ (root : Root Bytes) (chain : Chain Bytes) (offered : List Bytes),
      anchor longLibrary [1] Contract.Timestamp.unset.asTime = .ok root ∧
      (publishing longLibrary).run ⟨root, []⟩ (nextRoots 65) = some chain ∧
      chain.newest.version = 66 ∧
      offer longLibrary ((chain.anchor :: chain.accepted).map Root.served) = .ok offered ∧
      root.walk longLibrary Contract.Timestamp.unset.asTime (root.higher longLibrary offered) ≠
        .ok chain.newest := by
  have cut : ((anchor longLibrary [1] Contract.Timestamp.unset.asTime).toOption.bind fun root =>
      ((publishing longLibrary).run ⟨root, []⟩ (nextRoots 65)).bind fun chain =>
        (offer longLibrary ((chain.anchor :: chain.accepted).map Root.served)).toOption.map
          fun offered => (chain.newest.version, (root.walk longLibrary
            Contract.Timestamp.unset.asTime (root.higher longLibrary offered)).isOk)) =
      some (66, false) := by
    decide +kernel
  simp only [Option.bind_eq_some_iff, Option.map_eq_some_iff, Prod.mk.injEq,
    toOption_eq_some_iff] at cut
  obtain ⟨root, anchored, chain, ran, offered, offer_eq, version_eq, lost⟩ := cut
  refine ⟨root, chain, offered, anchored, ran, version_eq, offer_eq, fun walked => ?_⟩
  rw [walked] at lost
  cases lost

end Seagull.AgentUpdate
