import Seagull.Detection.Compile

/-!
# What the name of a detection tells

The events of a detection are written grouped by agent, each group sorted and behind its count.  So
their order leaves no trace in the name, and what was written is read back as one multiset.
-/

namespace Seagull.Detection

def eventsOf (sent : List SentEvent) (agent : String) : List String :=
  ((sent.filter fun one => one.agent = agent).map SentEvent.event).insertionSort (· ≤ ·)

def agentsOf (sent : List SentEvent) : List String :=
  (sent.map SentEvent.agent).dedup.insertionSort (· ≤ ·)

def blocks (sent : List SentEvent) (agents : List String) : List String :=
  agents.flatMap fun agent =>
    agent :: toString (eventsOf sent agent).length :: eventsOf sent agent

/-- What `identify` writes before it is digested. -/
def identityText (rule : String) (revision : ℤ) (tenant : String) (sent : List SentEvent) :
    String :=
  framedAll ([rule, toString revision, tenant] ++ blocks sent (agentsOf sent))

theorem identify_eq (platform : Platform) (rule : String) (revision : ℤ) (tenant : String)
    (sent : List SentEvent) :
    identify platform rule revision tenant sent =
      hexEncode ((platform.sha256 (identityText rule revision tenant sent)).take 16) := by
  simp only [identify, identityText, blocks, agentsOf, eventsOf, List.length_insertionSort]

theorem insertionSort_congr {texts others : List String} (same : texts.Perm others) :
    texts.insertionSort (· ≤ ·) = others.insertionSort (· ≤ ·) := by
  refine List.Perm.eq_of_pairwise' (r := (· ≤ ·)) (List.pairwise_insertionSort _ _)
    (List.pairwise_insertionSort _ _) ?_
  exact (List.perm_insertionSort _ texts).trans
    (same.trans (List.perm_insertionSort _ others).symm)

variable {sent others : List SentEvent}

theorem eventsOf_congr (same : sent.Perm others) (agent : String) :
    eventsOf sent agent = eventsOf others agent :=
  insertionSort_congr ((same.filter _).map _)

theorem agentsOf_congr (same : sent.Perm others) :
    agentsOf sent = agentsOf others :=
  insertionSort_congr (same.map _).dedup

theorem blocks_injective {agents against : List String}
    (same : blocks sent agents = blocks others against) :
    agents = against ∧ ∀ agent ∈ agents, eventsOf sent agent = eventsOf others agent := by
  induction agents generalizing against with
  | nil =>
    cases against with
    | nil => exact ⟨rfl, by simp⟩
    | cons first rest => simp [blocks] at same
  | cons agent agents ih =>
    cases against with
    | nil => simp [blocks] at same
    | cons first rest =>
      rw [blocks, blocks, List.flatMap_cons, List.flatMap_cons, List.cons_append,
        List.cons_append, List.cons_append, List.cons_append, List.cons.injEq,
        List.cons.injEq] at same
      obtain ⟨rfl, same_count, same_rest⟩ := same
      obtain ⟨same_events, same_blocks⟩ :=
        List.append_inj same_rest (Decimal.toString_injective same_count)
      obtain ⟨rfl, same_later⟩ := ih same_blocks
      exact ⟨rfl, List.forall_mem_cons.mpr ⟨same_events, same_later⟩⟩

theorem mem_agentsOf {sent : List SentEvent} {agent : String} :
    agent ∈ agentsOf sent ↔ agent ∈ sent.map SentEvent.agent := by
  rw [agentsOf, List.mem_insertionSort, List.mem_dedup]

theorem count_eventsOf (sent : List SentEvent) (one : SentEvent) :
    (eventsOf sent one.agent).count one.event = sent.count one := by
  rw [eventsOf, (List.perm_insertionSort _ _).count_eq]
  induction sent with
  | nil => rfl
  | cons first rest ih =>
    obtain ⟨agent, event⟩ := first
    obtain ⟨one_agent, one_event⟩ := one
    by_cases same : agent = one_agent
    · subst same
      simp [List.count_cons, ih]
    · simp [ih, same]

theorem perm_of_eventsOf (same_agents : agentsOf sent = agentsOf others)
    (same : ∀ agent ∈ agentsOf sent, eventsOf sent agent = eventsOf others agent) :
    sent.Perm others := by
  refine List.perm_iff_count.mpr fun one => ?_
  by_cases among : one.agent ∈ agentsOf sent
  · rw [← count_eventsOf, ← count_eventsOf, same one.agent among]
  · have absent : ∀ {events : List SentEvent}, one.agent ∉ agentsOf events →
        events.count one = 0 := fun unsent =>
      List.count_eq_zero.mpr fun one_mem =>
        unsent (mem_agentsOf.mpr (List.mem_map_of_mem one_mem))
    rw [absent among, absent (same_agents ▸ among)]

theorem identityText_eq_iff {rule rule' tenant tenant' : String} {revision revision' : ℤ}
    {sent sent' : List SentEvent} :
    identityText rule revision tenant sent = identityText rule' revision' tenant' sent' ↔
      rule = rule' ∧ revision = revision' ∧ tenant = tenant' ∧ sent.Perm sent' := by
  constructor
  · intro same
    have parts := framedAll_injective same
    simp only [List.cons_append, List.nil_append, List.cons.injEq] at parts
    obtain ⟨rfl, same_revision, rfl, same_blocks⟩ := parts
    obtain ⟨same_agents, same_events⟩ := blocks_injective same_blocks
    refine ⟨rfl, ?_, rfl, perm_of_eventsOf same_agents same_events⟩
    rw [Decimal.toString_eq_format, Decimal.toString_eq_format] at same_revision
    exact Decimal.format_injective same_revision
  · rintro ⟨rfl, rfl, rfl, same⟩
    have same_blocks : blocks sent (agentsOf sent) = blocks sent' (agentsOf sent') := by
      rw [agentsOf_congr same]
      exact List.flatMap_congr fun agent _ => by rw [eventsOf_congr same]
    rw [identityText, identityText, same_blocks]

/-- A detection is named by the rule, its revision, the tenant and the multiset of the events it was
decided from: two names are written from the same bytes exactly when these agree, and so are the names
themselves where the digest of what was written has no collision. -/
theorem identify_eq_iff (platform : Platform) {rule rule' tenant tenant' : String}
    {revision revision' : ℤ} {sent sent' : List SentEvent}
    (collision_free : (platform.sha256 (identityText rule revision tenant sent)).take 16 =
        (platform.sha256 (identityText rule' revision' tenant' sent')).take 16 →
      identityText rule revision tenant sent = identityText rule' revision' tenant' sent') :
    (identityText rule revision tenant sent = identityText rule' revision' tenant' sent' ↔
        rule = rule' ∧ revision = revision' ∧ tenant = tenant' ∧ sent.Perm sent') ∧
      (identify platform rule revision tenant sent =
          identify platform rule' revision' tenant' sent' ↔
        rule = rule' ∧ revision = revision' ∧ tenant = tenant' ∧ sent.Perm sent') := by
  refine ⟨identityText_eq_iff, ?_⟩
  rw [identify_eq, identify_eq, ← identityText_eq_iff]
  exact ⟨fun same => collision_free (hexEncode_injective same), fun same => by rw [same]⟩

theorem identify_eq_iff_turned :
    identify Platform.plain "r" 1 "t" [⟨"b", "e-2"⟩, ⟨"a", "e-1"⟩] =
      identify Platform.plain "r" 1 "t" [⟨"a", "e-1"⟩, ⟨"b", "e-2"⟩] := by
  have turned : [(⟨"b", "e-2"⟩ : SentEvent), ⟨"a", "e-1"⟩].Perm [⟨"a", "e-1"⟩, ⟨"b", "e-2"⟩] :=
    List.Perm.swap _ _ _
  exact (identify_eq_iff Platform.plain fun _ =>
    identityText_eq_iff.mpr ⟨rfl, rfl, rfl, turned⟩).2.mpr ⟨rfl, rfl, rfl, turned⟩

end Seagull.Detection
