import Seagull.Inventory.Projector

/-!
# Which items the names tell apart

The names of a record are a function of its items, in whatever order.  Two items share a name only
if they are the same thing, but for accounts: one without an identifier is named like the one whose
identifier spells its name.
-/

namespace Seagull.Inventory

open InventoryV1 Contract

def Item.kind : Item → Kind
  | .operatingSystem => .operatingSystem
  | .kernel => .kernel
  | .hardware => .hardware
  | .package _ => .package
  | .service _ => .service
  | .networkInterface _ => .networkInterface
  | .user .. => .user
  | .process .. => .process

def Item.texts : Item → List String
  | .package installed =>
    [installed.name, installed.architecture, installed.manager, installed.version]
  | .service name => [name]
  | .networkInterface name => [name]
  | .user name uid _ => [name, uid]
  | .process pid startedAt => identifyProcess pid startedAt
  | _ => []

def Item.instants : Item → List Timestamp
  | .package installed => installed.installedAt.toList
  | .user _ _ lastLogin => lastLogin.toList
  | .process _ startedAt => startedAt.toList
  | _ => []

/-- What `ValidateContract` promises of what a record's items are named by. -/
structure Accepted (record : Record) : Prop where
  present : ∀ item ∈ record.items, Item.kind item = record.kind
  named : ∀ name lastLogin, .user name "" lastLogin ∈ record.items → name ≠ ""
  short : ∀ item ∈ record.items, ∀ text ∈ Item.texts item, Fits text

def SameThing : Item → Item → Prop
  | .package one, .package other =>
    one.name = other.name ∧ one.architecture = other.architecture ∧
      one.manager = other.manager ∧ (heldOnce one.manager ∨ one.version = other.version)
  | .user name uid _, .user other another _ => uid = another ∧ name = other
  | .service name, .service other => name = other
  | .networkInterface name, .networkInterface other => name = other
  | .process pid startedAt, .process other another =>
    pid = other ∧ startedAt.map Timestamp.asTime = another.map Timestamp.asTime
  | one, other => one = other

/-- An account without an identifier is named like the identifier of another one, which stands for
that account alone. -/
def Shadowed (record : Record) : Prop :=
  record.mode = .snapshot ∧ ∃ name one other another,
    .user name "" one ∈ record.items ∧ .user other name another ∈ record.items ∧
      ∀ further lastLogin, .user further name lastLogin ∈ record.items → further = other

variable {hash : List UInt8 → List UInt8} {record : Record} {item other : Item}

/-- What was met before: the first under each name, and whether it shows several. -/
def Shown.Saw (shown : Shown) (noted : List (String × String)) : Prop :=
  (∀ identifier told, shown.first.lookup identifier = some told → (identifier, told) ∈ noted) ∧
    ∀ identifier ∈ shown.several, ∃ one other, (identifier, one) ∈ noted ∧
      (identifier, other) ∈ noted ∧ one ≠ other

theorem Shown.Saw.note {shown : Shown} {noted : List (String × String)} (saw : shown.Saw noted)
    (identifier told : String) :
    (shown.note identifier told).Saw (noted ++ [(identifier, told)]) := by
  obtain ⟨first, several⟩ := saw
  unfold Shown.note
  split
  · refine ⟨fun name one found => ?_, by grind⟩
    rw [FiniteMap.lookup_insert] at found
    grind
  · next before found =>
      have met := first identifier before found
      split_ifs with differ
      · refine ⟨by grind, fun name member => ?_⟩
        rcases List.mem_cons.mp member with rfl | earlier
        · exact ⟨before, told, by simp [met], by simp, differ⟩
        · grind
      · exact ⟨by grind, by grind⟩

theorem mem_several_iff {kind : Kind} {instanceOf : Item → String × Bool} {items : List Item}
    {identifier : String} :
    identifier ∈ (shownSeveral hash kind instanceOf items).several ↔
      ∃ one ∈ items, ∃ other ∈ items, (instanceOf one).2 ∧ (instanceOf other).2 ∧
        itemID hash kind one = identifier ∧ itemID hash kind other = identifier ∧
        (instanceOf one).1 ≠ (instanceOf other).1 := by
  constructor
  · intro member
    have saw := @shownSeveral_induction hash Shown.Saw ⟨by simp, by simp⟩
      (fun _ _ identifier told saw => saw.note identifier told) kind instanceOf items
    obtain ⟨told, another, told_mem, another_mem, differ⟩ := saw.2 identifier member
    simp only [List.mem_map, List.mem_filter, Prod.mk.injEq] at told_mem another_mem
    obtain ⟨one, ⟨one_mem, one_tellable⟩, one_named, rfl⟩ := told_mem
    obtain ⟨other, ⟨other_mem, other_tellable⟩, other_named, rfl⟩ := another_mem
    exact ⟨one, one_mem, other, other_mem, one_tellable, other_tellable, one_named, other_named,
      differ⟩
  · rintro ⟨one, one_mem, other, other_mem, one_tellable, other_tellable, rfl, same, differ⟩
    by_contra alone
    exact differ (told_eq_of_notMem_several one_mem other_mem one_tellable other_tellable same.symm
      alone)

theorem nameIn_reordered {items : List Item} (reordered : items.Perm record.items) :
    nameIn hash { record with items } = nameIn hash record := by
  funext item
  unfold nameIn
  simp only [mem_several_iff, reordered.mem_iff]

theorem identifyProcess_injective {pid another : ℕ} {startedAt otherwise : Option Timestamp}
    (held : ∀ stamp ∈ startedAt, Held stamp.asTime)
    (other_held : ∀ stamp ∈ otherwise, Held stamp.asTime)
    (same : identifyProcess pid startedAt = identifyProcess another otherwise) :
    pid = another ∧ startedAt.map Timestamp.asTime = otherwise.map Timestamp.asTime := by
  simp only [identifyProcess, List.cons.injEq, and_true] at same
  have inject {one other : ℤ} (same : toString one = toString other) : one = other :=
    Decimal.format_injective (by rwa [← Decimal.toString_eq_format, ← Decimal.toString_eq_format])
  have nonempty (number : ℤ) : toString number ≠ "" := by
    rw [Decimal.toString_eq_format]
    unfold Decimal.format Decimal.letters
    split <;> simp [Nat.toDigits_ne_nil]
  refine ⟨Int.ofNat.inj (inject same.1), ?_⟩
  cases startedAt with
  | none =>
    cases otherwise with
    | none => rfl
    | some stamp => exact absurd same.2.symm (nonempty _)
  | some stamp =>
    cases otherwise with
    | none => exact absurd same.2 (nonempty _)
    | some later =>
      have equal := inject same.2
      obtain ⟨first, last⟩ := held stamp rfl
      obtain ⟨other_first, other_last⟩ := other_held later rfl
      unfold earliest latest Duration.second Timestamp.epoch at *
      have start : Timestamp.unset.asTime = 62135596800 * 1000000000 := rfl
      rw [Option.map_some, Option.map_some, Option.some.injEq]
      rw [Int.bmod_eq_of_le (by omega) (by omega), Int.bmod_eq_of_le (by omega) (by omega)]
        at equal
      omega

variable (hash) in
theorem Accepted.fits (accepted : Accepted record) (item_mem : item ∈ record.items) :
    ∀ part ∈ (shape record.kind).identify item ++ (toldIn hash record item).toList, Fits part := by
  intro part member
  refine accepted.short item item_mem part ?_
  have kind := accepted.present item item_mem
  unfold toldIn at member
  rw [← kind] at member
  cases item <;> simp only [Item.kind, shape, Item.texts, Item.getPackage] at member ⊢
  case user | package => split_ifs at member <;> grind
  all_goals simp_all

def Several (record : Record) (uid : String) : Prop :=
  ∃ one other lastLogin another, .user one uid lastLogin ∈ record.items ∧
    .user other uid another ∈ record.items ∧ one ≠ other

section

variable {name uid other another : String} {lastLogin seen : Option Timestamp}
  (accepted : Accepted record) (injective : Function.Injective hash)
  (member : .user name uid lastLogin ∈ record.items)

include accepted injective member

theorem Accepted.eq_of_itemID_eq
    (other_mem : .user other another seen ∈ record.items) (known : uid ≠ "")
    (other_known : another ≠ "")
    (same : itemID hash .user (.user name uid lastLogin) =
      itemID hash .user (.user other another seen)) : uid = another := by
  have fits := accepted.short _ member uid (by simp [Item.texts])
  have other_fits := accepted.short _ other_mem another (by simp [Item.texts])
  have parts := digestOf_injective injective (by simpa [shape, known] using fits)
    (by simpa [shape, other_known] using other_fits) same
  simpa [shape, known, other_known] using parts

theorem Accepted.toldIn_user :
    toldIn hash record (.user name uid lastLogin) = some name ∧
        uid ≠ "" ∧ (record.mode = .delta ∨ Several record uid) ∨
      toldIn hash record (.user name uid lastLogin) = none ∧
        ¬ (uid ≠ "" ∧ (record.mode = .delta ∨ Several record uid)) := by
  have users : record.kind = .user := (accepted.present _ member).symm
  have several (known : uid ≠ "") {instanceOf : Item → String × Bool}
      (shaped : (shape .user).instance? = some instanceOf) :
      itemID hash .user (.user name uid lastLogin) ∈
        (shownSeveral hash .user instanceOf record.items).several ↔ Several record uid := by
    obtain rfl := Option.some.inj shaped
    rw [mem_several_iff]
    constructor
    · rintro ⟨one, one_mem, other, other_mem, one_known, other_known, one_named, other_named, differ⟩
      cases one <;> simp only [Bool.false_eq_true, decide_eq_true_eq] at one_known
      cases other <;> simp only [Bool.false_eq_true, decide_eq_true_eq] at other_known
      obtain rfl := accepted.eq_of_itemID_eq injective one_mem member one_known known one_named
      obtain rfl := accepted.eq_of_itemID_eq injective other_mem member other_known known
        other_named
      exact ⟨_, _, _, _, one_mem, other_mem, differ⟩
    · rintro ⟨one, other, seen, another, one_mem, other_mem, differ⟩
      exact ⟨_, one_mem, _, other_mem, by simpa, by simpa, by simp [itemID, shape, known],
        by simp [itemID, shape, known], differ⟩
  unfold toldIn
  simp only [users, shape]
  split
  · next told =>
      have known : uid ≠ "" := by simpa using told.1
      exact .inl ⟨rfl, known, told.2.imp_right (several known rfl).mp⟩
  · next untold =>
      refine .inr ⟨rfl, fun told => untold ⟨by simpa using told.1, ?_⟩⟩
      exact told.2.imp_right (several told.1 rfl).mpr

theorem Accepted.eq_or_shadowed
    (other_mem : .user other another seen ∈ record.items)
    (identified : (if uid ≠ "" then uid else name) = if another ≠ "" then another else other)
    (told : toldIn hash record (.user name uid lastLogin) =
      toldIn hash record (.user other another seen)) :
    uid = another ∧ name = other ∨ Shadowed record := by
  have alone {name uid other : String} {lastLogin seen : Option Timestamp}
      (member : .user name uid lastLogin ∈ record.items) (known : uid ≠ "")
      (untold : toldIn hash record (.user name uid lastLogin) = none)
      (other_mem : .user other "" seen ∈ record.items) (same : uid = other) : Shadowed record := by
    rcases accepted.toldIn_user injective member with ⟨told, -⟩ | ⟨-, silent⟩
    · simp [told] at untold
    · rw [not_and_or, not_not, not_or] at silent
      obtain ⟨whole, single⟩ := silent.resolve_left known
      subst same
      refine ⟨by cases mode : record.mode <;> simp_all, uid, seen, name, lastLogin, other_mem, member,
        fun further login further_mem => ?_⟩
      by_contra differ
      exact single ⟨_, _, _, _, further_mem, member, differ⟩
  rcases accepted.toldIn_user injective member with ⟨one, known, -⟩ | ⟨one, silent⟩ <;>
    rcases accepted.toldIn_user injective other_mem with
      ⟨two, other_known, -⟩ | ⟨two, other_silent⟩ <;> rw [one, two] at told
  · rw [if_pos known, if_pos other_known] at identified
    exact .inl ⟨identified, Option.some.inj told⟩
  · cases told
  · cases told
  · by_cases known : uid = "" <;> by_cases other_known : another = ""
    · simp_all
    · subst known
      rw [if_neg (not_not.mpr rfl), if_pos other_known] at identified
      exact .inr (alone other_mem other_known two member identified.symm)
    · subst other_known
      rw [if_pos known, if_neg (not_not.mpr rfl)] at identified
      exact .inr (alone member known one other_mem identified)
    · rw [if_pos known, if_pos other_known] at identified
      subst identified
      refine .inl ⟨rfl, ?_⟩
      by_contra differ
      exact silent ⟨known, .inr ⟨_, _, _, _, member, other_mem, differ⟩⟩

end

/-- The names of a record are those of its items in whatever order, and two items share one only if
they are the same thing, exactly when no account is shadowed. -/
theorem names_apart_iff (injective : Function.Injective hash) (accepted : Accepted record)
    (storable : ∀ item ∈ record.items, ∀ stamp ∈ Item.instants item, Held stamp.asTime) :
    ((∀ items, items.Perm record.items →
        itemIDs hash { record with items } = items.map (nameIn hash record)) ∧
      ∀ one ∈ record.items, ∀ other ∈ record.items,
        nameIn hash record one = nameIn hash record other → SameThing one other) ↔
    ¬ Shadowed record := by
  constructor
  · rintro ⟨-, apart⟩ ⟨full, name, one, other, another, plain, known, alone⟩
    have named := accepted.named name one plain
    have users : record.kind = .user := (accepted.present _ plain).symm
    have untold : toldIn hash record (.user other name another) = none := by
      rcases accepted.toldIn_user injective known with ⟨-, -, partly | several⟩ | ⟨untold, -⟩
      · simp [full] at partly
      · obtain ⟨first, second, _, _, first_mem, second_mem, differ⟩ := several
        exact absurd ((alone _ _ first_mem).trans (alone _ _ second_mem).symm) differ
      · exact untold
    have silent : toldIn hash record (.user name "" one) = none := by
      rcases accepted.toldIn_user injective plain with ⟨-, unnamed, -⟩ | ⟨silent, -⟩
      · exact absurd rfl unnamed
      · exact silent
    have same := apart _ plain _ known (by
      rw [nameIn_eq, nameIn_eq, untold, silent, users]
      simp [shape, named])
    exact named same.1.symm
  · intro clear
    refine ⟨fun items reordered => by rw [itemIDs, nameIn_reordered reordered], ?_⟩
    intro one one_mem other other_mem same
    have one_kind := accepted.present one one_mem
    have other_kind := accepted.present other other_mem
    have kinds := one_kind.trans other_kind.symm
    obtain ⟨identified, told⟩ := of_nameIn_eq injective rfl (accepted.fits hash one_mem)
      (accepted.fits hash other_mem) same
    rw [← one_kind] at identified
    cases one <;> cases other <;> simp only [Item.kind, reduceCtorEq] at kinds
    case operatingSystem.operatingSystem | kernel.kernel | hardware.hardware => rfl
    case package.package one other =>
      simp only [shape, Item.kind, Item.getPackage, List.cons.injEq, and_true] at identified
      obtain ⟨name, architecture, manager⟩ := identified
      refine ⟨name, architecture, manager, ?_⟩
      cases held : heldOnce one.manager with
      | true => exact .inl rfl
      | false =>
        have fits : (instanceOf (.package one)).Fits := accepted.short _ one_mem
        have other_fits : (instanceOf (.package other)).Fits := accepted.short _ other_mem
        exact .inr (version_eq_of_nameIn_eq injective one_kind.symm fits other_fits one_mem
          other_mem same held)
    case service.service | networkInterface.networkInterface =>
      simpa [shape, Item.kind, SameThing] using identified
    case user.user =>
      exact (accepted.eq_or_shadowed injective one_mem other_mem
        (by simpa [shape, Item.kind] using identified) told).resolve_right clear
    case process.process =>
      exact identifyProcess_injective (fun stamp member => storable _ one_mem stamp (by
        simpa [Item.instants] using member)) (fun stamp member => storable _ other_mem stamp (by
        simpa [Item.instants] using member)) (by simpa [shape, Item.kind] using identified)

def accountRecord (mode : Mode) (accounts : List (String × String)) : Record :=
  ⟨"record-0001", 1, "acme", "agent-1", .user, mode, ⟨0, 0⟩, none,
    accounts.map fun (name, uid) => .user name uid none⟩

theorem names_apart_iff_accounts :
    nameIn id (accountRecord .snapshot [("alice", "1000"), ("bob", "")])
        (.user "alice" "1000" none) ≠
      nameIn id (accountRecord .snapshot [("alice", "1000"), ("bob", "")]) (.user "bob" "" none) := by
  intro same
  have apart := ((names_apart_iff Function.injective_id
    ⟨by decide, by simp [accountRecord], by decide +kernel⟩ (by decide)).mpr
    (by simp [Shadowed, accountRecord])).2 _ (by decide) _ (by decide) same
  exact absurd apart.1 (by decide)

/-- The account without an identifier overwrites the one whose identifier spells its name. -/
theorem accounts_share_name :
    nameIn id (accountRecord .snapshot [("alice", "1000"), ("1000", "")])
        (.user "alice" "1000" none) =
      nameIn id (accountRecord .snapshot [("alice", "1000"), ("1000", "")])
        (.user "1000" "" none) ∧
      ¬ SameThing (.user "alice" "1000" none) (.user "1000" "" none) :=
  ⟨by decide +kernel, fun same => absurd same.1 (by decide)⟩

end Seagull.Inventory
