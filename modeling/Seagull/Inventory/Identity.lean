import Seagull.Contract.Inventory
import Seagull.Foundation.FiniteMap
import Seagull.Foundation.Framing

/-!
# What the items of a record are called

An item is named by a digest of what tells it apart on its asset.  Where one name may cover several
items, a record that shows several, or that is only part of an asset, names each instance.
-/

namespace Seagull.Inventory

open InventoryV1

/-- The managers that hold one version of a package. -/
def heldOnce (manager : String) : Bool := manager ∈ ["dpkg", "apt", "apk"]

/-- How the items of a kind are named. -/
structure Shape where
  identify : Item → List String
  /-- What tells the items under one name apart, and whether it can. -/
  instance? : Option (Item → String × Bool)

def identifyProcess (pid : ℕ) (startedAt : Option Contract.Timestamp) : List String :=
  [toString pid, match startedAt with
    | none => ""
    | some stamp => toString ((stamp.asTime - Contract.Timestamp.unset.asTime).bmod (2 ^ 64))]

def shape : Kind → Shape
  | .operatingSystem => ⟨fun _ => [], none⟩
  | .kernel => ⟨fun _ => [], none⟩
  | .hardware => ⟨fun _ => [], none⟩
  | .package =>
    ⟨fun item => [item.getPackage.name, item.getPackage.architecture, item.getPackage.manager],
      some fun item => (item.getPackage.version, !heldOnce item.getPackage.manager)⟩
  | .service => ⟨fun item => match item with
      | .service name => [name]
      | _ => [""], none⟩
  | .networkInterface => ⟨fun item => match item with
      | .networkInterface name => [name]
      | _ => [""], none⟩
  | .user =>
    ⟨fun item => match item with
      | .user name uid _ => [if uid ≠ "" then uid else name]
      | _ => [""],
    some fun item => match item with
      | .user name uid _ => (name, uid ≠ "")
      | _ => ("", false)⟩
  | .process => ⟨fun item => match item with
      | .process pid startedAt => identifyProcess pid startedAt
      | _ => identifyProcess 0 none, none⟩

variable (hash : List UInt8 → List UInt8)

/-- The digest of a name: its kind, and each of its parts behind its length. -/
def digestOf (kind : Kind) (parts : List String) : String :=
  hexEncode (hash (bigEndian kind.number ++ parts.flatMap sized))

def itemID (kind : Kind) (item : Item) : String := digestOf hash kind ((shape kind).identify item)

/-- The names met so far: what the first item under each was told apart by, and which show several.
-/
structure Shown where
  first : FiniteMap String String
  several : List String

def Shown.note (shown : Shown) (identifier told : String) : Shown :=
  match shown.first.lookup identifier with
  | none => { shown with first := shown.first.insert identifier told }
  | some before =>
    if before ≠ told then { shown with several := identifier :: shown.several } else shown

def shownSeveral (kind : Kind) (instanceOf : Item → String × Bool) (items : List Item) : Shown :=
  items.foldl (fun shown item =>
    if (instanceOf item).2 then shown.note (itemID hash kind item) (instanceOf item).1 else shown)
    ⟨FiniteMap.empty, []⟩

def nameIn (record : Record) (item : Item) : String :=
  match (shape record.kind).instance? with
  | none => itemID hash record.kind item
  | some instanceOf =>
    if (instanceOf item).2 ∧ (record.mode = .delta ∨ itemID hash record.kind item ∈
        (shownSeveral hash record.kind instanceOf record.items).several) then
      digestOf hash record.kind ((shape record.kind).identify item ++ [(instanceOf item).1])
    else itemID hash record.kind item

/-- What every item of a record is called, in order. -/
def itemIDs (record : Record) : List String := record.items.map (nameIn hash record)

def Fits (text : String) : Prop := text.utf8ByteSize < 2 ^ 64

instance (text : String) : Decidable (Fits text) := inferInstanceAs (Decidable (_ < _))

variable {hash}

theorem digestOf_injective (injective : Function.Injective hash) {kind : Kind}
    {parts others : List String} (parts_fit : ∀ part ∈ parts, Fits part)
    (others_fit : ∀ part ∈ others, Fits part)
    (same : digestOf hash kind parts = digestOf hash kind others) : parts = others :=
  flatMap_sized_injective parts_fit others_fit
    (List.append_cancel_left (injective (hexEncode_injective same)))

variable (hash) in
def toldIn (record : Record) (item : Item) : Option String :=
  match (shape record.kind).instance? with
  | none => none
  | some instanceOf =>
    if (instanceOf item).2 ∧ (record.mode = .delta ∨ itemID hash record.kind item ∈
        (shownSeveral hash record.kind instanceOf record.items).several) then
      some (instanceOf item).1
    else none

theorem nameIn_eq (record : Record) (item : Item) :
    nameIn hash record item = digestOf hash record.kind
      ((shape record.kind).identify item ++ (toldIn hash record item).toList) := by
  unfold nameIn toldIn itemID
  split
  · simp
  · split <;> simp

theorem length_identify (kind : Kind) (item other : Item) :
    ((shape kind).identify item).length = ((shape kind).identify other).length := by
  have fixed (item : Item) :
      ((shape kind).identify item).length = ((shape kind).identify .kernel).length := by
    cases kind <;> cases item <;> rfl
  rw [fixed item, fixed other]

theorem of_nameIn_eq (injective : Function.Injective hash) {record later : Record}
    {item other : Item} (kinds : record.kind = later.kind)
    (fits : ∀ part ∈ (shape record.kind).identify item ++ (toldIn hash record item).toList,
      Fits part)
    (other_fits : ∀ part ∈ (shape later.kind).identify other ++ (toldIn hash later other).toList,
      Fits part)
    (same : nameIn hash record item = nameIn hash later other) :
    (shape record.kind).identify item = (shape later.kind).identify other ∧
      toldIn hash record item = toldIn hash later other := by
  rw [nameIn_eq, nameIn_eq, kinds] at same
  rw [kinds] at fits ⊢
  obtain ⟨identified, told⟩ := List.append_inj
    (digestOf_injective injective fits other_fits same) (length_identify ..)
  refine ⟨identified, ?_⟩
  cases one : toldIn hash record item <;> cases another : toldIn hash later other <;>
    simp_all

/-- Under a name that does not show several, all were told apart as the first. -/
def Shown.Tells (shown : Shown) (noted : List (String × String)) : Prop :=
  ∀ pair ∈ noted, pair.1 ∉ shown.several → shown.first.lookup pair.1 = some pair.2

theorem Shown.Tells.note {shown : Shown} {noted : List (String × String)}
    (tells : shown.Tells noted) (identifier told : String) :
    (shown.note identifier told).Tells (noted ++ [(identifier, told)]) := by
  intro pair member alone
  rw [List.mem_append, List.mem_singleton] at member
  unfold Shown.note at alone ⊢
  cases found : shown.first.lookup identifier with
  | none =>
    simp only [found] at alone ⊢
    rw [FiniteMap.lookup_insert]
    rcases member with earlier | rfl
    · have known := tells pair earlier alone
      have differs : pair.1 ≠ identifier := fun same => by simp [← same, known] at found
      rw [if_neg differs, known]
    · rw [if_pos rfl]
  | some before =>
    simp only [found] at alone ⊢
    split at alone
    · next another =>
        rw [if_pos another]
        rw [List.mem_cons, not_or] at alone
        rcases member with earlier | rfl
        · exact tells pair earlier alone.2
        · exact absurd rfl alone.1
    · next again =>
        rw [if_neg again]
        rcases member with earlier | rfl
        · exact tells pair earlier alone
        · rw [found, not_not.mp again]

theorem shownSeveral_induction {Told : Shown → List (String × String) → Prop}
    (none_shown : Told ⟨FiniteMap.empty, []⟩ [])
    (note : ∀ shown noted identifier told, Told shown noted →
      Told (shown.note identifier told) (noted ++ [(identifier, told)]))
    (kind : Kind) (instanceOf : Item → String × Bool) (items : List Item) :
    Told (shownSeveral hash kind instanceOf items)
      ((items.filter fun item => (instanceOf item).2).map fun item =>
        (itemID hash kind item, (instanceOf item).1)) := by
  induction items using List.reverseRecOn with
  | nil => exact none_shown
  | append_singleton items item ih =>
    rw [shownSeveral, List.foldl_append, List.filter_append, List.map_append]
    cases tellable : (instanceOf item).2 with
    | true => simpa [tellable, shownSeveral] using note _ _ (itemID hash kind item) _ ih
    | false => simpa [tellable, shownSeveral] using ih

theorem told_eq_of_notMem_several {kind : Kind} {instanceOf : Item → String × Bool}
    {items : List Item} {one other : Item} (one_mem : one ∈ items) (other_mem : other ∈ items)
    (one_tellable : (instanceOf one).2) (other_tellable : (instanceOf other).2)
    (same : itemID hash kind one = itemID hash kind other)
    (alone : itemID hash kind one ∉ (shownSeveral hash kind instanceOf items).several) :
    (instanceOf one).1 = (instanceOf other).1 := by
  have tells := @shownSeveral_induction hash Shown.Tells (fun _ member => by cases member)
    (fun _ _ identifier told tells => tells.note identifier told) kind instanceOf items
  have first := tells _ (List.mem_map_of_mem (List.mem_filter.mpr ⟨one_mem, one_tellable⟩)) alone
  have second := tells _ (List.mem_map_of_mem (List.mem_filter.mpr ⟨other_mem, other_tellable⟩))
    (same ▸ alone)
  dsimp only at first second
  rw [same, second] at first
  exact (Option.some.inj first).symm

/-- An instance of a package. -/
structure Instance where
  name : String
  architecture : String
  manager : String
  version : String
  deriving DecidableEq

def instanceOf (item : Item) : Instance :=
  ⟨item.getPackage.name, item.getPackage.architecture, item.getPackage.manager,
    item.getPackage.version⟩

def Instance.parts (installed : Instance) : List String :=
  [installed.name, installed.architecture, installed.manager]

/-- The texts of an instance are Go strings. -/
def Instance.Fits (installed : Instance) : Prop :=
  ∀ part ∈ installed.parts ++ [installed.version], Inventory.Fits part

instance (installed : Instance) : Decidable installed.Fits :=
  inferInstanceAs (Decidable (∀ _ ∈ _, _))

variable (hash) in
def namesInstance (record : Record) (item : Item) : Prop :=
  heldOnce (instanceOf item).manager = false ∧
    (record.mode = .delta ∨ itemID hash .package item ∈ (shownSeveral hash .package
      (fun item => (item.getPackage.version, !heldOnce item.getPackage.manager))
      record.items).several)

variable {record later : Record} {item other : Item}

variable (hash) in
theorem toldIn_package (packages : record.kind = .package) (item : Item) :
    toldIn hash record item = some (instanceOf item).version ∧ namesInstance hash record item ∨
      toldIn hash record item = none ∧ ¬ namesInstance hash record item := by
  unfold toldIn
  simp only [packages, shape]
  split
  · next told => exact .inl ⟨rfl, by simpa [namesInstance, instanceOf] using told⟩
  · next untold => exact .inr ⟨rfl, by simpa [namesInstance, instanceOf] using untold⟩

variable (hash) in
theorem Instance.Fits.name (fits : (instanceOf item).Fits) (packages : record.kind = .package) :
    ∀ part ∈ (shape record.kind).identify item ++ (toldIn hash record item).toList,
      Inventory.Fits part := by
  intro part member
  refine fits part ?_
  rw [packages] at member
  rcases toldIn_package hash packages item with ⟨told, -⟩ | ⟨told, -⟩
  · rwa [told] at member
  · rw [told, Option.toList_none, List.append_nil] at member
    exact List.mem_append_left _ member

theorem eq_of_nameIn_eq (injective : Function.Injective hash) (packages : record.kind = .package)
    (later_packages : later.kind = .package) (fits : (instanceOf item).Fits)
    (other_fits : (instanceOf other).Fits)
    (same : nameIn hash record item = nameIn hash later other) :
    (instanceOf item).parts = (instanceOf other).parts ∧
      (namesInstance hash record item ∧ namesInstance hash later other ∧
          (instanceOf item).version = (instanceOf other).version ∨
        ¬ namesInstance hash record item ∧ ¬ namesInstance hash later other) := by
  obtain ⟨identified, told⟩ := of_nameIn_eq injective (packages.trans later_packages.symm)
    (fits.name hash packages) (other_fits.name hash later_packages) same
  rw [packages, later_packages] at identified
  refine ⟨identified, ?_⟩
  rcases toldIn_package hash packages item with ⟨one, names⟩ | ⟨one, silent⟩ <;>
    rcases toldIn_package hash later_packages other with
      ⟨another, other_names⟩ | ⟨another, other_silent⟩ <;>
    rw [one, another] at told
  · exact .inl ⟨names, other_names, Option.some.inj told⟩
  · cases told
  · cases told
  · exact .inr ⟨silent, other_silent⟩

theorem Instance.eq_of_parts {installed another : Instance}
    (same : installed.parts = another.parts) (version : installed.version = another.version) :
    installed = another := by
  cases installed
  cases another
  simp_all [Instance.parts]

theorem Instance.manager_eq_of_parts {installed another : Instance}
    (same : installed.parts = another.parts) : installed.manager = another.manager :=
  (List.cons.inj (List.cons.inj (List.cons.inj same).2).2).1

/-- No record names two versions of a package of which its manager holds one. -/
def NamesOnce (record : Record) : Prop :=
  ∀ one ∈ record.items, ∀ other ∈ record.items, heldOnce (instanceOf one).manager →
    (instanceOf one).parts = (instanceOf other).parts →
    (instanceOf one).version = (instanceOf other).version

instance (record : Record) : Decidable (NamesOnce record) :=
  inferInstanceAs (Decidable (∀ _ ∈ _, ∀ _ ∈ _, _))

theorem version_eq_of_nameIn_eq (injective : Function.Injective hash)
    (packages : record.kind = .package) (fits : (instanceOf item).Fits)
    (other_fits : (instanceOf other).Fits) (item_mem : item ∈ record.items)
    (other_mem : other ∈ record.items) (same : nameIn hash record item = nameIn hash record other)
    (several : heldOnce (instanceOf item).manager = false) :
    (instanceOf item).version = (instanceOf other).version := by
  obtain ⟨parts, ⟨-, -, version⟩ | ⟨untold, -⟩⟩ := eq_of_nameIn_eq injective packages
    packages fits other_fits same
  · exact version
  · have alone : itemID hash .package item ∉ _ := fun shown => untold ⟨several, .inr shown⟩
    have same_id : itemID hash .package item = itemID hash .package other :=
      congrArg (digestOf hash .package) parts
    have other_several := Instance.manager_eq_of_parts parts ▸ several
    exact told_eq_of_notMem_several item_mem other_mem (by simpa [instanceOf] using several)
      (by simpa [instanceOf] using other_several) same_id alone

theorem instance_eq_of_nameIn_eq (injective : Function.Injective hash)
    (packages : record.kind = .package) (fits : ∀ item ∈ record.items, (instanceOf item).Fits)
    (once : NamesOnce record) (item_mem : item ∈ record.items) (other_mem : other ∈ record.items)
    (same : nameIn hash record item = nameIn hash record other) :
    instanceOf item = instanceOf other := by
  have parts := (eq_of_nameIn_eq injective packages packages (fits item item_mem)
    (fits other other_mem) same).1
  refine Instance.eq_of_parts parts ?_
  cases held : heldOnce (instanceOf item).manager with
  | true => exact once item item_mem other other_mem held parts
  | false =>
    exact version_eq_of_nameIn_eq injective packages (fits item item_mem) (fits other other_mem)
      item_mem other_mem same held

end Seagull.Inventory
