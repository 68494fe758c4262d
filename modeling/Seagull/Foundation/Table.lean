import Seagull.Foundation.FiniteMap

/-!
# Tables

A table is a finite map whose rows carry the key they are held under, so that a row is written in the
place of the one row of its key.
-/

namespace Seagull

/-- Rows, each held under its own key. -/
structure Table (κ ν : Type) (key : ν → κ) where
  held : FiniteMap κ ν
  keyed : ∀ bound row, (bound, row) ∈ held.entries → key row = bound

namespace Table

variable {κ ν : Type} {key : ν → κ}

def empty : Table κ ν key := ⟨FiniteMap.empty, fun _ _ member => nomatch member⟩

def rows (table : Table κ ν key) : List ν := table.held.entries.map Prod.snd

theorem nodup_rows (table : Table κ ν key) : (table.rows.map key).Nodup := by
  have keys : table.rows.map key = table.held.keys := by
    rw [rows, List.map_map, FiniteMap.keys]
    exact List.map_congr_left fun entry member => table.keyed entry.1 entry.2 member
  rw [keys]
  exact table.held.keys_nodup

variable [DecidableEq κ]

def lookup (table : Table κ ν key) (bound : κ) : Option ν := table.held.lookup bound

def put (table : Table κ ν key) (row : ν) : Table κ ν key where
  held := table.held.insert (key row) row
  keyed bound other member := by
    rw [FiniteMap.mem_entries_iff, FiniteMap.lookup_insert] at member
    split at member
    · rename_i same
      exact Option.some.inj member ▸ same.symm
    · exact table.keyed bound other ((FiniteMap.mem_entries_iff ..).mpr member)

@[simp]
theorem lookup_empty (bound : κ) : (empty : Table κ ν key).lookup bound = none := rfl

theorem lookup_put (table : Table κ ν key) (row : ν) (bound : κ) :
    (table.put row).lookup bound = if bound = key row then some row else table.lookup bound :=
  FiniteMap.lookup_insert ..

theorem key_of_lookup {table : Table κ ν key} {bound : κ} {row : ν}
    (found : table.lookup bound = some row) : key row = bound :=
  table.keyed bound row ((FiniteMap.mem_entries_iff ..).mpr found)

theorem mem_rows {table : Table κ ν key} {row : ν} :
    row ∈ table.rows ↔ table.lookup (key row) = some row := by
  simp only [rows, List.mem_map, Prod.exists, exists_eq_right, FiniteMap.mem_entries_iff]
  constructor
  · rintro ⟨bound, found⟩
    exact ((show key row = bound from key_of_lookup found)).symm ▸ found
  · exact fun found => ⟨key row, found⟩

end Table
end Seagull
