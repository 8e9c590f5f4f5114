import JoinPlanner.Catalog.Basic

/-!
# JoinPlanner — the names of tables

Registering a name again replaces its table, so no two tables of a catalog have the same name,
whatever changes it has gone through, also such that failed.

* `Catalog.Reachable`   — the catalogs that changes lead to.
* `names_append`, `map_name_placeTable` — what a change does to the names.
* `Reachable.nodup_names` — the names stay distinct.
-/

namespace JoinPlanner.Catalog

variable {catalog : Catalog} {name : String}

/-- The names of the tables, in order. -/
def names (catalog : Catalog) : List String := catalog.tables.map Table.name

/-- The catalogs that can be made of an empty one. A change that fails may change it as well. -/
inductive Reachable : Catalog → Prop
  | empty (pageSize : Int) : Reachable (empty pageSize)
  | register {catalog : Catalog} (before : Reachable catalog) (name : String) (schema : Schema)
      (primaryKey : String) (rows : List Row) :
      Reachable (catalog.register name schema primaryKey rows).1
  | append {catalog : Catalog} (before : Reachable catalog) (name : String) (rows : List Row) :
      Reachable (catalog.append name rows).1
  | setAlias {catalog : Catalog} (before : Reachable catalog) (aliasName name : String) :
      Reachable (catalog.setAlias aliasName name).1

-- ---------------------------------------------------------------------------
-- Numbers
-- ---------------------------------------------------------------------------

/-- The table of a number has its name. -/
theorem exists_table_of_number? {n : Nat} (h : catalog.number? name = some n) :
    ∃ t, catalog.tables[n]? = some t ∧ t.name = name := by
  obtain ⟨hn, hName, -⟩ := List.findIdx?_eq_some_iff_getElem.mp h
  exact ⟨catalog.tables[n], List.getElem?_eq_getElem hn, eq_of_beq hName⟩

theorem number?_eq_none_iff : catalog.number? name = none ↔ name ∉ catalog.names := by
  rw [number?, List.findIdx?_eq_none_iff, names, List.mem_map]
  constructor
  · rintro h ⟨t, ht, rfl⟩
    cases (h t ht).symm.trans (beq_self_eq_true t.name)
  · intro h t ht
    exact Bool.eq_false_iff.mpr fun hName => h ⟨t, ht, eq_of_beq hName⟩

-- ---------------------------------------------------------------------------
-- Changes
-- ---------------------------------------------------------------------------

/-- A table in the place of one of the same name changes no names. -/
theorem map_name_set {tables : List Table} {n : Nat} {t u : Table} (h : tables[n]? = some t)
    (hName : u.name = t.name) : (tables.set n u).map Table.name = tables.map Table.name := by
  rw [List.map_set, hName]
  refine List.ext_getElem? fun i => ?_
  rw [List.getElem?_set]
  split
  · rename_i hSame
    subst hSame
    have hn := (List.getElem?_eq_some_iff.mp h).1
    rw [List.length_map, if_pos hn, List.getElem?_map, h]
    rfl
  · rfl

theorem names_append (catalog : Catalog) (name : String) (rows : List Row) :
    (catalog.append name rows).1.names = catalog.names := by
  rw [append]
  split
  · rfl
  · split
    · rfl
    · rename_i t hTable
      exact map_name_set hTable rfl

/-- A table is put in the place of the one with its name, or else after all others. -/
theorem map_name_placeTable (catalog : Catalog) (t : Table) :
    (placeTable catalog.tables ((catalog.number? t.name).getD catalog.tables.length) t).map
      Table.name = if t.name ∈ catalog.names then catalog.names else catalog.names ++ [t.name] := by
  cases hNumber : catalog.number? t.name with
  | none =>
    rw [if_neg (number?_eq_none_iff.mp hNumber), Option.getD_none, placeTable,
      if_neg (Nat.lt_irrefl _), List.map_append]
    rfl
  | some n =>
    obtain ⟨u, hTable, hName⟩ := exists_table_of_number? hNumber
    have hMem : t.name ∈ catalog.names :=
      List.mem_map.mpr ⟨u, List.mem_of_getElem? hTable, hName⟩
    rw [if_pos hMem, Option.getD_some, placeTable, if_pos (List.getElem?_eq_some_iff.mp hTable).1,
      map_name_set hTable hName.symm]
    rfl

theorem nodup_names_register (h : catalog.names.Nodup) (name : String) (schema : Schema)
    (primaryKey : String) (rows : List Row) :
    (catalog.register name schema primaryKey rows).1.names.Nodup := by
  rw [register]
  split
  · exact h
  · show (append _ name rows).1.names.Nodup
    rw [names_append]
    show (List.map _ (placeTable _ _ _)).Nodup
    rw [map_name_placeTable catalog ⟨name, schema, primaryKey, []⟩]
    split
    · exact h
    · rename_i hNew
      refine List.nodup_append.mpr ⟨h, List.pairwise_singleton _ _, ?_⟩
      rintro a ha b hb rfl
      exact hNew (List.mem_singleton.mp hb ▸ ha)

/-- No two tables have the same name. -/
theorem Reachable.nodup_names (h : catalog.Reachable) : catalog.names.Nodup := by
  induction h with
  | empty pageSize => exact List.nodup_nil
  | register _ name schema primaryKey rows ih =>
    exact nodup_names_register ih name schema primaryKey rows
  | append _ name rows ih =>
    rw [names_append]
    exact ih
  | setAlias _ aliasName name ih =>
    rw [Catalog.setAlias]
    split
    · exact ih
    · exact ih

end JoinPlanner.Catalog
