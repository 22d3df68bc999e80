import Mathlib.Data.List.Perm.Basic

/-!
# Tables

A table is a list of entries with a key each. Where no two entries have the same key, a look-up
finds every entry, whatever the order of the table, and the order of the keys settles that of the
entries.

* `lookup_append_of_mem`, `lookup_of_perm` — what a look-up finds
* `eq_of_perm_of_keys` — the same entries with their keys in the same order
-/

namespace PageLint

variable {α β : Type}

/-- A key that stands once in the front part of a table is looked up there. -/
theorem lookup_append_of_mem [BEq α] [LawfulBEq α] {front table : List (α × β)}
    (hnd : (front.map Prod.fst).Nodup) {key : α} {value : β} (h : (key, value) ∈ front) :
    (front ++ table).lookup key = some value := by
  induction front with
  | nil => cases h
  | cons e front ih =>
    obtain ⟨hnot, hnd⟩ := List.nodup_cons.1 hnd
    rcases List.mem_cons.1 h with rfl | h
    · simp
    · have hne : key ≠ e.1 := by
        rintro rfl
        exact hnot (List.mem_map.2 ⟨_, h, rfl⟩)
      rw [List.cons_append, List.lookup_cons, beq_false_of_ne hne]
      exact ih hnd h

/-- An entry is looked up by its key in any order of the table. -/
theorem lookup_of_perm [BEq α] [LawfulBEq α] {entries table : List (α × β)}
    (hp : table.Perm entries) (hnd : (entries.map Prod.fst).Nodup) {key : α} {value : β}
    (h : (key, value) ∈ entries) : table.lookup key = some value := by
  rw [← List.append_nil table]
  exact lookup_append_of_mem (((hp.map Prod.fst).nodup_iff).2 hnd) (hp.mem_iff.2 h)

/-- Two tables with the same entries are one table when their keys stand in the same order. -/
theorem eq_of_perm_of_keys {entries table : List (α × β)} (hp : table.Perm entries)
    (hkeys : table.map Prod.fst = entries.map Prod.fst) (hnd : (entries.map Prod.fst).Nodup) :
    table = entries := by
  induction entries generalizing table with
  | nil => exact hp.eq_nil
  | cons e entries ih =>
    obtain ⟨f, table, rfl⟩ : ∃ f fs, table = f :: fs :=
      List.exists_cons_of_ne_nil (by rintro rfl; cases hkeys)
    obtain ⟨hkey, hkeys⟩ := List.cons_eq_cons.1 hkeys
    obtain ⟨hnot, hnd⟩ := List.nodup_cons.1 hnd
    -- The first entry of the table is among the others only if its key stands there twice.
    have hfirst : f = e := by
      rcases List.mem_cons.1 (hp.mem_iff.1 List.mem_cons_self) with h | h
      · exact h
      · exact absurd (List.mem_map.2 ⟨f, h, hkey⟩) hnot
    rw [hfirst] at hp ⊢
    rw [ih ((List.perm_cons e).1 hp) hkeys hnd]

end PageLint
