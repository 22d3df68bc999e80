import PageLint.Files.Check
import PageLint.Proofs.Batch.Names

/-!
# Files beside each other

A file that is put where no directory stands leaves every way through the storage as it was, so
whatever could be reached still can, and all other files are what they were.

* `Storage.resolve_put` — a path leads where it led before
* `Storage.LeadsTo.resolve_child` — the place of a file in a directory
* `Storage.entryAt?_foldl_put` — after several files were put, the last one at a place stands there
-/

namespace PageLint

namespace Storage

/-! ## Putting an entry -/

theorem lookup_filter_ne {place other : List String} (h : other ≠ place)
    (entries : List (List String × Entry)) :
    (entries.filter fun e => e.1 != place).lookup other = entries.lookup other := by
  induction entries with
  | nil => rfl
  | cons e entries ih =>
    obtain ⟨key, entry⟩ := e
    by_cases hkey : key = place
    · have hother : (other == key) = false := by simpa [hkey] using h
      rw [List.filter_cons_of_neg (by simp [hkey]), ih, List.lookup_cons, hother]
    · rw [List.filter_cons_of_pos (by simpa using hkey), List.lookup_cons, List.lookup_cons, ih]

@[simp] theorem entryAt?_put_self (s : Storage) (place : List String) (entry : Entry) :
    (s.put place entry).entryAt? place = some entry := by
  simp [entryAt?, put]

theorem entryAt?_put_of_ne (s : Storage) {place other : List String} (h : other ≠ place)
    (entry : Entry) : (s.put place entry).entryAt? other = s.entryAt? other := by
  have hother : (other == place) = false := by simpa using h
  have hlookup : (s.put place entry).entries.lookup other = s.entries.lookup other := by
    rw [put, List.lookup_cons, hother]
    exact lookup_filter_ne h s.entries
  rw [entryAt?, entryAt?, hlookup]
  rfl

/-- Of several entries the last one at a place stands there. -/
theorem entryAt?_foldl_put {α : Type} (key : α → List String) (entry : α → Entry) (xs : List α)
    (s : Storage) (place : List String) :
    (xs.foldl (fun s x => s.put (key x) (entry x)) s).entryAt? place
      = match (xs.filter fun x => key x == place).getLast? with
        | some x => some (entry x)
        | none => s.entryAt? place := by
  induction xs generalizing s with
  | nil => rfl
  | cons x xs ih =>
    rw [List.foldl_cons, ih]
    by_cases hx : key x = place
    · rw [List.filter_cons_of_pos (by simpa using hx), List.getLast?_cons]
      cases hlast : (xs.filter fun x => key x == place).getLast? with
      | none => simp [← hx]
      | some y => simp
    · rw [List.filter_cons_of_neg (by simpa using hx), entryAt?_put_of_ne s (Ne.symm hx)]

/-! ## Ways through the storage -/

section Ways

variable {s : Storage} {place : List String} (hfree : s.entryAt? place ≠ some .directory)
  (data : List UInt8)
include hfree

/-- The place that is left was a directory, so the file was put elsewhere. -/
theorem enter_put {start reached : List String} {part : String}
    (h : s.enter start part = .ok reached) :
    (s.put place (.file data)).enter start part = .ok reached := by
  have hne : start ≠ place := by
    rintro rfl
    unfold enter at h
    split at h
    · exact absurd h (by simp)
    · exact absurd h (by simp)
    · exact hfree ‹_›
  rw [enter, entryAt?_put_of_ne s hne]
  exact h

theorem foldlM_enter_put {parts start reached : List String}
    (h : parts.foldlM s.enter start = .ok reached) :
    parts.foldlM (s.put place (.file data)).enter start = .ok reached := by
  induction parts generalizing start with
  | nil => exact h
  | cons part parts ih =>
    rw [List.foldlM_cons] at h ⊢
    cases hstep : s.enter start part with
    | error failure =>
      rw [hstep] at h
      exact absurd h (by simp [bind, Except.bind])
    | ok next =>
      rw [hstep] at h
      rw [enter_put hfree data hstep]
      exact ih h

/-- A path leads where it led before. -/
theorem resolve_put {p : Path} {reached : List String} (h : s.resolve p = .ok reached) :
    (s.put place (.file data)).resolve p = .ok reached := by
  unfold resolve at h ⊢
  split at h
  · exact absurd h (by simp)
  · rename_i hlength
    rw [if_neg hlength]
    exact foldlM_enter_put hfree data h

end Ways

/-! ## Reading and writing -/

theorem read_eq_ok_iff {s : Storage} {p : Path} {data : List UInt8} :
    s.read p = .ok data ↔
      ∃ place, s.resolve p = .ok place ∧ s.entryAt? place = some (.file data) := by
  unfold read
  cases s.resolve p with
  | error failure => simp [bind, Except.bind]
  | ok place =>
    simp only [bind, Except.bind, Except.ok.injEq, exists_eq_left']
    split <;> simp_all

theorem write_eq_ok {s : Storage} {p : Path} {place : List String} (h : s.resolve p = .ok place)
    (hfree : s.entryAt? place ≠ some .directory) (data : List UInt8) :
    s.write p data = .ok (s.put place (.file data)) := by
  rw [write, h]
  simp only [bind, Except.bind]

/-! ## Files of a directory -/

/-- A path leads to a directory. -/
structure LeadsTo (s : Storage) (directory : Path) (place : List String) : Prop where
  plain : directory.Plain
  resolves : s.resolve directory = .ok place
  isDirectory : s.entryAt? place = some .directory

theorem LeadsTo.of_directory? {s : Storage} {directory : Path} {place : List String}
    (hplain : directory.Plain) (h : s.directory? directory = .ok (some place)) :
    s.LeadsTo directory place := by
  unfold directory? at h
  split at h
  · exact absurd h (by simp)
  · exact absurd h (by simp)
  · rename_i reached hresolve
    split at h
    · rename_i hentry
      obtain rfl : reached = place := by simpa using h
      exact ⟨hplain, hresolve, by simpa using hentry⟩
    · exact absurd h (by simp)

theorem LeadsTo.put {s : Storage} {directory : Path} {place target : List String}
    (h : s.LeadsTo directory place) (hfree : s.entryAt? target ≠ some .directory)
    (data : List UInt8) : (s.put target (.file data)).LeadsTo directory place where
  plain := h.plain
  resolves := resolve_put hfree data h.resolves
  isDirectory := by
    have hne : place ≠ target := by
      rintro rfl
      exact hfree h.isDirectory
    rw [entryAt?_put_of_ne s hne, h.isDirectory]

/-- A name of a file: a part of a path that does not lead back. -/
def IsFileName (name : String) : Prop := Path.IsPart name ∧ name ≠ ".."

/-- A file in a directory is one step further than the directory, or its name or its path is too
long. -/
theorem LeadsTo.resolve_child {s : Storage} {directory : Path} {place : List String}
    (h : s.LeadsTo directory place) {name : String} (hname : IsFileName name) :
    s.resolve (directory.child name)
      = if maxPathLength < (directory.child name).text.utf8ByteSize
          ∨ maxNameLength < name.utf8ByteSize then .error .nameTooLong
        else .ok (place ++ [name]) := by
  have hways : directory.parts.foldlM s.enter (if directory.root.isEmpty then s.home else [])
      = .ok place := by
    have hresolves := h.resolves
    unfold resolve at hresolves
    split at hresolves
    · exact absurd hresolves (by simp)
    · rwa [h.plain.partsOf_text] at hresolves
  have hstep : s.enter place name
      = if maxNameLength < name.utf8ByteSize then .error .nameTooLong
        else .ok (place ++ [name]) := by
    have hback : (name == "..") = false := by simpa using hname.2
    rw [enter, h.isDirectory]
    simp [hback]
  rw [resolve, (h.plain.child hname.1).partsOf_text]
  by_cases hlength : maxPathLength < (directory.child name).text.utf8ByteSize
  · rw [if_pos hlength, if_pos (Or.inl hlength)]
  · rw [if_neg hlength]
    simp only [hlength, false_or]
    rw [← hstep]
    change (directory.parts ++ [name]).foldlM s.enter _ = _
    rw [List.foldlM_append]
    change
      (directory.parts.foldlM s.enter (if directory.root.isEmpty then s.home else []) >>= _) = _
    rw [hways, ← bind_pure (s.enter place name)]
    rfl

end Storage

end PageLint
