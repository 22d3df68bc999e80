import PageLint.Proofs.Reports.Layout
import PageLint.Proofs.Reports.Lines

/-!
# The newlines of a report

Every entry of a report ends with a newline, and no line of a source holds one. So a report has as
many newlines as there are lines and diagnostics, and those in the descriptions of the diagnostics
on top.

* `newlines` — the number of newlines in a text
* `Report.newlines_format` — the newlines of a report
-/

namespace PageLint

/-- The number of newlines in a text. -/
def newlines (s : String) : Nat := s.toList.count '\n'

@[simp] theorem newlines_empty : newlines "" = 0 := rfl

@[simp] theorem newlines_append (s s' : String) :
    newlines (s ++ s') = newlines s + newlines s' := by
  rw [newlines, String.toList_append, List.count_append, newlines, newlines]

theorem newlines_eq_zero {s : String} : newlines s = 0 ↔ '\n' ∉ s.toList := List.count_eq_zero

/-- Texts one after the other have no newline when none of them has one. -/
theorem newlines_join_eq_zero {ss : List String} :
    newlines (String.join ss) = 0 ↔ ∀ s ∈ ss, newlines s = 0 := by
  induction ss with
  | nil => simp
  | cons s ss ih =>
    rw [String.join_cons, newlines_append, Nat.add_eq_zero_iff, ih, List.forall_mem_cons]

/-- The order of texts does not matter for their newlines. -/
theorem newlines_join_perm {ss ss' : List String} (h : ss.Perm ss') :
    newlines (String.join ss) = newlines (String.join ss') := by
  rw [newlines, newlines, String.toList_join, String.toList_join]
  exact (h.flatMap_right String.toList).count_eq '\n'

/-- The newlines of a literal are counted among its characters, which need not be decoded. -/
theorem newlines_literal {cs : List Char} (h : cs.count '\n' = 0) :
    newlines (String.ofList cs) = 0 := by
  rw [newlines, String.toList_ofList, h]

namespace Report

theorem newline_not_mem_decimal (n : Nat) : '\n' ∉ Text.decimal n := by
  have hdigit : ∀ d < 10, Text.digitChar d ≠ '\n' := by decide
  fun_induction Text.decimal n with
  | case1 n h => simpa using (hdigit n h).symm
  | case2 n h ih =>
    rw [List.mem_append, not_or]
    exact ⟨ih, by simpa using (hdigit (n % 10) (Nat.mod_lt n (by decide))).symm⟩

theorem newlines_intText (n : Int) : newlines (Text.intText n) = 0 := by
  rw [newlines_eq_zero, Text.intText, String.toList_ofList]
  cases n with
  | ofNat n => exact newline_not_mem_decimal n
  | negSucc n => simpa [Text.signedDecimal] using newline_not_mem_decimal (n + 1)

/-- An entry of a diagnostic has the newlines of its description. -/
theorem newlines_diagnosticEntry (d : Diagnostic) :
    newlines (diagnosticEntry d) = newlines d.description := by
  have hwords : newlines "     " = 0 ∧ newlines "Error " = 0 ∧ newlines ": " = 0 ∧
      newlines " at line " = 0 := by
    decide
  obtain ⟨hspace, herror, hcolon, hat⟩ := hwords
  simp only [diagnosticEntry, Diagnostic.text, newlines_append, newlines_intText, hspace, herror,
    hcolon, hat, Nat.zero_add, Nat.add_zero]

/-- No piece of a text between newlines holds one. -/
theorem newline_not_mem_splitOnChar (cs : List Char) :
    ∀ piece ∈ Text.splitOnChar '\n' cs, '\n' ∉ piece := by
  induction cs with
  | nil => simp [Text.splitOnChar]
  | cons c cs ih =>
    by_cases hc : c = '\n'
    · subst hc
      rw [Text.splitOnChar_newline, List.forall_mem_cons]
      exact ⟨List.not_mem_nil, ih⟩
    · obtain ⟨piece, pieces, hsplit, hcons⟩ := Text.exists_splitOnChar_cons hc cs
      rw [hsplit, List.forall_mem_cons] at ih
      rw [hcons, List.forall_mem_cons, List.mem_cons, not_or]
      exact ⟨⟨Ne.symm hc, ih.1⟩, ih.2⟩

/-- No line of a source holds a newline. -/
theorem newline_not_mem_sourceLines (source : String) :
    ∀ line ∈ Text.sourceLines source, '\n' ∉ line.toList := by
  intro line hline
  obtain ⟨chars, hchars, rfl⟩ := List.mem_map.1 hline
  rw [String.toList_ofList]
  unfold Text.lines at hchars
  split at hchars
  · cases hchars
  · obtain ⟨piece, hpiece, rfl⟩ := List.mem_map.1 hchars
    have hmem : piece ∈ Text.splitOnChar '\n' source.toList := by
      split at hpiece
      · exact (List.dropLast_sublist _).subset hpiece
      · exact hpiece
    have hdrop : Text.dropFinal '\r' piece ⊆ piece := by
      rw [Text.dropFinal]
      split
      · exact (List.dropLast_sublist _).subset
      · exact List.Subset.refl _
    exact fun hmem' => newline_not_mem_splitOnChar _ piece hmem (hdrop hmem')

theorem newlines_lineEntry {line : String} (h : '\n' ∉ line.toList) (number : Nat) :
    newlines (lineEntry number line) = 0 := by
  have hpad : '\n' ∉ Text.paddedDecimal 4 number := by
    rw [Text.paddedDecimal, List.mem_append, not_or]
    exact ⟨fun hmem => absurd (List.eq_of_mem_replicate hmem) (by decide),
      newline_not_mem_decimal number⟩
  have hspace : newlines " " = 0 := by decide
  rw [lineEntry, newlines_append, newlines_append, hspace, newlines_eq_zero.2 h, newlines_eq_zero.2]
  rwa [String.toList_ofList]

/-- Entries that end with a newline have one more each. -/
theorem newlines_join_ended (entries : List String) :
    newlines (String.join (entries.map fun entry => entry ++ "\n")) =
      newlines (String.join entries) + entries.length := by
  induction entries with
  | nil => rfl
  | cons entry entries ih =>
    have hend : newlines "\n" = 1 := by decide
    simp only [List.map_cons, String.join_cons, newlines_append, hend, ih, List.length_cons]
    omega

/-- **A report has a newline for each line and each diagnostic**, and those in the descriptions of
the diagnostics. -/
theorem newlines_format (source : String) (ds : List Diagnostic) :
    newlines (format source ds) = (Text.sourceLines source).length + ds.length +
      newlines (String.join (ds.map Diagnostic.description)) := by
  have hlines : newlines (String.join (numbered ((Text.sourceLines source).zipIdx 1))) = 0 := by
    refine newlines_join_eq_zero.2 fun entry hentry => ?_
    obtain ⟨⟨line, number⟩, hmem, rfl⟩ := List.mem_map.1 hentry
    have hline : line ∈ Text.sourceLines source := List.fst_mem_of_mem_zipIdx hmem
    exact newlines_lineEntry (newline_not_mem_sourceLines source line hline) number
  have hdiagnostics : newlines (String.join (ds.map diagnosticEntry)) =
      newlines (String.join (ds.map Diagnostic.description)) := by
    induction ds with
    | nil => rfl
    | cons d ds ih =>
      simp only [List.map_cons, String.join_cons, newlines_append, newlines_diagnosticEntry, ih]
  have hlength : (entries source ds).length = (Text.sourceLines source).length + ds.length := by
    rw [(entries_perm source ds).length_eq, List.length_append, List.length_map, numbered,
      List.length_map, List.length_zipIdx]
  rw [format, newlines_join_ended, hlength, newlines_join_perm (entries_perm source ds),
    String.join_append, newlines_append, hlines, Nat.zero_add, hdiagnostics, Nat.add_comm]

end Report

end PageLint
