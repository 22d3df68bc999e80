import PageLint.Proofs.Batch.Paths
import PageLint.Proofs.Folding

/-!
# Names of documents and of their reports

A document is told by its name in lower case, and its report takes the name up to the ending, which
is as long in every case. So a report is never named like a document, and two documents share the
name of their report exactly when their names differ in the case of the ending alone.

* `Path.IsDocumentName` — a stem and an ending in any case
* `Path.hasExtension_iff` — the names that are looked for
* `Path.reportName_eq_iff` — the names that share a report
-/

namespace PageLint

namespace Text

/-! ## Endings in lower case -/

/-- A text is lowered from the front, whatever follows. -/
theorem exists_lowerAfter_append (before front cs : List Char) : ∃ lead,
    lowerAfter before (front ++ cs) = lead ++ lowerAfter (front.reverse ++ before) cs := by
  induction front generalizing before with
  | nil => exact ⟨[], rfl⟩
  | cons c front ih =>
    obtain ⟨lead, hlead⟩ := ih (c :: before)
    refine ⟨lowerChar before c (front ++ cs) ++ lead, ?_⟩
    rw [List.cons_append, lowerAfter, hlead, List.reverse_cons, List.append_assoc,
      List.append_assoc, List.singleton_append]

/-- Basic characters at the end of a lowered one are all of it. -/
theorem eq_lowerChar_of_suffix {before after ending : List Char} {c : Char}
    (h : ending <:+ lowerChar before c after) (hne : ending ≠ [])
    (hbasic : ∀ d ∈ ending, d.toNat < 128) : ending = lowerChar before c after := by
  rcases lowerChar_cases before c after with ⟨-, hdotted⟩ | ⟨d, hsingle, -⟩
  · -- The second of the two characters is not basic, and every ending holds it.
    rw [hdotted, List.suffix_cons_iff, List.suffix_cons_iff, List.suffix_nil] at h
    rcases h with h | h | h
    · exact h.trans hdotted.symm
    · exact absurd (hbasic '\u0307' (by simp [h])) (by decide)
    · exact absurd h hne
  · rw [hsingle, List.suffix_cons_iff, List.suffix_nil] at h
    exact (h.resolve_right hne).trans hsingle.symm

/-- A text whose lower case ends with a word ends with the word in some case. -/
theorem exists_ending_of_suffix {word : List Char} (hword : isFoldable word = true)
    {before cs : List Char} (h : word <:+ lowerAfter before cs) :
    ∃ stem ending, cs = stem ++ ending ∧ ending.map Char.toLower = word := by
  induction cs generalizing before with
  | nil =>
    rw [lowerAfter, List.suffix_nil] at h
    exact ⟨[], [], rfl, h.symm⟩
  | cons c cs ih =>
    by_cases hlater : word <:+ lowerAfter (c :: before) cs
    · obtain ⟨stem, ending, rfl, hending⟩ := ih hlater
      exact ⟨c :: stem, ending, rfl, hending⟩
    -- The word starts within the first character, and then it holds all of it.
    rw [lowerAfter] at h
    obtain ⟨lead, hlead⟩ := h
    rcases List.append_eq_append_iff.1 hlead with ⟨front, hfront, rfl⟩ | ⟨back, -, hback⟩
    · have hne : front ≠ [] := by
        rintro rfl
        exact hlater (List.suffix_refl _)
      have hwhole : front = lowerChar before c cs := by
        refine eq_lowerChar_of_suffix ⟨lead, hfront.symm⟩ hne ?_
        intro d hd
        exact (mem_of_isFoldable hword d (List.mem_append_left _ hd)).1
      exact ⟨[], c :: cs, rfl, folded_of_lowerAfter hword (by rw [lowerAfter, hwhole])⟩
    · exact absurd ⟨back, hback.symm⟩ hlater

/-- The lower case of a text that ends with a word in some case ends with the word. -/
theorem suffix_lower_of_ending {word : List Char} (hword : isFoldable word = true)
    {stem ending : List Char} (h : ending.map Char.toLower = word) :
    word <:+ lower (stem ++ ending) := by
  obtain ⟨lead, hlead⟩ := exists_lowerAfter_append [] stem ending
  rw [lower, hlead, lowerAfter_of_folded hword h]
  exact List.suffix_append lead word

end Text

namespace Path

/-! ## Documents -/

/-- A name of a document: a stem and the ending of documents in any case. -/
def IsDocumentName (name : String) (stem : List Char) : Prop :=
  ∃ ending, name.toList = stem ++ ending ∧ ending.map Char.toLower = ".html".toList

/-- Names of documents that differ in the case of their endings alone. -/
def SameButEnding (name other : String) : Prop :=
  ∃ stem, IsDocumentName name stem ∧ IsDocumentName other stem

/-- The ending takes five characters in every case. -/
theorem length_of_ending {ending : List Char} (h : ending.map Char.toLower = ".html".toList) :
    ending.length = 5 := by
  rw [← List.length_map (Char.toLower), h]
  rfl

/-- A name has one stem. -/
theorem IsDocumentName.stem_unique {name : String} {stem other : List Char}
    (h : IsDocumentName name stem) (h' : IsDocumentName name other) : stem = other := by
  obtain ⟨ending, hname, hending⟩ := h
  obtain ⟨ending', hname', hending'⟩ := h'
  refine (List.append_inj' (hname.symm.trans hname') ?_).1
  rw [length_of_ending hending, length_of_ending hending']

/-- The names that are looked for are those of documents. -/
theorem hasExtension_iff {p : Path} :
    p.hasExtension ".html" = true ↔ ∃ stem, IsDocumentName p.name stem := by
  have hfoldable : Text.isFoldable ".html".toList = true := by decide
  have hlowered : (lowered p.name).toList = Text.lower p.name.toList := String.toList_ofList
  rw [hasExtension, List.isSuffixOf_iff_suffix, hlowered]
  constructor
  · intro h
    obtain ⟨stem, ending, hname, hending⟩ := Text.exists_ending_of_suffix hfoldable h
    exact ⟨stem, ending, hname, hending⟩
  · rintro ⟨stem, ending, hname, hending⟩
    rw [hname]
    exact Text.suffix_lower_of_ending hfoldable hending

/-! ## Reports -/

/-- A report is named after the stem of its document. -/
theorem IsDocumentName.toList_reportName {p : Path} {stem : List Char}
    (h : IsDocumentName p.name stem) : (p.reportName {}).toList = stem ++ ".txt".toList := by
  have hextension : p.hasExtension ".html" = true := hasExtension_iff.2 ⟨stem, h⟩
  obtain ⟨ending, hname, hending⟩ := h
  rw [reportName, if_pos hextension, hname]
  simp [length_of_ending hending]

/-- A report is not named like a document. -/
theorem IsDocumentName.reportName_ne {p : Path} {stem : List Char} (h : IsDocumentName p.name stem)
    {name : String} {other : List Char} (hname : IsDocumentName name other) :
    p.reportName {} ≠ name := by
  rintro rfl
  obtain ⟨ending, heq, hending⟩ := hname
  rw [h.toList_reportName] at heq
  -- The last letters differ.
  have hlast : ending.getLast? = some 't' := by
    have hne : ending ≠ [] := List.ne_nil_of_length_eq_add_one (length_of_ending hending)
    rw [← List.getLast?_append_of_ne_nil other hne, ← heq]
    simp
  have hlower := congrArg List.getLast? hending
  rw [List.getLast?_map, hlast] at hlower
  exact absurd hlower (by decide)

/-- Two documents share the name of their report exactly when they differ in the ending alone. -/
theorem reportName_eq_iff {p q : Path} {stem other : List Char} (hp : IsDocumentName p.name stem)
    (hq : IsDocumentName q.name other) :
    p.reportName {} = q.reportName {} ↔ SameButEnding p.name q.name := by
  rw [← String.toList_inj, hp.toList_reportName, hq.toList_reportName, List.append_left_inj]
  constructor
  · rintro rfl
    exact ⟨stem, hp, hq⟩
  · rintro ⟨shared, hp', hq'⟩
    exact (hp.stem_unique hp').trans (hq'.stem_unique hq)

theorem length_le_utf8Len (cs : List Char) : cs.length ≤ String.utf8Len cs := by
  induction cs with
  | nil => simp
  | cons c cs ih =>
    have hpos := c.utf8Size_pos
    rw [String.utf8Len_cons, List.length_cons]
    omega

/-- A report has no longer name than its document. -/
theorem IsDocumentName.utf8ByteSize_reportName {p : Path} {stem : List Char}
    (h : IsDocumentName p.name stem) : (p.reportName {}).utf8ByteSize ≤ p.name.utf8ByteSize := by
  have htext := h.toList_reportName
  obtain ⟨ending, hname, hending⟩ := h
  have hshort : String.utf8Len ".txt".toList = 4 := by decide
  have hlong := length_le_utf8Len ending
  rw [length_of_ending hending] at hlong
  rw [← String.utf8Len_toList, ← String.utf8Len_toList, hname, htext, String.utf8Len_append,
    String.utf8Len_append]
  omega

/-- A report is named by a part of a path, and by no longer one than its document. -/
theorem IsDocumentName.isPart_reportName {p : Path} {stem : List Char}
    (h : IsDocumentName p.name stem) (hpart : IsPart p.name) : IsPart (p.reportName {}) := by
  have htext := h.toList_reportName
  obtain ⟨ending, hname, -⟩ := h
  refine ⟨?_, ?_, ?_⟩
  · intro heq
    simp [heq] at htext
  · intro heq
    have hlength := congrArg List.length htext
    simp [heq] at hlength
  · rw [htext, List.mem_append, not_or]
    constructor
    · intro hmem
      exact hpart.2.2 (hname ▸ List.mem_append_left ending hmem)
    · decide

end Path

end PageLint
