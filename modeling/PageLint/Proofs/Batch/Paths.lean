import Mathlib.Data.String.Basic
import PageLint.Files.Path
import PageLint.Proofs.Reports.Lines

/-!
# Paths that are their own reading

A path that was read has parts that say something, and its text reads back to it. A step down to a
proper name keeps that, so a document of a directory and its report are found where their texts
say.

* `Path.Plain` — the paths that reading gives
* `Path.Plain.reread_eq` — their texts read back to them
* `Path.exists_text_child` — the text of a step down is the same text in front of every name
-/

namespace PageLint

namespace Text

/-! ## Cutting at a character -/

theorem splitOnChar_of_notMem {sep : Char} {cs : List Char} (h : sep ∉ cs) :
    splitOnChar sep cs = [cs] := by
  induction cs with
  | nil => rfl
  | cons c cs ih =>
    rw [List.mem_cons, not_or] at h
    rw [splitOnChar, if_neg (by simpa using Ne.symm h.1), ih h.2]

/-- The first separator ends the first piece. -/
theorem splitOnChar_append {sep : Char} {front : List Char} (h : sep ∉ front) (cs : List Char) :
    splitOnChar sep (front ++ sep :: cs) = front :: splitOnChar sep cs := by
  induction front with
  | nil => rw [List.nil_append, splitOnChar, if_pos (beq_self_eq_true _)]
  | cons c front ih =>
    rw [List.mem_cons, not_or] at h
    rw [List.cons_append, splitOnChar, if_neg (by simpa using Ne.symm h.1), ih h.2]

/-- Pieces that are joined are told apart again. -/
theorem splitOnChar_intercalate {sep : Char} {pieces : List (List Char)} (hne : pieces ≠ [])
    (h : ∀ piece ∈ pieces, sep ∉ piece) :
    splitOnChar sep (List.intercalate [sep] pieces) = pieces := by
  induction pieces with
  | nil => exact absurd rfl hne
  | cons piece pieces ih =>
    have hpiece := h piece List.mem_cons_self
    cases pieces with
    | nil => rw [List.intercalate_singleton, splitOnChar_of_notMem hpiece]
    | cons next pieces =>
      rw [List.intercalate_cons_cons, List.append_assoc, List.singleton_append,
        splitOnChar_append hpiece,
        ih (List.cons_ne_nil _ _) fun other hother => h other (List.mem_cons_of_mem piece hother)]

/-- No piece holds the separator. -/
theorem notMem_of_mem_splitOnChar {sep : Char} {cs piece : List Char}
    (h : piece ∈ splitOnChar sep cs) : sep ∉ piece := by
  induction cs generalizing piece with
  | nil =>
    rw [splitOnChar, List.mem_singleton] at h
    rw [h]
    exact List.not_mem_nil
  | cons c cs ih =>
    by_cases hc : c = sep
    · rw [splitOnChar, if_pos (by simpa using hc), List.mem_cons] at h
      rcases h with rfl | h
      · exact List.not_mem_nil
      · exact ih h
    · obtain ⟨first, pieces, hsplit, hcons⟩ := exists_splitOnChar_cons hc cs
      rw [hcons, List.mem_cons] at h
      rcases h with rfl | h
      · rw [List.mem_cons, not_or]
        exact ⟨Ne.symm hc, ih (hsplit ▸ List.mem_cons_self)⟩
      · exact ih (hsplit ▸ List.mem_cons_of_mem first h)

end Text

namespace Path

/-- A part of a path: it says something and holds no slash. -/
def IsPart (name : String) : Prop := name ≠ "" ∧ name ≠ "." ∧ '/' ∉ name.toList

/-- A path as reading gives it. -/
structure Plain (p : Path) : Prop where
  root : p.root = "" ∨ p.root = "/" ∨ p.root = "//"
  parts : ∀ part ∈ p.parts, IsPart part

/-! ## Reading gives plain paths -/

theorem isPart_of_mem_partsOf {cs : List Char} {part : String} (h : part ∈ partsOf cs) :
    IsPart part := by
  simp only [partsOf, List.mem_map, List.mem_filter, Bool.and_eq_true, Bool.not_eq_true',
    List.isEmpty_eq_false_iff, bne_iff_ne] at h
  obtain ⟨piece, ⟨hpiece, hempty, hdot⟩, rfl⟩ := h
  refine ⟨?_, ?_, ?_⟩
  · intro heq
    exact hempty (by simpa using congrArg String.toList heq)
  · intro heq
    exact hdot (by simpa using congrArg String.toList heq)
  · rw [String.toList_ofList]
    exact Text.notMem_of_mem_splitOnChar hpiece

theorem plain_ofText (text : String) : (ofText text).Plain where
  root := by
    unfold ofText rootOf
    split
    · exact Or.inl rfl
    · exact Or.inr (Or.inr rfl)
    · exact Or.inr (Or.inl rfl)
  parts := by
    intro part hpart
    exact isPart_of_mem_partsOf hpart

theorem Plain.child {p : Path} (h : p.Plain) {name : String} (hname : IsPart name) :
    (p.child name).Plain where
  root := h.root
  parts := by
    intro part hpart
    rw [Path.child, List.mem_append, List.mem_singleton] at hpart
    rcases hpart with hpart | rfl
    · exact h.parts part hpart
    · exact hname

/-! ## The text of a path -/

/-- Parts with slashes between them. -/
def joined (parts : List String) : List Char := List.intercalate ['/'] (parts.map String.toList)

theorem toList_intercalate_eq (parts : List String) :
    (String.intercalate "/" parts).toList = joined parts :=
  String.toList_intercalate

theorem joined_concat {parts : List String} (h : parts ≠ []) (name : String) :
    joined (parts ++ [name]) = joined parts ++ '/' :: name.toList := by
  induction parts with
  | nil => exact absurd rfl h
  | cons part parts ih =>
    cases parts with
    | nil => simp [joined]
    | cons next parts =>
      have hrest := ih (by simp)
      simp only [joined, List.cons_append, List.map_cons, List.intercalate_cons_cons] at hrest ⊢
      rw [hrest]
      simp

/-- Parts that are joined are told apart again. -/
theorem partsOf_joined {parts : List String} (h : ∀ part ∈ parts, IsPart part) :
    partsOf (joined parts) = parts := by
  by_cases hne : parts = []
  · rw [hne]
    rfl
  have hsplit : Text.splitOnChar '/' (joined parts) = parts.map String.toList := by
    refine Text.splitOnChar_intercalate (by simpa using hne) ?_
    simp only [List.mem_map]
    rintro piece ⟨part, hpart, rfl⟩
    exact (h part hpart).2.2
  have hkept : ∀ piece ∈ parts.map String.toList, (!piece.isEmpty && piece != ['.']) = true := by
    simp only [List.mem_map, Bool.and_eq_true, Bool.not_eq_true', List.isEmpty_eq_false_iff,
      bne_iff_ne]
    rintro piece ⟨part, hpart, rfl⟩
    constructor
    · exact fun hnil => (h part hpart).1 (String.toList_inj.1 hnil)
    · exact fun hdot => (h part hpart).2.1 (String.toList_inj.1 hdot)
  rw [partsOf, hsplit, List.filter_eq_self.2 hkept, List.map_map]
  simp

theorem partsOf_slash (cs : List Char) : partsOf ('/' :: cs) = partsOf cs := by
  simp [partsOf, Text.splitOnChar]

/-- Parts that are joined start with no slash. -/
theorem head?_joined {parts : List String} (h : ∀ part ∈ parts, IsPart part) :
    (joined parts).head? ≠ some '/' := by
  intro hhead
  cases parts with
  | nil => simp [joined] at hhead
  | cons part parts =>
    obtain ⟨hne, -, hslash⟩ := h part List.mem_cons_self
    obtain ⟨c, cs, hpart⟩ : ∃ c cs, part.toList = c :: cs :=
      List.exists_cons_of_ne_nil fun hnil => hne (String.toList_inj.1 hnil)
    have hfirst : (joined (part :: parts)).head? = some c := by
      cases parts with
      | nil => simp [joined, hpart]
      | cons next parts => simp [joined, List.intercalate_cons_cons, hpart]
    rw [hfirst] at hhead
    rw [hpart] at hslash
    exact hslash (Option.some.inj hhead ▸ List.mem_cons_self)

theorem rootOf_append {root : String} (hroot : root = "" ∨ root = "/" ∨ root = "//")
    {cs : List Char} (hcs : cs.head? ≠ some '/') : rootOf (root.toList ++ cs) = root := by
  have hnone : cs.takeWhile (· == '/') = [] := by
    cases cs with
    | nil => rfl
    | cons c cs => simpa using hcs
  rcases hroot with rfl | rfl | rfl <;> simp [rootOf, hnone]

/-- The text of a path in which something stands. -/
theorem toList_text {p : Path} (h : p.root ≠ "" ∨ p.parts ≠ []) (hparts : ∀ part ∈ p.parts,
    IsPart part) : p.text.toList = p.root.toList ++ joined p.parts := by
  have hfull : (p.root ++ String.intercalate "/" p.parts).isEmpty = false := by
    rw [Bool.eq_false_iff, Ne, String.isEmpty_iff, String.append_eq_empty_iff]
    rintro ⟨hroot, hjoined⟩
    have hnil : joined p.parts = [] := by
      rw [← toList_intercalate_eq, hjoined]
      rfl
    refine h.elim (absurd hroot) fun hne => hne ?_
    rw [← partsOf_joined hparts, hnil]
    rfl
  rw [text]
  simp only [hfull, Bool.false_eq_true, if_false]
  rw [String.toList_append, toList_intercalate_eq]

/-- **The text of a plain path reads back to it.** -/
theorem Plain.reread_eq {p : Path} (h : p.Plain) : p.reread = p := by
  by_cases hsome : p.root ≠ "" ∨ p.parts ≠ []
  · have hparts : partsOf (p.root.toList ++ joined p.parts) = p.parts := by
      rcases h.root with hroot | hroot | hroot <;> rw [hroot]
      · exact partsOf_joined h.parts
      · exact (partsOf_slash _).trans (partsOf_joined h.parts)
      · exact (partsOf_slash _).trans ((partsOf_slash _).trans (partsOf_joined h.parts))
    rw [reread, ofText, toList_text hsome h.parts, hparts, rootOf_append h.root
      (head?_joined h.parts)]
  · simp only [ne_eq, not_or, not_not] at hsome
    obtain ⟨root, parts⟩ := p
    obtain ⟨rfl, rfl⟩ : root = "" ∧ parts = [] := hsome
    rfl

theorem Plain.partsOf_text {p : Path} (h : p.Plain) : partsOf p.text.toList = p.parts :=
  congrArg Path.parts h.reread_eq

/-- The text of a step down is the same text in front of every name. -/
theorem exists_text_child {p : Path} (h : p.Plain) : ∃ lead : List Char, ∀ name : String,
    IsPart name → (p.child name).text.toList = lead ++ name.toList := by
  by_cases hparts : p.parts = []
  · refine ⟨p.root.toList, ?_⟩
    intro name hname
    rw [toList_text (Or.inr (by simp [Path.child])) (h.child hname).parts]
    simp [Path.child, hparts, joined]
  · refine ⟨p.root.toList ++ joined p.parts ++ ['/'], ?_⟩
    intro name hname
    rw [toList_text (Or.inr (by simp [Path.child])) (h.child hname).parts]
    simp only [Path.child, joined_concat hparts]
    simp

theorem name_child (p : Path) (name : String) : (p.child name).name = name := by
  simp [Path.name, Path.child]

theorem isSingleName_of_isPart {name : String} (h : IsPart name) : isSingleName name = true := by
  have hparts : partsOf name.toList = [name] := by
    have hjoined := @partsOf_joined [name] (by simpa using h)
    simpa [joined] using hjoined
  have hroot : rootOf name.toList = "" := by
    refine @rootOf_append "" (Or.inl rfl) name.toList ?_
    intro hhead
    exact h.2.2 (List.mem_of_mem_head? hhead)
  have hlast : name.toList.getLast? ≠ some '/' := fun hlast =>
    h.2.2 (List.mem_of_getLast? hlast)
  simp [isSingleName, hparts, hroot, hlast]

/-- Another name in place of the last one. -/
theorem withName_child {p : Path} {name other : String} (hname : IsPart name)
    (hother : IsPart other) : (p.child name).withName other = .ok (p.child other) := by
  have hempty : name.isEmpty = false := by
    rw [Bool.eq_false_iff, Ne, String.isEmpty_iff]
    exact hname.1
  rw [withName, name_child, hempty, isSingleName_of_isPart hother]
  simp [Path.child]

end Path

end PageLint
