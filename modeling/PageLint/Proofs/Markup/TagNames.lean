import PageLint.Proofs.Ids.Attributes
import PageLint.Proofs.Markup.Openings
import PageLint.Proofs.Prefixes.Scanning

/-!
# The names of tags

The name of an opening tag is the first part of its inside, in lower case. It is never empty, and
lowering it again changes nothing. One slash in front of the inside is taken away, and blanks
around it. So a name starts with a slash exactly when two slashes are in front, with or without
blanks around the first of them, and more than blanks behind them.

* `Markup.SlashedTwice` — a tag text with two slashes in front
* `Markup.head?_inside` — the inside of a tag starts with a slash exactly when there are two
* `TagText.Named`, `named_of_read?` — what the name in a tag text is like
* `tag_names` — the names of the tags of a page
-/

namespace PageLint

namespace Text

/-- What follows the blanks in front of a text. -/
theorem exists_trimLeft (cs : List Char) : ∃ gap, cs = gap ++ trimLeft cs ∧
    ∀ c ∈ gap, isBlank c = true :=
  ⟨cs.takeWhile isBlank, List.takeWhile_append_dropWhile.symm,
    fun _ hc => List.mem_takeWhile_imp hc⟩

theorem isBlank_head?_trimLeft (cs : List Char) : ∀ c ∈ (trimLeft cs).head?, isBlank c = false := by
  intro c hc
  have := List.head?_dropWhile_not isBlank cs
  rw [trimLeft] at hc
  rw [Option.mem_def.1 hc] at this
  simpa using this

theorem trimLeft_append_of_blank {gap : List Char} (h : ∀ c ∈ gap, isBlank c = true)
    (cs : List Char) : trimLeft (gap ++ cs) = trimLeft cs :=
  List.dropWhile_append_of_pos h

theorem trimRight_cons {c : Char} (h : isBlank c = false) (cs : List Char) :
    trimRight (c :: cs) = c :: trimRight cs := by
  rw [trimRight, List.reverse_cons, List.dropWhile_append, trimRight]
  split
  · rename_i hempty
    rw [List.isEmpty_iff.1 hempty, List.dropWhile_cons_of_neg (by simp [h])]
    rfl
  · rw [List.reverse_append]
    rfl

theorem isBlank_getLast?_trimRight (cs : List Char) :
    ∀ c ∈ (trimRight cs).getLast?, isBlank c = false := by
  rw [trimRight, List.getLast?_reverse]
  exact isBlank_head?_trimLeft cs.reverse

theorem trimRight_ne_nil_iff {cs : List Char} :
    trimRight cs ≠ [] ↔ ∃ c ∈ cs, isBlank c = false := by
  rw [trimRight, ne_eq, List.reverse_eq_nil_iff, List.dropWhile_eq_nil_iff]
  simp

theorem trimRight_append_of_ne_nil {ds : List Char} (h : trimRight ds ≠ []) (cs : List Char) :
    trimRight (cs ++ ds) = cs ++ trimRight ds := by
  rw [trimRight, ne_eq, List.reverse_eq_nil_iff] at h
  rw [trimRight, List.reverse_append, List.dropWhile_append, if_neg (by simpa using h),
    List.reverse_append, List.reverse_reverse, trimRight]

end Text

namespace Markup

/-! ## Slashes in front -/

/-- The text of a tag with two slashes in front: between its angle brackets come a slash and one
more, with or without blanks around the first, and more than blanks behind them. -/
def SlashedTwice (cs : List Char) : Prop :=
  ∃ gap gap' rest, withoutAngles (Text.trim cs) = gap ++ '/' :: (gap' ++ '/' :: rest) ∧
    (∀ c ∈ gap, Text.isBlank c = true) ∧ (∀ c ∈ gap', Text.isBlank c = true) ∧
    ∃ c ∈ rest, Text.isBlank c = false

/-- The inside of a tag before a slash at its end is taken away. -/
def unslashed (cs : List Char) : List Char :=
  Text.trimLeft (Text.dropFirst '/' (Text.trim (withoutAngles (Text.trim cs))))

/-- A slash at the end of the inside is taken away; what is in front of it stays. -/
theorem head?_inside_iff (cs : List Char) :
    (Text.trimLeft (inside cs)).head? = some '/' ↔ ∃ w, w ≠ [] ∧ unslashed cs = '/' :: w := by
  have hinside : inside cs = if (unslashed cs).getLast? == some '/' then
      Text.trimRight (unslashed cs).dropLast else unslashed cs := rfl
  have hblank := Text.isBlank_head?_trimLeft
    (Text.dropFirst '/' (Text.trim (withoutAngles (Text.trim cs))))
  rw [← unslashed] at hblank
  rw [hinside]
  cases hinner : unslashed cs with
  | nil => simp [Text.trimLeft]
  | cons c w =>
    have hc : Text.isBlank c = false := hblank c (by rw [hinner]; rfl)
    have htrim : ∀ ds, Text.trimLeft (c :: ds) = c :: ds := fun ds =>
      List.dropWhile_cons_of_neg (by simp [hc])
    split
    · cases w with
      | nil => simp [Text.trimLeft, Text.trimRight]
      | cons d w =>
        rw [List.dropLast_cons_cons, Text.trimRight_cons hc, htrim]
        simp
    · rename_i hlast
      rw [htrim]
      cases w with
      | nil => simpa using hlast
      | cons d w => simp

/-- **The inside of a tag starts with a slash exactly when there are two in front.** -/
theorem head?_inside (cs : List Char) :
    (Text.trimLeft (inside cs)).head? = some '/' ↔ SlashedTwice cs := by
  rw [head?_inside_iff]
  constructor
  · rintro ⟨w, hw, hinner⟩
    obtain ⟨gap, hgap, hblank⟩ := Text.exists_trimLeft (withoutAngles (Text.trim cs))
    have hhead := Text.isBlank_head?_trimLeft (withoutAngles (Text.trim cs))
    rw [unslashed, Text.trim] at hinner
    cases hcore : Text.trimLeft (withoutAngles (Text.trim cs)) with
    | nil =>
      rw [hcore] at hinner
      cases hinner
    | cons c x =>
      rw [hcore] at hgap hhead hinner
      have hc : Text.isBlank c = false := hhead c rfl
      rw [Text.trimRight_cons hc, Text.dropFirst] at hinner
      split at hinner
      · -- One slash has been taken away, and what is left starts with another.
        rename_i hslash
        obtain rfl : c = '/' := by simpa using hslash
        obtain ⟨gap', hgap', hblank'⟩ := Text.exists_trimLeft (Text.trimRight x)
        have hx := Text.trimRight_append_blanksBehind x
        have hlast := Text.isBlank_getLast?_trimRight x
        rw [hinner] at hgap'
        obtain ⟨w', d, rfl⟩ : ∃ w' d, w = w' ++ [d] := by
          obtain ⟨d, hd⟩ := Option.isSome_iff_exists.1 (List.getLast?_isSome.2 hw)
          obtain ⟨w', hw'⟩ := List.getLast?_eq_some_iff.1 hd
          exact ⟨w', d, hw'⟩
        refine ⟨gap, gap', (w' ++ [d]) ++ Text.blanksBehind x, ?_, hblank, hblank', d, by simp, ?_⟩
        · rw [hgap]
          conv_lhs => rw [← hx, hgap', List.append_assoc, List.cons_append]
        · refine hlast d ?_
          rw [hgap', ← List.cons_append, ← List.append_assoc, List.getLast?_concat]
          rfl
      · rename_i hslash
        rw [Text.trimLeft, List.dropWhile_cons_of_neg (by simp [hc])] at hinner
        obtain ⟨rfl, -⟩ := List.cons.inj hinner
        simp at hslash
  · rintro ⟨gap, gap', rest, hcore, hblank, hblank', hrest⟩
    have hslash : Text.isBlank '/' = false := by decide
    have hbare : ∀ ds, Text.trimLeft ('/' :: ds) = '/' :: ds := fun ds =>
      List.dropWhile_cons_of_neg (by simp [hslash])
    refine ⟨Text.trimRight rest, Text.trimRight_ne_nil_iff.2 hrest, ?_⟩
    rw [unslashed, hcore, Text.trim, Text.trimLeft_append_of_blank hblank, hbare,
      Text.trimRight_cons hslash, Text.dropFirst, if_pos (beq_self_eq_true _),
      Text.trimRight_append_of_ne_nil (by rw [Text.trimRight_cons hslash]; simp),
      Text.trimRight_cons hslash, Text.trimLeft_append_of_blank hblank', hbare]

/-! ## Names -/

/-- No piece of a text is empty. -/
theorem ne_nil_of_mem_piecesFrom {quote : Option Char} {piece cs part : List Char}
    (h : part ∈ piecesFrom quote piece cs) : part ≠ [] := by
  fun_induction piecesFrom quote piece cs with
  | case1 => cases h
  | case2 _ piece hpiece =>
    rw [List.mem_singleton.1 h]
    simpa using hpiece
  | case3 _ _ _ _ ih => exact ih h
  | case4 _ _ _ _ ih => exact ih h
  | case5 _ _ _ _ _ _ ih => exact ih h
  | case6 piece c cs _ _ hpiece ih =>
    rcases List.mem_cons.1 h with rfl | h
    · simpa using hpiece
    · exact ih h
  | case7 _ _ _ _ _ ih => exact ih h

/-- What the name in a tag text is like: it is not empty, it is in lower case, and it starts with a
slash exactly when there are two in front. -/
structure TagText.Named (text : List Char) (tag : TagText) : Prop where
  ne_nil : tag.name ≠ []
  lower : Text.lower tag.name = tag.name
  slash : tag.name.head? = some '/' ↔ SlashedTwice text

/-- Lowering a text keeps a slash in front, and makes none. -/
theorem head?_lower (cs : List Char) :
    (Text.lower cs).head? = some '/' ↔ cs.head? = some '/' := by
  cases cs with
  | nil => rfl
  | cons c cs =>
    have hchar : (Text.lowerChar [] c cs).head? = some '/' ↔ c = '/' := by
      constructor
      · intro h
        exact Text.eq_of_mem_lowerChar (by decide) (List.mem_of_mem_head? h)
      · rintro rfl
        rw [Text.lowerChar_basic (by decide)]
        rfl
    have hne : Text.lowerChar [] c cs ≠ [] := by
      rcases Text.lowerChar_cases [] c cs with ⟨-, h⟩ | ⟨d, h, -⟩ <;> simp [h]
    rw [Text.lower, Text.lowerAfter, List.head?_append_of_ne_nil _ hne, hchar]
    simp

theorem lower_ne_nil {cs : List Char} (h : cs ≠ []) : Text.lower cs ≠ [] := by
  cases cs with
  | nil => exact absurd rfl h
  | cons c cs =>
    rw [Text.lower, Text.lowerAfter]
    rcases Text.lowerChar_cases [] c cs with ⟨-, h⟩ | ⟨d, h, -⟩ <;> simp [h]

/-- **The name that is read from a tag text.** -/
theorem TagText.named_of_read? {text : List Char} {tag : TagText} (h : read? text = some tag) :
    tag.Named text := by
  unfold TagText.read? at h
  split at h
  · cases h
  · rename_i name rest hparts
    obtain rfl := Option.some.inj h
    obtain ⟨pieces, hpieces⟩ : ∃ pieces, piecesFrom none [] (inside text) = name :: pieces := by
      unfold parts at hparts
      split at hparts <;> cases hparts
      · exact ⟨_, by assumption⟩
      · exact ⟨_, by assumption⟩
    have hne : name ≠ [] := ne_nil_of_mem_piecesFrom (hpieces ▸ List.mem_cons_self)
    refine ⟨lower_ne_nil hne, Text.lower_lower name, ?_⟩
    rw [head?_lower, ← head?_inside, ← head?_pieces, hpieces, List.flatten_cons,
      List.head?_append_of_ne_nil _ hne]

end Markup

/-- A tag with a name in lower case that starts with a slash exactly when its text has two. -/
structure Node.Named (n : Node) (o : OpeningText) : Prop where
  isTag : n.IsTagOf o
  named : ∃ name, n.tagName? = some name ∧ name ≠ "" ∧ lowered name = name ∧
    (name.toList.head? = some '/' ↔ Markup.SlashedTwice o.span.text)

/-- **The names of the tags of a page**: none is empty, all are in lower case, and a name starts
with a slash exactly when there are two slashes in front of it. -/
theorem tag_names {config : Config} (hlimit : 1 ≤ config.maxExpressionTokens)
    (source : String) (file : Option String) : ∃ page, readPage? config source file = some page ∧
      List.Forall₂ Node.Named page.document.tags (openingsOf source file) := by
  obtain ⟨page, hpage, htags, hwritten⟩ := exists_openings hlimit source file
  refine ⟨page, hpage, ?_⟩
  rw [List.forall₂_iff_get] at htags ⊢
  refine ⟨htags.1, fun i hi ho => ?_⟩
  have htag := htags.2 i hi ho
  obtain ⟨-, hwritten⟩ := hwritten _ (List.get_mem _ ⟨i, ho⟩)
  have hnamed := Markup.TagText.named_of_read? hwritten.tag
  refine ⟨htag, _, htag.tagName?_eq, ?_, ?_, ?_⟩
  · simpa using hnamed.ne_nil
  · rw [lowered, String.toList_ofList, hnamed.lower]
  · rw [String.toList_ofList]
    exact hnamed.slash

/-- A tag with one slash in front and one with two, both behind blanks. -/
def slashedPage : String := "< /P>< //x>"

theorem slashedPage_names : 1 ≤ ({} : Config).maxExpressionTokens ∧
    Markup.SlashedTwice "< //x>".toList ∧
    ∃ page, readPage? {} slashedPage none = some page ∧
      page.document.tags.map Node.tagName? = [some "p", some "/x"] ∧
      List.Forall₂ Node.Named page.document.tags (openingsOf slashedPage none) := by
  obtain ⟨page, hpage, htags⟩ := @tag_names {} (by decide) slashedPage none
  have hopenings : (openingsOf slashedPage none).map (fun o => some (String.ofList o.tag.name)) =
      [some "p", some "/x"] := by
    decide +kernel
  have htwice : Markup.SlashedTwice "< //x>".toList :=
    ⟨[' '], [], ['x'], by decide +kernel, List.forall_mem_singleton.2 (by decide), by simp,
      'x', List.mem_cons_self, by decide⟩
  refine ⟨by decide, htwice, page, hpage, ?_, htags⟩
  rw [← hopenings, ← List.forall₂_eq_eq_eq, List.forall₂_map_left_iff, List.forall₂_map_right_iff]
  exact htags.imp fun _ _ h => h.isTag.tagName?_eq

end PageLint
