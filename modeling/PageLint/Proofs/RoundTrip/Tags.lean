import Mathlib.Data.List.Basic
import Mathlib.Data.List.TakeWhile
import PageLint.Markup.Span
import PageLint.Markup.TagText
import PageLint.Token.Markup

/-!
# Reading a written tag

A tag that is written with its name, its attributes in double quotes and, perhaps, a slash at the
end is read back as it was. The layers look at the text in their own ways: for its end, for the
spans in it, for its pieces between blanks, and for the name and value of each attribute. All of
them pass over a quoted value as a whole.

* `TagHead` — the name and attributes of a tag that can be written
* `TagHead.tagLength_text`, `TagHead.spans_text` — the end of a written tag, and its only span
* `TagHead.read?_text` — what a written tag says
-/

namespace PageLint

/-- Whether a character means something in a tag wherever it stands outside quotes. -/
def isDelimiter (c : Char) : Bool :=
  Text.isBlank c || Text.isQuoteMark c || c == '<' || c == '>' || c == '/'

theorem not_of_isDelimiter {c : Char} (h : isDelimiter c = false) :
    Text.isBlank c = false ∧ Text.isQuoteMark c = false ∧ c ≠ '<' ∧ c ≠ '>' ∧ c ≠ '/' := by
  simp only [isDelimiter, Bool.or_eq_false_iff, beq_eq_false_iff_ne] at h
  exact ⟨h.1.1.1.1, h.1.1.1.2, h.1.1.2, h.1.2, h.2⟩

/-- The name and attributes of a tag that can be written. -/
structure TagHead where
  name : List Char
  attributes : List (List Char × List Char)
  name_ne : name ≠ []
  name_plain : ∀ c ∈ name, isDelimiter c = false
  attribute_ne : ∀ a ∈ attributes, a.1 ≠ []
  attribute_plain : ∀ a ∈ attributes, ∀ c ∈ a.1, isDelimiter c = false ∧ c ≠ '='
  value_plain : ∀ a ∈ attributes, '"' ∉ a.2

/-- An attribute as it is written. -/
def attributeText (a : List Char × List Char) : List Char := a.1 ++ '=' :: '"' :: (a.2 ++ ['"'])

namespace TagHead

/-- The inside of a tag as it is written. -/
def inner (h : TagHead) : List Char :=
  h.name ++ h.attributes.flatMap fun a => ' ' :: attributeText a

/-- What a tag ends with. -/
def ending (selfClosing : Bool) : List Char := if selfClosing then ['/', '>'] else ['>']

/-- A tag as it is written. -/
def text (h : TagHead) (selfClosing : Bool) : List Char := '<' :: (h.inner ++ ending selfClosing)

end TagHead

/-! ## Quoted values are passed over -/

/-- A count of characters that passes over plain characters and over quoted values. -/
structure CountsQuoted (count : Option Char → List Char → Nat) : Prop where
  plain : ∀ c cs, Text.isQuoteMark c = false → c ≠ '<' → c ≠ '>' →
    count none (c :: cs) = count none cs + 1
  opening : ∀ cs, count none ('"' :: cs) = count (some '"') cs + 1
  quoted : ∀ c cs, c ≠ '"' → count (some '"') (c :: cs) = count (some '"') cs + 1
  closing : ∀ cs, count (some '"') ('"' :: cs) = count none cs + 1

theorem tagLength_countsQuoted : CountsQuoted tagLength where
  plain c cs hq hl hr := by simp [tagLength, hq, hr]
  opening cs := by simp [tagLength, Text.isQuoteMark]
  quoted c cs hc := by simp [tagLength, hc]
  closing cs := by simp [tagLength]

theorem spanTailLength_countsQuoted : CountsQuoted Markup.spanTailLength where
  plain c cs hq hl hr := by simp [Markup.spanTailLength, hq, hl, hr]
  opening cs := by simp [Markup.spanTailLength, Text.isQuoteMark]
  quoted c cs hc := by simp [Markup.spanTailLength, hc]
  closing cs := by simp [Markup.spanTailLength]

section Counts

variable {count : Option Char → List Char → Nat} (hcount : CountsQuoted count)

include hcount

theorem count_plain {cs : List Char}
    (h : ∀ c ∈ cs, Text.isQuoteMark c = false ∧ c ≠ '<' ∧ c ≠ '>') (rest : List Char) :
    count none (cs ++ rest) = cs.length + count none rest := by
  induction cs with
  | nil => simp
  | cons c cs ih =>
    obtain ⟨hq, hl, hr⟩ := h c List.mem_cons_self
    rw [List.cons_append, hcount.plain c _ hq hl hr,
      ih fun d hd => h d (List.mem_cons_of_mem _ hd), List.length_cons]
    omega

theorem count_value {value : List Char} (h : '"' ∉ value) (rest : List Char) :
    count (some '"') (value ++ '"' :: rest) = value.length + 1 + count none rest := by
  induction value with
  | nil => rw [List.nil_append, hcount.closing, List.length_nil]; omega
  | cons c cs ih =>
    have hc : c ≠ '"' := fun hc => h (hc ▸ List.mem_cons_self)
    rw [List.cons_append, hcount.quoted c _ hc, ih fun hd => h (List.mem_cons_of_mem _ hd),
      List.length_cons]
    omega

/-- A written attribute is counted as a whole. -/
theorem count_attribute {a : List Char × List Char}
    (hname : ∀ c ∈ a.1, isDelimiter c = false) (hvalue : '"' ∉ a.2) (rest : List Char) :
    count none (' ' :: attributeText a ++ rest) =
      (' ' :: attributeText a).length + count none rest := by
  have hplain : ∀ c ∈ ' ' :: a.1 ++ ['='], Text.isQuoteMark c = false ∧ c ≠ '<' ∧ c ≠ '>' := by
    intro c hc
    rcases List.mem_append.1 hc with hc | hc
    · rcases List.mem_cons.1 hc with rfl | hc
      · decide
      · obtain ⟨-, hq, hl, hr, -⟩ := not_of_isDelimiter (hname c hc)
        exact ⟨hq, hl, hr⟩
    · rw [List.mem_singleton.1 hc]
      decide
  have hsplit : ' ' :: attributeText a ++ rest =
      (' ' :: a.1 ++ ['=']) ++ ('"' :: (a.2 ++ '"' :: rest)) := by simp [attributeText]
  rw [hsplit, count_plain hcount hplain, hcount.opening, count_value hcount hvalue]
  simp [attributeText]
  omega

/-- The inside of a written tag is counted as a whole. -/
theorem count_inner (h : TagHead) (rest : List Char) :
    count none (h.inner ++ rest) = h.inner.length + count none rest := by
  have hname : ∀ c ∈ h.name, Text.isQuoteMark c = false ∧ c ≠ '<' ∧ c ≠ '>' := by
    intro c hc
    obtain ⟨-, hq, hl, hr, -⟩ := not_of_isDelimiter (h.name_plain c hc)
    exact ⟨hq, hl, hr⟩
  have hattributes : ∀ as : List (List Char × List Char), (∀ a ∈ as, a ∈ h.attributes) →
      count none ((as.flatMap fun a => ' ' :: attributeText a) ++ rest) =
        (as.flatMap fun a => ' ' :: attributeText a).length + count none rest := by
    intro as has
    induction as with
    | nil => simp
    | cons a as ih =>
      have ha := has a List.mem_cons_self
      rw [List.flatMap_cons, List.append_assoc,
        count_attribute hcount (fun c hc => (h.attribute_plain a ha c hc).1) (h.value_plain a ha),
        ih fun b hb => has b (List.mem_cons_of_mem _ hb), List.length_append]
      omega
  rw [TagHead.inner, List.append_assoc, count_plain hcount hname,
    hattributes h.attributes fun _ ha => ha, List.length_append]
  omega

end Counts

namespace TagHead

variable (h : TagHead) (selfClosing : Bool)

/-- **A written tag ends where it ends**, whatever stands in its values. -/
theorem tagLength_text (rest : List Char) :
    tagLength none (h.text selfClosing ++ rest) = (h.text selfClosing).length := by
  have hopen : tagLength none ('<' :: (h.inner ++ (ending selfClosing ++ rest))) =
      tagLength none (h.inner ++ (ending selfClosing ++ rest)) + 1 := by
    simp [tagLength, Text.isQuoteMark]
  have hending : tagLength none (ending selfClosing ++ rest) = (ending selfClosing).length := by
    cases selfClosing <;> simp [ending, tagLength, Text.isQuoteMark]
  rw [text, List.cons_append, List.append_assoc, hopen, count_inner tagLength_countsQuoted, hending,
    List.length_cons, List.length_append]

theorem spanTailLength_text :
    Markup.spanTailLength none (h.inner ++ ending selfClosing) =
      (h.inner ++ ending selfClosing).length := by
  have hending : Markup.spanTailLength none (ending selfClosing) = (ending selfClosing).length := by
    cases selfClosing <;> decide
  rw [count_inner spanTailLength_countsQuoted, hending, List.length_append]

/-- **A written tag is one span.** -/
theorem spans_text :
    Markup.spans (h.text selfClosing) = [{ offset := 0, text := h.text selfClosing }] := by
  have hblank : Text.isBlank '<' = false := by decide
  rw [Markup.spans, text, Markup.spansFrom, spanTailLength_text]
  simp only [List.take_length, List.drop_length, List.all_cons, hblank, Bool.false_and,
    Bool.false_eq_true, if_false]
  rw [Markup.spansFrom]

end TagHead

/-! ## Pieces between blanks -/

namespace Markup

theorem piecesFrom_plain {cs : List Char}
    (h : ∀ c ∈ cs, Text.isQuoteMark c = false ∧ Text.isBlank c = false) (piece rest : List Char) :
    piecesFrom none piece (cs ++ rest) = piecesFrom none (cs.reverse ++ piece) rest := by
  induction cs generalizing piece with
  | nil => rfl
  | cons c cs ih =>
    obtain ⟨hq, hb⟩ := h c List.mem_cons_self
    rw [List.cons_append, piecesFrom, hq, hb]
    simp only [Bool.false_eq_true, if_false]
    rw [ih fun d hd => h d (List.mem_cons_of_mem _ hd)]
    simp

theorem piecesFrom_value {value : List Char} (h : '"' ∉ value) (piece rest : List Char) :
    piecesFrom (some '"') piece (value ++ '"' :: rest) =
      piecesFrom none ('"' :: (value.reverse ++ piece)) rest := by
  induction value generalizing piece with
  | nil => simp [piecesFrom]
  | cons c cs ih =>
    have hc : (c == '"') = false := by
      simpa using fun hc : c = '"' => h (hc ▸ List.mem_cons_self)
    rw [List.cons_append, piecesFrom, hc]
    simp only [Bool.false_eq_true, if_false]
    rw [ih fun hd => h (List.mem_cons_of_mem _ hd)]
    simp

/-- A written attribute is one piece. -/
theorem piecesFrom_attribute {a : List Char × List Char}
    (hname : ∀ c ∈ a.1, isDelimiter c = false) (hvalue : '"' ∉ a.2) (piece rest : List Char) :
    piecesFrom none piece (attributeText a ++ rest) =
      piecesFrom none ((attributeText a).reverse ++ piece) rest := by
  have hplain : ∀ c ∈ a.1 ++ ['='], Text.isQuoteMark c = false ∧ Text.isBlank c = false := by
    intro c hc
    rcases List.mem_append.1 hc with hc | hc
    · obtain ⟨hb, hq, -⟩ := not_of_isDelimiter (hname c hc)
      exact ⟨hq, hb⟩
    · rw [List.mem_singleton.1 hc]
      decide
  have hsplit : attributeText a ++ rest = (a.1 ++ ['=']) ++ ('"' :: (a.2 ++ '"' :: rest)) := by
    simp [attributeText]
  have hmark : Text.isQuoteMark '"' = true := by decide
  rw [hsplit, piecesFrom_plain hplain, piecesFrom, hmark, if_pos rfl, piecesFrom_value hvalue]
  simp [attributeText]

/-- The pieces of a written tag behind its name: one for each attribute. -/
theorem piecesFrom_attributes {as : List (List Char × List Char)}
    (hname : ∀ a ∈ as, ∀ c ∈ a.1, isDelimiter c = false) (hvalue : ∀ a ∈ as, '"' ∉ a.2)
    {piece : List Char} (hpiece : piece ≠ []) :
    piecesFrom none piece (as.flatMap fun a => ' ' :: attributeText a) =
      piece.reverse :: as.map attributeText := by
  induction as generalizing piece with
  | nil => simp [piecesFrom, hpiece]
  | cons a as ih =>
    have hblank : Text.isBlank ' ' = true ∧ Text.isQuoteMark ' ' = false := by decide
    have hne : (attributeText a).reverse ≠ [] := by simp [attributeText]
    have hrest := ih (fun b hb => hname b (List.mem_cons_of_mem _ hb))
      (fun b hb => hvalue b (List.mem_cons_of_mem _ hb)) hne
    rw [List.flatMap_cons, List.cons_append, piecesFrom, hblank.1, hblank.2]
    simp only [Bool.false_eq_true, if_false, if_true, List.isEmpty_iff, hpiece]
    rw [piecesFrom_attribute (hname a List.mem_cons_self) (hvalue a List.mem_cons_self),
      List.append_nil, hrest, List.reverse_reverse, List.map_cons]

theorem joinEquals_attributes {as : List (List Char × List Char)} (hne : ∀ a ∈ as, a.1 ≠ [])
    (hplain : ∀ a ∈ as, ∀ c ∈ a.1, c ≠ '=') (a : List Char × List Char) :
    joinEquals (attributeText a) (as.map attributeText) =
      attributeText a :: as.map attributeText := by
  induction as generalizing a with
  | nil => rfl
  | cons b as ih =>
    have hlast : (attributeText a).getLast? = some '"' := by
      have hsplit : attributeText a = (a.1 ++ '=' :: '"' :: a.2) ++ ['"'] := by
        simp [attributeText]
      rw [hsplit, List.getLast?_concat]
    have hhead : (attributeText b).head? ≠ some '=' := by
      obtain ⟨c, cs, hb⟩ := List.exists_cons_of_ne_nil (hne b List.mem_cons_self)
      have hc := hplain b List.mem_cons_self c (by simp [hb])
      simpa [attributeText, hb] using hc
    rw [List.map_cons, joinEquals, hlast, if_neg (by simpa using hhead),
      ih (fun d hd => hne d (List.mem_cons_of_mem _ hd))
        (fun d hd => hplain d (List.mem_cons_of_mem _ hd))]

/-- The parts of a written tag are its name and its attributes. -/
theorem parts_inner (h : TagHead) : parts h.inner = h.name :: h.attributes.map attributeText := by
  have hplain : ∀ c ∈ h.name, Text.isQuoteMark c = false ∧ Text.isBlank c = false := by
    intro c hc
    obtain ⟨hb, hq, -⟩ := not_of_isDelimiter (h.name_plain c hc)
    exact ⟨hq, hb⟩
  have hpieces : piecesFrom none [] h.inner = h.name :: h.attributes.map attributeText := by
    rw [TagHead.inner, piecesFrom_plain hplain, List.append_nil,
      piecesFrom_attributes (fun a ha c hc => (h.attribute_plain a ha c hc).1) h.value_plain
        (by simpa using h.name_ne), List.reverse_reverse]
  rw [parts, hpieces]
  cases has : h.attributes with
  | nil => rfl
  | cons a as =>
    have hmem : ∀ b ∈ as, b ∈ h.attributes := fun b hb => has ▸ List.mem_cons_of_mem _ hb
    simp only [List.map_cons]
    rw [joinEquals_attributes (fun b hb => h.attribute_ne b (hmem b hb))
      (fun b hb c hc => (h.attribute_plain b (hmem b hb) c hc).2)]

end Markup

/-! ## Trimming -/

namespace Text

theorem trimLeft_of_head? {cs : List Char} (h : ∀ c ∈ cs.head?, isBlank c = false) :
    trimLeft cs = cs := by
  cases cs with
  | nil => rfl
  | cons c cs => exact List.dropWhile_cons_of_neg (by simp [h c rfl])

theorem trimRight_of_getLast? {cs : List Char} (h : ∀ c ∈ cs.getLast?, isBlank c = false) :
    trimRight cs = cs := by
  have hreverse : trimLeft cs.reverse = cs.reverse :=
    trimLeft_of_head? (by rw [List.head?_reverse]; exact h)
  rw [trimLeft] at hreverse
  rw [trimRight, hreverse, List.reverse_reverse]

theorem trim_of_ends {cs : List Char} (hhead : ∀ c ∈ cs.head?, isBlank c = false)
    (hlast : ∀ c ∈ cs.getLast?, isBlank c = false) : trim cs = cs := by
  rw [trim, trimLeft_of_head? hhead, trimRight_of_getLast? hlast]

theorem dropFirst_of_ne {mark : Char} {cs : List Char} (h : cs.head? ≠ some mark) :
    dropFirst mark cs = cs := by
  cases cs with
  | nil => rfl
  | cons c cs => rw [dropFirst, if_neg (by simpa using h)]

theorem dropFinal_concat (mark : Char) (cs : List Char) : dropFinal mark (cs ++ [mark]) = cs := by
  simp [dropFinal]

theorem dropFinal_of_ne {mark : Char} {cs : List Char} (h : cs.getLast? ≠ some mark) :
    dropFinal mark cs = cs := by
  rw [dropFinal, if_neg (by simpa using h)]

end Text

namespace Markup

/-- **A written attribute has its name and its value.** -/
theorem attributeOf?_text {a : List Char × List Char}
    (hname : ∀ c ∈ a.1, isDelimiter c = false ∧ c ≠ '=') :
    attributeOf? (attributeText a) = some a := by
  have hcontains : (attributeText a).contains '=' = true := by simp [attributeText]
  have hpass : ∀ c ∈ a.1, (c != '=') = true := fun c hc => by simpa using (hname c hc).2
  have hbefore : (attributeText a).takeWhile (· != '=') = a.1 := by
    rw [attributeText, List.takeWhile_append_of_pos hpass]
    simp
  have hafter : (attributeText a).dropWhile (· != '=') = '=' :: '"' :: (a.2 ++ ['"']) := by
    rw [attributeText, List.dropWhile_append_of_pos hpass]
    simp
  have htrimName : Text.trim a.1 = a.1 := by
    refine Text.trim_of_ends ?_ ?_
    · intro c hc
      exact (not_of_isDelimiter (hname c (List.mem_of_mem_head? hc)).1).1
    · intro c hc
      exact (not_of_isDelimiter (hname c (List.mem_of_mem_getLast? hc)).1).1
  have htrimValue : Text.trim ('"' :: (a.2 ++ ['"'])) = '"' :: (a.2 ++ ['"']) := by
    have hmark : Text.isBlank '"' = false := by decide
    refine Text.trim_of_ends ?_ ?_
    · rintro c ⟨⟩
      exact hmark
    · intro c hc
      rw [← List.cons_append, List.getLast?_concat] at hc
      rw [← Option.some.inj hc]
      exact hmark
  have hunquoted : Text.unquoted ('"' :: (a.2 ++ ['"'])) = a.2 :=
    Text.unquoted_of_quoted (by decide) a.2
  rw [attributeOf?, if_pos hcontains, hbefore, hafter, List.tail_cons]
  simp only [htrimName, htrimValue, hunquoted]

end Markup

/-! ## Written tags -/

namespace TagHead

variable (h : TagHead) (selfClosing : Bool)

theorem inner_head : ∃ c cs, h.inner = c :: cs ∧ isDelimiter c = false := by
  obtain ⟨c, cs, hname⟩ := List.exists_cons_of_ne_nil h.name_ne
  refine ⟨c, _, by rw [inner, hname, List.cons_append], ?_⟩
  exact h.name_plain c (hname ▸ List.mem_cons_self)

/-- The inside of a written tag ends with its name or with a quote mark. -/
theorem inner_last : ∃ c, h.inner.getLast? = some c ∧ Text.isBlank c = false ∧ c ≠ '/' := by
  rcases List.eq_nil_or_concat h.attributes with hnil | ⟨as, a, hconcat⟩
  · have hlast := List.getLast?_eq_some_getLast h.name_ne
    obtain ⟨hblank, -, -, -, hslash⟩ :=
      not_of_isDelimiter (h.name_plain _ (List.getLast_mem h.name_ne))
    exact ⟨_, by rw [inner, hnil, List.flatMap_nil, List.append_nil, hlast], hblank, hslash⟩
  · refine ⟨'"', ?_, by decide, by decide⟩
    have hsplit : h.inner = (h.name ++ (as.flatMap fun a => ' ' :: attributeText a) ++
        ' ' :: a.1 ++ '=' :: '"' :: a.2) ++ ['"'] := by
      simp [inner, hconcat, attributeText]
    rw [hsplit, List.getLast?_concat]

theorem trim_inner : Text.trim h.inner = h.inner := by
  obtain ⟨c, cs, hcons, hplain⟩ := h.inner_head
  obtain ⟨d, hlast, hblank, -⟩ := h.inner_last
  refine Text.trim_of_ends ?_ ?_
  · rw [hcons]
    rintro _ ⟨⟩
    exact (not_of_isDelimiter hplain).1
  · rw [hlast]
    rintro _ ⟨⟩
    exact hblank

theorem text_eq_concat : ∃ cs, h.text selfClosing = cs ++ ['>'] := by
  cases selfClosing
  · exact ⟨'<' :: h.inner, by simp [text, ending]⟩
  · exact ⟨'<' :: (h.inner ++ ['/']), by simp [text, ending]⟩

theorem trim_text : Text.trim (h.text selfClosing) = h.text selfClosing := by
  refine Text.trim_of_ends ?_ ?_
  · rintro _ ⟨⟩
    decide
  · obtain ⟨cs, hcs⟩ := h.text_eq_concat selfClosing
    rw [hcs, List.getLast?_concat]
    rintro _ ⟨⟩
    decide

theorem trimLeft_text : Text.trimLeft (h.text selfClosing) = h.text selfClosing := by
  refine Text.trimLeft_of_head? ?_
  rintro _ ⟨⟩
  decide

/-- A written tag is no closing tag. -/
theorem isClosing_text : Markup.isClosing (h.text selfClosing) = false := by
  obtain ⟨c, cs, hcons, hplain⟩ := h.inner_head
  have hc : '/' ≠ c := (not_of_isDelimiter hplain).2.2.2.2.symm
  rw [Markup.isClosing, trimLeft_text, text, hcons, List.cons_append]
  simp [List.isPrefixOf, hc]

theorem isSelfClosing_text : Markup.isSelfClosing (h.text selfClosing) = selfClosing := by
  have htrim : Text.trimRight (h.text selfClosing) = h.text selfClosing := by
    have := h.trim_text selfClosing
    rwa [Text.trim, trimLeft_text] at this
  rw [Markup.isSelfClosing, htrim]
  cases selfClosing with
  | true => simp [text, ending, List.isPrefixOf]
  | false =>
    obtain ⟨d, hlast, -, hslash⟩ := h.inner_last
    obtain ⟨cs, hcs⟩ : ∃ cs, h.inner.reverse = d :: cs := by
      have hhead : h.inner.reverse.head? = some d := by rw [List.head?_reverse, hlast]
      exact List.head?_eq_some_iff.1 hhead
    simp [text, ending, hcs, List.isPrefixOf, hslash.symm]

/-- The inside of a written tag is read off its text. -/
theorem inside_text : Markup.inside (h.text selfClosing) = h.inner := by
  obtain ⟨c, cs, hcons, hplain⟩ := h.inner_head
  obtain ⟨d, hlast, hblank, hslash⟩ := h.inner_last
  obtain ⟨hcblank, -, -, -, hcslash⟩ := not_of_isDelimiter hplain
  have hangles : Markup.withoutAngles (h.text selfClosing) =
      h.inner ++ if selfClosing then ['/'] else [] := by
    have hdrop : Text.dropFirst '<' (h.text selfClosing) = h.inner ++ ending selfClosing := rfl
    rw [Markup.withoutAngles, hdrop]
    cases selfClosing with
    | false => exact (Text.dropFinal_concat '>' h.inner).trans (List.append_nil _).symm
    | true =>
      have hsplit : h.inner ++ ending true = (h.inner ++ ['/']) ++ ['>'] := by simp [ending]
      rw [hsplit, Text.dropFinal_concat]
      rfl
  have hstart : ∀ rest, Text.dropFirst '/' (h.inner ++ rest) = h.inner ++ rest ∧
      Text.trimLeft (h.inner ++ rest) = h.inner ++ rest := by
    intro rest
    rw [hcons, List.cons_append]
    refine ⟨Text.dropFirst_of_ne (by simpa using hcslash), Text.trimLeft_of_head? ?_⟩
    rintro _ ⟨⟩
    exact hcblank
  rw [Markup.inside, trim_text, hangles]
  cases selfClosing with
  | false =>
    simp only [Bool.false_eq_true, if_false]
    have hempty := hstart []
    rw [List.append_nil] at hempty ⊢
    rw [trim_inner, hempty.1, hempty.2, if_neg (by simpa [hlast] using hslash)]
  | true =>
    simp only [if_true]
    have htrim : Text.trim (h.inner ++ ['/']) = h.inner ++ ['/'] := by
      refine Text.trim_of_ends ?_ ?_
      · rw [hcons]
        rintro _ ⟨⟩
        exact hcblank
      · rw [List.getLast?_concat]
        rintro _ ⟨⟩
        decide
    rw [htrim, (hstart ['/']).1, (hstart ['/']).2, if_pos (by simp), List.dropLast_concat,
      Text.trimRight_of_getLast?]
    rw [hlast]
    rintro _ ⟨⟩
    exact hblank

/-- **A written tag says what was written.** -/
theorem read?_text : Markup.TagText.read? (h.text selfClosing) =
    some { name := Text.lower h.name, attributes := h.attributes, selfClosing } := by
  have hattributes : (h.attributes.map attributeText).filterMap Markup.attributeOf? =
      h.attributes := by
    rw [List.filterMap_map]
    calc h.attributes.filterMap (Markup.attributeOf? ∘ attributeText)
      _ = h.attributes.filterMap some :=
        List.filterMap_congr fun a ha => Markup.attributeOf?_text (h.attribute_plain a ha)
      _ = h.attributes := List.filterMap_some
  rw [Markup.TagText.read?, inside_text, Markup.parts_inner]
  simp only [hattributes, isSelfClosing_text]

end TagHead

/-! ## Closing tags -/

/-- A closing tag as it is written. -/
def closingText (name : List Char) : List Char := '<' :: '/' :: (name ++ ['>'])

/-- A written closing tag has its name, in lower case. -/
theorem tagName_closingText {name : List Char} (hne : name ≠ [])
    (hplain : ∀ c ∈ name, isDelimiter c = false) :
    Markup.tagName (closingText name) = Text.lower name := by
  have htrim : Text.trim (closingText name) = closingText name := by
    refine Text.trim_of_ends ?_ ?_
    · rintro _ ⟨⟩
      decide
    · rw [closingText, ← List.cons_append, ← List.cons_append, List.getLast?_concat]
      rintro _ ⟨⟩
      decide
  have hangles : Markup.withoutAngles (closingText name) = '/' :: name :=
    Text.dropFinal_concat '>' ('/' :: name)
  have hlast : ∀ c ∈ name.getLast?, isDelimiter c = false :=
    fun c hc => hplain c (List.mem_of_mem_getLast? hc)
  have htrimSlash : Text.trim ('/' :: name) = '/' :: name := by
    refine Text.trim_of_ends ?_ ?_
    · rintro _ ⟨⟩
      decide
    · rw [List.getLast?_cons_of_ne_nil hne]
      exact fun c hc => (not_of_isDelimiter (hlast c hc)).1
  have htrimName : Text.trim name = name :=
    Text.trim_of_ends
      (fun c hc => (not_of_isDelimiter (hplain c (List.mem_of_mem_head? hc))).1)
      (fun c hc => (not_of_isDelimiter (hlast c hc)).1)
  have htake : (name.takeWhile fun c => !Text.isBlank c) = name :=
    List.takeWhile_eq_self_iff.2 fun c hc => by simp [(not_of_isDelimiter (hplain c hc)).1]
  have hfinal : Text.dropFinal '/' name = name :=
    Text.dropFinal_of_ne fun hslash => (not_of_isDelimiter (hlast '/' hslash)).2.2.2.2 rfl
  have hslash : Text.dropFirst '/' ('/' :: name) = name := rfl
  rw [Markup.tagName, htrim, hangles, htrimSlash, hslash, htrimName, htake, hfinal]

theorem lengthThrough_closingText {name : List Char} (hplain : ∀ c ∈ name, isDelimiter c = false)
    (rest : List Char) :
    Text.lengthThrough ['>'] (closingText name ++ rest) = (closingText name).length := by
  have hpass : ∀ cs : List Char, (∀ c ∈ cs, c ≠ '>') → ∀ after,
      Text.lengthThrough ['>'] (cs ++ '>' :: after) = cs.length + 1 := by
    intro cs
    induction cs with
    | nil =>
      intro _ after
      simp [Text.lengthThrough, List.isPrefixOf]
    | cons c cs ih =>
      intro hcs after
      have hc : '>' ≠ c := (hcs c List.mem_cons_self).symm
      rw [List.cons_append, Text.lengthThrough, if_neg (by simp [List.isPrefixOf, hc]),
        ih (fun d hd => hcs d (List.mem_cons_of_mem _ hd)), List.length_cons]
  have hsplit : closingText name ++ rest = ('<' :: '/' :: name) ++ '>' :: rest := by
    simp [closingText]
  rw [hsplit, hpass]
  · simp [closingText]
  · intro c hc
    rcases List.mem_cons.1 hc with rfl | hc
    · decide
    rcases List.mem_cons.1 hc with rfl | hc
    · decide
    · exact (not_of_isDelimiter (hplain c hc)).2.2.2.1

end PageLint
