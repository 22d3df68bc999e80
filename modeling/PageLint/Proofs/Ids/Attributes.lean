import PageLint.Proofs.LineEnds.Tags
import PageLint.Proofs.RoundTrip.Tags
import PageLint.Reading.Page

/-!
# Attributes that stand clear

An attribute in a tag is a name, an equals sign and a value, with or without blanks around the sign.
Parts of a tag are joined around equals signs, so that all of the attribute is one part. It is a
part of its own when no other equals sign touches it: neither does what stands in front of it end
with one, unless that is the name of the tag, nor does what follows it start with one, and the value
does not end with one where anything follows.

* `openQuote` — the quote mark that is open behind a text
* `AttributeText` — an attribute as it is written, with blanks around its equals sign
* `StandsClear` — a place for an attribute that no other equals sign touches
* `mem_parts_of_standsClear` — such an attribute is a part of its tag
* `CarriesId`, `CarriesId.mem_ids` — a tag with an id that stands clear gives that id
-/

namespace PageLint

namespace Markup

/-- The quote mark that is open behind a text, if any, for the one that is open in front of it. -/
def openQuote : Option Char → List Char → Option Char
  | quote, [] => quote
  | some mark, c :: cs => openQuote (if c == mark then none else some mark) cs
  | none, c :: cs => openQuote (if Text.isQuoteMark c then some c else none) cs

theorem isQuoteMark_of_isBlank {c : Char} (h : Text.isBlank c = true) :
    Text.isQuoteMark c = false := by
  refine Bool.eq_false_iff.2 fun hmark => ?_
  have hcases : c = '"' ∨ c = '\'' := by simpa [Text.isQuoteMark] using hmark
  rcases hcases with rfl | rfl <;> exact absurd h (by decide)

/-! ## Pieces -/

/-- A text that is part of one piece. -/
def Unbroken (cs : List Char) : Prop :=
  ∀ piece rest, piecesFrom none piece (cs ++ rest) = piecesFrom none (cs.reverse ++ piece) rest

theorem Unbroken.append {cs ds : List Char} (hc : Unbroken cs) (hd : Unbroken ds) :
    Unbroken (cs ++ ds) := by
  intro piece rest
  rw [List.append_assoc, hc, hd, List.reverse_append, List.append_assoc]

/-- Without blanks, quote marks open and close inside a piece. -/
theorem piecesFrom_of_not_blank {cs : List Char} (h : ∀ c ∈ cs, Text.isBlank c = false)
    (quote : Option Char) (piece rest : List Char) :
    piecesFrom quote piece (cs ++ rest) =
      piecesFrom (openQuote quote cs) (cs.reverse ++ piece) rest := by
  induction cs generalizing quote piece with
  | nil => cases quote <;> rfl
  | cons c cs ih =>
    rw [List.forall_mem_cons] at h
    rw [List.reverse_cons, List.append_assoc, List.singleton_append]
    cases quote with
    | some mark => rw [List.cons_append, piecesFrom, openQuote, ih h.2]
    | none =>
      rw [List.cons_append, piecesFrom, openQuote, h.1]
      split <;> exact ih h.2 _ _

theorem unbroken_of_not_blank {cs : List Char} (h : ∀ c ∈ cs, Text.isBlank c = false)
    (hclosed : openQuote none cs = none) : Unbroken cs := by
  intro piece rest
  rw [piecesFrom_of_not_blank h, hclosed]

theorem unbroken_quoted {mark : Char} {cs : List Char} (hmark : Text.isQuoteMark mark = true)
    (h : mark ∉ cs) : Unbroken (mark :: (cs ++ [mark])) := by
  intro piece rest
  rw [List.cons_append, piecesFrom, if_pos hmark, List.append_assoc, piecesFrom_quoted h,
    List.singleton_append, piecesFrom, if_pos (by simp)]
  simp

theorem piecesFrom_blanks {gap : List Char} (h : ∀ c ∈ gap, Text.isBlank c = true)
    (rest : List Char) : piecesFrom none [] (gap ++ rest) = piecesFrom none [] rest := by
  induction gap with
  | nil => rfl
  | cons c gap ih =>
    rw [List.forall_mem_cons] at h
    rw [List.cons_append, piecesFrom, isQuoteMark_of_isBlank h.1, h.1]
    exact ih h.2

/-- Where nothing or a blank follows, a piece ends. -/
theorem Unbroken.pieces {cs : List Char} (h : Unbroken cs) (hne : cs ≠ []) {behind : List Char}
    (hbehind : ∀ c ∈ behind.head?, Text.isBlank c = true) :
    piecesFrom none [] (cs ++ behind) = cs :: piecesFrom none [] behind := by
  rw [h, List.append_nil]
  cases behind with
  | nil => simp [piecesFrom, hne]
  | cons b behind =>
    have hb := hbehind b rfl
    simp [piecesFrom, isQuoteMark_of_isBlank hb, hb, hne]

/-- The pieces on both sides of a blank outside quotes. -/
theorem piecesFrom_append {quote : Option Char} {cs : List Char}
    (h : openQuote quote cs = none) (piece : List Char) {rest : List Char}
    (hrest : ∃ b ∈ rest.head?, Text.isBlank b = true) :
    piecesFrom quote piece (cs ++ rest) =
      piecesFrom quote piece cs ++ piecesFrom none [] rest := by
  induction cs generalizing quote piece with
  | nil =>
    obtain rfl : quote = none := h
    obtain ⟨b, hb, hblank⟩ := hrest
    obtain ⟨rest, rfl⟩ := List.head?_eq_some_iff.1 hb
    rw [List.nil_append, piecesFrom, piecesFrom, piecesFrom, isQuoteMark_of_isBlank hblank, hblank]
    cases piece <;> rfl
  | cons c cs ih =>
    rw [List.cons_append]
    cases quote with
    | some mark =>
      rw [piecesFrom, piecesFrom]
      exact ih h _
    | none =>
      rw [openQuote] at h
      rw [piecesFrom, piecesFrom]
      split
      · rename_i hmark
        rw [if_pos hmark] at h
        exact ih h _
      · rename_i hmark
        rw [if_neg hmark] at h
        split
        · split
          · exact ih h _
          · rw [ih h, List.cons_append]
        · exact ih h _

/-- A text with no blank at its end is the end of its last piece. -/
theorem getLast?_piecesFrom {c : Char} (hc : Text.isBlank c = false) (quote : Option Char)
    (piece cs : List Char) : (piecesFrom quote piece (cs ++ [c])).flatten.getLast? = some c := by
  induction cs generalizing quote piece with
  | nil =>
    have hlast : ∀ quote, (piecesFrom quote (c :: piece) []).flatten.getLast? = some c := by
      intro quote
      simp [piecesFrom]
    cases quote with
    | some mark => rw [List.nil_append, piecesFrom, hlast]
    | none =>
      rw [List.nil_append, piecesFrom, hc]
      split
      · exact hlast (some c)
      · exact hlast none
  | cons d cs ih =>
    rw [List.cons_append]
    cases quote with
    | some mark => exact ih _ _
    | none =>
      rw [piecesFrom]
      split
      · exact ih _ _
      · split
        · split
          · exact ih _ _
          · rw [List.flatten_cons, List.getLast?_append, ih]
            rfl
        · exact ih _ _

/-- A piece that has been started is the start of the pieces. -/
theorem head?_piecesFrom (quote : Option Char) {piece : List Char} (hpiece : piece ≠ [])
    (cs : List Char) : (piecesFrom quote piece cs).flatten.head? = piece.getLast? := by
  have hlonger : ∀ {piece : List Char} (c : Char), piece ≠ [] →
      (c :: piece).getLast? = piece.getLast? := fun _ h => List.getLast?_cons_of_ne_nil h
  fun_induction piecesFrom quote piece cs with
  | case1 _ piece hempty => exact absurd (List.isEmpty_iff.1 hempty) hpiece
  | case2 _ piece _ => simp
  | case3 mark piece c cs ih => rw [ih (List.cons_ne_nil _ _), hlonger c hpiece]
  | case4 piece c cs _ ih => rw [ih (List.cons_ne_nil _ _), hlonger c hpiece]
  | case5 piece c cs _ _ hempty => exact absurd (List.isEmpty_iff.1 hempty) hpiece
  | case6 piece c cs _ _ _ =>
    rw [List.flatten_cons, List.head?_append, List.head?_reverse,
      List.getLast?_eq_some_getLast hpiece]
    rfl
  | case7 piece c cs _ _ ih => rw [ih (List.cons_ne_nil _ _), hlonger c hpiece]

/-- The pieces of a text start with its first character that is no blank. -/
theorem head?_pieces (cs : List Char) :
    (piecesFrom none [] cs).flatten.head? = (Text.trimLeft cs).head? := by
  induction cs with
  | nil => rfl
  | cons c cs ih =>
    rw [piecesFrom, Text.trimLeft]
    cases hb : Text.isBlank c with
    | true =>
      rw [isQuoteMark_of_isBlank hb, List.dropWhile_cons_of_pos hb]
      exact ih
    | false =>
      rw [List.dropWhile_cons_of_neg (by simp [hb])]
      split <;> exact head?_piecesFrom _ (List.cons_ne_nil _ _) cs

/-! ## Joining pieces -/

/-- Pieces are not joined across a place that no equals sign touches. -/
theorem joinEquals_append {part piece : List Char} {before : List (List Char)}
    (hbefore : (part :: before).flatten.getLast? ≠ some '=') (hpiece : piece.head? ≠ some '=')
    (behind : List (List Char)) :
    joinEquals part (before ++ piece :: behind) =
      joinEquals part before ++ joinEquals piece behind := by
  induction before generalizing part with
  | nil =>
    have hlast : part.getLast? ≠ some '=' := by simpa using hbefore
    show joinEquals part (piece :: behind) = part :: joinEquals piece behind
    rw [joinEquals, if_neg (by simp [hpiece, hlast])]
  | cons p before ih =>
    rw [List.cons_append, joinEquals, joinEquals]
    split
    · refine ih ?_
      rwa [List.flatten_cons, List.append_assoc, ← List.flatten_cons, ← List.flatten_cons]
    · refine (congrArg (part :: ·) (ih fun hlast => hbefore ?_))
      rw [List.flatten_cons, List.getLast?_append, hlast]
      rfl

/-- A part is one of its own when no equals sign touches its end. -/
theorem mem_joinEquals {part : List Char} {behind : List (List Char)}
    (hbehind : behind.flatten.head? ≠ some '=') (hpart : part.getLast? = some '=' → behind = []) :
    part ∈ joinEquals part behind := by
  cases behind with
  | nil => exact List.mem_singleton_self part
  | cons piece behind =>
    have hpiece : piece.head? ≠ some '=' := by
      intro hhead
      rw [List.flatten_cons, List.head?_append, hhead] at hbehind
      exact hbehind rfl
    have hlast : part.getLast? ≠ some '=' := fun h => List.cons_ne_nil _ _ (hpart h)
    rw [joinEquals, if_neg (by simp [hpiece, hlast])]
    exact List.mem_cons_self

/-! ## Written attributes -/

/-- A value as it is written: in quote marks that are not in it, or bare, without blanks. -/
inductive ValueText (value : List Char) : List Char → Prop
  | quoted {mark : Char} (isMark : Text.isQuoteMark mark = true) (notInside : mark ∉ value) :
      ValueText value (mark :: (value ++ [mark]))
  | bare (ne : value ≠ []) (notBlank : ∀ c ∈ value, Text.isBlank c = false)
      (start : ∀ c ∈ value.head?, Text.isQuoteMark c = false)
      (closed : openQuote none value = none) : ValueText value value

/-- An attribute as it is written, with blanks around its equals sign. -/
inductive AttributeText (name value : List Char) : List Char → Prop
  | intro {gap gap' text : List Char} (ne : name ≠ [])
      (plain : ∀ c ∈ name, Text.isBlank c = false ∧ Text.isQuoteMark c = false ∧ c ≠ '=')
      (blank : ∀ c ∈ gap, Text.isBlank c = true) (blank' : ∀ c ∈ gap', Text.isBlank c = true)
      (written : ValueText value text) :
      AttributeText name value (name ++ (gap ++ '=' :: (gap' ++ text)))

namespace ValueText

variable {value text : List Char} (h : ValueText value text)

include h

theorem ne_nil : text ≠ [] := by
  cases h with
  | quoted => exact List.cons_ne_nil _ _
  | bare ne => exact ne

theorem unbroken : Unbroken text := by
  cases h with
  | quoted isMark notInside => exact unbroken_quoted isMark notInside
  | bare _ notBlank _ closed => exact unbroken_of_not_blank notBlank closed

theorem trim_eq : Text.trim text = text := by
  cases h with
  | @quoted mark isMark =>
    have hblank : Text.isBlank mark = false := by
      refine Bool.eq_false_iff.2 fun hblank => ?_
      rw [isQuoteMark_of_isBlank hblank] at isMark
      cases isMark
    refine Text.trim_of_ends ?_ ?_
    · rintro _ ⟨⟩
      exact hblank
    · rw [← List.cons_append, List.getLast?_concat]
      rintro _ ⟨⟩
      exact hblank
  | bare _ notBlank =>
    exact Text.trim_of_ends (fun c hc => notBlank c (List.mem_of_mem_head? hc))
      fun c hc => notBlank c (List.mem_of_mem_getLast? hc)

theorem unquoted_eq : Text.unquoted text = value := by
  cases h with
  | quoted isMark => exact Text.unquoted_of_quoted isMark value
  | bare _ _ start =>
    have hquoted : Text.isQuoted value = false := by
      rcases value with _ | ⟨c, _ | ⟨d, cs⟩⟩
      · rfl
      · rfl
      · rw [Text.isQuoted, start c rfl, Bool.false_and]
    rw [Text.unquoted, if_neg (by simp [hquoted])]

end ValueText

theorem forall_head?_blanks {gap : List Char} (h : ∀ c ∈ gap, Text.isBlank c = true)
    (hne : gap ≠ []) (rest : List Char) : ∀ c ∈ (gap ++ rest).head?, Text.isBlank c = true := by
  obtain ⟨d, ds, rfl⟩ := List.exists_cons_of_ne_nil hne
  rintro c ⟨⟩
  exact h d List.mem_cons_self

namespace AttributeText

variable {name value whole : List Char} (h : AttributeText name value whole)

include h

/-- **A written attribute is joined to one part**, which ends as it does. -/
theorem joined : ∃ text, ValueText value text ∧
    whole.getLast? = (name ++ '=' :: text).getLast? ∧
    ∃ first more, first.head? ≠ some '=' ∧
      (∀ qs, joinEquals first (more ++ qs) = joinEquals (name ++ '=' :: text) qs) ∧
      ∀ {behind}, (∀ c ∈ behind.head?, Text.isBlank c = true) →
        piecesFrom none [] (whole ++ behind) = first :: (more ++ piecesFrom none [] behind) := by
  obtain @⟨gap, gap', text, ne, plain, blank, blank', written⟩ := h
  have hname : Unbroken name :=
    piecesFrom_plain fun c hc => ⟨(plain c hc).2.1, (plain c hc).1⟩
  have hsign : Unbroken ['='] := 
    unbroken_of_not_blank (List.forall_mem_singleton.2 (by decide)) rfl
  have hvalue : Unbroken ('=' :: text) := hsign.append written.unbroken
  have hhead : ∀ rest, (name ++ rest).head? ≠ some '=' := by
    intro rest
    obtain ⟨c, cs, rfl⟩ := List.exists_cons_of_ne_nil ne
    simpa using (plain c List.mem_cons_self).2.2
  have hjoin : ∀ qs, joinEquals (name ++ ['=']) (text :: qs) =
      joinEquals (name ++ '=' :: text) qs := by
    intro qs
    rw [joinEquals, if_pos (by simp), List.append_assoc, List.singleton_append]
  have hlast : (name ++ (gap ++ '=' :: (gap' ++ text))).getLast? =
      (name ++ '=' :: text).getLast? := by
    simp [List.getLast?_append, List.getLast?_cons,
      List.getLast?_eq_some_getLast written.ne_nil]
  refine ⟨text, written, hlast, ?_⟩
  -- Blanks in front of the equals sign and behind it part the attribute into pieces.
  by_cases hgap : gap = [] <;> by_cases hgap' : gap' = []
  · subst hgap hgap'
    refine ⟨name ++ '=' :: text, [], hhead _, fun qs => rfl, fun {behind} hbehind => ?_⟩
    exact (hname.append hvalue).pieces (by simp) hbehind
  · subst hgap
    refine ⟨name ++ ['='], [text], hhead _, hjoin, fun {behind} hbehind => ?_⟩
    have hsplit : name ++ ([] ++ '=' :: (gap' ++ text)) ++ behind =
        (name ++ ['=']) ++ (gap' ++ (text ++ behind)) := by simp
    rw [hsplit, (hname.append hsign).pieces (by simp) (forall_head?_blanks blank' hgap' _),
      piecesFrom_blanks blank', written.unbroken.pieces written.ne_nil hbehind]
    rfl
  · subst hgap'
    refine ⟨name, ['=' :: text], List.append_nil name ▸ hhead [], fun qs => ?_,
      fun {behind} hbehind => ?_⟩
    · rw [List.singleton_append, joinEquals, if_pos (by simp)]
    · have hsplit : name ++ (gap ++ '=' :: ([] ++ text)) ++ behind =
          name ++ (gap ++ (('=' :: text) ++ behind)) := by simp
      rw [hsplit, hname.pieces ne (forall_head?_blanks blank hgap _), piecesFrom_blanks blank,
        hvalue.pieces (by simp) hbehind]
      rfl
  · refine ⟨name, [['='], text], List.append_nil name ▸ hhead [], fun qs => ?_,
      fun {behind} hbehind => ?_⟩
    · rw [List.cons_append, joinEquals, if_pos (by simp)]
      exact hjoin qs
    · have hsplit : name ++ (gap ++ '=' :: (gap' ++ text)) ++ behind =
          name ++ (gap ++ (['='] ++ (gap' ++ (text ++ behind)))) := by simp
      rw [hsplit, hname.pieces ne (forall_head?_blanks blank hgap _), piecesFrom_blanks blank,
        hsign.pieces (by simp) (forall_head?_blanks blank' hgap' _), piecesFrom_blanks blank',
        written.unbroken.pieces written.ne_nil hbehind]
      rfl

/-- A written attribute has its name and its value. -/
theorem attributeOf?_eq {text : List Char} (ht : ValueText value text) :
    attributeOf? (name ++ '=' :: text) = some (name, value) := by
  obtain ⟨-, plain, -, -, -⟩ := h
  have hpass : ∀ c ∈ name, (c != '=') = true := fun c hc => by simpa using (plain c hc).2.2
  have htrim : Text.trim name = name :=
    Text.trim_of_ends (fun c hc => (plain c (List.mem_of_mem_head? hc)).1)
      fun c hc => (plain c (List.mem_of_mem_getLast? hc)).1
  rw [attributeOf?, if_pos (by simp), List.takeWhile_append_of_pos hpass,
    List.dropWhile_append_of_pos hpass]
  simp [htrim, ht.trim_eq, ht.unquoted_eq]

end AttributeText

/-! ## Attributes in their place -/

/-- A place for an attribute in the inside of a tag: behind the name of the tag, between blanks
outside quotes, and touched by no equals sign but its own. -/
structure StandsClear (before gap whole behind : List Char) : Prop where
  /-- The name of the tag, and perhaps other attributes, stand in front of the place. -/
  named : ∃ c ∈ before.getLast?, Text.isBlank c = false
  closed : openQuote none before = none
  gap_ne : gap ≠ []
  gap_blank : ∀ c ∈ gap, Text.isBlank c = true
  behind_blank : ∀ c ∈ behind.head?, Text.isBlank c = true
  /-- What stands in front ends with an equals sign only if it is the name of the tag. -/
  before_equals : before.getLast? = some '=' → ∀ c ∈ before, Text.isBlank c = false
  whole_equals : whole.getLast? = some '=' → Text.trimLeft behind = []
  behind_equals : (Text.trimLeft behind).head? ≠ some '='

namespace StandsClear

variable {before gap whole behind : List Char} (hclear : StandsClear before gap whole behind)

include hclear

/-- The pieces in front of the place: the name of the tag, and others that do not end with an
equals sign. -/
theorem pieces_before : ∃ tag others, piecesFrom none [] before = tag :: others ∧
    others.flatten.getLast? ≠ some '=' := by
  obtain ⟨c, hlast, hblank⟩ := hclear.named
  obtain ⟨cs, rfl⟩ := List.getLast?_eq_some_iff.1 hlast
  have hpieces := getLast?_piecesFrom hblank none [] cs
  cases hlist : piecesFrom none [] (cs ++ [c]) with
  | nil => simp [hlist] at hpieces
  | cons tag others =>
    refine ⟨tag, others, rfl, fun hequals => ?_⟩
    rw [hlist, List.flatten_cons, List.getLast?_append, hequals] at hpieces
    obtain rfl : '=' = c := Option.some.inj hpieces
    -- Then there are no blanks, and the name of the tag is the only piece.
    have hone := piecesFrom_of_not_blank (hclear.before_equals hlast) none [] []
    rw [List.append_nil, hclear.closed, hlist, piecesFrom, if_neg (by simp)] at hone
    obtain ⟨-, rfl⟩ := List.cons.inj hone
    simp at hequals

/-- **An attribute that stands clear is a part of its tag.** -/
theorem mem_parts {name value : List Char} (h : AttributeText name value whole) :
    ∃ text tag others, ValueText value text ∧
      parts (before ++ (gap ++ (whole ++ behind))) = tag :: others ∧
      name ++ '=' :: text ∈ others := by
  obtain ⟨text, written, hlast, first, more, hfirst, hjoin, hpieces⟩ := h.joined
  obtain ⟨tag, others, hbefore, hothers⟩ := hclear.pieces_before
  have hsplit : piecesFrom none [] (before ++ (gap ++ (whole ++ behind))) =
      tag :: (others ++ first :: (more ++ piecesFrom none [] behind)) := by
    obtain ⟨b, gap', hgap⟩ := List.exists_cons_of_ne_nil hclear.gap_ne
    have hb : ∃ b ∈ (gap ++ (whole ++ behind)).head?, Text.isBlank b = true :=
      ⟨b, by rw [hgap]; rfl, hclear.gap_blank b (hgap ▸ List.mem_cons_self)⟩
    rw [piecesFrom_append hclear.closed [] hb, piecesFrom_blanks hclear.gap_blank,
      hpieces hclear.behind_blank, hbefore]
    rfl
  have hmem : name ++ '=' :: text ∈ joinEquals first (more ++ piecesFrom none [] behind) := by
    rw [hjoin]
    refine mem_joinEquals ?_ fun hequals => ?_
    · rw [head?_pieces]
      exact hclear.behind_equals
    · have hblank := List.dropWhile_eq_nil_iff.1 (hclear.whole_equals (hlast.trans hequals))
      have hnone := piecesFrom_blanks hblank []
      rwa [List.append_nil] at hnone
  cases others with
  | nil => exact ⟨text, tag, _, written, by rw [parts, hsplit]; rfl, hmem⟩
  | cons piece others =>
    refine ⟨text, tag, joinEquals piece (others ++ first :: (more ++ piecesFrom none [] behind)),
      written, by rw [parts, hsplit]; rfl, ?_⟩
    rw [joinEquals_append hothers hfirst]
    exact List.mem_append_right _ hmem

end StandsClear

/-! ## Ids -/

/-- The ids that an opening tag gives. -/
def TagText.ids (tag : TagText) : List String :=
  (tag.attributes.filter fun a => lowered (String.ofList a.1) == "id").map
    fun a => String.ofList a.2

/-- A tag with an id: an attribute with the name `id`, in capital or small letters, that stands
clear in the inside of the tag. -/
def CarriesId (tag : List Char) (id : String) : Prop :=
  ∃ name before gap whole behind, inside tag = before ++ (gap ++ (whole ++ behind)) ∧
    lowered (String.ofList name) = "id" ∧ AttributeText name id.toList whole ∧
    StandsClear before gap whole behind

/-- **A tag with an id gives it.** -/
theorem CarriesId.mem_ids {tag : List Char} {id : String} (h : CarriesId tag id) :
    ∃ found, TagText.read? tag = some found ∧ id ∈ found.ids := by
  obtain ⟨name, before, gap, whole, behind, hinside, hname, hattribute, hclear⟩ := h
  obtain ⟨text, tagName, others, hvalue, hparts, hmem⟩ := hclear.mem_parts hattribute
  refine ⟨_, by rw [TagText.read?, hinside, hparts], List.mem_map.2 ⟨(name, id.toList), ?_, ?_⟩⟩
  · refine List.mem_filter.2 ⟨?_, by simpa using hname⟩
    exact List.mem_filterMap.2 ⟨_, hmem, hattribute.attributeOf?_eq hvalue⟩
  · exact String.ofList_toList

end Markup

end PageLint
