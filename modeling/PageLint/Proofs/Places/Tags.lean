import PageLint.Proofs.Markup.Openings
import PageLint.Proofs.Places.Nodes

/-!
# What the location of a tag covers

A tag starts where its span does. The location of a token covers all its text, and a location that
is moved over a text covers nothing behind it. So the first tag of a token covers the whole token,
and every other tag of it covers nothing. A location covers the text of its own tag exactly when
the tag is the only one in its token.

* `Location.slice` — the part of a source that a location covers
* `Markup.spansFrom_text` — a span is what the text holds at its offset
* `Markup.spans_eq_singleton_iff` — a tag text is one span when its first span is all of it
* `tags_start_in_place` — where the tags of a page start and what they cover
-/

namespace PageLint

/-- The part of a source that a location covers. -/
def Location.slice (l : Location) (source : List Char) : List Char :=
  (source.drop l.offset.toNat).take (l.endOffset - l.offset).toNat

/-- A location that has been moved over a text covers nothing. -/
theorem Location.slice_shifted (l : Location) (cs source : List Char) :
    (l.shifted cs).slice source = [] := by
  have hend : ((l.shifted cs).endOffset - (l.shifted cs).offset).toNat = 0 := by
    simp [Location.shifted]
  rw [Location.slice, hend, List.take_zero]

/-! ## The spans of a tag text -/

namespace Markup

/-- What stands behind a span at an offset stands there in the whole text. -/
theorem drop_drop_tail {offset n place : Nat} (h : offset + 1 + n ≤ place) (c : Char)
    (cs : List Char) :
    (cs.drop n).drop (place - (offset + 1 + n)) = (c :: cs).drop (place - offset) := by
  have hplace : place - offset = n + (place - (offset + 1 + n)) + 1 := by omega
  rw [hplace, List.drop_succ_cons, List.drop_drop]

/-- **A span is what the text holds at its offset**, and it is not empty. -/
theorem spansFrom_text (offset : Nat) (text : List Char) :
    ∀ s ∈ spansFrom offset text,
      offset ≤ s.offset ∧ s.text <+: text.drop (s.offset - offset) ∧ s.text ≠ [] := by
  fun_induction spansFrom offset text with
  | case1 => simp
  | case2 offset c cs n span tail hblank ih =>
    intro s hs
    obtain ⟨hle, hprefix, hne⟩ := ih s hs
    rw [drop_drop_tail hle c] at hprefix
    exact ⟨by omega, hprefix, hne⟩
  | case3 offset c cs n span tail hblank ih =>
    intro s hs
    rcases List.mem_cons.1 hs with rfl | hs
    · refine ⟨Nat.le_refl _, ?_, List.cons_ne_nil _ _⟩
      rw [Nat.sub_self, List.drop_zero]
      exact (List.prefix_cons_inj c).2 (List.take_prefix n cs)
    · obtain ⟨hle, hprefix, hne⟩ := ih s hs
      rw [drop_drop_tail hle c] at hprefix
      exact ⟨by omega, hprefix, hne⟩

/-- The first span of a tag text is the front of it, and what follows is nothing or a tag text. -/
theorem IsTagText.spansFrom_eq {text : List Char} (h : IsTagText text) (offset : Nat) :
    ∃ front rest, text = front ++ rest ∧ (rest = [] ∨ IsTagText rest) ∧
      spansFrom offset text =
        { offset, text := front } :: spansFrom (offset + front.length) rest := by
  obtain ⟨hhead, hwhole⟩ := h
  obtain ⟨c, cs, rfl⟩ : ∃ c cs, text = c :: cs := by
    cases text with
    | nil => cases hhead
    | cons c cs => exact ⟨c, cs, rfl⟩
  obtain rfl : c = '<' := by simpa using hhead
  have hcs : tagLength none cs = cs.length := by
    rw [tagLength, if_neg (by decide), if_neg (by decide), List.length_cons] at hwhole
    exact Nat.succ.inj hwhole
  have hlength : ('<' :: cs.take (spanTailLength none cs)).length = 1 + spanTailLength none cs ∨
      cs.drop (spanTailLength none cs) = [] := by
    by_cases hle : spanTailLength none cs ≤ cs.length
    · rw [List.length_cons, List.length_take_of_le hle, Nat.add_comm]
      exact Or.inl rfl
    · exact Or.inr (List.drop_eq_nil_of_le (Nat.le_of_not_le hle))
  refine ⟨'<' :: cs.take (spanTailLength none cs), cs.drop (spanTailLength none cs),
    by rw [List.cons_append, List.take_append_drop], isTagText_drop hcs, ?_⟩
  rw [spansFrom]
  have hblank : (('<' :: cs.take (spanTailLength none cs)).all Text.isBlank) = false := by
    rw [List.all_cons, show Text.isBlank '<' = false by decide, Bool.false_and]
  simp only [hblank, Bool.false_eq_true, if_false]
  rcases hlength with hlength | hnil
  · rw [hlength, Nat.add_assoc]
  · rw [hnil, spansFrom, spansFrom]

/-- A tag text has a span at its start, and none but that when the span is all of the text. -/
theorem IsTagText.spansFrom_eq_singleton_iff {text : List Char} (h : IsTagText text)
    {offset : Nat} {span : Span} (hspan : span ∈ spansFrom offset text) :
    spansFrom offset text = [span] ↔ span.offset = offset ∧ span.text = text := by
  obtain ⟨front, rest, rfl, hrest, hspans⟩ := h.spansFrom_eq offset
  rw [hspans] at hspan ⊢
  constructor
  · intro hone
    obtain ⟨rfl, hnone⟩ := List.cons.inj hone
    refine ⟨rfl, ?_⟩
    rcases hrest with rfl | hrest
    · exact (List.append_nil _).symm
    · -- What follows would have a span as well.
      obtain ⟨_, _, -, -, hmore⟩ := hrest.spansFrom_eq (offset + front.length)
      rw [hmore] at hnone
      cases hnone
  · rintro ⟨hoffset, htext⟩
    -- Spans behind the first one have larger offsets.
    have hrising := (spansFrom_rising offset (front ++ rest)).2
    rw [hspans, List.pairwise_cons] at hrising
    rcases List.mem_cons.1 hspan with rfl | hmem
    · have hnil : rest = [] := by simpa using htext
      rw [hnil, spansFrom]
    · exact absurd hoffset (Nat.ne_of_gt (hrising.1 span hmem))

end Markup

/-! ## The tags of a page -/

/-- A tag at its opening tag: it starts where the span does. The first tag of a token covers all of
the token and every other one nothing, so that it covers the text of its span exactly when the token
has no other span. -/
structure Node.StartsAt (source : List Char) (n : Node) (o : OpeningText) : Prop where
  isTag : n.IsTagOf o
  offset : n.site.location.offset = o.token.offset + o.span.offset
  start : o.span.text <+: source.drop n.site.location.offset.toNat
  slice : n.site.location.slice source = if o.span.offset = 0 then o.token.text.toList else []
  slice_eq_iff : n.site.location.slice source = o.span.text ↔
    Markup.spans o.token.text.toList = [o.span]

/-- A tag of a page is at the opening tag that it is written as. -/
theorem Node.IsTagOf.startsAt {source : String} {file : Option String} {n : Node} {o : OpeningText}
    (h : n.IsTagOf o) (htoken : o.token ∈ tokenize source file) (hwritten : o.Written) :
    n.StartsAt source.toList o := by
  obtain ⟨before, after, hsource, hat⟩ := exists_around source file o.token htoken
  have htext := (scanFrom_startsTag file .markup .start source.toList o.token htoken).tagOpen
    hwritten.kind
  obtain ⟨-, hprefix, hne⟩ := Markup.spansFrom_text 0 _ o.span hwritten.span
  rw [Nat.sub_zero] at hprefix
  have hlt : o.span.offset < o.token.text.toList.length := by
    by_contra hle
    rw [List.drop_eq_nil_of_le (Nat.le_of_not_lt hle), List.prefix_nil] at hprefix
    exact hne hprefix
  have htokenOffset : o.token.offset = before.length := by
    rw [hat.offset, Cursor.advance_offset]
    simp [Cursor.start]
  have hoffset : n.site.location.offset = o.token.offset + o.span.offset := by
    rw [h.location_eq]
    exact spanLocation_offset hlt
  have hdrop : source.toList.drop before.length = o.token.text.toList ++ after := by
    rw [hsource, List.drop_left]
  have hslice : n.site.location.slice source.toList =
      if o.span.offset = 0 then o.token.text.toList else [] := by
    rw [h.location_eq, OpeningText.location, spanLocation]
    by_cases hzero : o.span.offset = 0
    · have hlength : (o.token.location.endOffset - o.token.location.offset).toNat =
          o.token.text.toList.length := by
        rw [String.length_toList]
        simp only [Token.location]
        omega
      have hstart : o.token.location.offset.toNat = before.length := by
        rw [show o.token.location.offset = o.token.offset from rfl, htokenOffset, Int.toNat_natCast]
      rw [if_pos (by simpa using hzero), if_pos hzero, Location.slice, hlength, hstart, hdrop,
        List.take_left]
    · rw [if_neg (by simpa using hzero), if_neg hzero, Location.slice_shifted]
  refine ⟨h, hoffset, ?_, hslice, ?_⟩
  · have htoNat : n.site.location.offset.toNat = before.length + o.span.offset := by
      rw [hoffset, htokenOffset]
      omega
    rw [htoNat, ← List.drop_drop, hdrop, List.drop_append_of_le_length (Nat.le_of_lt hlt)]
    exact hprefix.trans (List.prefix_append _ _)
  · rw [Markup.spans, htext.spansFrom_eq_singleton_iff hwritten.span, hslice]
    by_cases hzero : o.span.offset = 0
    · rw [if_pos hzero]
      exact ⟨fun heq => ⟨hzero, heq.symm⟩, fun heq => heq.2.symm⟩
    · rw [if_neg hzero]
      exact ⟨fun heq => absurd heq.symm hne, fun heq => absurd heq.1 hzero⟩

/-- **Every tag of a page starts at its own span, and covers it exactly when it is the only one in
its token**: the first tag of a token covers the whole token, and the others cover nothing. -/
theorem tags_start_in_place {config : Config} (hlimit : 1 ≤ config.maxExpressionTokens)
    (source : String) (file : Option String) : ∃ page, readPage? config source file = some page ∧
      List.Forall₂ (Node.StartsAt source.toList) page.document.tags (openingsOf source file) := by
  obtain ⟨page, hpage, htags, hwritten⟩ := exists_openings hlimit source file
  refine ⟨page, hpage, ?_⟩
  rw [List.forall₂_iff_get] at htags ⊢
  refine ⟨htags.1, fun i hi ho => ?_⟩
  obtain ⟨htoken, hwritten⟩ := hwritten _ (List.get_mem _ ⟨i, ho⟩)
  exact (htags.2 i hi ho).startsAt htoken hwritten

/-- Three tags in two tokens: one is alone in its token, and two share one. -/
def sharedToken : String := "<p>\n<a <b>"

theorem sharedToken_starts : 1 ≤ ({} : Config).maxExpressionTokens ∧
    ∃ page, readPage? {} sharedToken none = some page ∧
      (page.document.tags.map fun n => n.site.location.slice sharedToken.toList) =
        ["<p>".toList, "<a <b>".toList, []] ∧
      (openingsOf sharedToken none).map (fun o => o.span.text) =
        ["<p>".toList, "<a ".toList, "<b>".toList] := by
  have hopenings : (openingsOf sharedToken none).map (fun o => (o.span, o.token.text)) =
      [(⟨0, "<p>".toList⟩, "<p>"), (⟨0, "<a ".toList⟩, "<a <b>"),
        (⟨3, "<b>".toList⟩, "<a <b>")] := by
    decide +kernel
  obtain ⟨page, hpage, htags⟩ := @tags_start_in_place {} (by decide) sharedToken none
  refine ⟨by decide, page, hpage, ?_, ?_⟩
  · have hslices : (page.document.tags.map fun n => n.site.location.slice sharedToken.toList) =
        ((openingsOf sharedToken none).map fun o => (o.span, o.token.text)).map fun e =>
          if e.1.offset = 0 then e.2.toList else [] := by
      rw [List.map_map]
      rw [← List.forall₂_eq_eq_eq, List.forall₂_map_left_iff, List.forall₂_map_right_iff]
      exact htags.imp fun _ _ h => h.slice
    rw [hslices, hopenings]
    rfl
  · have hspans := congrArg (List.map fun e => e.1.text) hopenings
    rwa [List.map_map] at hspans

end PageLint
