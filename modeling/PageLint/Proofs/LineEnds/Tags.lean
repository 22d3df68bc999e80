import Mathlib.Data.List.Forall2
import PageLint.Markup.Span
import PageLint.Markup.TagText
import PageLint.Proofs.LineEnds.Respelling
import PageLint.Token.Markup

/-!
# Tags with other line ends

The text of a tag with its newlines spelled in another way says the same: it ends at the same place,
has the same spans and parts, and its name and attributes are those of the tag, respelled.

* `CountsMarks` — lengths that are measured with an eye on quote marks
* `Markup.read?_respell`, `Markup.tagName_respell` — what a respelled tag says
* `Markup.spans_respell` — the spans of a respelled token
-/

namespace PageLint

open Text (respell LineEnd Plain)

/-! ## Lengths -/

section Lengths

variable {w cs : List Char} {n m : Nat}

/-- What a length takes off a respelled text, when it is measured alike. -/
theorem take_respell (h : m = (respell w (cs.take n)).length) :
    (respell w cs).take m = respell w (cs.take n) := by
  have hsplit := congrArg (respell w) (List.take_append_drop n cs)
  rw [Text.respell_append] at hsplit
  rw [← hsplit, h, List.take_left]

theorem drop_respell (h : m = (respell w (cs.take n)).length) :
    (respell w cs).drop m = respell w (cs.drop n) := by
  have hsplit := congrArg (respell w) (List.take_append_drop n cs)
  rw [Text.respell_append] at hsplit
  rw [← hsplit, h, List.drop_left]

end Lengths

/-- A count of characters that goes on through quoted text, and outside quotes up to some character
that ends it. Line ends are counted like other characters. -/
structure CountsMarks (count : Option Char → List Char → Nat) : Prop where
  nil : ∀ quote, count quote [] = 0
  quoted : ∀ mark c cs,
    count (some mark) (c :: cs) = count (if c == mark then none else some mark) cs + 1
  unquoted : ∀ c,
    (∀ cs, count none (c :: cs) = count (if Text.isQuoteMark c then some c else none) cs + 1) ∨
      Plain c ∧ ∃ n ≤ 1, ∀ cs, count none (c :: cs) = n

theorem tagLength_countsMarks : CountsMarks tagLength where
  nil quote := by cases quote <;> rfl
  quoted mark c cs := rfl
  unquoted c := by
    by_cases hq : Text.isQuoteMark c = true
    · exact Or.inl fun cs => by simp [tagLength, hq]
    · by_cases hc : c = '>'
      · refine Or.inr ⟨?_, 1, Nat.le_refl 1, fun cs => ?_⟩
        · rw [hc]
          decide
        · rw [tagLength, if_neg hq, if_pos (by simpa using hc)]
      · exact Or.inl fun cs => by simp [tagLength, hq, hc]

theorem spanTailLength_countsMarks : CountsMarks Markup.spanTailLength where
  nil quote := by cases quote <;> rfl
  quoted mark c cs := rfl
  unquoted c := by
    by_cases hq : Text.isQuoteMark c = true
    · exact Or.inl fun cs => by simp [Markup.spanTailLength, hq]
    · by_cases hr : c = '>'
      · refine Or.inr ⟨?_, 1, Nat.le_refl 1, fun cs => ?_⟩
        · rw [hr]
          decide
        · rw [Markup.spanTailLength, if_neg hq, if_pos (by simpa using hr)]
      · by_cases hl : c = '<'
        · refine Or.inr ⟨?_, 0, Nat.zero_le 1, fun cs => ?_⟩
          · rw [hl]
            decide
          · rw [Markup.spanTailLength, if_neg hq, if_neg (by simpa using hr),
              if_pos (by simpa using hl)]
        · exact Or.inl fun cs => by simp [Markup.spanTailLength, hq, hr, hl]

section Counts

variable {count : Option Char → List Char → Nat} (hcount : CountsMarks count) {w : List Char}
  (hw : LineEnd w)

include hcount

/-- Line ends are counted one by one. -/
theorem CountsMarks.lineEnds {front : List Char} (hfront : ∀ c ∈ front, ¬Plain c)
    (quote : Option Char) (hquote : ∀ mark ∈ quote, Plain mark) (cs : List Char) :
    count quote (front ++ cs) = front.length + count quote cs := by
  induction front with
  | nil => simp
  | cons c front ih =>
    have hc : ¬Plain c := hfront c List.mem_cons_self
    have hstep : ∀ cs, count quote (c :: cs) = count quote cs + 1 := by
      intro cs
      cases quote with
      | some mark =>
        have hne : (c == mark) = false := beq_eq_false_iff_ne.2 fun h => hc (h ▸ hquote mark rfl)
        rw [hcount.quoted, hne]
        rfl
      | none =>
        have hmark : Text.isQuoteMark c = false := by
          rw [← Bool.not_eq_true]
          exact fun h => hc (Text.plain_of_isQuoteMark h)
        rcases hcount.unquoted c with h | ⟨h, -⟩
        · rw [h, hmark]
          rfl
        · exact absurd h hc
    rw [List.cons_append, hstep, ih fun d hd => hfront d (List.mem_cons_of_mem c hd),
      List.length_cons]
    omega

include hw

/-- Respelled text is counted alike. -/
theorem CountsMarks.respell (quote : Option Char) (hquote : ∀ mark ∈ quote, Plain mark)
    (cs : List Char) :
    count quote (respell w cs) = (Text.respell w (cs.take (count quote cs))).length := by
  induction cs generalizing quote with
  | nil => simp [hcount.nil]
  | cons c cs ih =>
    -- A character that does not end the count leaves it in some state.
    have hgo : ∀ next, (∀ mark ∈ next, Plain mark) → (c = '\n' → next = quote) →
        (∀ cs, count quote (c :: cs) = count next cs + 1) →
        count quote (Text.respell w (c :: cs)) =
          (Text.respell w ((c :: cs).take (count quote (c :: cs)))).length := by
      intro next hnext hsame hstep
      rw [hstep, List.take_succ_cons]
      by_cases hc : c = '\n'
      · rw [hc, Text.respell_newline, Text.respell_newline, List.length_append,
          hcount.lineEnds (fun d hd => hw.not_plain hd) quote hquote, ← hsame hc, ih next hnext]
      · rw [Text.respell_cons hc, Text.respell_cons hc, hstep, List.length_cons, ih next hnext]
    cases quote with
    | some mark =>
      have hmark : Plain mark := hquote mark rfl
      refine hgo (if c == mark then none else some mark) ?_ ?_ (hcount.quoted mark c)
      · intro m hm
        split at hm
        · cases hm
        · rwa [← Option.some.inj hm]
      · rintro rfl
        rw [if_neg (by simpa using hmark.ne_newline.symm)]
    | none =>
      rcases hcount.unquoted c with hstep | ⟨hplain, n, hn, hstop⟩
      · refine hgo (if Text.isQuoteMark c then some c else none) ?_ ?_ hstep
        · intro m hm
          split at hm
          · rename_i hc
            rw [← Option.some.inj hm]
            exact Text.plain_of_isQuoteMark hc
          · cases hm
        · rintro rfl
          rfl
      · rw [Text.respell_cons hplain.ne_newline, hstop, hstop]
        have : n = 0 ∨ n = 1 := by omega
        rcases this with rfl | rfl
        · rfl
        · simp [Text.respell_cons hplain.ne_newline]

end Counts

/-! ## Parts -/

namespace Markup

section Respell

variable {w : List Char} (hw : LineEnd w)

/-- Line ends inside quotes belong to the piece. -/
theorem piecesFrom_quoted {mark : Char} {front : List Char} (h : mark ∉ front)
    (piece cs : List Char) :
    piecesFrom (some mark) piece (front ++ cs) =
      piecesFrom (some mark) (front.reverse ++ piece) cs := by
  induction front generalizing piece with
  | nil => rfl
  | cons c front ih =>
    rw [List.mem_cons, not_or] at h
    rw [List.cons_append, piecesFrom, if_neg (by simpa using Ne.symm h.1), ih h.2,
      List.reverse_cons, List.append_assoc, List.singleton_append]

include hw

/-- Line ends outside quotes end a piece. -/
theorem piecesFrom_lineEnd (piece cs : List Char) :
    piecesFrom none piece (w ++ cs) = piecesFrom none piece ('\n' :: cs) := by
  have hblank : ∀ c ∈ w, Text.isQuoteMark c = false ∧ Text.isBlank c = true := by
    intro c hc
    rcases hw.mem c hc with rfl | rfl <;> decide
  have hskip : ∀ front : List Char,
      (∀ c ∈ front, Text.isQuoteMark c = false ∧ Text.isBlank c = true) →
      piecesFrom none [] (front ++ cs) = piecesFrom none [] cs := by
    intro front hfront
    induction front with
    | nil => rfl
    | cons c front ih =>
      obtain ⟨hq, hb⟩ := hfront c List.mem_cons_self
      rw [List.cons_append, piecesFrom, hq, hb]
      exact ih fun d hd => hfront d (List.mem_cons_of_mem c hd)
  obtain ⟨c, front, rfl, -⟩ := hw.exists_cons
  obtain ⟨hq, hb⟩ := hblank c List.mem_cons_self
  have hline : Text.isQuoteMark '\n' = false ∧ Text.isBlank '\n' = true := by decide
  rw [List.cons_append, piecesFrom, piecesFrom, hq, hb, hline.1, hline.2,
    hskip front fun d hd => hblank d (List.mem_cons_of_mem c hd)]
  rfl

theorem piecesFrom_respell (quote : Option Char) (hquote : ∀ mark ∈ quote, Plain mark)
    (piece cs : List Char) :
    piecesFrom quote (respell w.reverse piece) (respell w cs) =
      (piecesFrom quote piece cs).map (respell w) := by
  have hfinish : ∀ piece, (respell w.reverse piece).reverse = respell w piece.reverse := by
    intro piece
    rw [Text.reverse_respell, List.reverse_reverse]
  have hpush : ∀ {c : Char}, c ≠ '\n' → ∀ piece : List Char,
      c :: respell w.reverse piece = respell w.reverse (c :: piece) :=
    fun hc piece => (Text.respell_cons hc piece).symm
  -- Inside quotes a line end belongs to the piece, outside of them it ends one.
  induction cs generalizing quote piece with
  | nil =>
    cases quote <;>
    · rw [Text.respell_nil, piecesFrom, piecesFrom, Text.isEmpty_respell hw.reverse]
      split
      · rfl
      · rw [hfinish]
        rfl
  | cons c cs ih =>
    cases quote with
    | some mark =>
      have hmark : Plain mark := hquote mark rfl
      by_cases hc : c = '\n'
      · have hnot : mark ∉ w := fun hmem => hw.not_plain hmem hmark
        have hback : w.reverse ++ respell w.reverse piece = respell w.reverse ('\n' :: piece) := by
          rw [Text.respell_newline]
        rw [hc, Text.respell_newline, piecesFrom_quoted hnot, hback, piecesFrom,
          if_neg (by simpa using hmark.ne_newline.symm)]
        exact ih _ hquote ('\n' :: piece)
      · rw [Text.respell_cons hc, piecesFrom, piecesFrom, hpush hc]
        refine ih _ ?_ (c :: piece)
        intro m hm
        split at hm
        · cases hm
        · rwa [← Option.some.inj hm]
    | none =>
      by_cases hc : c = '\n'
      · have hline : Text.isQuoteMark '\n' = false ∧ Text.isBlank '\n' = true := by decide
        have hrest : piecesFrom none [] (respell w cs) = (piecesFrom none [] cs).map (respell w) :=
          ih none (by simp) []
        rw [hc, Text.respell_newline, piecesFrom_lineEnd hw, piecesFrom, piecesFrom, hline.1,
          hline.2, Text.isEmpty_respell hw.reverse, hrest, hfinish]
        simp only [Bool.false_eq_true, if_false, if_true]
        split <;> rfl
      · rw [Text.respell_cons hc, piecesFrom, piecesFrom, hpush hc,
          Text.isEmpty_respell hw.reverse, hfinish]
        have hrest : piecesFrom none [] (respell w cs) = (piecesFrom none [] cs).map (respell w) :=
          ih none (by simp) []
        split
        · rename_i hq
          refine ih (some c) ?_ (c :: piece)
          intro m hm
          rw [← Option.some.inj hm]
          exact Text.plain_of_isQuoteMark hq
        split
        · rw [hrest]
          split <;> rfl
        · exact ih none (by simp) (c :: piece)

theorem joinEquals_respell (part : List Char) (pieces : List (List Char)) :
    joinEquals (respell w part) (pieces.map (respell w)) =
      (joinEquals part pieces).map (respell w) := by
  induction pieces generalizing part with
  | nil => rfl
  | cons piece pieces ih =>
    rw [List.map_cons, joinEquals, joinEquals, Text.head?_beq_respell hw (by decide),
      Text.getLast?_beq_respell hw (by decide)]
    split
    · rw [← Text.respell_append, ih]
    · rw [ih, List.map_cons]

theorem parts_respell (cs : List Char) : parts (respell w cs) = (parts cs).map (respell w) := by
  have hpieces := piecesFrom_respell hw none (by simp) [] cs
  rw [Text.respell_nil] at hpieces
  rw [parts, hpieces, parts]
  match piecesFrom none [] cs with
  | [] => rfl
  | [name] => rfl
  | name :: piece :: pieces =>
    simp only [List.map_cons]
    rw [joinEquals_respell hw]

/-! ## Tag texts -/

theorem withoutAngles_respell (cs : List Char) :
    withoutAngles (respell w cs) = respell w (withoutAngles cs) := by
  rw [withoutAngles, Text.dropFirst_respell hw (by decide), Text.dropFinal_respell hw (by decide),
    withoutAngles]

theorem tagName_respell (cs : List Char) : tagName (respell w cs) = respell w (tagName cs) := by
  have hslash : Plain '/' := by decide
  rw [tagName, tagName]
  simp only [Text.trim_respell hw, withoutAngles_respell hw,
    Text.dropFirst_respell hw hslash,
    Text.takeWhile_respell hw (p := fun c => !Text.isBlank c) (by decide),
    Text.dropFinal_respell hw hslash, Text.lower_respell hw]

theorem isClosing_respell (cs : List Char) : isClosing (respell w cs) = isClosing cs := by
  rw [isClosing, Text.trimLeft_respell hw, Text.isPrefixOf_respell hw (by decide), isClosing]

theorem isSelfClosing_respell (cs : List Char) :
    isSelfClosing (respell w cs) = isSelfClosing cs := by
  rw [isSelfClosing, isSelfClosing]
  simp only [Text.trimRight_respell hw, Text.reverse_respell]
  rw [Text.isPrefixOf_respell hw.reverse (by decide),
    Text.isPrefixOf_respell hw.reverse (by decide)]

theorem inside_respell (cs : List Char) : inside (respell w cs) = respell w (inside cs) := by
  have hslash : Plain '/' := by decide
  rw [inside, inside]
  simp only [Text.trim_respell hw, withoutAngles_respell hw,
    Text.dropFirst_respell hw hslash, Text.trimLeft_respell hw,
    Text.getLast?_beq_respell hw hslash]
  split
  · rename_i h
    obtain ⟨front, hfront⟩ := List.getLast?_eq_some_iff.1 (beq_iff_eq.1 h)
    rw [hfront, Text.respell_append, Text.respell_singleton (by decide), List.dropLast_concat,
      List.dropLast_concat, Text.trimRight_respell hw]
  · rfl

theorem attributeOf?_respell (part : List Char) : attributeOf? (respell w part) =
    (attributeOf? part).map fun a => (respell w a.1, respell w a.2) := by
  have hslash : (respell w part == ['/']) = (part == ['/']) := by
    rw [Bool.eq_iff_iff, beq_iff_eq, beq_iff_eq, Text.respell_eq_iff hw (by decide)]
  have htail : (respell w (part.dropWhile (· != '='))).tail =
      respell w (part.dropWhile (· != '=')).tail := by
    cases h : part.dropWhile (· != '=') with
    | nil => rfl
    | cons c cs =>
      have hc : c = '=' := by
        have := List.head?_dropWhile_not (· != '=') part
        rw [h] at this
        simpa using this
      rw [hc, Text.respell_cons (by decide)]
      rfl
  rw [attributeOf?, attributeOf?, Text.contains_respell hw (by decide), hslash]
  split
  · simp only [Text.takeWhile_respell hw (p := (· != '=')) (by decide),
      Text.dropWhile_respell hw (p := (· != '=')) (by decide), htail, Text.trim_respell hw,
      Text.unquoted_respell hw, Option.map_some]
  split
  · rfl
  · rfl

/-- **A respelled tag says the same**, respelled. -/
theorem read?_respell (cs : List Char) : TagText.read? (respell w cs) =
    (TagText.read? cs).map fun tag =>
      { name := respell w tag.name
        attributes := tag.attributes.map fun a => (respell w a.1, respell w a.2)
        selfClosing := tag.selfClosing } := by
  rw [TagText.read?, inside_respell hw, parts_respell hw, TagText.read?]
  cases parts (inside cs) with
  | nil => rfl
  | cons name rest =>
    simp only [List.map_cons, Option.map_some, Text.lower_respell hw, isSelfClosing_respell hw,
      List.filterMap_map, List.map_filterMap]
    congr 3
    funext part
    exact attributeOf?_respell hw part

/-! ## Spans -/

omit hw in
theorem spanTailLength_le (cs : List Char) : spanTailLength none cs ≤ cs.length := by
  have h := spanTailLength_countsMarks.respell Text.lineEnd_newline none (by simp) cs
  rw [Text.respell_self, Text.respell_self] at h
  rw [h]
  exact List.length_take_le' _ _

/-- A first character and the tail of its span, respelled. -/
theorem exists_span_respell (c : Char) (cs : List Char) : ∃ d ds,
    respell w (c :: cs) = d :: ds ∧
    d :: ds.take (spanTailLength none ds) = respell w (c :: cs.take (spanTailLength none cs)) ∧
    ds.drop (spanTailLength none ds) = respell w (cs.drop (spanTailLength none cs)) := by
  have hlength := spanTailLength_countsMarks.respell hw none (by simp) cs
  by_cases hc : c = '\n'
  · obtain ⟨d, front, rfl, -⟩ := hw.exists_cons
    have hfront := spanTailLength_countsMarks.lineEnds
      (fun e he => hw.not_plain (List.mem_cons_of_mem d he)) none (by simp)
      (respell (d :: front) cs)
    refine ⟨d, front ++ respell (d :: front) cs, ?_, ?_, ?_⟩
    · rw [hc, Text.respell_newline, List.cons_append]
    · rw [hfront, List.take_length_add_append, take_respell hlength, hc, Text.respell_newline,
        List.cons_append]
    · rw [hfront, List.drop_length_add_append, drop_respell hlength]
  · refine ⟨c, respell w cs, Text.respell_cons hc cs, ?_, drop_respell hlength⟩
    rw [take_respell hlength, Text.respell_cons hc]

/-- A span of a token and the one at the same place of the respelled token. -/
structure Span.Respelled (w whole : List Char) (s s' : Span) : Prop where
  text : s'.text = respell w s.text
  front : (respell w whole).take s'.offset = respell w (whole.take s.offset)
  inside : s.offset < whole.length

theorem spansFrom_respell (front text : List Char) :
    List.Forall₂ (Span.Respelled w (front ++ text)) (spansFrom front.length text)
      (spansFrom (respell w front).length (respell w text)) := by
  induction h : text.length using Nat.strongRecOn generalizing front text with
  | ind size ih =>
    cases text with
    | nil =>
      rw [Text.respell_nil, spansFrom, spansFrom]
      exact List.Forall₂.nil
    | cons c cs =>
      obtain ⟨d, ds, hds, hspan, hdrop⟩ := exists_span_respell hw c cs
      let taken := c :: cs.take (spanTailLength none cs)
      have htaken : taken ++ cs.drop (spanTailLength none cs) = c :: cs := by
        rw [List.cons_append, List.take_append_drop]
      have hlength : taken.length = 1 + spanTailLength none cs := by
        have := spanTailLength_le cs
        simp only [taken, List.length_cons, List.length_take]
        omega
      have hlength' : (respell w taken).length = 1 + spanTailLength none ds := by
        have := spanTailLength_le ds
        rw [← hspan, List.length_cons, List.length_take]
        omega
      have hshorter : (cs.drop (spanTailLength none cs)).length < size := by
        rw [← h, ← htaken, List.length_append, hlength]
        omega
      have htail := ih _ hshorter (front ++ taken) (cs.drop (spanTailLength none cs)) rfl
      rw [List.append_assoc, htaken, Text.respell_append, List.length_append, List.length_append,
        hlength, hlength', ← Nat.add_assoc, ← Nat.add_assoc] at htail
      have hblank : (d :: ds.take (spanTailLength none ds)).all Text.isBlank =
          taken.all Text.isBlank := by
        rw [hspan, Text.all_respell hw (by decide)]
      rw [hds, spansFrom, spansFrom]
      simp only [hdrop, hblank]
      split
      · exact htail
      · refine List.Forall₂.cons ⟨hspan, ?_, ?_⟩ htail
        · rw [List.take_left, Text.respell_append, List.take_left]
        · simp

/-- **The spans of a respelled token** are those of the token, respelled. -/
theorem spans_respell (text : List Char) :
    List.Forall₂ (Span.Respelled w text) (spans text) (spans (respell w text)) :=
  spansFrom_respell hw [] text

end Respell

end Markup

end PageLint
