import PageLint.Proofs.LineEnds.Tags
import PageLint.Proofs.ModeDiscipline

/-!
# Cutting texts with other line ends

The first token of a text with its newlines spelled in another way is the first token of the text,
respelled. Only a string and a comment up to the end of its line are cut in another way, where the
carriage returns in front of the newline belong to the token.

* `markupCut_respell` — outside scripts
* `scriptCut_respell` — inside scripts, strings and line comments apart
* `numberLength_respell`, `operatorLength_respell` — tokens that hold no newline
-/

namespace PageLint

open Text (respell LineEnd Plain)

/-- A cut of a text with its newlines spelled in another way. -/
def Cut.respelled (w : List Char) (c : Cut) : Cut :=
  { lead := Text.respell w c.lead
    kind := c.kind
    text := Text.respell w c.text
    trail := Text.respell w c.trail
    rest := Text.respell w c.rest }

theorem Cut.ofLength_respell {w cs : List Char} {n m : Nat} (kind : TokenKind)
    (h : m = (respell w (cs.take n)).length) :
    Cut.ofLength kind m (respell w cs) = (Cut.ofLength kind n cs).respelled w := by
  rw [Cut.ofLength, take_respell h, drop_respell h]
  rfl

theorem length_respell_take_of_not_mem {w cs : List Char} {n : Nat} (hn : n ≤ cs.length)
    (h : '\n' ∉ cs.take n) : n = (respell w (cs.take n)).length := by
  rw [Text.respell_of_not_mem h, List.length_take, Nat.min_eq_left hn]

/-- A cut that stays on one line is not changed by other line ends. -/
theorem Cut.ofLength_respell_of_not_mem {w cs : List Char} {n : Nat} (kind : TokenKind)
    (h : '\n' ∉ cs.take n) :
    Cut.ofLength kind n (respell w cs) = (Cut.ofLength kind n cs).respelled w := by
  by_cases hn : n ≤ cs.length
  · exact Cut.ofLength_respell kind (length_respell_take_of_not_mem hn h)
  · have hle : cs.length ≤ n := Nat.le_of_not_le hn
    rw [List.take_of_length_le hle] at h
    simp only [Cut.ofLength, Cut.respelled, Text.respell_of_not_mem h, List.take_of_length_le hle,
      List.drop_of_length_le hle, Text.respell_nil]

section Respell

variable {w : List Char} (hw : LineEnd w)

include hw

/-! ## Searching -/

/-- A piece is found at the same place of a respelled text. -/
theorem lengthThrough_respell (piece : List Char) (hpiece : ∀ c ∈ piece, Plain c)
    (hne : piece ≠ []) (cs : List Char) : Text.lengthThrough piece (respell w cs) =
      (respell w (cs.take (Text.lengthThrough piece cs))).length := by
  have hskip : ∀ (front : List Char), (∀ c ∈ front, ¬Plain c) → ∀ ds,
      Text.lengthThrough piece (front ++ ds) = front.length + Text.lengthThrough piece ds := by
    intro front hfront ds
    induction front with
    | nil => simp
    | cons c front ih =>
      rw [List.cons_append, Text.lengthThrough,
        Text.isPrefixOf_of_not_plain hpiece hne (hfront c List.mem_cons_self), List.length_cons,
        ih fun d hd => hfront d (List.mem_cons_of_mem c hd)]
      simp only [Bool.false_eq_true, if_false]
      omega
  induction cs with
  | nil => rfl
  | cons c cs ih =>
    by_cases hc : c = '\n'
    · rw [hc, Text.respell_newline, hskip w fun c hc => hw.not_plain hc, ih, Text.lengthThrough,
        Text.isPrefixOf_of_not_plain hpiece hne (by decide)]
      simp only [Bool.false_eq_true, if_false, List.take_succ_cons, Text.respell_newline,
        List.length_append]
    · have hprefix := Text.isPrefixOf_respell hw hpiece (c :: cs)
      rw [Text.respell_cons hc] at hprefix ⊢
      rw [Text.lengthThrough, Text.lengthThrough, hprefix]
      split
      · rename_i htrue
        have htake := List.prefix_iff_eq_take.1 (List.isPrefixOf_iff_prefix.1 htrue)
        rw [← htake, Text.respell_of_not_mem fun h => (hpiece _ h).ne_newline rfl]
      · rw [List.take_succ_cons, Text.respell_cons hc, List.length_cons, ih]

theorem startsWithFolded_respell {word : List Char} (hword : ∀ c ∈ word, Plain c) (cs : List Char) :
    Text.startsWithFolded word (respell w cs) = Text.startsWithFolded word cs := by
  induction word generalizing cs with
  | nil => rfl
  | cons a word ih =>
    have hcons : ∀ (c : Char) (cs : List Char), Text.startsWithFolded (a :: word) (c :: cs) =
        (c.toLower == a && Text.startsWithFolded word cs) := by
      intro c cs
      rw [Text.startsWithFolded, List.length_cons, List.take_succ_cons, List.map_cons,
        List.cons_beq_cons, Text.startsWithFolded]
    cases cs with
    | nil => rfl
    | cons c cs =>
      by_cases hc : c = '\n'
      · have hlow : ∀ d, ¬Plain d → (d.toLower == a) = false := by
          intro d hd
          have ha := hword a List.mem_cons_self
          rw [beq_eq_false_iff_ne]
          rcases Text.eq_of_not_plain hd with rfl | rfl
          · exact fun h => ha.ne_return h.symm
          · exact fun h => ha.ne_newline h.symm
        obtain ⟨d, rest, rfl, hd⟩ := hw.exists_cons
        rw [hc, Text.respell_newline, List.cons_append, hcons, hcons, hlow d hd,
          hlow '\n' (by decide), Bool.false_and, Bool.false_and]
      · rw [Text.respell_cons hc, hcons, hcons,
          ih fun d hd => hword d (List.mem_cons_of_mem a hd)]

omit hw in
/-- A word that is found by folding stands on one line. -/
theorem take_of_startsWithFolded {word : List Char} (hword : ∀ c ∈ word, Plain c) {cs : List Char}
    (h : Text.startsWithFolded word cs = true) :
    '\n' ∉ cs.take word.length ∧ word.length ≤ cs.length := by
  rw [Text.startsWithFolded, beq_iff_eq] at h
  constructor
  · intro hmem
    have hfold : Char.toLower '\n' ∈ word := h ▸ List.mem_map_of_mem hmem
    exact (hword _ hfold).ne_newline rfl
  · have := congrArg List.length h
    rw [List.length_map, List.length_take] at this
    omega

/-! ## Markup -/

theorem endsScriptName_respell (cs : List Char) :
    endsScriptName (respell w cs) = endsScriptName cs := by
  cases cs with
  | nil => rfl
  | cons c cs =>
    by_cases hc : c = '\n'
    · obtain ⟨d, rest, rfl⟩ := List.exists_cons_of_ne_nil hw.ne_nil
      have hd := hw.mem d List.mem_cons_self
      rw [hc, Text.respell_newline, List.cons_append]
      rcases hd with rfl | rfl <;> rfl
    · rw [Text.respell_cons hc]
      rfl

theorem opensScript_respell (cs : List Char) : opensScript (respell w cs) = opensScript cs := by
  rw [opensScript, opensScript, startsWithFolded_respell hw (by decide)]
  by_cases h : Text.startsWithFolded ['<', 's', 'c', 'r', 'i', 'p', 't'] cs = true
  · obtain ⟨hline, hlength⟩ := take_of_startsWithFolded (by decide) h
    have hdrop : (respell w cs).drop 7 = respell w (cs.drop 7) :=
      drop_respell (length_respell_take_of_not_mem hlength hline)
    rw [hdrop, endsScriptName_respell hw]
  · rw [Bool.not_eq_true] at h
    rw [h, Bool.false_and, Bool.false_and]

theorem angleToken_respell (cs : List Char) : angleToken (respell w cs) =
    ((angleToken cs).1, (respell w (cs.take (angleToken cs).2)).length) := by
  have htag : tagLength none (respell w cs) = (respell w (cs.take (tagLength none cs))).length :=
    tagLength_countsMarks.respell hw none (by simp) cs
  have hthrough := lengthThrough_respell hw ['>'] (by decide) (by simp) cs
  have hdoctype : opensDoctype (respell w cs) = opensDoctype cs :=
    startsWithFolded_respell hw (by decide) cs
  rw [angleToken, angleToken, opensScript_respell hw, hdoctype,
    Text.isPrefixOf_respell hw (by decide), Text.isPrefixOf_respell hw (by decide)]
  split
  · rw [htag]
  split
  · rw [hthrough]
  split
  · rename_i hcomment
    obtain ⟨rest, rfl⟩ := List.isPrefixOf_iff_prefix.1 hcomment
    have hopening : respell w ['<', '!', '-', '-'] = ['<', '!', '-', '-'] :=
      Text.respell_of_not_mem (by decide)
    have hrest := lengthThrough_respell hw ['-', '-', '>'] (by decide) (by simp) rest
    rw [Text.respell_append, hopening]
    simp only [List.cons_append, List.nil_append, List.drop_succ_cons, List.drop_zero, hrest]
    rw [show 4 + Text.lengthThrough ['-', '-', '>'] rest =
        ['<', '!', '-', '-'].length + Text.lengthThrough ['-', '-', '>'] rest from rfl,
      show '<' :: '!' :: '-' :: '-' :: rest = ['<', '!', '-', '-'] ++ rest from rfl,
      List.take_length_add_append, Text.respell_append, hopening, List.length_append]
    rfl
  split
  · rw [hthrough]
  · rw [htag]

theorem Cut.ofText_respell (raw rest : List Char) :
    Cut.ofText (respell w raw) (respell w rest) = (Cut.ofText raw rest).respelled w := by
  simp only [Cut.ofText, Cut.respelled, Text.trimLeft_respell hw, Text.trimRight_respell hw,
    Text.isEmpty_respell hw, Text.takeWhile_respell hw (p := Text.isBlank) (by decide),
    Text.reverse_respell, Text.takeWhile_respell hw.reverse (p := Text.isBlank) (by decide),
    List.reverse_reverse]

/-- **The first cut outside scripts**, of a text with other line ends. -/
theorem markupCut_respell (cs : List Char) :
    markupCut (respell w cs) = (markupCut cs).respelled w := by
  rw [markupCut, markupCut, Text.head?_beq_respell hw (by decide)]
  split
  · rw [angleToken_respell hw]
    exact Cut.ofLength_respell _ rfl
  · rw [Text.takeWhile_respell hw (p := (· != '<')) (by decide),
      Text.dropWhile_respell hw (p := (· != '<')) (by decide), Cut.ofText_respell hw]

/-! ## Scripts -/

theorem scriptCloseLength?_respell (cs : List Char) : scriptCloseLength? (respell w cs) =
    (scriptCloseLength? cs).map fun n => (respell w (cs.take n)).length := by
  rw [scriptCloseLength?, scriptCloseLength?, startsWithFolded_respell hw (by decide)]
  split
  · rename_i hfolded
    obtain ⟨hline, hlength⟩ := take_of_startsWithFolded (by decide) hfolded
    have height : 8 = (respell w (cs.take 8)).length := length_respell_take_of_not_mem hlength hline
    have hdrop : (respell w cs).drop 8 = respell w (cs.drop 8) := drop_respell height
    simp only [hdrop, Text.dropWhile_respell hw (p := Text.isBlank) (by decide),
      Text.takeWhile_respell hw (p := Text.isBlank) (by decide),
      Text.head?_beq_respell hw (show Plain '>' by decide)]
    split
    · rename_i hangle
      obtain ⟨rest, hrest⟩ := List.head?_eq_some_iff.1 (beq_iff_eq.1 hangle)
      let blanks := (cs.drop 8).takeWhile Text.isBlank
      have htake : cs.take (8 + blanks.length + 1) = cs.take 8 ++ (blanks ++ ['>']) := by
        have hafter : cs.drop 8 = blanks ++ ['>'] ++ rest := by
          rw [List.append_assoc, List.singleton_append, ← hrest, List.takeWhile_append_dropWhile]
        rw [Nat.add_assoc, List.take_add, hafter,
          List.take_left' (by rw [List.length_append, List.length_singleton])]
      rw [Option.map_some, htake, Text.respell_append, Text.respell_append, List.length_append,
        List.length_append, ← height, Text.respell_singleton (c := '>') (by decide)]
      rfl
    · rfl
  · rfl

/-- What takes neither carriage returns nor newlines takes the same off a respelled text. -/
theorem takeWhile_respell_of_not {p : Char → Bool} (hr : p '\r' = false) (hn : p '\n' = false)
    (cs : List Char) : (respell w cs).takeWhile p = cs.takeWhile p := by
  rw [Text.takeWhile_respell hw (hr.trans hn.symm),
    Text.respell_of_not_mem (not_mem_takeWhile hn cs)]

theorem digitRun_respell (cs : List Char) : digitRun (respell w cs) = digitRun cs := by
  rw [digitRun, takeWhile_respell_of_not hw (by decide +kernel) (by decide +kernel), digitRun]

omit hw in
theorem outsideNumbers_newline : OutsideNumbers '\n' := ⟨by decide +kernel, by decide⟩

omit hw in
theorem drop_respell_of_not_mem {cs : List Char} {n : Nat} (h : '\n' ∉ cs.take n) :
    (respell w cs).drop n = respell w (cs.drop n) :=
  congrArg Cut.rest (Cut.ofLength_respell_of_not_mem .text h)

/-- A length that is none at a line end is measured alike on a respelled text, if it is where the
text goes on behind some other character. -/
theorem length_respell {f : List Char → Nat} (hline : ∀ c cs, ¬Plain c → f (c :: cs) = 0)
    (hcons : ∀ c cs, f (c :: respell w cs) = f (c :: cs)) (cs : List Char) :
    f (respell w cs) = f cs := by
  cases cs with
  | nil => rfl
  | cons c cs =>
    by_cases hc : c = '\n'
    · obtain ⟨d, rest, rfl, hd⟩ := hw.exists_cons
      rw [hc, Text.respell_newline, List.cons_append, hline d _ hd, hline '\n' _ (by decide)]
    · rw [Text.respell_cons hc, hcons]

theorem fractionLength_respell (cs : List Char) :
    fractionLength (respell w cs) = fractionLength cs := by
  refine length_respell hw (fun c cs hc => ?_) (fun c cs => ?_) cs
  · rcases Text.eq_of_not_plain hc with rfl | rfl <;> rfl
  · rw [fractionLength, digitRun_respell hw, fractionLength]

theorem signLength_respell (cs : List Char) : signLength (respell w cs) = signLength cs := by
  refine length_respell hw (fun c cs hc => ?_) (fun c cs => rfl) cs
  rcases Text.eq_of_not_plain hc with rfl | rfl <;> rfl

omit hw in
theorem newline_not_mem_sign (cs : List Char) : '\n' ∉ cs.take (signLength cs) := by
  cases cs with
  | nil => simp
  | cons c cs =>
    rw [signLength]
    split
    · rename_i hc
      intro h
      obtain rfl : '\n' = c := by simpa using h
      simp at hc
    · simp

theorem exponentLength_respell (cs : List Char) :
    exponentLength (respell w cs) = exponentLength cs := by
  refine length_respell hw (fun c cs hc => ?_) (fun c cs => ?_) cs
  · rcases Text.eq_of_not_plain hc with rfl | rfl <;> rfl
  · simp only [exponentLength, signLength_respell hw,
      drop_respell_of_not_mem (newline_not_mem_sign cs), digitRun_respell hw]

theorem numberLength_respell (cs : List Char) : numberLength (respell w cs) = numberLength cs := by
  have hdigits := outsideNumbers_newline.digits cs
  have hmantissa : '\n' ∉ cs.take (digitRun cs + fractionLength (cs.drop (digitRun cs))) := by
    rw [List.take_add, List.mem_append, not_or]
    exact ⟨hdigits, outsideNumbers_newline.fraction _⟩
  simp only [numberLength, digitRun_respell hw, drop_respell_of_not_mem hdigits,
    fractionLength_respell hw, drop_respell_of_not_mem hmantissa, exponentLength_respell hw]

omit hw in
/-- A list of operators of one length is searched by their starts. -/
theorem contains_take {ops : List (List Char)} {n : Nat} (hops : ∀ op ∈ ops, op.length = n)
    (cs : List Char) : ops.contains (cs.take n) = ops.any fun op => op.isPrefixOf cs := by
  rw [Bool.eq_iff_iff, List.contains_iff_mem, List.any_eq_true]
  constructor
  · intro hmem
    exact ⟨_, hmem, List.isPrefixOf_iff_prefix.2 (List.take_prefix n cs)⟩
  · rintro ⟨op, hop, hprefix⟩
    have htake := List.prefix_iff_eq_take.1 (List.isPrefixOf_iff_prefix.1 hprefix)
    rw [hops op hop] at htake
    rwa [← htake]

theorem operatorLength_respell (cs : List Char) :
    operatorLength (respell w cs) = operatorLength cs := by
  have hany : ∀ {ops : List (List Char)}, (∀ op ∈ ops, ∀ c ∈ op, Plain c) →
      (ops.any fun op => op.isPrefixOf (respell w cs)) = ops.any fun op => op.isPrefixOf cs := by
    intro ops hops
    rw [Bool.eq_iff_iff, List.any_eq_true, List.any_eq_true]
    exact exists_congr fun op => and_congr_right fun hop => by
      rw [Text.isPrefixOf_respell hw (hops op hop)]
  have hlong : ∀ op ∈ longOperators, op.length = 3 := by decide
  have hpair : ∀ op ∈ pairOperators, op.length = 2 := by decide
  rw [operatorLength, operatorLength, contains_take hlong, contains_take hlong, contains_take hpair,
    contains_take hpair, hany (by decide), hany (by decide)]

/-- A word, number, operator or mark stays on one line, and other line ends do not change it. -/
theorem plainToken_respell {c : Char} (hc : c ≠ '\n') {cs : List Char}
    (hquote : Text.isQuoteMark c = false) (hcomment : commentLength? (c :: cs) = none)
    (hcomment' : commentLength? (c :: respell w cs) = none) :
    plainToken c (respell w cs) = plainToken c cs ∧
      '\n' ∉ (c :: cs).take (plainToken c cs).2 := by
  have hword := takeWhile_respell_of_not hw (p := Text.isWordPart) (by decide +kernel)
    (by decide +kernel) cs
  have hnumber := numberLength_respell hw (c :: cs)
  have hoperator := operatorLength_respell hw (c :: cs)
  rw [Text.respell_cons hc] at hnumber hoperator
  rw [plainToken, plainToken, hquote, hcomment, hcomment', hnumber, hoperator, hword]
  simp only [Bool.false_eq_true, if_false]
  -- Numbers, words, operators and single marks, in the order in which they are tried.
  split
  · exact ⟨rfl, outsideNumbers_newline.number (c :: cs)⟩
  split
  · have hline : '\n' ∉ cs.takeWhile Text.isWordPart := not_mem_takeWhile (by decide +kernel) cs
    have htake : (respell w cs).take (cs.takeWhile Text.isWordPart).length =
        cs.takeWhile Text.isWordPart := by
      rw [← hword, take_length_takeWhile]
    refine ⟨by rw [htake, take_length_takeWhile], ?_⟩
    rw [Nat.add_comm, List.take_succ_cons, take_length_takeWhile, List.mem_cons, not_or]
    exact ⟨Ne.symm hc, hline⟩
  split
  · refine ⟨rfl, ?_⟩
    have htail := not_mem_operator (d := '\n') (by decide) c cs
    obtain ⟨n, hn⟩ := Nat.exists_eq_succ_of_ne_zero (Nat.ne_of_gt (operatorLength_pos (c :: cs)))
    rw [hn, Nat.succ_sub_one] at htail
    rw [hn, List.take_succ_cons, List.mem_cons, not_or]
    exact ⟨Ne.symm hc, htail⟩
  · exact ⟨rfl, by simpa using Ne.symm hc⟩

omit hw in
theorem commentLength?_eq_none {c : Char} {cs : List Char}
    (h : c = '/' → cs.head? ≠ some '/' ∧ cs.head? ≠ some '*') :
    commentLength? (c :: cs) = none := by
  unfold commentLength?
  split
  · rename_i heq
    obtain ⟨rfl, rfl⟩ := List.cons.inj heq
    exact absurd rfl (h rfl).1
  · rename_i heq
    obtain ⟨rfl, rfl⟩ := List.cons.inj heq
    exact absurd rfl (h rfl).2
  · rfl

omit hw in
theorem plainToken_comment {c : Char} {cs : List Char} {n : Nat}
    (h : commentLength? (c :: cs) = some n) : plainToken c cs = (.comment, n) := by
  have hslash : c = '/' := by
    by_contra hne
    rw [commentLength?_eq_none fun hc => absurd hc hne] at h
    cases h
  have hdigit : Text.isDigit '/' = false := by decide +kernel
  have hword : Text.isWordStart '/' = false := by decide +kernel
  subst hslash
  rw [plainToken, hdigit, hword, h]
  rfl

/-- A comment that is closed by a mark goes on over line ends. -/
theorem commentLength?_respell {c : Char} {cs : List Char}
    (hline : ¬(c = '/' ∧ cs.head? = some '/')) : commentLength? (c :: respell w cs) =
      (commentLength? (c :: cs)).map fun n => (respell w ((c :: cs).take n)).length := by
  by_cases hopen : c = '/' ∧ cs.head? = some '*'
  · obtain ⟨rfl, hhead⟩ := hopen
    obtain ⟨ds, rfl⟩ := List.head?_eq_some_iff.1 hhead
    have hthrough := lengthThrough_respell hw ['*', '/'] (by decide) (by simp) ds
    rw [Text.respell_cons (by decide), commentLength?, commentLength?, hthrough, Option.map_some,
      Nat.add_comm 2 (Text.lengthThrough _ _), List.take_succ_cons, List.take_succ_cons,
      Text.respell_cons (by decide), Text.respell_cons (by decide), List.length_cons,
      List.length_cons]
    congr 1
    omega
  · have hnone : commentLength? (c :: cs) = none :=
      commentLength?_eq_none fun hc => ⟨fun h => hline ⟨hc, h⟩, fun h => hopen ⟨hc, h⟩⟩
    rw [hnone]
    refine commentLength?_eq_none fun hc => ⟨?_, ?_⟩
    · rw [Ne, Text.head?_respell hw (by decide)]
      exact fun h => hline ⟨hc, h⟩
    · rw [Ne, Text.head?_respell hw (by decide)]
      exact fun h => hopen ⟨hc, h⟩

/-- **The first cut inside a script**, of a text with other line ends, when it is neither a string
nor a comment up to the end of the line. -/
theorem scriptCut_respell {c : Char} (hc : c ≠ '\n') {cs : List Char}
    (hquote : Text.isQuoteMark c = false) (hline : ¬(c = '/' ∧ cs.head? = some '/')) :
    scriptCut c (respell w cs) = (scriptCut c cs).respelled w := by
  have hcons : respell w (c :: cs) = c :: respell w cs := Text.respell_cons hc cs
  have hclose := scriptCloseLength?_respell hw (c :: cs)
  have hcomment := commentLength?_respell hw hline
  rw [hcons] at hclose
  rw [scriptCut, scriptCut, scriptToken, scriptToken, hclose]
  cases scriptCloseLength? (c :: cs) with
  | some n =>
    rw [← hcons]
    exact Cut.ofLength_respell _ rfl
  | none =>
    cases hlength : commentLength? (c :: cs) with
    | none =>
      rw [hlength] at hcomment
      obtain ⟨hsame, hstays⟩ := plainToken_respell hw hc hquote hlength hcomment
      simp only [Option.map_none]
      rw [hsame, ← hcons]
      exact Cut.ofLength_respell_of_not_mem _ hstays
    | some n =>
      rw [hlength, Option.map_some] at hcomment
      simp only [Option.map_none]
      rw [plainToken_comment hlength, plainToken_comment hcomment, ← hcons]
      exact Cut.ofLength_respell _ rfl

end Respell

end PageLint
