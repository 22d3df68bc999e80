import PageLint.Proofs.LineEnds.Cuts
import PageLint.Proofs.Positions

/-!
# Scanning with carriage returns in front of newlines

A source and the same source with a carriage return in front of every newline are scanned side by
side. Both stand at the same line and column wherever a token starts. A string that is not closed
and a comment up to the end of its line take the carriage return with them, which is made up for by
the newline behind it.

A backslash at the end of a line inside a string is the exception: it takes the newline with it, but
in the other source only the carriage return, so there the string ends.

* `Resumes` — two places to go on with scanning, side by side
* `Cut.Agrees` — two tokens that are cut off side by side
* `exists_goesThrough` — how far a string goes, and what ends it
* `scanFrom_agree` — the tokens of both sources, when no string goes on behind an escaped newline
* `not_goesOnBelow_of_alike` — such a string is seen from the places of the tokens
-/

namespace PageLint

open Text (respell LineEnd Plain)

/-- A carriage return and a newline. -/
abbrev crlf : List Char := Text.lineEnd 1

theorem lineEnd_crlf : LineEnd crlf := Text.lineEnd_isLineEnd 1

theorem respell_crlf_newline (cs : List Char) :
    respell crlf ('\n' :: cs) = '\r' :: '\n' :: respell crlf cs :=
  Text.respell_newline cs

/-! ## Positions side by side -/

/-- Two positions at the same line and column. -/
structure Cursor.SameSpot (p p' : Cursor) : Prop where
  line : p'.line = p.line
  column : p'.column = p.column

theorem Cursor.SameSpot.next {p p' : Cursor} (h : p.SameSpot p') (c : Char) :
    (p.next c).SameSpot (p'.next c) := by
  rw [Cursor.next, Cursor.next]
  split
  · exact ⟨by rw [h.line], rfl⟩
  · exact ⟨h.line, by rw [h.column]⟩

/-- A newline leads to the same place from everywhere on a line. -/
theorem Cursor.sameSpot_newline {p p' : Cursor} (h : p'.line = p.line) :
    (p.next '\n').SameSpot (p'.next '\n') :=
  ⟨congrArg (· + 1) h, rfl⟩

theorem Cursor.SameSpot.advance {p p' : Cursor} (h : p.SameSpot p') (cs : List Char) :
    (p.advance cs).SameSpot (p'.advance (respell crlf cs)) := by
  induction cs generalizing p p' with
  | nil => exact h
  | cons c cs ih =>
    by_cases hc : c = '\n'
    · rw [hc, respell_crlf_newline]
      have hbreak : (p.next '\n').SameSpot ((p'.next '\r').next '\n') :=
        Cursor.sameSpot_newline h.line
      exact ih hbreak
    · rw [Text.respell_cons hc]
      exact ih (h.next c)

/-- A carriage return stays on the line. -/
theorem Cursor.SameSpot.line_return {p p' : Cursor} (h : p.SameSpot p') (cs : List Char) :
    (p'.advance (cs ++ ['\r'])).line = (p.advance cs).line := by
  simp only [Cursor.advance_line, h.line, List.count_append]
  rfl

theorem Cursor.advance_column_of_not_mem (p : Cursor) {cs : List Char} (h : '\n' ∉ cs) :
    (p.advance cs).column = p.column + cs.length := by
  induction cs generalizing p with
  | nil => rfl
  | cons c cs ih =>
    rw [List.mem_cons, not_or] at h
    have hnext : (p.next c).column = p.column + 1 := by
      rw [Cursor.next, if_neg (by simpa using Ne.symm h.1)]
    show ((p.next c).advance cs).column = _
    rw [ih _ h.2, hnext, List.length_cons]
    omega

/-- A position moves on with every character. -/
theorem Cursor.not_sameSpot_advance (p : Cursor) (cs : List Char) (h : cs ≠ []) :
    ¬p.SameSpot (p.advance cs) := by
  intro hsame
  have hline := hsame.line
  rw [Cursor.advance_line] at hline
  have hnot : '\n' ∉ cs := List.count_eq_zero.1 (by omega)
  have hcolumn := hsame.column
  rw [Cursor.advance_column_of_not_mem p hnot] at hcolumn
  have := List.length_pos_iff.2 h
  omega

/-! ## Going on side by side -/

/-- Two places to go on with scanning: behind what is skipped, they are at the same line and column,
in front of the same text with a carriage return in front of every newline. -/
structure Resumes (p : Cursor) (input : List Char) (p' : Cursor) (input' : List Char) : Prop where
  spot : (p.advance (input.takeWhile isSkipped)).SameSpot
    (p'.advance (input'.takeWhile isSkipped))
  rest : input'.dropWhile isSkipped = respell crlf (input.dropWhile isSkipped)

theorem Resumes.of_respell {p p' : Cursor} (h : p.SameSpot p') (input : List Char) :
    Resumes p input p' (respell crlf input) := by
  have hskip : isSkipped '\r' = isSkipped '\n' := rfl
  refine ⟨?_, Text.dropWhile_respell lineEnd_crlf hskip input⟩
  rw [Text.takeWhile_respell lineEnd_crlf hskip]
  exact h.advance _

theorem Resumes.skip {p p' : Cursor} (gap : List Char) {input input' : List Char}
    (h : Resumes (p.advance gap) input p' input') (hgap : gap.all isSkipped = true) :
    Resumes p (gap ++ input) p' input' := by
  have hall := List.all_eq_true.1 hgap
  constructor
  · rw [List.takeWhile_append_of_pos hall, Cursor.advance_append]
    exact h.spot
  · rw [List.dropWhile_append_of_pos hall]
    exact h.rest

/-- Behind what is skipped, both go on with the same character. -/
theorem Resumes.cons {p p' : Cursor} {input input' cs : List Char} {c : Char}
    (h : Resumes p input p' input') (hrest : input.dropWhile isSkipped = c :: cs) :
    isSkipped c = false ∧ input'.dropWhile isSkipped = c :: respell crlf cs := by
  have hskip : isSkipped c = false := by
    have hstop := List.head?_dropWhile_not isSkipped input
    rw [hrest] at hstop
    simpa using hstop
  have hnewline : c ≠ '\n' := by
    rintro rfl
    cases hskip
  exact ⟨hskip, by rw [h.rest, hrest, Text.respell_cons hnewline]⟩

/-- A newline that one of both has behind it already, with text that is skipped. -/
theorem Resumes.of_break {p p' : Cursor} (h : p'.line = p.line) (more : List Char)
    (hmore : more.all isSkipped = true) (rest : List Char) :
    Resumes ((p.next '\n').advance more) rest p' ('\n' :: respell crlf (more ++ rest)) := by
  have hskip : isSkipped '\r' = isSkipped '\n' := rfl
  have hall : ∀ c ∈ respell crlf more, isSkipped c = true := by
    rw [← List.all_eq_true, Text.all_respell lineEnd_crlf hskip, hmore]
  have hafter := Resumes.of_respell ((Cursor.sameSpot_newline h).advance more) rest
  rw [Text.respell_append]
  constructor
  · rw [List.takeWhile_cons_of_pos (by decide), List.takeWhile_append_of_pos hall]
    show Cursor.SameSpot _ ((p'.next '\n').advance _)
    rw [Cursor.advance_append]
    exact hafter.spot
  · rw [List.dropWhile_cons_of_pos (by decide), List.dropWhile_append_of_pos hall]
    exact hafter.rest

/-! ## How far a string goes -/

/-- Whether a string is closed: its mark comes again outside of an escape. -/
def closesString (mark : Char) : List Char → Bool
  | [] => false
  | '\\' :: [] => false
  | '\\' :: _ :: cs => closesString mark cs
  | c :: cs => c == mark || closesString mark cs

/-- A string goes on through a text to whatever follows it. -/
structure GoesThrough (mark : Char) (body : List Char) : Prop where
  length : ∀ cs, stringTailLength mark (body ++ cs) = body.length + stringTailLength mark cs
  closes : ∀ cs, closesString mark (body ++ cs) = closesString mark cs

/-- What a string comes to in the end: the end of the input, a backslash there, its mark, a newline,
or a newline behind a backslash. -/
inductive StringEnd (mark : Char) : List Char → Prop where
  | input : StringEnd mark []
  | backslash : StringEnd mark ['\\']
  | mark (cs : List Char) : StringEnd mark (mark :: cs)
  | newline (cs : List Char) : StringEnd mark ('\n' :: cs)
  | escaped (cs : List Char) : StringEnd mark ('\\' :: '\n' :: cs)

theorem GoesThrough.nil (mark : Char) : GoesThrough mark [] where
  length := by simp
  closes := by simp

theorem GoesThrough.escape {mark : Char} {body : List Char} (h : GoesThrough mark body) (c : Char) :
    GoesThrough mark ('\\' :: c :: body) where
  length cs := by
    rw [List.cons_append, List.cons_append, stringTailLength, h.length, List.length_cons,
      List.length_cons]
    omega
  closes cs := by rw [List.cons_append, List.cons_append, closesString, h.closes]

theorem GoesThrough.cons {mark c : Char} {body : List Char} (h : GoesThrough mark body)
    (hbackslash : c ≠ '\\') (hmark : c ≠ mark) (hnewline : c ≠ '\n') :
    GoesThrough mark (c :: body) where
  length cs := by
    rw [List.cons_append, stringTailLength, if_neg (by simpa using hmark),
      if_neg (by simpa using hnewline), h.length, List.length_cons]
    · omega
    · simp [hbackslash]
    · simp [hbackslash]
  closes cs := by
    rw [List.cons_append, closesString, beq_eq_false_iff_ne.2 hmark, Bool.false_or, h.closes]
    · simp [hbackslash]
    · simp [hbackslash]

/-- **How far a string goes**: through a text on its line, to something that ends it or to an
escaped newline. -/
theorem exists_goesThrough (mark : Char) (cs : List Char) : ∃ body rest,
    cs = body ++ rest ∧ '\n' ∉ body ∧ GoesThrough mark body ∧ StringEnd mark rest := by
  fun_induction stringTailLength mark cs with
  | case1 => exact ⟨[], [], rfl, by simp, .nil mark, .input⟩
  | case2 => exact ⟨[], ['\\'], rfl, by simp, .nil mark, .backslash⟩
  | case3 c cs ih =>
    by_cases hc : c = '\n'
    · exact ⟨[], _, rfl, by simp, .nil mark, hc ▸ .escaped cs⟩
    · obtain ⟨body, rest, rfl, hline, hgoes, hend⟩ := ih
      exact ⟨'\\' :: c :: body, rest, rfl, by simp [Ne.symm hc, hline], hgoes.escape c, hend⟩
  | case4 c cs _ _ hmark =>
    exact ⟨[], _, rfl, by simp, .nil mark, (beq_iff_eq.1 hmark) ▸ .mark cs⟩
  | case5 c cs _ _ hmark hnewline =>
    exact ⟨[], _, rfl, by simp, .nil mark, (beq_iff_eq.1 hnewline) ▸ .newline cs⟩
  | case6 c cs hlast hmore hmark hnewline ih =>
    have hbackslash : c ≠ '\\' := by
      rintro rfl
      cases cs with
      | nil => exact hlast rfl rfl
      | cons d ds => exact hmore d ds rfl rfl
    obtain ⟨body, rest, rfl, hline, hgoes, hend⟩ := ih
    rw [beq_iff_eq] at hmark hnewline
    exact ⟨c :: body, rest, rfl, by simp [Ne.symm hnewline, hline],
      hgoes.cons hbackslash hmark hnewline, hend⟩

/-! ## Cutting side by side -/

/-- Whether a string is closed. -/
def isClosedString : List Char → Bool
  | [] => false
  | mark :: cs => closesString mark cs

/-- Whether a string is over at the end of its line: behind its first newline, which is escaped, it
holds only what is skipped between tokens anyway. -/
def endsWithLine (text : List Char) : Bool := (text.dropWhile (· != '\n')).all isSkipped

theorem endsWithLine_of_not_mem {text : List Char} (h : '\n' ∉ text) :
    endsWithLine text = true := by
  rw [endsWithLine, List.dropWhile_eq_nil_iff.2 (Text.bne_of_not_mem h)]
  rfl

/-- Two cuts that are made side by side. A string has to be closed on its line, and comments may be
of any text. -/
structure Cut.Agrees (c c' : Cut) : Prop where
  kind : c'.kind = c.kind
  lead : c'.lead = respell crlf c.lead
  text : c.kind ≠ some .comment →
    (c.kind = some .string → isClosedString c.text = true ∧ '\n' ∉ c.text) →
      c'.text = respell crlf c.text
  resumes : ∀ {p p' : Cursor}, p.SameSpot p' →
    Resumes ((p.advance c.text).advance c.trail) c.rest
      ((p'.advance c'.text).advance c'.trail) c'.rest

theorem Cut.agrees_respelled (c : Cut) : c.Agrees (c.respelled crlf) where
  kind := rfl
  lead := rfl
  text := fun _ _ => rfl
  resumes := fun h => Resumes.of_respell ((h.advance c.text).advance c.trail) c.rest

/-- A token that ends at a newline takes the carriage return in front of it. -/
theorem Cut.agrees_of_newline {kind : TokenKind} (text : List Char)
    (hkind : kind = .comment ∨ kind = .string ∧ isClosedString text = false) (rest : List Char) :
    (Cut.ofLength kind text.length (text ++ '\n' :: rest)).Agrees
      (Cut.ofLength kind (text.length + 1) (text ++ '\r' :: '\n' :: respell crlf rest)) := by
  have htake : (text ++ '\r' :: '\n' :: respell crlf rest).take (text.length + 1) =
      text ++ ['\r'] := by
    rw [List.take_length_add_append]
    rfl
  have hdrop : (text ++ '\r' :: '\n' :: respell crlf rest).drop (text.length + 1) =
      '\n' :: respell crlf rest := by
    rw [List.drop_length_add_append]
    rfl
  refine ⟨rfl, rfl, ?_, ?_⟩
  · intro hcomment hclosed
    rcases hkind with rfl | ⟨rfl, hopen⟩
    · exact absurd rfl hcomment
    · have := (hclosed rfl).1
      rw [Cut.ofLength, List.take_left, hopen] at this
      cases this
  · intro p p' h
    have hafter := Resumes.of_break (h.line_return text) [] rfl rest
    simp only [Cut.ofLength, List.take_left, List.drop_left, htake, hdrop]
    exact Resumes.skip ['\n'] hafter rfl

section Strings

variable {mark : Char} (hquote : Text.isQuoteMark mark = true)

include hquote

theorem scriptCut_string (cs : List Char) : scriptCut mark cs =
    Cut.ofLength .string (stringTailLength mark cs + 1) (mark :: cs) := by
  have hangle : mark ≠ '<' := by
    rintro rfl
    cases hquote
  rw [scriptCut, scriptToken, scriptCloseLength?_eq_none hangle]
  simp only [plainToken, hquote, if_true]
  rw [Nat.add_comm]

theorem stringTailLength_newline (cs : List Char) : stringTailLength mark ('\n' :: cs) = 0 := by
  have hmark := (Text.plain_of_isQuoteMark hquote).ne_newline
  rw [stringTailLength, if_neg (by simpa using Ne.symm hmark), if_pos (beq_self_eq_true _)] <;> simp

theorem stringTailLength_return (cs : List Char) :
    stringTailLength mark ('\r' :: '\n' :: cs) = 1 := by
  have hmark := (Text.plain_of_isQuoteMark hquote).ne_return
  rw [stringTailLength, if_neg (by simpa using Ne.symm hmark), if_neg (by decide),
    stringTailLength_newline hquote] <;> simp

theorem stringTailLength_mark (cs : List Char) : stringTailLength mark (mark :: cs) = 1 := by
  have hmark : mark ≠ '\\' := by
    rintro rfl
    cases hquote
  rw [stringTailLength, if_pos (beq_self_eq_true _)] <;> simp [hmark]

section Escaped

variable {body : List Char} (hgoes : GoesThrough mark body) (rest : List Char)

include hgoes

/-- A string that comes to an escaped newline goes on behind it. -/
theorem scriptCut_escaped : scriptCut mark (body ++ '\\' :: '\n' :: rest) =
    { lead := []
      kind := some .string
      text := mark :: (body ++ ['\\']) ++ '\n' :: rest.take (stringTailLength mark rest)
      trail := []
      rest := rest.drop (stringTailLength mark rest) } := by
  have hsplit : mark :: (body ++ '\\' :: '\n' :: rest) =
      mark :: (body ++ ['\\']) ++ '\n' :: rest := by
    simp
  have hlength : stringTailLength mark (body ++ '\\' :: '\n' :: rest) + 1 =
      (mark :: (body ++ ['\\'])).length + (stringTailLength mark rest + 1) := by
    rw [hgoes.length, stringTailLength, List.length_cons, List.length_append, List.length_singleton]
    omega
  rw [scriptCut_string hquote, hsplit, hlength, Cut.ofLength, List.take_length_add_append,
    List.drop_length_add_append, List.take_succ_cons, List.drop_succ_cons]

/-- With a carriage return in front of the newline, it ends there. -/
theorem scriptCut_escaped_crlf (hline : '\n' ∉ body) :
    scriptCut mark (respell crlf (body ++ '\\' :: '\n' :: rest)) =
      { lead := []
        kind := some .string
        text := mark :: (body ++ ['\\']) ++ ['\r']
        trail := []
        rest := '\n' :: respell crlf rest } := by
  have hinput : respell crlf (body ++ '\\' :: '\n' :: rest) =
      body ++ '\\' :: '\r' :: '\n' :: respell crlf rest := by
    rw [Text.respell_append, Text.respell_of_not_mem hline, Text.respell_cons (by decide),
      respell_crlf_newline]
  have hsplit : mark :: (body ++ '\\' :: '\r' :: '\n' :: respell crlf rest) =
      mark :: (body ++ ['\\']) ++ '\r' :: '\n' :: respell crlf rest := by
    simp
  have hlength : stringTailLength mark (body ++ '\\' :: '\r' :: '\n' :: respell crlf rest) + 1 =
      (mark :: (body ++ ['\\'])).length + 1 := by
    rw [hgoes.length, stringTailLength, stringTailLength_newline hquote, List.length_cons,
      List.length_append, List.length_singleton]
  rw [hinput, scriptCut_string hquote, hsplit, hlength, Cut.ofLength, List.take_length_add_append,
    List.drop_length_add_append, List.take_succ_cons, List.drop_succ_cons, List.take_zero,
    List.drop_zero]

omit hgoes in
/-- A string with an escaped newline is over at the end of its line when only skipped text
follows. -/
theorem endsWithLine_escaped (hline : '\n' ∉ body) (more : List Char) :
    endsWithLine (mark :: (body ++ ['\\']) ++ '\n' :: more) = more.all isSkipped := by
  have hmark := (Text.plain_of_isQuoteMark hquote).ne_newline
  have hfront := Text.bne_of_not_mem
    (show '\n' ∉ mark :: (body ++ ['\\']) by simp [hline, Ne.symm hmark])
  rw [endsWithLine, List.dropWhile_append_of_pos hfront, List.dropWhile_cons_of_neg (by decide)]
  rfl

end Escaped

/-- A string holds a newline only behind a backslash. -/
theorem exists_escaped_of_mem {cs : List Char} (h : '\n' ∈ (scriptCut mark cs).text) :
    ∃ body rest, cs = body ++ '\\' :: '\n' :: rest ∧ '\n' ∉ body ∧ GoesThrough mark body := by
  have hmark := (Text.plain_of_isQuoteMark hquote).ne_newline
  have htail : '\n' ∈ cs.take (stringTailLength mark cs) := by
    rw [scriptCut_string hquote, Cut.ofLength, List.take_succ_cons] at h
    exact (List.mem_cons.1 h).resolve_left (Ne.symm hmark)
  obtain ⟨body, rest, rfl, hline, hgoes, hend⟩ := exists_goesThrough mark cs
  rw [hgoes.length, List.take_length_add_append, List.mem_append] at htail
  have htail := htail.resolve_left hline
  cases hend with
  | input => simp at htail
  | backslash => simp [stringTailLength] at htail
  | mark r =>
    rw [stringTailLength_mark hquote] at htail
    simp [Ne.symm hmark] at htail
  | newline r =>
    rw [stringTailLength_newline hquote] at htail
    cases htail
  | escaped r => exact ⟨body, r, rfl, hline, hgoes⟩

/-- **Strings are cut side by side** when they are over at the end of their line. -/
theorem stringCut_agrees {cs : List Char} (hends : endsWithLine (scriptCut mark cs).text = true) :
    (scriptCut mark cs).Agrees (scriptCut mark (respell crlf cs)) := by
  have hplain := Text.plain_of_isQuoteMark hquote
  have hcons : mark :: respell crlf cs = respell crlf (mark :: cs) :=
    (Text.respell_cons hplain.ne_newline cs).symm
  -- A string that is over on its line is cut as it is.
  have hsame : stringTailLength mark (respell crlf cs) = stringTailLength mark cs →
      '\n' ∉ cs.take (stringTailLength mark cs) →
      (scriptCut mark cs).Agrees (scriptCut mark (respell crlf cs)) := by
    intro hlength hline
    rw [scriptCut_string hquote, scriptCut_string hquote, hlength, hcons,
      Cut.ofLength_respell_of_not_mem .string]
    · exact Cut.agrees_respelled _
    · rw [List.take_succ_cons, List.mem_cons, not_or]
      exact ⟨Ne.symm hplain.ne_newline, hline⟩
  obtain ⟨body, rest, rfl, hline, hgoes, hend⟩ := exists_goesThrough mark cs
  have hbody : ∀ rest, respell crlf (body ++ rest) = body ++ respell crlf rest := by
    intro rest
    rw [Text.respell_append, Text.respell_of_not_mem hline]
  cases hend with
  | input =>
    refine hsame (by rw [hbody]; rfl) ?_
    rw [List.append_nil]
    exact fun h => hline (List.mem_of_mem_take h)
  | backslash =>
    refine hsame (by rw [hbody]; rfl) fun h => ?_
    have := List.mem_of_mem_take h
    simp [hline] at this
  | mark r =>
    have hmark := stringTailLength_mark hquote
    refine hsame ?_ ?_
    · rw [hbody, hgoes.length, hgoes.length, Text.respell_cons hplain.ne_newline, hmark, hmark]
    · rw [hgoes.length, hmark, List.take_length_add_append]
      simp [hline, Ne.symm hplain.ne_newline]
  | newline r =>
    have hopen : isClosedString (mark :: body) = false := by
      have := hgoes.closes []
      rw [List.append_nil] at this
      exact this
    rw [scriptCut_string hquote, scriptCut_string hquote, hbody, respell_crlf_newline, hgoes.length,
      hgoes.length, stringTailLength_newline hquote, stringTailLength_return hquote]
    exact Cut.agrees_of_newline (mark :: body) (Or.inr ⟨rfl, hopen⟩) r
  | escaped r =>
    rw [scriptCut_escaped hquote hgoes, endsWithLine_escaped hquote hline] at hends
    rw [scriptCut_escaped hquote hgoes, scriptCut_escaped_crlf hquote hgoes r hline]
    refine ⟨rfl, rfl, fun _ hclosed => ?_, fun {p p'} h => ?_⟩
    · exact absurd (by simp) (hclosed rfl).2
    · have hafter := Resumes.of_break (h.line_return (mark :: (body ++ ['\\']))) _ hends
        (r.drop (stringTailLength mark r))
      rw [List.take_append_drop] at hafter
      simp only [Cursor.advance_append p (mark :: (body ++ ['\\']))]
      exact hafter

end Strings

/-- A comment up to the end of its line. -/
theorem lineCommentCut_agrees (cs : List Char) :
    (scriptCut '/' ('/' :: cs)).Agrees (scriptCut '/' (respell crlf ('/' :: cs))) := by
  have hcut : ∀ cs, scriptCut '/' ('/' :: cs) =
      Cut.ofLength .comment ((cs.takeWhile (· != '\n')).length + 2) ('/' :: '/' :: cs) := by
    intro cs
    have hlength : commentLength? ('/' :: '/' :: cs) =
        some ((cs.takeWhile (· != '\n')).length + 2) := by
      rw [commentLength?, Nat.add_comm]
    rw [scriptCut, scriptToken, scriptCloseLength?_eq_none (by decide), plainToken_comment hlength]
  have hstops : ∀ body r, '\n' ∉ body → (body ++ '\n' :: r).takeWhile (· != '\n') = body := by
    intro body r hbody
    rw [List.takeWhile_append_of_pos (Text.bne_of_not_mem hbody),
      List.takeWhile_cons_of_neg (by decide), List.append_nil]
  rw [Text.respell_cons (by decide), hcut, hcut]
  by_cases hmem : '\n' ∈ cs
  · obtain ⟨body, r, rfl, hbody⟩ := List.eq_append_cons_of_mem hmem
    have hreturn : body ++ '\r' :: '\n' :: respell crlf r =
        body ++ ['\r'] ++ '\n' :: respell crlf r := by
      simp
    have hlong := hstops (body ++ ['\r']) (respell crlf r) (by simp [hbody])
    rw [← hreturn] at hlong
    rw [Text.respell_append, Text.respell_of_not_mem hbody, respell_crlf_newline, hstops _ _ hbody,
      hlong, List.length_append]
    exact Cut.agrees_of_newline ('/' :: '/' :: body) (Or.inl rfl) r
  · have hnot : '\n' ∉ '/' :: '/' :: cs := by simp [hmem]
    have hsame := Cut.ofLength_respell_of_not_mem (w := crlf) .comment
      (n := (cs.takeWhile (· != '\n')).length + 2) fun h => hnot (List.mem_of_mem_take h)
    rw [Text.respell_of_not_mem hnot] at hsame
    have hagrees := Cut.agrees_respelled
      (Cut.ofLength .comment ((cs.takeWhile (· != '\n')).length + 2) ('/' :: '/' :: cs))
    rw [← hsame] at hagrees
    rwa [Text.respell_of_not_mem hmem]

/-- **Tokens are cut side by side**, except for a string that goes on behind an escaped newline. -/
theorem Mode.cut_agrees (mode : Mode) {c : Char} (hc : isSkipped c = false) {cs : List Char}
    (hends : (mode.cut c cs).kind = some .string → endsWithLine (mode.cut c cs).text = true) :
    (mode.cut c cs).Agrees (mode.cut c (respell crlf cs)) := by
  have hnewline : c ≠ '\n' := by
    rintro rfl
    cases hc
  cases mode with
  | markup =>
    have hcut := markupCut_respell lineEnd_crlf (c :: cs)
    rw [Text.respell_cons hnewline] at hcut
    show (markupCut (c :: cs)).Agrees (markupCut (c :: respell crlf cs))
    rw [hcut]
    exact Cut.agrees_respelled _
  | script =>
    show (scriptCut c cs).Agrees (scriptCut c (respell crlf cs))
    by_cases hquote : Text.isQuoteMark c = true
    · refine stringCut_agrees hquote (hends ?_)
      show (scriptCut c cs).kind = _
      rw [scriptCut_string hquote]
      rfl
    by_cases hline : c = '/' ∧ cs.head? = some '/'
    · obtain ⟨rfl, hhead⟩ := hline
      obtain ⟨ds, rfl⟩ := List.head?_eq_some_iff.1 hhead
      exact lineCommentCut_agrees ds
    · rw [scriptCut_respell lineEnd_crlf hnewline (by simpa using hquote) hline]
      exact Cut.agrees_respelled _

/-! ## Scanning side by side -/

/-- Two tokens that are scanned side by side: of the same kind at the same place. A string has to be
closed on its line to be of the same text, and comments may be of any text. -/
structure Token.Agrees (t t' : Token) : Prop where
  kind : t'.kind = t.kind
  line : t'.line = t.line
  column : t'.column = t.column
  text : t.kind ≠ .comment →
    (t.kind = .string → isClosedString t.text.toList = true ∧ '\n' ∉ t.text.toList) →
      t'.text.toList = respell crlf t.text.toList

theorem Cut.Agrees.token? {c c' : Cut} (h : c.Agrees c') {start start' : Cursor}
    (hspot : start.SameSpot start') (file file' : Option String) :
    Option.Rel Token.Agrees (c.token? file start) (c'.token? file' start') := by
  rw [Cut.token?, Cut.token?, h.kind]
  cases hkind : c.kind with
  | none => exact .none
  | some kind =>
    refine .some ⟨rfl, congrArg Nat.cast hspot.line, congrArg Nat.cast hspot.column, ?_⟩
    intro hcomment hclosed
    simp only [Token.at, String.toList_ofList] at hcomment hclosed ⊢
    refine h.text ?_ ?_
    · rw [hkind]
      exact fun heq => hcomment (Option.some.inj heq)
    · rw [hkind]
      exact fun heq => hclosed (Option.some.inj heq)

theorem forall₂_of_rel {o o' : Option Token} (h : Option.Rel Token.Agrees o o') :
    List.Forall₂ Token.Agrees o.toList o'.toList := by
  cases h with
  | none => exact .nil
  | some h => exact .cons h .nil

/-- A string that goes on behind an escaped newline. -/
def Token.goesOnBelow (t : Token) : Bool := t.kind == .string && !endsWithLine t.text.toList

/-- **Both sources are scanned side by side**, when no string goes on behind an escaped newline. -/
theorem scanFrom_agree (file file' : Option String) (mode : Mode) (place : Cursor)
    (input : List Char) : ∀ (place' : Cursor) (input' : List Char),
      Resumes place input place' input' →
      (∀ t ∈ (scanFrom file mode place input).tokens, t.goesOnBelow = false) →
      List.Forall₂ Token.Agrees (scanFrom file mode place input).tokens
        (scanFrom file' mode place' input').tokens := by
  fun_induction scanFrom file mode place input with
  | case1 mode place input start h =>
    intro place' input' hresumes _
    have hrest := hresumes.rest
    rw [h, Text.respell_nil] at hrest
    rw [scanFrom_nil hrest]
    refine .cons ⟨rfl, ?_, ?_, fun _ _ => rfl⟩ .nil
    · exact congrArg Nat.cast hresumes.spot.line
    · exact congrArg Nat.cast hresumes.spot.column
  | case2 mode place input start c cs h cut lead stop next hlt tail ih =>
    intro place' input' hresumes hends
    obtain ⟨hskip, hrest⟩ := hresumes.cons h
    have hagrees : cut.Agrees (mode.cut c (respell crlf cs)) := by
      refine mode.cut_agrees hskip fun hkind => ?_
      have hmem : Token.at file lead .string cut.text ∈ (cut.token? file lead).toList := by
        rw [Cut.token?, show cut.kind = _ from hkind]
        exact List.mem_singleton_self _
      simpa [Token.goesOnBelow, Token.at] using hends _ (List.mem_append_left _ hmem)
    have hlead := hresumes.spot.advance cut.lead
    rw [← hagrees.lead] at hlead
    rw [scanFrom_cons hrest]
    simp only [hagrees.kind]
    refine List.rel_append (forall₂_of_rel (hagrees.token? hlead file file')) ?_
    exact ih _ _ (hagrees.resumes hlead) fun t ht => hends t (List.mem_append_right _ ht)

/-! ## Strings that go on behind an escaped newline -/

/-- Two tokens of the same kind at the same place. The end of the input may be at another one. -/
structure Token.Alike (t t' : Token) : Prop where
  kind : t'.kind = t.kind
  place : t.kind ≠ .eof → t'.line = t.line ∧ t'.column = t.column

theorem Token.Agrees.alike {t t' : Token} (h : t.Agrees t') : t.Alike t' :=
  ⟨h.kind, fun _ => ⟨h.line, h.column⟩⟩

theorem forall₂_tail_of_rel {o o' : Option Token} (h : Option.Rel Token.Agrees o o')
    {ts ts' : List Token} (hts : List.Forall₂ Token.Alike (o.toList ++ ts) (o'.toList ++ ts')) :
    List.Forall₂ Token.Alike ts ts' := by
  cases h with
  | none => exact hts
  | some h =>
    cases hts with
    | cons _ htail => exact htail

/-- Only a quote mark starts a string. -/
theorem isQuoteMark_of_string {c : Char} {cs : List Char} (h : (scriptToken c cs).1 = .string) :
    Text.isQuoteMark c = true := by
  by_contra hquote
  rw [Bool.not_eq_true] at hquote
  unfold scriptToken at h
  split at h
  · cases h
  · rw [plainToken, hquote] at h
    simp only [Bool.false_eq_true, if_false] at h
    split at h
    · cases h
    split at h
    · rcases wordKind_cases (String.ofList (c :: cs.take _)) with hk | hk | hk | hk <;>
        exact absurd (hk.symm.trans h) (by decide)
    split at h
    · cases h
    split at h
    · cases h
    · unfold markKind at h
      repeat' split at h
      all_goals cases h

/-- The first token inside a script is where the text that is not skipped starts. -/
theorem exists_scriptToken {input : List Char} (h : input.all isSkipped = false)
    (file : Option String) (place : Cursor) : ∃ t ts,
      (scanFrom file .script place input).tokens = t :: ts ∧ t.kind ≠ .eof ∧
      t.IsAt (place.advance (input.takeWhile isSkipped)) := by
  cases hrest : input.dropWhile isSkipped with
  | nil =>
    rw [List.dropWhile_eq_nil_iff, ← List.all_eq_true] at hrest
    rw [hrest] at h
    cases h
  | cons c cs =>
    rw [scanFrom_cons hrest]
    refine ⟨_, _, rfl, scriptToken_ne_eof c cs, ?_⟩
    exact Token.isAt_at file _ _ _

/-- The text that is skipped behind a newline, when something follows it. -/
theorem Cursor.sameSpot_of_break {p p' : Cursor} (hbreak : p'.line = p.line) {more : List Char}
    (hmore : more.all isSkipped = false) (rest : List Char) :
    ((p.next '\n').advance (more.takeWhile isSkipped)).SameSpot
      (p'.advance (('\n' :: respell crlf (more ++ rest)).takeWhile isSkipped)) := by
  have hskip : isSkipped '\r' = isSkipped '\n' := rfl
  have hshort : (more.takeWhile isSkipped).length ≠ more.length := by
    intro hlength
    have hsame := (List.takeWhile_prefix isSkipped).eq_of_length hlength
    have hall : more.all isSkipped = true :=
      List.all_eq_true.2 fun c hc => List.mem_takeWhile_imp (hsame ▸ hc)
    rw [hmore] at hall
    cases hall
  rw [List.takeWhile_cons_of_pos (by decide), Text.takeWhile_respell lineEnd_crlf hskip,
    List.takeWhile_append, if_neg hshort]
  exact (Cursor.sameSpot_newline hbreak).advance _

/-- Where a string goes on behind an escaped newline, a token starts in the other source that the
string has taken. -/
theorem not_alike_of_escaped {p p' : Cursor} (hbreak : p'.line = p.line) {more : List Char}
    (hmore : more.all isSkipped = false) (rest : List Char) (file file' : Option String) :
    ¬List.Forall₂ Token.Alike
      (scanFrom file .script ((p.next '\n').advance more) rest).tokens
      (scanFrom file' .script p' ('\n' :: respell crlf (more ++ rest))).tokens := by
  intro halike
  have hskip : isSkipped '\r' = isSkipped '\n' := rfl
  have hinput : ('\n' :: respell crlf (more ++ rest)).all isSkipped = false := by
    rw [List.all_cons, Text.all_respell lineEnd_crlf hskip, List.all_append, hmore]
    rfl
  obtain ⟨u, us, hus, hkind, hu⟩ := exists_scriptToken hinput file' p'
  rw [hus] at halike
  obtain ⟨x, tail, htail⟩ : ∃ x tail, more.dropWhile isSkipped = x :: tail := by
    refine List.exists_cons_of_ne_nil fun hnil => ?_
    rw [List.dropWhile_eq_nil_iff, ← List.all_eq_true, hmore] at hnil
    cases hnil
  -- The token starts behind the text of the string that is skipped, and the tokens of the source
  -- start behind all of the string.
  let q := (p.next '\n').advance (more.takeWhile isSkipped)
  have hq : q.SameSpot _ := Cursor.sameSpot_of_break hbreak hmore rest
  cases hvs : (scanFrom file .script ((p.next '\n').advance more) rest).tokens with
  | nil =>
    rw [hvs] at halike
    cases halike
  | cons v vs =>
    rw [hvs] at halike
    cases halike with
    | cons hvu _ =>
      obtain ⟨hline, hcolumn⟩ := hvu.place (hvu.kind ▸ hkind)
      obtain ⟨before, -, hv⟩ := scanFrom_isAt file .script ((p.next '\n').advance more) rest v
        (by rw [hvs]; exact List.mem_cons_self)
      have hplace : ((p.next '\n').advance more).advance before =
          q.advance (x :: tail ++ before) := by
        have hmoved : q.advance (more.dropWhile isSkipped) = (p.next '\n').advance more := by
          rw [← Cursor.advance_append, List.takeWhile_append_dropWhile]
        rw [← htail, Cursor.advance_append, hmoved]
      rw [hplace] at hv
      refine q.not_sameSpot_advance (x :: tail ++ before) (by simp) ⟨?_, ?_⟩
      · have hsame := hq.line
        have := hu.line
        have := hv.line
        omega
      · have hsame := hq.column
        have := hu.column
        have := hv.column
        omega

/-- A string that goes on behind an escaped newline is seen from the places of the tokens. -/
theorem not_alike_of_goesOnBelow {mark : Char} (hquote : Text.isQuoteMark mark = true)
    {cs : List Char} (hends : endsWithLine (scriptCut mark cs).text = false) {p p' : Cursor}
    (hspot : p.SameSpot p') (file file' : Option String) :
    ¬List.Forall₂ Token.Alike
      (scanFrom file .script (p.advance (scriptCut mark cs).text) (scriptCut mark cs).rest).tokens
      (scanFrom file' .script (p'.advance (scriptCut mark (respell crlf cs)).text)
        (scriptCut mark (respell crlf cs)).rest).tokens := by
  have hmem : '\n' ∈ (scriptCut mark cs).text := by
    by_contra hnot
    rw [endsWithLine_of_not_mem hnot] at hends
    cases hends
  obtain ⟨body, rest, rfl, hline, hgoes⟩ := exists_escaped_of_mem hquote hmem
  rw [scriptCut_escaped hquote hgoes, endsWithLine_escaped hquote hline] at hends
  rw [scriptCut_escaped hquote hgoes, scriptCut_escaped_crlf hquote hgoes rest hline]
  have hnot := not_alike_of_escaped (hspot.line_return (mark :: (body ++ ['\\']))) hends
    (rest.drop (stringTailLength mark rest)) file file'
  rw [List.take_append_drop] at hnot
  simp only [Cursor.advance_append p (mark :: (body ++ ['\\']))]
  exact hnot

/-- **Where the tokens of both sources are at the same places, no string goes on** behind an escaped
newline. -/
theorem not_goesOnBelow_of_alike (file file' : Option String) (mode : Mode) (place : Cursor)
    (input : List Char) : ∀ (place' : Cursor) (input' : List Char),
      Resumes place input place' input' →
      List.Forall₂ Token.Alike (scanFrom file mode place input).tokens
        (scanFrom file' mode place' input').tokens →
      ∀ t ∈ (scanFrom file mode place input).tokens, t.goesOnBelow = false := by
  fun_induction scanFrom file mode place input with
  | case1 mode place input start h =>
    intro place' input' _ _ t ht
    rw [List.mem_singleton.1 ht]
    rfl
  | case2 mode place input start c cs h cut lead stop next hlt tail ih =>
    intro place' input' hresumes halike
    obtain ⟨hskip, hrest⟩ := hresumes.cons h
    rw [scanFrom_cons hrest] at halike
    simp only at halike
    by_cases hends : cut.kind = some .string → endsWithLine cut.text = true
    · have hagrees : cut.Agrees (mode.cut c (respell crlf cs)) := mode.cut_agrees hskip hends
      have hlead := hresumes.spot.advance cut.lead
      rw [← hagrees.lead] at hlead
      rw [hagrees.kind] at halike
      have htail := forall₂_tail_of_rel (hagrees.token? hlead file file') halike
      intro t ht
      rcases List.mem_append.1 ht with hcut | hmem
      · obtain ⟨kind, hkind, rfl⟩ := Option.map_eq_some_iff.1 (Option.mem_toList.1 hcut)
        by_cases hstring : kind = .string
        · simp [Token.goesOnBelow, Token.at, hends (hstring ▸ hkind)]
        · simp [Token.goesOnBelow, Token.at, hstring]
      · exact ih _ _ (hagrees.resumes hlead) htail t hmem
    · obtain ⟨hkind, hbelow⟩ := Classical.not_imp.1 hends
      have hscans := mode.scans_cut c cs _ hkind
      cases mode with
      | markup => cases hscans
      | script =>
        have hquote := isQuoteMark_of_string (Option.some.inj hkind)
        have hnot := not_alike_of_goesOnBelow hquote (Bool.not_eq_true _ ▸ hbelow) hresumes.spot file
          file'
        have hkind' : (Mode.script.cut c (respell crlf cs)).kind = some .string := by
          show (scriptCut c (respell crlf cs)).kind = _
          rw [scriptCut_string hquote]
          rfl
        have htail : tail = scanFrom file .script stop cut.rest := by
          show scanFrom file (Mode.script.after cut.kind) stop cut.rest = _
          rw [show cut.kind = _ from hkind]
          rfl
        rw [hkind', htail] at halike
        exact absurd (List.forall₂_cons.1 halike).2 hnot

end PageLint
