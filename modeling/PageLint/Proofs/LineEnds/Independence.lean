import PageLint.Proofs.LineEnds.Scanning
import PageLint.Proofs.Modes
import PageLint.Proofs.Views.Pages

/-!
# Pages with carriage returns in front of newlines

A page is the same to the rules when its lines end with a carriage return and a newline: the tokens
are of the same kinds at the same places, and the diagnostics are on the same lines.

Strings are what this depends on. A string that goes on behind an escaped newline moves the tokens
behind it, and a string that is not closed on its line takes the carriage return into its text.

* `withReturns` — a source with a carriage return in front of every newline
* `tokenize_shown` — its tokens, as a view shows those of the source
* `lineEnds_independent` — when tokens and diagnostics do not depend on line ends
-/

namespace PageLint

open Text (respell)

/-- A source with a carriage return in front of every newline. -/
def withReturns (source : String) : String := String.ofList (respell crlf source.toList)

/-- The view that keeps lines and puts a carriage return in front of every newline. -/
def View.returned : View where
  line := id
  returns := 1

/-! ## Tokens on one line -/

/-- Whether tokens of a kind stay on one line: those that are spelled in one way, and brackets. -/
def TokenKind.staysOnLine : TokenKind → Bool
  | leftParen | rightParen | leftBrace | rightBrace | leftBracket | rightBracket => true
  | kind => kind.isSpelled

theorem TokenKind.staysOnLine_of_isSpelled {kind : TokenKind} (h : kind.isSpelled = true) :
    kind.staysOnLine = true := by
  cases kind <;> first | rfl | cases h

theorem not_staysOnLine_of_markup {kind : TokenKind} (h : Mode.markup.scans kind = true) :
    kind.staysOnLine = false := by
  cases kind <;> first | rfl | cases h

/-- Words, numbers, operators, brackets and marks stay on one line. -/
theorem scriptCut_oneLine {c : Char} (hc : c ≠ '\n') (cs : List Char) {kind : TokenKind}
    (hkind : (scriptCut c cs).kind = some kind) (hstays : kind.staysOnLine = true) :
    '\n' ∉ (scriptCut c cs).text := by
  obtain rfl : (scriptToken c cs).1 = kind := Option.some.inj hkind
  -- Newlines that are spelled as they are count as other line ends, too.
  have hself := Text.respell_self cs
  show '\n' ∉ (c :: cs).take (scriptToken c cs).2
  unfold scriptToken at hstays ⊢
  cases hclose : scriptCloseLength? (c :: cs) with
  | some n =>
    rw [hclose] at hstays
    cases hstays
  | none =>
    rw [hclose] at hstays
    have hquote : Text.isQuoteMark c = false := by
      rw [Bool.eq_false_iff]
      intro hquote
      simp [plainToken, hquote, TokenKind.staysOnLine, TokenKind.isSpelled] at hstays
    cases hcomment : commentLength? (c :: cs) with
    | some n =>
      simp [plainToken_comment hcomment, TokenKind.staysOnLine, TokenKind.isSpelled] at hstays
    | none =>
      exact (plainToken_respell Text.lineEnd_newline hc hquote hcomment (by rw [hself, hcomment])).2

theorem scanFrom_oneLine (file : Option String) (mode : Mode) (place : Cursor)
    (input : List Char) : ∀ t ∈ (scanFrom file mode place input).tokens,
      t.kind.staysOnLine = true → '\n' ∉ t.text.toList := by
  fun_induction scanFrom file mode place input with
  | case1 mode place input start h =>
    intro t ht hstays
    rw [List.mem_singleton.1 ht] at hstays
    cases hstays
  | case2 mode place input start c cs h cut lead stop next hlt tail ih =>
    intro t ht hstays
    rcases List.mem_append.1 ht with hcut | hmem
    · obtain ⟨kind, hkind, rfl⟩ := Option.map_eq_some_iff.1 (Option.mem_toList.1 hcut)
      have hnewline : c ≠ '\n' := by
        have hstop := List.head?_dropWhile_not isSkipped input
        rw [h] at hstop
        rintro rfl
        cases hstop
      have hscans := mode.scans_cut c cs kind hkind
      rw [Token.at, String.toList_ofList]
      cases mode with
      | markup =>
        have hkind : kind.staysOnLine = false := not_staysOnLine_of_markup hscans
        exact absurd (hkind.symm.trans hstays) Bool.false_ne_true
      | script => exact scriptCut_oneLine hnewline cs hkind hstays
    · exact ih t hmem hstays

/-! ## Both sources -/

/-- The strings of a source are closed, each on its line. -/
def StringsClosed (ts : List Token) : Prop :=
  ∀ t ∈ ts, t.kind = .string → isClosedString t.text.toList = true ∧ '\n' ∉ t.text.toList

theorem StringsClosed.not_goesOnBelow {ts : List Token} (h : StringsClosed ts) :
    ∀ t ∈ ts, t.goesOnBelow = false := by
  intro t ht
  by_cases hkind : t.kind = .string
  · simp [Token.goesOnBelow, endsWithLine_of_not_mem (h t ht hkind).2]
  · simp [Token.goesOnBelow, hkind]

theorem resumes_withReturns (source : String) :
    Resumes .start source.toList .start (withReturns source).toList := by
  rw [withReturns, String.toList_ofList]
  exact Resumes.of_respell ⟨rfl, rfl⟩ source.toList

/-- The tokens of a source with returns are those of the source, as a view shows them, when its
strings are closed. -/
theorem tokenize_shown {source : String} {file : Option String}
    (hclosed : StringsClosed (tokenize source file)) :
    TokensShown .returned (tokenize source file) (tokenize (withReturns source) file) := by
  have hagree := scanFrom_agree file file .markup .start source.toList .start _
    (resumes_withReturns source) hclosed.not_goesOnBelow
  have hlines := scanFrom_oneLine file .markup .start source.toList
  have hboth := (List.forall₂_and_left _ _).2
    ⟨fun t ht => And.intro (hclosed t ht) (hlines t ht), hagree⟩
  refine hboth.imp fun t t' ⟨⟨hstring, hline⟩, h⟩ => ?_
  exact {
    kind := h.kind
    line := h.line
    text := fun hcomment => by
      apply String.toList_injective
      rw [h.text hcomment hstring, View.toList_text]
      rfl
    spelled := fun hspelled =>
      View.text_of_not_mem _ (hline (TokenKind.staysOnLine_of_isSpelled hspelled))
    within := fun _ _ _ => rfl }

/-! ## Diagnostics -/

/-- A diagnostic without its wording: its line, number and category. -/
def Diagnostic.mark (d : Diagnostic) : Int × Int × Category := (d.line, d.number, d.category)

theorem map_mark_numberFrom {fs fs' : List Finding} (h : signs .bare fs' = signs .bare fs)
    (number : Int) :
    (numberFrom number fs').map Diagnostic.mark = (numberFrom number fs).map Diagnostic.mark := by
  induction fs generalizing fs' number with
  | nil =>
    cases fs' with
    | nil => rfl
    | cons f' fs' => cases h
  | cons f fs ih =>
    cases fs' with
    | nil => cases h
    | cons f' fs' =>
      obtain ⟨hhead, htail⟩ := List.cons.inj h
      obtain ⟨hline, hcategory⟩ := Prod.mk.inj hhead
      rw [View.line_bare, View.line_bare] at hline
      rw [numberFrom, numberFrom, List.map_cons, List.map_cons, ih htail]
      simp only [Diagnostic.mark, hline, hcategory]

/-- When strings are closed, the diagnostics of a page do not depend on its line ends. -/
theorem diagnostics_withReturns {source : String} {file : Option String}
    (hclosed : StringsClosed (tokenize source file)) {config : Config}
    (hlimit : 1 ≤ config.maxExpressionTokens)
    (hvoid : ∀ name ∈ config.voidElements, '\n' ∉ name.toList) :
    ∃ a a', analyze? config source file = some a ∧
      analyze? config (withReturns source) file = some a' ∧
      a'.diagnostics.map Diagnostic.mark = a.diagnostics.map Diagnostic.mark := by
  obtain ⟨page, a, hpage, ha, hfound⟩ := analyze?_eq hlimit source file
  obtain ⟨page', a', hpage', ha', hfound'⟩ := analyze?_eq hlimit (withReturns source) file
  have hkeeps : View.returned.Keeps config :=
    fun name hname => View.text_of_not_mem _ (hvoid name hname)
  obtain ⟨hview, hids⟩ := hpage.view hkeeps rfl (tokenize_shown hclosed) hpage'
  refine ⟨a, a', ha, ha', ?_⟩
  rw [hfound, hfound']
  exact map_mark_numberFrom
    (signs_findingsOf .returned rfl config hids (fun _ _ => rfl) hview Pass.all) 1

/-- **When a page does not depend on its line ends.** With a carriage return in front of every
newline the tokens are of the same kinds at the same places, exactly when no string goes on behind an
escaped newline. When moreover all strings are closed, the diagnostics have the same lines, numbers
and categories. -/
theorem lineEnds_independent (source : String) (file : Option String) :
    (List.Forall₂ Token.Alike (tokenize source file) (tokenize (withReturns source) file) ↔
      ∀ t ∈ tokenize source file, t.goesOnBelow = false) ∧
    ∀ config : Config, 1 ≤ config.maxExpressionTokens →
      (∀ name ∈ config.voidElements, '\n' ∉ name.toList) →
      StringsClosed (tokenize source file) →
      ∃ a a', analyze? config source file = some a ∧
        analyze? config (withReturns source) file = some a' ∧
        a'.diagnostics.map Diagnostic.mark = a.diagnostics.map Diagnostic.mark := by
  refine ⟨⟨?_, ?_⟩, fun config hlimit hvoid hclosed => diagnostics_withReturns hclosed hlimit hvoid⟩
  · exact not_goesOnBelow_of_alike file file .markup .start source.toList .start _
      (resumes_withReturns source)
  · intro hends
    have hagree := scanFrom_agree file file .markup .start source.toList .start _
      (resumes_withReturns source) hends
    exact hagree.imp fun _ _ => Token.Agrees.alike

/-- A tag over three lines, both kinds of comment, a string and a closing tag over two lines. -/
theorem tagAndScript_independent :
    let source := "<p\nid='a\nb'>\n<script>// c\nlet x1 = f(\"q\")\n/* d\n*/ x1 = 2\n</script\n>"
    List.Forall₂ Token.Alike (tokenize source none) (tokenize (withReturns source) none) ∧
      (1 : Int) ≤ ({} : Config).maxExpressionTokens ∧
      (∀ name ∈ ({} : Config).voidElements, '\n' ∉ name.toList) ∧
      StringsClosed (tokenize source none) ∧
      ∃ a a', analyze? {} source none = some a ∧ analyze? {} (withReturns source) none = some a' ∧
        a'.diagnostics.map Diagnostic.mark = a.diagnostics.map Diagnostic.mark := by
  intro source
  have hends : ∀ t ∈ tokenize source none, t.goesOnBelow = false := by decide +kernel
  have hlimit : (1 : Int) ≤ ({} : Config).maxExpressionTokens := by decide
  have hvoid : ∀ name ∈ ({} : Config).voidElements, '\n' ∉ name.toList := by decide
  have hclosed : StringsClosed (tokenize source none) := by
    unfold StringsClosed
    decide +kernel
  obtain ⟨htokens, hdiagnostics⟩ := lineEnds_independent source none
  exact ⟨htokens.2 hends, hlimit, hvoid, hclosed, hdiagnostics {} hlimit hvoid hclosed⟩

/-- A string that goes on behind an escaped newline. -/
example : (tokenize "<script>\"a\\\nb\"</script>" none).any Token.goesOnBelow = true := by
  decide +kernel

end PageLint
