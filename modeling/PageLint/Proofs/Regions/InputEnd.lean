import PageLint.Proofs.Regions.Chunks
import PageLint.Tree.Walk

/-!
# The end of the input

Tokens may stop at the token for the end of the input or without one, and nothing behind that token
is looked at. In all three cases a page has the same contents. The readers ask for the next token
in many places, and not all of them take a missing token for the end of the input: a name that no
token follows is an expression of its own, in front of the end of the input it is a run of one
operand. That both are the same is the only place where expressions have to be allowed a token.

* `Page.ReadAlike` — pages that differ in nothing but what was noted on the way
* `Page.Shows.readAlike` — pages that show the same are such pages
* `readTokens?_inputEnd` — the three ways in which tokens may end
-/

namespace PageLint

/-- Two pages with the same contents and the same tags left open. -/
structure Page.ReadAlike (a b : Page) : Prop where
  contents : a.SameContents b
  openTags : a.openTags = b.openTags

/-- Pages that show the same have been read alike. -/
theorem Page.Shows.readAlike {file : Option String} {a b : Page} {p : Progress}
    (ha : a.Shows file p) (hb : b.Shows file p) : a.ReadAlike b where
  contents :=
    ⟨Option.some.inj (ha.document.symm.trans hb.document), ha.elementIds.trans hb.elementIds.symm,
      ha.declaredNames.trans hb.declaredNames.symm⟩
  openTags := ha.openTags.trans hb.openTags.symm

/-- What has been read of a page does not tell how its tokens end. -/
theorem progressOf_append_eof (config : Config) {eof : Token} (heof : eof.kind = .eof)
    (ts rest : List Token) : progressOf config (ts ++ eof :: rest) = progressOf config ts := by
  rw [progressOf, progressOf, chunks_append_eof heof]

/-- **All ends of the input are alike**: tokens without a token for the end of the input, with one
at the end, and with one and anything behind it are read as pages with the same document, the same
ids, the same declared names and the same tags left open. -/
theorem readTokens?_inputEnd {config : Config} (hlimit : 1 ≤ config.maxExpressionTokens)
    {eof : Token} (heof : eof.kind = .eof) (ts rest : List Token) (file : Option String) :
    ∃ bare ended followed, readTokens? config ts file = some bare ∧
      readTokens? config (ts ++ [eof]) file = some ended ∧
      readTokens? config (ts ++ eof :: rest) file = some followed ∧
      bare.ReadAlike ended ∧ bare.ReadAlike followed := by
  obtain ⟨bare, hbare, hshows⟩ := readTokens?_shows hlimit ts file
  obtain ⟨ended, hended, hshows'⟩ := readTokens?_shows hlimit (ts ++ [eof]) file
  obtain ⟨followed, hfollowed, hshows''⟩ := readTokens?_shows hlimit (ts ++ eof :: rest) file
  rw [progressOf_append_eof config heof] at hshows' hshows''
  exact ⟨bare, ended, followed, hbare, hended, hfollowed, hshows.readAlike hshows',
    hshows.readAlike hshows''⟩

/-- Where expressions may take no token, a name is read at the end of the tokens and lost in front of
the end of the input. -/
example :
    let tokens : List Token :=
      [.bare .tagOpen "<body>", .bare .scriptOpen "<script>", .bare .identifier "x"]
    let nodes (ts : List Token) : Option (List NodeKind) :=
      (readTokens? { maxExpressionTokens := 0 } ts none).map fun page =>
        page.document.toNode.walk.map Node.kind
    nodes tokens = some [.document, .tag, .script, .identifier] ∧
      nodes (tokens ++ [.bare .eof ""]) = some [.document, .tag, .script] := by
  decide +kernel

/-- A page that breaks off behind the first argument of a call. -/
def brokenCall : List Token :=
  [.bare .tagOpen "<body>", .bare .scriptOpen "<script>", .bare .identifier "x",
    .bare .operator "=", .bare .identifier "f", .bare .leftParen "(", .bare .identifier "y"]

/-- Behind the end of the input the call goes on and its tags are closed. -/
theorem brokenCall_inputEnd : 1 ≤ ({} : Config).maxExpressionTokens ∧
    (Token.bare .eof "").kind = .eof ∧
    ∃ bare ended followed, readTokens? {} brokenCall none = some bare ∧
      readTokens? {} (brokenCall ++ [.bare .eof ""]) none = some ended ∧
      readTokens? {} (brokenCall ++ .bare .eof "" ::
        [.bare .identifier "z", .bare .rightParen ")", .bare .scriptClose "</script>",
          .bare .tagClose "</body>"]) none = some followed ∧
      bare.ReadAlike ended ∧ bare.ReadAlike followed ∧ bare.openTags = ["body"] := by
  obtain ⟨bare, ended, followed, hbare, hended, hfollowed, halike, halike'⟩ :=
    @readTokens?_inputEnd {} (by decide) (.bare .eof "") rfl brokenCall
      [.bare .identifier "z", .bare .rightParen ")", .bare .scriptClose "</script>",
        .bare .tagClose "</body>"] none
  have hopen : (readTokens? {} brokenCall none).map Page.openTags = some ["body"] := by
    decide +kernel
  rw [hbare] at hopen
  exact ⟨by decide, rfl, bare, ended, followed, hbare, hended, hfollowed, halike, halike',
    Option.some.inj hopen⟩

end PageLint
