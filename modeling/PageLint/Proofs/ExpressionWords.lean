import PageLint.Proofs.Grammar.Statements
import PageLint.Proofs.Settings

/-!
# Words that start an expression

Settings name the words that start an expression statement. A word other than `new` has no place in
an expression: reading takes it alone and gives nothing. So all that naming the word changes is
that a semicolon behind it goes with it in one turn of the loop, and not in the next one. Only
whether `new` is named can make a difference.

* `Config.NewAlike` — settings that agree on `new`, on the length of expressions and on the void
  elements
* `readStatement?_idle` — what a word gives that starts no statement
* `scriptFrom?_newAlike` — such settings read every script alike
* `readTokens?_newAlike` — and every page
-/

namespace PageLint

/-- Settings that agree on `new`, on how long an expression may get and on which elements never
have contents. -/
structure Config.NewAlike (c c' : Config) : Prop where
  limit : c'.maxExpressionTokens = c.maxExpressionTokens
  new : "new" ∈ c'.expressionKeywords ↔ "new" ∈ c.expressionKeywords
  voids : ∀ name, name ∈ c'.voidElements ↔ name ∈ c.voidElements

/-! ## Words without effect -/

/-- Whether a token is a keyword that starts neither a declaration nor a function nor an
expression. -/
def Token.isIdle (t : Token) : Bool :=
  t.kind == .keyword && !(["let", "var", "const", "function", "new"].contains t.text)

theorem not_text_of_isIdle {t : Token} (h : t.isIdle = true) : t.kind = .keyword ∧
    t.text ≠ "let" ∧ t.text ≠ "var" ∧ t.text ≠ "const" ∧ t.text ≠ "function" ∧ t.text ≠ "new" := by
  simpa [Token.isIdle] using h

/-- **A word that starts no statement gives nothing**; a semicolon behind it goes with it when the
settings name the word. -/
theorem readStatement?_idle {config : Config} (hlimit : 1 ≤ config.maxExpressionTokens) {t : Token}
    (h : t.isIdle = true) (ts : List Token) : readStatement? config t ts
      = some
        { rest := if config.expressionKeywords.contains t.text then dropSemicolon ts else ts } := by
  obtain ⟨hk, hlet, hvar, hconst, hfunction, hnew⟩ := not_text_of_isIdle h
  have hsimple : readSimple? config.maxExpressionTokens t ts = none := by
    simp [readSimple?, hk, hlet, hvar, hconst]
  simp only [readStatement?, hsimple, outerExpression_keyword hlimit hk hnew]
  simp only [hk, hfunction, beq_self_eq_true, Bool.true_and, beq_iff_eq, if_false]
  split <;> rfl

/-- A semicolon in front of a script makes no difference. -/
theorem scriptFrom?_dropSemicolon {config : Config} (hlimit : 1 ≤ config.maxExpressionTokens)
    (ts : List Token) : scriptFrom? config (dropSemicolon ts) = scriptFrom? config ts := by
  unfold dropSemicolon
  split
  · rfl
  · rename_i t ts
    split
    · rename_i hmark
      have hk : t.kind = .punctuation := by
        rw [Token.isMark, Bool.and_eq_true, beq_iff_eq] at hmark
        exact hmark.1
      exact (scriptFrom?_pass hlimit (by simp [hk]) (by simp [hk]) (by simp [hk]) (by simp [hk])
        ts).symm
    · rfl

/-- A script goes on behind a word that starts no statement, whether the settings name it or not. -/
theorem scriptFrom?_idle {config : Config} (hlimit : 1 ≤ config.maxExpressionTokens) {t : Token}
    (h : t.isIdle = true) (ts : List Token) :
    scriptFrom? config (t :: ts) = scriptFrom? config ts := by
  obtain ⟨hk, -⟩ := not_text_of_isIdle h
  have hrest : scriptFrom? config
      (if config.expressionKeywords.contains t.text then dropSemicolon ts else ts) =
        scriptFrom? config ts := by
    split
    · exact scriptFrom?_dropSemicolon hlimit ts
    · rfl
  rw [scriptFrom?_cons hlimit (by simp [hk]) (by simp [hk]), readStatement?_idle hlimit h,
    Option.bind_some, hrest]
  cases scriptFrom? config ts with
  | none => rfl
  | some found => simp [Harvest.append]

/-! ## Settings that agree on `new` -/

section Alike

variable {c c' : Config} (h : c.NewAlike c')

include h

/-- All other tokens start the same statement. -/
theorem readStatement?_newAlike {t : Token} (ht : t.isIdle = false) (ts : List Token) :
    readStatement? c' t ts = readStatement? c t ts := by
  by_cases hnew : t.text = "new"
  · have hkeyword : c'.expressionKeywords.contains t.text =
        c.expressionKeywords.contains t.text := by
      rw [Bool.eq_iff_iff, List.contains_iff_mem, List.contains_iff_mem, hnew]
      exact h.new
    simp only [readStatement?, h.limit, hkeyword]
  by_cases hk : t.kind = .keyword
  · have hword : t.text = "let" ∨ t.text = "var" ∨ t.text = "const" ∨ t.text = "function" := by
      simpa [Token.isIdle, hk, hnew, ← or_iff_not_imp_left] using ht
    rcases hword with hword | hword | hword | hword <;>
      simp [readStatement?, readSimple?, hk, hword, h.limit]
  · simp only [readStatement?, h.limit, beq_eq_false_iff_ne.2 hk, Bool.false_and]

variable (hlimit : 1 ≤ c.maxExpressionTokens)

include hlimit

/-- **Settings that agree on `new` read every script alike.** The runs need not go in step: where
only one of them takes a semicolon along, the other takes it in its next turn. -/
theorem scriptFrom?_newAlike (ts : List Token) : scriptFrom? c' ts = scriptFrom? c ts := by
  have hlimit' : 1 ≤ c'.maxExpressionTokens := h.limit ▸ hlimit
  match ts with
  | [] => rw [scriptFrom?_nil, scriptFrom?_nil]
  | t :: ts =>
    by_cases hend : t.kind = .eof ∨ t.kind = .scriptClose
    · rw [scriptFrom?, scriptFrom?, if_pos (by simpa using hend), if_pos (by simpa using hend)]
    obtain ⟨he, hc⟩ := not_or.1 hend
    cases hidle : t.isIdle with
    | true =>
      rw [scriptFrom?_idle hlimit' hidle, scriptFrom?_idle hlimit hidle]
      exact scriptFrom?_newAlike ts
    | false =>
      rw [scriptFrom?_cons hlimit' he hc, scriptFrom?_cons hlimit he hc,
        readStatement?_newAlike h hidle]
      refine Option.bind_congr fun found hfound => ?_
      have hlt : found.rest.length < (t :: ts).length :=
        Nat.lt_succ_of_le (readStatement?_suffix_tail hlimit hfound).length_le
      rw [scriptFrom?_newAlike found.rest]
termination_by ts.length
decreasing_by
  · exact hlt
  · exact Nat.lt_succ_self _

omit h in
/-- A script takes its first token, unless that ends it. -/
theorem scriptFrom?_rest_lt {t : Token} (he : t.kind ≠ .eof) (hc : t.kind ≠ .scriptClose)
    {ts : List Token} {found : Harvest} (hfound : scriptFrom? c (t :: ts) = some found) :
    found.rest.length < (t :: ts).length := by
  rw [scriptFrom?_cons hlimit he hc] at hfound
  obtain ⟨first, hfirst, hfound⟩ := Option.bind_eq_some_iff.1 hfound
  obtain ⟨more, hmore, rfl⟩ := Option.map_eq_some_iff.1 hfound
  obtain ⟨taken, htaken, -⟩ := (scriptFrom?_yields hmore).laid
  have hle : more.rest.length ≤ ts.length :=
    (List.IsSuffix.trans ⟨taken, htaken.symm⟩ (readStatement?_suffix_tail hlimit hfirst)).length_le
  exact Nat.lt_succ_of_le hle

namespace Progress

/-- **Settings that agree on `new` read on alike**, whatever has been read before. -/
theorem readFrom?_newAlike (p : Progress) (ts : List Token) :
    p.readFrom? c' ts = p.readFrom? c ts := by
  match ts with
  | [] => rw [readFrom?, readFrom?]
  | t :: ts =>
    by_cases he : t.kind = .eof
    · rw [readFrom?, readFrom?, if_pos (by simpa using he), if_pos (by simpa using he)]
    cases hregion : p.region with
    | none =>
      rw [readFrom?_cons he, readFrom?_cons he, turn?, turn?, hregion]
      simp only [readMarkup_alike h.voids, Option.bind_some]
      exact readFrom?_newAlike _ ts
    | some region =>
      by_cases hc : t.kind = .scriptClose
      · rw [readFrom?_cons he, readFrom?_cons he, turn?, turn?, hregion]
        simp only [hc, beq_self_eq_true, if_true, Option.bind_some]
        exact readFrom?_newAlike _ ts
      · -- The runs may part inside a script, and meet again at its end.
        rw [readFrom?_script hregion, readFrom?_script hregion, scriptFrom?_newAlike h hlimit]
        refine Option.bind_congr fun found hfound => ?_
        have hlt := scriptFrom?_rest_lt hlimit he hc hfound
        exact readFrom?_newAlike _ found.rest
termination_by ts.length
decreasing_by
  · exact Nat.lt_succ_self _
  · exact Nat.lt_succ_self _
  · exact hlt

end Progress

end Alike

/-- **Only whether `new` is named matters**: settings that agree on that, and on the length of
expressions and the void elements, read every list of tokens as the same page. -/
theorem readTokens?_newAlike {c c' : Config} (h : c.NewAlike c')
    (hlimit : 1 ≤ c.maxExpressionTokens) (ts : List Token) (file : Option String) :
    ∃ page, readTokens? c ts file = some page ∧ readTokens? c' ts file = some page := by
  obtain ⟨page, hpage, -⟩ := readTokens?_shows hlimit ts file
  refine ⟨page, hpage, ?_⟩
  rw [readTokens?, Progress.readFrom?_newAlike h hlimit]
  exact hpage

/-- The tokens of a page with words that start no statement, and an expression behind `new`. -/
def wordyTokens : List Token :=
  tokenize "<body><script>if; while; else new a + b;</script></body>" none

/-- Settings that name other words, `new` among them. -/
def otherWords : Config := { expressionKeywords := ["new", "while"] }

theorem wordyTokens_newAlike : ({} : Config).NewAlike otherWords ∧
    1 ≤ ({} : Config).maxExpressionTokens ∧
    (∃ page, readTokens? {} wordyTokens none = some page ∧
      readTokens? otherWords wordyTokens none = some page) ∧
    readTokens? { expressionKeywords := ["while"] } wordyTokens none ≠
      readTokens? {} wordyTokens none := by
  have halike : ({} : Config).NewAlike otherWords :=
    ⟨rfl, by decide, fun _ => Iff.rfl⟩
  refine ⟨halike, by decide, readTokens?_newAlike halike (by decide) wordyTokens none, ?_⟩
  -- Without `new` the two names make one expression, and with it two statements.
  intro heq
  have hkinds := congrArg (Option.map fun page : Page =>
    page.document.toNode.preorder.map Node.kind) heq
  exact absurd hkinds (by decide +kernel)

end PageLint
