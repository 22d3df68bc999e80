import PageLint.Proofs.Comments.Statements

/-!
# Pages and comments

A page whose comments are well placed has the same contents as the page without them: its document,
the ids of its elements and the names it declares. What is noted on the way may differ, for a
comment can keep an expression from being cut.

* `readFrom?_agree` — reading goes on alike from what differs only in its events
* `readTokens?_agree` — so pages have the same contents
-/

namespace PageLint

namespace Progress

/-- What has been read, without the events. -/
def silent (p : Progress) : Progress := { p with events := [] }

/-! ## Steps without their events -/

theorem closeTag_silent (p : Progress) (name : String) (location : Location) :
    (p.closeTag name location).silent = (p.silent.closeTag name location).silent := by
  unfold closeTag
  cases h : p.forest.close? name <;> simp [silent, note, h]

theorem readSpan_silent (config : Config) (token : Token) (p : Progress) (span : Markup.Span) :
    (p.readSpan config token span).silent = (p.silent.readSpan config token span).silent := by
  unfold readSpan
  simp only
  split
  · exact closeTag_silent p _ _
  · split <;> rfl

theorem foldl_readSpan_silent (config : Config) (token : Token) (spans : List Markup.Span)
    (p : Progress) : (spans.foldl (readSpan config token) p).silent =
      (spans.foldl (readSpan config token) p.silent).silent := by
  induction spans generalizing p with
  | nil => rfl
  | cons span spans ih =>
    rw [List.foldl_cons, List.foldl_cons, ih, readSpan_silent, ← ih]

theorem readMarkup_silent (config : Config) (p : Progress) (t : Token) :
    (p.readMarkup config t).silent = (p.silent.readMarkup config t).silent := by
  unfold readMarkup
  cases t.kind with
  | tagOpen => exact foldl_readSpan_silent config t _ p
  | tagClose => exact closeTag_silent p _ _
  | doctype =>
    show (if p.doctype.isNone then _ else p).silent =
      (if p.doctype.isNone then _ else p.silent).silent
    split <;> rfl
  | text =>
    simp only
    split <;> rfl
  | _ => rfl

theorem closeScript_silent (p : Progress) (region : Region) :
    (p.closeScript region).silent = (p.silent.closeScript region).silent := by
  by_cases ho : p.forest.openTags.isEmpty = true
  · by_cases hs : region.statements.isEmpty = true <;> simp [closeScript, silent, note, ho, hs]
  · simp [closeScript, silent, ho]

theorem finish_silent (p : Progress) : p.finish.silent = p.silent.finish.silent := by
  cases h : p.region with
  | none => simp [finish, silent, h]
  | some region =>
    have hs : p.silent.region = some region := h
    simp only [finish, h, hs]
    exact closeScript_silent p region

/-- A step that does the same without events takes equal progress to equal progress. -/
theorem silent_congr {f : Progress → Progress} (hf : ∀ p, (f p).silent = (f p.silent).silent)
    {p q : Progress} (h : p.silent = q.silent) : (f p).silent = (f q).silent := by
  rw [hf p, hf q, h]

/-- Harvests that agree are collected alike. -/
theorem collect_agree {p q : Progress} (h : p.silent = q.silent) (region : Region) {a b : Harvest}
    (hab : a.Agree b) : (p.collect region a).silent = (q.collect region b).silent := by
  have hcollect : ∀ (p : Progress) (a : Harvest), (p.collect region a).silent =
      p.silent.collect region { a with events := [] } := fun _ _ => rfl
  rw [hcollect, hcollect, h]
  simp only [collect, hab.statements, hab.declared]

/-! ## Scripts begin and end -/

theorem closeTag_region (p : Progress) (name : String) (location : Location) :
    (p.closeTag name location).region = p.region := by
  unfold closeTag
  split <;> rfl

theorem foldl_readSpan_region (config : Config) (token : Token) (spans : List Markup.Span)
    (p : Progress) : (spans.foldl (readSpan config token) p).region = p.region := by
  induction spans generalizing p with
  | nil => rfl
  | cons span spans ih =>
    rw [List.foldl_cons, ih, readSpan]
    split
    · exact closeTag_region p _ _
    · split <;> rfl

/-- Outside scripts, a script begins with its opening tag only. -/
theorem readMarkup_region (config : Config) {p : Progress} (h : p.region = none) (t : Token) :
    (p.readMarkup config t).region.isSome = (t.kind == .scriptOpen) := by
  unfold readMarkup
  cases t.kind with
  | tagOpen => simp only [foldl_readSpan_region, h]; rfl
  | tagClose => simp only [closeTag_region, h]; rfl
  | doctype =>
    simp only
    split <;> rw [h] <;> rfl
  | text =>
    simp only
    split <;> rw [h] <;> rfl
  | scriptOpen => rfl
  | _ => simp only [h]; rfl

theorem closeScript_region (p : Progress) (region : Region) :
    (p.closeScript region).region = none := by
  unfold closeScript
  simp only
  split
  · split <;> rfl
  · rfl

end Progress

/-! ## Reading on inside a script -/

section Script

variable {config : Config} {p : Progress} {region : Region} (h : p.region = some region)
  {t : Token} {ts : List Token}

include h

/-- A token that starts no statement is passed over. -/
theorem readFrom?_pass (hlimit : 1 ≤ config.maxExpressionTokens) (he : t.kind ≠ .eof)
    (hc : t.kind ≠ .scriptClose) (hk : t.kind ≠ .keyword) (hi : t.kind ≠ .identifier) :
    p.readFrom? config (t :: ts) = p.readFrom? config ts := by
  rw [Progress.readFrom?_statement h hlimit he hc (readStatement?_of_other config hk hi ts),
    Progress.collect_nothing h]

theorem readFrom?_semicolon (hlimit : 1 ≤ config.maxExpressionTokens)
    (ht : t.isMark ";" = true) : p.readFrom? config (t :: ts) = p.readFrom? config ts := by
  have hk : t.kind = .punctuation := by
    simp only [Token.isMark, Bool.and_eq_true, beq_iff_eq] at ht
    exact ht.1
  exact readFrom?_pass h hlimit (by simp [hk]) (by simp [hk]) (by simp [hk]) (by simp [hk])

end Script

/-- The place of the next token after what has been read. -/
def Progress.spot (p : Progress) : Spot := if p.region.isSome then .between else .markup

/-- A comment is passed over wherever it is read as a token of its own. -/
theorem readFrom?_comment {config : Config} (hlimit : 1 ≤ config.maxExpressionTokens) {t : Token}
    (hc : t.isComment = true) (p : Progress) (ts : List Token) :
    p.readFrom? config (t :: ts) = p.readFrom? config ts := by
  have hk : t.kind = .comment := by simpa [Token.isComment] using hc
  cases h : p.region with
  | none =>
    rw [Progress.readFrom?_cons (by simp [hk]), Progress.turn?, h]
    simp [Progress.readMarkup, hk]
  | some region =>
    exact readFrom?_pass h hlimit (by simp [hk]) (by simp [hk]) (by simp [hk]) (by simp [hk])

/-- **Reading a page past its comments.** From what differs in its events only, reading tokens and
reading them without comments gives what differs in its events only. -/
theorem readFrom?_agree {config : Config} (hlimit : 1 ≤ config.maxExpressionTokens)
    {p q : Progress} (hpq : p.silent = q.silent) (ts : List Token)
    (h : placed p.spot ts = true) :
    ∃ p' q', p.readFrom? config ts = some p' ∧
      q.readFrom? config (withoutComments ts) = some q' ∧ p'.silent = q'.silent := by
  have hregion : q.region = p.region := (congrArg Progress.region hpq).symm
  match ts with
  | [] =>
    rw [withoutComments_nil, Progress.readFrom?, Progress.readFrom?]
    exact ⟨_, _, rfl, rfl, Progress.silent_congr Progress.finish_silent hpq⟩
  | t :: ts =>
    by_cases hc : t.isComment = true
    · rw [placed_comment hc, Bool.and_eq_true] at h
      rw [readFrom?_comment hlimit hc, withoutComments_comment hc]
      exact readFrom?_agree hlimit hpq ts h.2
    have hc : t.isComment = false := by simpa using hc
    rw [withoutComments_cons hc]
    by_cases he : t.kind = .eof
    · rw [Progress.readFrom?, Progress.readFrom?, if_pos (by simpa using he),
        if_pos (by simpa using he)]
      exact ⟨_, _, rfl, rfl, Progress.silent_congr Progress.finish_silent hpq⟩
    cases hr : p.region with
    | none =>
      rw [Progress.readFrom?_cons he, Progress.readFrom?_cons he, Progress.turn?, Progress.turn?,
        hregion, hr]
      refine readFrom?_agree hlimit
        (Progress.silent_congr (Progress.readMarkup_silent config · t) hpq) ts ?_
      rw [placed_cons hc he] at h
      rw [Progress.spot, Progress.readMarkup_region config hr]
      simpa [Progress.spot, hr, Spot.next] using h
    | some region =>
      have hbetween : placed .between (t :: ts) = true := by simpa [Progress.spot, hr] using h
      by_cases hclose : t.kind = .scriptClose
      · rw [Progress.readFrom?_cons he, Progress.readFrom?_cons he, Progress.turn?,
          Progress.turn?, hregion, hr]
        simp only [hclose, beq_self_eq_true, if_true, Option.bind_some]
        refine readFrom?_agree hlimit
          (Progress.silent_congr (Progress.closeScript_silent · region) hpq) ts ?_
        rw [placed_cons hc he] at hbetween
        simpa [Progress.spot, Progress.closeScript_region, Spot.next, Spot.after, hclose]
          using hbetween
      by_cases hb : t.kind.isBoundary = true
      · have hbrace : t.kind = .leftBrace ∨ t.kind = .rightBrace := by
          cases hk : t.kind <;> simp_all [TokenKind.isBoundary]
        have hk : t.kind ≠ .keyword ∧ t.kind ≠ .identifier := by
          rcases hbrace with hk | hk <;> simp [hk]
        rw [readFrom?_pass hr hlimit he hclose hk.1 hk.2,
          readFrom?_pass (hregion.trans hr) hlimit he hclose hk.1 hk.2]
        refine readFrom?_agree hlimit hpq ts ?_
        rw [placed_cons hc he] at hbetween
        rcases hbrace with hk | hk <;>
          simpa [Progress.spot, hr, Spot.next, Spot.after, hk] using hbetween
      · have hb : t.kind.isBoundary = false := by simpa using hb
        obtain ⟨a, b, ha, hb', hagree⟩ := readStatement?_agree hlimit hc hb hbetween
        have hlt : a.rest.length < (t :: ts).length :=
          Nat.lt_succ_of_le (readStatement?_suffix_tail hlimit ha).length_le
        have hplaced : placed (p.collect region a).spot a.rest = true := hagree.placed
        obtain ⟨p', q', hp', hq', hsilent⟩ := readFrom?_agree hlimit
          (Progress.collect_agree hpq region hagree) a.rest hplaced
        rw [Progress.readFrom?_statement hr hlimit he hclose ha,
          Progress.readFrom?_statement (hregion.trans hr) hlimit he hclose hb']
        refine ⟨p', q', hp', ?_, hsilent⟩
        -- Without the comment in front of it, a semicolon went with the statement.
        rcases hagree.rest with heq | ⟨u, hu, heq⟩
        · rw [← heq, hq']
        · rw [heq] at hq'
          rw [← hq']
          exact (readFrom?_semicolon rfl hlimit hu).symm
termination_by ts.length
decreasing_by all_goals first | exact Nat.lt_succ_self _ | exact hlt

/-! ## Contents of pages -/

/-- Whether two pages have the same document, ids and declared names. -/
def Page.SameContents (a b : Page) : Prop :=
  a.document = b.document ∧ a.elementIds = b.elementIds ∧ a.declaredNames = b.declaredNames

/-- The contents of a page do not depend on the events. -/
theorem Progress.sameContents {p q : Progress} (h : p.silent = q.silent) {file : Option String}
    {page page' : Page} (hp : p.page? file = some page) (hq : q.page? file = some page') :
    page.SameContents page' := by
  have hdocument : p.document? file = q.document? file := by
    show p.silent.document? file = q.silent.document? file
    rw [h]
  have hids : p.silent.elementIds = q.silent.elementIds := by rw [h]
  have hnames : p.silent.declaredNames = q.silent.declaredNames := by rw [h]
  obtain ⟨d, hd, rfl⟩ := Option.map_eq_some_iff.1 hp
  obtain ⟨d', hd', rfl⟩ := Option.map_eq_some_iff.1 hq
  rw [hdocument, hd'] at hd
  exact ⟨(Option.some.inj hd).symm, hids, hnames⟩

/-- **A page with well placed comments has the contents of the page without them.** -/
theorem readTokens?_agree {config : Config} (hlimit : 1 ≤ config.maxExpressionTokens)
    {ts : List Token} (h : placed .markup ts = true) (file : Option String) :
    ∃ page page', readTokens? config ts file = some page ∧
      readTokens? config (withoutComments ts) file = some page' ∧ page.SameContents page' := by
  obtain ⟨p, q, hp, hq, hpq⟩ := readFrom?_agree hlimit (p := {}) rfl ts h
  obtain ⟨page, hpage⟩ := ((Progress.numbered_empty []).readFrom? hp).page?_isSome file
  obtain ⟨page', hpage'⟩ := ((Progress.numbered_empty []).readFrom? hq).page?_isSome file
  refine ⟨page, page', ?_, ?_, Progress.sameContents hpq hpage hpage'⟩
  · rw [readTokens?, hp, Option.bind_some, hpage]
  · rw [readTokens?, hq, Option.bind_some, hpage']

end PageLint
