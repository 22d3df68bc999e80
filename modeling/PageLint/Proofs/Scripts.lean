import PageLint.Proofs.Termination

/-!
# The script of a page

A script is read statement by statement up to its end. `scriptFrom?` is that loop on its own, with
what the statements give put together in one harvest, like the body of a function.

* `Progress.readFrom?_script` — reading a page inside a script is reading the script and going on
* `readTokens?_body` — the page of a body that holds one script
-/

namespace PageLint

/-- The statements of a script up to its end, which is left. -/
def scriptFrom? (config : Config) (ts : List Token) : Option Harvest :=
  match ts with
  | [] => some { rest := [] }
  | t :: ts =>
    if t.kind == .eof || t.kind == .scriptClose then some { rest := t :: ts }
    else
      match readStatement? config t ts with
      | none => none
      | some found =>
        if found.rest.length < (t :: ts).length then
          (scriptFrom? config found.rest).map found.append
        else (scriptFrom? config ts).map found.append
termination_by ts.length
decreasing_by all_goals simp only [List.length_cons] at *; omega

theorem readSimple?_of_other (limit : Int) {t : Token} (hk : t.kind ≠ .keyword)
    (hi : t.kind ≠ .identifier) (ts : List Token) : readSimple? limit t ts = none := by
  simp [readSimple?, hk, hi]

/-- Only keywords and identifiers start statements; other tokens are skipped. -/
theorem readStatement?_of_other (config : Config) {t : Token} (hk : t.kind ≠ .keyword)
    (hi : t.kind ≠ .identifier) (ts : List Token) :
    readStatement? config t ts = some { rest := ts } := by
  simp [readStatement?, readSimple?_of_other _ hk hi, hk]

/-- A script ends at its closing tag. -/
theorem scriptFrom?_close (config : Config) {close : Token} (h : close.kind = .scriptClose)
    (ts : List Token) : scriptFrom? config (close :: ts) = some { rest := close :: ts } := by
  rw [scriptFrom?, if_pos (by simp [h])]

theorem scriptFrom?_nil (config : Config) : scriptFrom? config [] = some { rest := [] } := by
  rw [scriptFrom?]

section Loop

variable {config : Config} (hlimit : 1 ≤ config.maxExpressionTokens) {t : Token}
  (he : t.kind ≠ .eof) (hc : t.kind ≠ .scriptClose)

include hlimit he hc

/-- A script is its first statement and what follows, when expressions may take a token. -/
theorem scriptFrom?_cons (ts : List Token) :
    scriptFrom? config (t :: ts) = (readStatement? config t ts).bind fun found =>
      (scriptFrom? config found.rest).map found.append := by
  rw [scriptFrom?, if_neg (by simp [he, hc])]
  cases hs : readStatement? config t ts with
  | none => rfl
  | some found =>
    have hlt : found.rest.length < (t :: ts).length :=
      Nat.lt_succ_of_le (readStatement?_suffix_tail hlimit hs).length_le
    simp only [hlt, if_true, Option.bind_some]

theorem scriptFrom?_statement {ts : List Token} {found more : Harvest}
    (hs : readStatement? config t ts = some found)
    (hmore : scriptFrom? config found.rest = some more) :
    scriptFrom? config (t :: ts) = some (found.append more) := by
  rw [scriptFrom?_cons hlimit he hc, hs, Option.bind_some, hmore, Option.map_some]

theorem scriptFrom?_pass (hk : t.kind ≠ .keyword) (hi : t.kind ≠ .identifier) (ts : List Token) :
    scriptFrom? config (t :: ts) = scriptFrom? config ts := by
  rw [scriptFrom?_cons hlimit he hc, readStatement?_of_other config hk hi, Option.bind_some]
  cases scriptFrom? config ts with
  | none => rfl
  | some found => simp [Harvest.append]

end Loop

namespace Progress

theorem collect_nothing {p : Progress} {region : Region} (h : p.region = some region)
    (ts : List Token) : p.collect region { rest := ts } = p := by
  cases p
  simp only at h
  simp [collect, h]

theorem collect_append (p : Progress) (region : Region) (a b : Harvest) :
    p.collect region (a.append b) = (p.collect region a).collect
      { region with statements := region.statements ++ a.statements } b := by
  simp [collect, Harvest.append, List.append_assoc]

/-- A statement of a script is read, and then the rest of the page. -/
theorem readFrom?_statement {config : Config} {p : Progress} {region : Region}
    (h : p.region = some region) (hlimit : 1 ≤ config.maxExpressionTokens) {t : Token}
    (he : t.kind ≠ .eof) (hc : t.kind ≠ .scriptClose) {ts : List Token} {found : Harvest}
    (hs : readStatement? config t ts = some found) :
    p.readFrom? config (t :: ts) = (p.collect region found).readFrom? config found.rest := by
  have hlt : found.rest.length < (t :: ts).length :=
    Nat.lt_succ_of_le (readStatement?_suffix_tail hlimit hs).length_le
  rw [readFrom?_cons he, turn?, h]
  simp only
  rw [if_neg (by simpa using hc), hs, Option.map_some, Option.bind_some, if_pos hlt]

/-- **Inside a script, reading a page is reading the script and going on behind it.** -/
theorem readFrom?_script {config : Config} {p : Progress} {region : Region}
    (h : p.region = some region) (ts : List Token) :
    p.readFrom? config ts = (scriptFrom? config ts).bind fun found =>
      (p.collect region found).readFrom? config found.rest := by
  match ts with
  | [] => rw [scriptFrom?, Option.bind_some, collect_nothing h]
  | t :: ts =>
    by_cases hend : (t.kind == .eof || t.kind == .scriptClose) = true
    · rw [scriptFrom?, if_pos hend, Option.bind_some, collect_nothing h]
    · rw [scriptFrom?, if_neg hend]
      rw [Bool.or_eq_true, not_or, beq_iff_eq] at hend
      rw [readFrom?_cons hend.1, turn?, h]
      simp only
      rw [if_neg hend.2]
      cases hs : readStatement? config t ts with
      | none => rfl
      | some found =>
        simp only [Option.map_some, Option.bind_some]
        -- The statements so far stay in front of those of the rest.
        have hgo : ∀ rest : List Token, rest.length < (t :: ts).length →
            (p.collect region found).readFrom? config rest =
              ((scriptFrom? config rest).map found.append).bind fun f =>
                (p.collect region f).readFrom? config f.rest := by
          intro rest hlt
          rw [readFrom?_script (p := p.collect region found) rfl rest, Option.bind_map]
          refine Option.bind_congr fun f _ => ?_
          rw [Function.comp_apply, collect_append]
          rfl
        split
        · rename_i hlt
          exact hgo found.rest hlt
        · exact hgo ts (Nat.lt_succ_self _)
termination_by ts.length
decreasing_by exact hlt

/-! ## A body with one script -/

/-- The opening of a body without attributes, the first tag of its page. -/
def bodyOpening (body : Token) : Opening :=
  { serial := 0, name := "body", location := body.location }

theorem readMarkup_body {config : Config} (hvoid : "body" ∉ config.voidElements)
    {body : Token} (hk : body.kind = .tagOpen) (ht : body.text = "<body>") (events : List Event) :
    ({ events } : Progress).readMarkup config body =
      { forest := { openTags := { frames := [{ opening := bodyOpening body }] } }
        nextSerial := 1
        events } := by
  have hspans : Markup.spans "<body>".toList = [{ offset := 0, text := "<body>".toList }] := by
    have hlength : Markup.spanTailLength none ['b', 'o', 'd', 'y', '>'] = 5 := by decide
    have hblank : Text.isBlank '<' = false := by decide
    show Markup.spansFrom 0 ['<', 'b', 'o', 'd', 'y', '>'] = _
    rw [Markup.spansFrom]
    simp only [hlength, List.all_cons, hblank, Bool.false_and, Bool.false_eq_true, if_false]
    show _ :: Markup.spansFrom 6 [] = _
    rw [Markup.spansFrom]
    rfl
  have hread : Markup.TagText.read? "<body>".toList =
      some { name := "body".toList, attributes := [], selfClosing := false } := by
    decide +kernel
  have hclosing : Markup.isClosing "<body>".toList = false := by decide +kernel
  rw [readMarkup, hk, ht]
  simp only [hspans, List.foldl_cons, List.foldl_nil, readSpan, hread, hclosing]
  simp [openTag, openingOf, hvoid, Forest.openFrame, OpenTags.push, bodyOpening, idsOf]

/-- What has been read of a page up to the end of the script in its body. -/
def inBody (body opening : Token) (events : List Event) (found : Harvest) : Progress :=
  { forest := { openTags := { frames := [{ opening := bodyOpening body }] } }
    nextSerial := 1
    declaredNames := found.declared
    region := some { location := opening.location, statements := found.statements }
    events := events ++ found.events }

section Body

variable {config : Config} (hvoid : "body" ∉ config.voidElements) {body opening : Token}
  (hk : body.kind = .tagOpen) (ht : body.text = "<body>") (ho : opening.kind = .scriptOpen)

include hvoid hk ht ho

/-- The tags in front of a script open the body and the script. -/
theorem readFrom?_openings (events : List Event) (ts : List Token) :
    ({ events } : Progress).readFrom? config (body :: opening :: ts) =
      (inBody body opening events { rest := ts }).readFrom? config ts := by
  rw [readFrom?_cons (by simp [hk])]
  show (({ events } : Progress).readMarkup config body).readFrom? config (opening :: ts) = _
  rw [readMarkup_body hvoid hk ht, readFrom?_cons (by simp [ho])]
  simp only [turn?, readMarkup, ho, Option.bind_some, inBody, List.append_nil]

/-- A body with a script is read by reading the script. -/
theorem readFrom?_body (events : List Event) (ts : List Token) :
    ({ events } : Progress).readFrom? config (body :: opening :: ts) =
      (scriptFrom? config ts).bind fun found =>
        (inBody body opening events found).readFrom? config found.rest := by
  rw [readFrom?_openings hvoid hk ht ho, readFrom?_script rfl]
  simp [collect, inBody]

end Body

/-- The body of a page around the statements of its script. -/
def bodyNode (body opening : Token) (statements : List Node) : Node :=
  (bodyOpening body).toTag [.script { location := opening.location } statements]

/-- What has been read is a body with one script and nothing else. -/
structure IsBody (body opening : Token) (found : Harvest) (p : Progress) : Prop where
  frames : p.forest.frames = [{
    opening := bodyOpening body
    contents := [.leaf (.script { location := opening.location } found.statements)] }]
  root : p.rootSerial = none
  ids : p.elementIds = []
  names : p.declaredNames = found.declared

/-- The page of a body with one script. -/
theorem IsBody.page? {p : Progress} {body opening : Token} {found : Harvest}
    (h : p.IsBody body opening found) (file : Option String) :
    ∃ page, p.page? file = some page ∧
      page.document.children = [bodyNode body opening found.statements] ∧
      page.elementIds = [] ∧ page.declaredNames = found.declared := by
  have hnodup : ((p.forest.frames.flatMap Frame.entries).map Prod.fst).Nodup := by
    simp [h.frames, Frame.entries_eq, Content.entriesOf, Content.entries]
  have hfrozen := freeze?_eq_some hnodup
  rw [Progress.page?, document?, hfrozen, h.root, h.frames]
  exact ⟨_, rfl, rfl, h.ids, h.names⟩

/-- The end of the tokens ends the script and the body. -/
theorem readFrom?_inBody_nil (config : Config) (body opening : Token) (events : List Event)
    (found : Harvest) : ∃ q, (inBody body opening events found).readFrom? config [] = some q ∧
      q.IsBody body opening found := by
  rw [readFrom?]
  exact ⟨_, rfl, rfl, rfl, rfl, rfl⟩

/-- The closing tags of the script and the body end them. -/
theorem readFrom?_inBody_close (config : Config) (body opening : Token) (events : List Event)
    (found : Harvest) {close last eof : Token} (hc : close.kind = .scriptClose)
    (hl : last.kind = .tagClose) (ht : last.text = "</body>") (he : eof.kind = .eof) :
    ∃ q, (inBody body opening events found).readFrom? config [close, last, eof] = some q ∧
      q.IsBody body opening found := by
  have hname : String.ofList (Markup.tagName "</body>".toList) = "body" := by decide +kernel
  have hnamed : OpenTags.isNamed "body"
      { opening := bodyOpening body
        contents := [.leaf (.script { location := opening.location } found.statements)] } = true := by
    simp [OpenTags.isNamed, bodyOpening]
  rw [readFrom?_cons (by simp [hc]), turn?]
  simp only [inBody, hc, beq_self_eq_true, if_true, Option.bind_some]
  rw [readFrom?_cons (by simp [hl]), turn?]
  simp only [closeScript, OpenTags.isEmpty, List.isEmpty_cons, Bool.false_eq_true, if_false,
    readMarkup, hl, ht, hname, closeTag, Forest.close?, Forest.addLeaf, Frame.add, List.nil_append,
    OpenTags.splitAt?, hnamed, if_true, Option.map_some, Option.bind_some, Forest.addFrame]
  rw [readFrom?, if_pos (by simpa using he)]
  exact ⟨_, rfl, rfl, rfl, rfl, rfl⟩

end Progress

/-- **A body with one script that ends the input becomes a page with the statements and names of
the script.** -/
theorem readTokens?_body {config : Config} (hvoid : "body" ∉ config.voidElements)
    (body opening : Token) (hk : body.kind = .tagOpen) (ht : body.text = "<body>")
    (ho : opening.kind = .scriptOpen) {ts : List Token} {found : Harvest}
    (h : scriptFrom? config ts = some found) (hrest : found.rest = []) (file : Option String) :
    ∃ page, readTokens? config (body :: opening :: ts) file = some page ∧
      page.document.children = [Progress.bodyNode body opening found.statements] ∧
      page.elementIds = [] ∧ page.declaredNames = found.declared := by
  obtain ⟨q, hq, hbody⟩ := Progress.readFrom?_inBody_nil config body opening [] found
  obtain ⟨page, hpage, hpage'⟩ := hbody.page? file
  refine ⟨page, ?_, hpage'⟩
  rw [readTokens?, Progress.readFrom?_body hvoid hk ht ho [] ts, h, Option.bind_some, hrest, hq]
  exact hpage

end PageLint
