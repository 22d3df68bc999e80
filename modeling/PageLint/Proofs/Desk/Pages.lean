import PageLint.Proofs.Comments.Pages
import PageLint.Proofs.Desk.Expressions

/-!
# Pages read with a desk

With a desk, statements go to the innermost list as they are found, and a script or a function takes
them from there when it ends. The lists that are put up are all taken off again, so a page that has
been read leaves nothing on the desk.

* `Kept.readBody?_keeps` — the body of a function takes its own list off
* `Kept.readStatement?_keeps` — a statement is added to the innermost list
* `Kept.readFrom?_keeps` — a page is read the same, and leaves the desk empty
-/

namespace PageLint

namespace Kept

/-! ## Statements go to the innermost list -/

section Statements

variable (limit : Int) (room : Nat)

/-- The value after an equals sign, if there is one. -/
def readInitializer (ts : List Token) : Kept (Reading (Option Node)) :=
  match ts with
  | [] => pure { value := none, rest := [] }
  | t :: ts =>
    if t.kind == .operator && t.text == "=" then expression limit room ts
    else pure { value := none, rest := t :: ts }

/-- The declaration of a name after its keyword. -/
def readDeclaration (build : Identifier → Option Node → Node) (ts : List Token) : Kept Harvest :=
  match ts with
  | [] => pure { rest := [] }
  | name :: ts =>
    if name.kind.isWord then do
      let initializer ← readInitializer limit room ts
      modify (Desk.put [build name.toIdentifier initializer.value])
      pure
        { declared := [name.text]
          events := initializer.events
          rest := dropSemicolon initializer.rest }
    else pure { rest := name :: ts }

/-- A statement that starts with an identifier: a chain of assignments or an expression. -/
def readAssignment (ts : List Token) : Kept Harvest := do
  let value ← expression limit room (assignmentLinks ts).2
  modify (Desk.put (chainNode (assignmentLinks ts).1 value.value).toList)
  pure { events := value.events, rest := dropSemicolon value.rest }

/-- The statement at a token inside a function. -/
def readSimple? (t : Token) (ts : List Token) : Kept (Option Harvest) :=
  if t.kind == .keyword && (t.text == "let" || t.text == "var") then do
    let found ← readDeclaration limit room (.varDecl { location := t.location } t.text) ts
    pure (some found)
  else if t.kind == .keyword && t.text == "const" then do
    let found ← readDeclaration limit room (.constDecl { location := t.location }) ts
    pure (some found)
  else if t.kind == .identifier then do
    let found ← readAssignment limit room (t :: ts)
    pure (some found)
  else pure none

/-- The statements of a function body with `depth` open braces. -/
def bodyFrom? (depth : Nat) (ts : List Token) : Kept (Option Harvest) :=
  match depth, ts with
  | 0, ts => pure (some { rest := ts })
  | _ + 1, [] => pure (some { rest := [] })
  | depth + 1, t :: ts =>
    if t.kind == .eof || t.kind == .scriptClose then pure (some { rest := t :: ts })
    else if t.kind == .leftBrace then bodyFrom? (depth + 2) ts
    else if t.kind == .rightBrace then bodyFrom? depth ts
    else do
      let found ← readSimple? limit room t ts
      match found with
      | none => bodyFrom? (depth + 1) ts
      | some found =>
        if found.rest.length < (t :: ts).length then do
          let more ← bodyFrom? (depth + 1) found.rest
          pure (more.map found.append)
        else pure none
termination_by ts.length
decreasing_by all_goals simp only [List.length_cons] at *; omega

/-- The statements of the body of a function, if it is next, in a list of their own, and what else
is found in it. -/
def readBody? (ts : List Token) : Kept (List Node × Option Harvest) :=
  match ts with
  | [] => pure ([], some { rest := [] })
  | t :: ts =>
    if t.kind == .leftBrace then do
      modify Desk.push
      let found ← bodyFrom? limit room 1 ts
      let body ← modifyGet Desk.pop
      pure (body, found)
    else pure ([], some { rest := t :: ts })

/-- A function after its keyword. -/
def readFunction? (keyword : Token) (ts : List Token) : Kept (Option Harvest) :=
  match ts with
  | [] => pure (some { rest := [] })
  | name :: ts =>
    if name.kind.isWord then do
      let body ← readBody? limit room (readParameterList ts).2
      modify (Desk.put [.function { location := keyword.location } name.text
        (readParameterList ts).1 body.1])
      pure body.2
    else pure (some { rest := name :: ts })

end Statements

/-- The statement at a token of a script outside functions. -/
def readStatement? (config : Config) (room : Nat) (t : Token) (ts : List Token) :
    Kept (Option Harvest) := do
  let simple ← readSimple? config.maxExpressionTokens room t ts
  match simple with
  | some found => pure (some found)
  | none =>
    if t.kind == .keyword && t.text == "function" then
      readFunction? config.maxExpressionTokens room t ts
    else if t.kind == .keyword && config.expressionKeywords.contains t.text then do
      let value ← expression config.maxExpressionTokens room (t :: ts)
      modify (Desk.put value.value.toList)
      pure (some { events := value.events, rest := dropSemicolon value.rest })
    else pure (some { rest := ts })

/-- Ends a script with the statements of its list. -/
def closeScript (p : Progress) (region : Region) : Kept Progress := do
  let desk ← get
  modify fun desk => { desk with sinks := [] }
  pure (p.closeScript { region with statements := desk.sinks.getLast?.getD [] })

/-- Ends a script that is still open. -/
def finish (p : Progress) : Kept Progress :=
  match p.region with
  | some region => closeScript p region
  | none => pure p

/-- Reads tokens up to the end of the input. -/
def readFrom? (config : Config) (room : Nat) (p : Progress) (ts : List Token) :
    Kept (Option Progress) :=
  match ts with
  | [] => do
    let last ← finish p
    pure (some last)
  | t :: ts =>
    if t.kind == .eof then do
      let last ← finish p
      pure (some last)
    else
      match p.region with
      | none =>
        if t.kind == .scriptOpen then do
          modify fun desk => { desk with sinks := [[]] }
          readFrom? config room (p.readMarkup config t) ts
        else readFrom? config room (p.readMarkup config t) ts
      | some region =>
        if t.kind == .scriptClose then do
          let closed ← closeScript p region
          readFrom? config room closed ts
        else do
          let statement ← readStatement? config room t ts
          match statement with
          | none => pure none
          | some found =>
            if found.rest.length < (t :: ts).length then
              readFrom? config room (p.collect region found) found.rest
            else readFrom? config room (p.collect region found) ts
termination_by ts.length
decreasing_by all_goals simp only [List.length_cons] at *; omega

end Kept

/-- What a harvest tells when its statements have gone to a list. -/
def Harvest.told (found : Harvest) : Harvest := { found with statements := [] }

namespace Kept

section Statements

variable {limit : Int} {room : Nat} (hroom : maxCallDepth < room) {desk : Desk}
  (hdesk : desk.callDepth = 0)

include hroom hdesk

theorem readInitializer_reads (ts : List Token) :
    Reads (readInitializer limit room ts) desk (PageLint.readInitializer limit ts) := by
  cases ts with
  | nil => exact .pure _ _
  | cons t ts =>
    rw [readInitializer, PageLint.readInitializer]
    split
    · exact expression_reads limit hroom hdesk ts
    · exact .pure _ _

theorem readDeclaration_keeps (build : Identifier → Option Node → Node) (ts : List Token) :
    (readDeclaration limit room build ts).run desk =
      ((PageLint.readDeclaration limit build ts).told,
        desk.put (PageLint.readDeclaration limit build ts).statements) := by
  cases ts with
  | nil => rw [PageLint.readDeclaration, Desk.put_nil]; rfl
  | cons name ts =>
    rw [readDeclaration, PageLint.readDeclaration]
    split
    · rw [run_bind (readInitializer_reads hroom hdesk ts), run_modify]
      rfl
    · rw [Desk.put_nil]
      rfl

theorem readAssignment_keeps (ts : List Token) :
    (readAssignment limit room ts).run desk = ((PageLint.readAssignment limit ts).told,
      desk.put (PageLint.readAssignment limit ts).statements) := by
  rw [readAssignment, run_bind (expression_reads limit hroom hdesk _), run_modify]
  rfl

theorem readSimple?_keeps {t : Token} {ts : List Token} {found : Harvest}
    (h : PageLint.readSimple? limit t ts = some found) :
    (readSimple? limit room t ts).run desk = (some found.told, desk.put found.statements) := by
  rw [PageLint.readSimple?] at h
  rw [readSimple?]
  split at h
  · rename_i hword
    obtain rfl := Option.some.inj h
    rw [if_pos hword, run_bind (readDeclaration_keeps hroom hdesk _ ts)]
    rfl
  rename_i hword
  rw [if_neg hword]
  split at h
  · rename_i hconst
    obtain rfl := Option.some.inj h
    rw [if_pos hconst, run_bind (readDeclaration_keeps hroom hdesk _ ts)]
    rfl
  rename_i hconst
  rw [if_neg hconst]
  split at h
  · rename_i hname
    obtain rfl := Option.some.inj h
    rw [if_pos hname, run_bind (readAssignment_keeps hroom hdesk _)]
    rfl
  · simp at h

omit hroom hdesk in
theorem readSimple?_none {t : Token} {ts : List Token}
    (h : PageLint.readSimple? limit t ts = none) :
    Reads (readSimple? limit room t ts) desk none := by
  rw [PageLint.readSimple?] at h
  rw [readSimple?]
  split at h
  · simp at h
  rename_i hword
  rw [if_neg hword]
  split at h
  · simp at h
  rename_i hconst
  rw [if_neg hconst]
  split at h
  · simp at h
  · rename_i hname
    rw [if_neg hname]
    exact .pure _ _

theorem bodyFrom?_keeps {depth : Nat} {ts : List Token} {found : Harvest}
    (h : PageLint.bodyFrom? limit depth ts = some found) :
    (bodyFrom? limit room depth ts).run desk = (some found.told, desk.put found.statements) := by
  fun_induction PageLint.bodyFrom? limit depth ts generalizing desk found with
  | case1 ts =>
    obtain rfl := Option.some.inj h
    rw [bodyFrom?, Desk.put_nil]
    rfl
  | case2 depth =>
    obtain rfl := Option.some.inj h
    rw [bodyFrom?, Desk.put_nil]
    rfl
  | case3 depth t ts hend =>
    obtain rfl := Option.some.inj h
    rw [bodyFrom?, if_pos hend, Desk.put_nil]
    rfl
  | case4 depth t ts hend hleft ih =>
    rw [bodyFrom?, if_neg hend, if_pos hleft]
    exact ih hdesk h
  | case5 depth t ts hend hleft hright ih =>
    rw [bodyFrom?, if_neg hend, if_neg hleft, if_pos hright]
    exact ih hdesk h
  | case6 depth t ts hend hleft hright hnone ih =>
    rw [bodyFrom?, if_neg hend, if_neg hleft, if_neg hright, run_bind (readSimple?_none hnone)]
    exact ih hdesk h
  | case7 depth t ts hend hleft hright first hfirst hlt ih =>
    obtain ⟨more, hmore, rfl⟩ := Option.map_eq_some_iff.1 h
    rw [bodyFrom?, if_neg hend, if_neg hleft, if_neg hright,
      run_bind (readSimple?_keeps hroom hdesk hfirst)]
    have hrest : first.told.rest.length < (t :: ts).length := hlt
    simp only
    rw [if_pos hrest]
    refine (run_bind (ih (by simpa using hdesk) hmore)).trans ?_
    rw [Desk.put_put]
    rfl
  | case8 => simp at h

/-- **The body of a function takes its list off again.** -/
theorem readBody?_keeps {ts : List Token} {found : Harvest}
    (h : PageLint.readBody? limit ts = some found) :
    (readBody? limit room ts).run desk = ((found.statements, some found.told), desk) := by
  cases ts with
  | nil =>
    obtain rfl := Option.some.inj h
    rfl
  | cons t ts =>
    rw [PageLint.readBody?] at h
    rw [readBody?]
    split at h
    · rename_i hbrace
      have hpush : desk.push.callDepth = 0 := hdesk
      rw [if_pos hbrace, run_modify, run_bind (bodyFrom?_keeps hroom hpush h)]
      rfl
    · rename_i hbrace
      obtain rfl := Option.some.inj h
      rw [if_neg hbrace]
      rfl

theorem readFunction?_keeps {keyword : Token} {ts : List Token} {found : Harvest}
    (h : PageLint.readFunction? limit keyword ts = some found) :
    (readFunction? limit room keyword ts).run desk =
      (some found.told, desk.put found.statements) := by
  cases ts with
  | nil =>
    obtain rfl := Option.some.inj h
    rw [Desk.put_nil]
    rfl
  | cons name ts =>
    rw [PageLint.readFunction?] at h
    rw [readFunction?]
    split at h
    · rename_i hword
      rw [if_pos hword]
      generalize readParameterList ts = list at h ⊢
      obtain ⟨parameters, after⟩ := list
      obtain ⟨body, hbody, rfl⟩ := Option.map_eq_some_iff.1 h
      rw [run_bind (readBody?_keeps hroom hdesk hbody), run_modify]
      rfl
    · rename_i hword
      obtain rfl := Option.some.inj h
      rw [if_neg hword, Desk.put_nil]
      rfl

end Statements

section Pages

variable {config : Config} {room : Nat} (hroom : maxCallDepth < room)

include hroom

theorem readStatement?_keeps {desk : Desk} (hdesk : desk.callDepth = 0) {t : Token}
    {ts : List Token} {found : Harvest} (h : PageLint.readStatement? config t ts = some found) :
    (readStatement? config room t ts).run desk = (some found.told, desk.put found.statements) := by
  simp only [PageLint.readStatement?] at h
  rw [readStatement?]
  split at h
  · rename_i hsimple
    obtain rfl := Option.some.inj h
    rw [run_bind (readSimple?_keeps hroom hdesk hsimple)]
    rfl
  rename_i hsimple
  rw [run_bind (readSimple?_none hsimple)]
  simp only
  split at h
  · rename_i hfunction
    rw [if_pos hfunction]
    exact readFunction?_keeps hroom hdesk h
  rename_i hfunction
  rw [if_neg hfunction]
  split at h
  · rename_i hkeyword
    obtain rfl := Option.some.inj h
    rw [if_pos hkeyword, run_bind (expression_reads _ hroom hdesk _), run_modify]
    rfl
  · rename_i hkeyword
    obtain rfl := Option.some.inj h
    rw [if_neg hkeyword, Desk.put_nil]
    rfl

end Pages

end Kept

/-! ## Pages leave the desk empty -/

namespace Progress

/-- What has been read, the statements of an open script left out. -/
def unlisted (p : Progress) : Progress :=
  { p with region := p.region.map fun region => { region with statements := [] } }

/-- The desk while what has been read goes on: the list of an open script. -/
def desk (p : Progress) : Desk := { sinks := (p.region.map Region.statements).toList }

end Progress

namespace Kept

theorem unlisted_region {p : Progress} {region : Region} (h : p.region = some region) :
    p.unlisted.region = some { region with statements := [] } := by
  rw [Progress.unlisted, h]
  rfl

theorem unlisted_collect (p : Progress) (region : Region) (found : Harvest) :
    p.unlisted.collect { region with statements := [] } found.told =
      (p.collect region found).unlisted := rfl

theorem desk_put {p : Progress} {region : Region} (h : p.region = some region) (found : Harvest) :
    p.desk.put found.statements = (p.collect region found).desk := by
  rw [Progress.desk, h]
  rfl

theorem closeScript_keeps {p : Progress} {region : Region} (h : p.region = some region) :
    (closeScript p.unlisted { region with statements := [] }).run p.desk =
      (p.closeScript region, {}) := by
  have hdesk : p.desk = { sinks := [region.statements] } := by rw [Progress.desk, h]; rfl
  rw [hdesk]
  rfl

/-- Outside scripts nothing is on the desk. -/
theorem desk_of_region_none {p : Progress} (h : p.region = none) :
    p.unlisted = p ∧ p.desk = {} := by
  cases p with
  | mk _ _ _ _ _ _ region _ =>
    obtain rfl : region = none := h
    exact ⟨rfl, rfl⟩

theorem finish_keeps (p : Progress) : (finish p.unlisted).run p.desk = (p.finish, {}) := by
  cases h : p.region with
  | none =>
    obtain ⟨hp, hdesk⟩ := desk_of_region_none h
    rw [hp, hdesk, finish, Progress.finish, h]
    rfl
  | some region =>
    rw [finish, unlisted_region h, Progress.finish, h]
    exact closeScript_keeps h

/-- **A page is read the same with a desk, and leaves it empty**: no list of statements stays under
construction, and no call is counted any more. -/
theorem readFrom?_keeps {config : Config} {room : Nat} (hroom : maxCallDepth < room)
    {p q : Progress} {ts : List Token} (h : p.readFrom? config ts = some q) :
    (readFrom? config room p.unlisted ts).run p.desk = (some q, {}) := by
  fun_induction Progress.readFrom? config p ts with
  | case1 p =>
    obtain rfl := Option.some.inj h
    rw [readFrom?, run_bind (finish_keeps p)]
    rfl
  | case2 p t ts hend =>
    obtain rfl := Option.some.inj h
    rw [readFrom?, if_pos hend, run_bind (finish_keeps p)]
    rfl
  | case3 p t ts hend hregion ih =>
    obtain ⟨hp, hdesk⟩ := desk_of_region_none hregion
    rw [readFrom?, if_neg hend, hp, hdesk, hregion]
    simp only
    by_cases hopen : (t.kind == .scriptOpen) = true
    · have hmarkup : p.readMarkup config t =
          { p with region := some { location := t.location } } := by
        have hk : t.kind = .scriptOpen := by simpa using hopen
        rw [Progress.readMarkup, hk]
      rw [hmarkup] at ih h ⊢
      rw [if_pos hopen, run_modify]
      exact ih h
    · have hmarkup : (p.readMarkup config t).region = none := by
        rw [← Option.not_isSome_iff_eq_none, Progress.readMarkup_region config hregion]
        exact hopen
      obtain ⟨hnext, hempty⟩ := desk_of_region_none hmarkup
      rw [hnext, hempty] at ih
      rw [if_neg hopen]
      exact ih h
  | case4 p t ts hend region hregion hclose ih =>
    obtain ⟨hnext, hempty⟩ := desk_of_region_none (Progress.closeScript_region p region)
    rw [hnext, hempty] at ih
    rw [readFrom?, if_neg hend, unlisted_region hregion]
    simp only
    rw [if_pos hclose, run_bind (closeScript_keeps hregion)]
    exact ih h
  | case5 => simp at h
  | case6 p t ts hend region hregion hclose found hfound hlt ih =>
    have hrest : found.told.rest.length < (t :: ts).length := hlt
    rw [readFrom?, if_neg hend, unlisted_region hregion]
    simp only
    rw [if_neg hclose, run_bind (readStatement?_keeps hroom rfl hfound)]
    simp only
    rw [if_pos hrest, unlisted_collect, desk_put hregion]
    exact ih h
  | case7 p t ts hend region hregion hclose found hfound hlt ih =>
    have hrest : ¬found.told.rest.length < (t :: ts).length := hlt
    rw [readFrom?, if_neg hend, unlisted_region hregion]
    simp only
    rw [if_neg hclose, run_bind (readStatement?_keeps hroom rfl hfound)]
    simp only
    rw [if_neg hrest, unlisted_collect, desk_put hregion]
    exact ih h

end Kept

end PageLint
