import PageLint.Analysis
import PageLint.Proofs.Ids.Attributes
import PageLint.Proofs.Passes.Categories
import PageLint.Proofs.Regions.Coverage

/-!
# Missing ids

An id is reported as missing when a script looks it up and no tag has given it. The ids that tags
have given are those that can be read off the opening tags outside scripts, in order; the tag of a
script gives none. So an id that is reported stands clear in no opening tag.

* `Token.ids` — the ids of the opening tags of a token
* `Page.Shows.elementIds_eq_flatMap` — the ids of a page are those of its tokens
* `Diagnostic.Misses` — a diagnostic that reports an id as missing
* `exists_misses_iff` — which ids are reported as missing
* `missing_ids_not_carried` — an id that is reported as missing is carried by no opening tag
-/

namespace PageLint

/-! ## The ids of a page -/

/-- The ids that a span of a token of opening tags gives. -/
def Markup.Span.ids (span : Markup.Span) : List String :=
  if Markup.isClosing span.text then []
  else (Markup.TagText.read? span.text).toList.flatMap Markup.TagText.ids

/-- The ids that a token gives: those of the opening tags in it. -/
def Token.ids (t : Token) : List String :=
  if t.kind == .tagOpen then (Markup.spans t.text.toList).flatMap Markup.Span.ids else []

theorem Token.ids_eq_nil {t : Token} (h : t.kind ≠ .tagOpen) : t.ids = [] :=
  if_neg (by simpa using h)

/-- A token gives the ids that its opening tags carry. -/
theorem Token.mem_ids {t : Token} (hkind : t.kind = .tagOpen) {span : Markup.Span}
    (hspan : span ∈ Markup.spans t.text.toList) (hopening : Markup.isClosing span.text = false)
    {id : String} (h : Markup.CarriesId span.text id) : id ∈ t.ids := by
  obtain ⟨found, hread, hmem⟩ := h.mem_ids
  rw [Token.ids, if_pos (by simpa using hkind)]
  refine List.mem_flatMap.2 ⟨span, hspan, ?_⟩
  rw [Markup.Span.ids, if_neg (by simp [hopening]), hread, Option.toList_some,
    List.flatMap_singleton]
  exact hmem

/-- The token for the end of the input gives no ids. -/
theorem flatMap_ids_filter (ts : List Token) :
    (ts.filter fun t => t.kind != .eof).flatMap Token.ids = ts.flatMap Token.ids := by
  induction ts with
  | nil => rfl
  | cons t ts ih =>
    by_cases heof : t.kind = .eof
    · rw [List.filter_cons_of_neg (by simp [heof]), ih, List.flatMap_cons,
        Token.ids_eq_nil (by simp [heof]), List.nil_append]
    · rw [List.filter_cons_of_pos (by simpa using heof), List.flatMap_cons, ih, List.flatMap_cons]

namespace Progress

theorem idsOf_openingOf (serial : Nat) (location : Location) (tag : Markup.TagText) :
    idsOf (openingOf serial location tag).attributes = tag.ids := by
  rw [idsOf, openingOf, List.filter_map, List.map_map]
  rfl

theorem closeTag_elementIds (p : Progress) (name : String) (location : Location) :
    (p.closeTag name location).elementIds = p.elementIds := by
  unfold closeTag
  split <;> rfl

theorem readSpan_elementIds (config : Config) (t : Token) (p : Progress) (span : Markup.Span) :
    (p.readSpan config t span).elementIds = p.elementIds ++ span.ids := by
  simp only [readSpan, Markup.Span.ids]
  split
  · rw [closeTag_elementIds, List.append_nil]
  · cases Markup.TagText.read? span.text with
    | none => exact (List.append_nil _).symm
    | some tag =>
      rw [Option.toList_some, List.flatMap_singleton, ← idsOf_openingOf]
      rfl

theorem foldl_readSpan_elementIds (config : Config) (t : Token) (p : Progress)
    (spans : List Markup.Span) : (spans.foldl (readSpan config t) p).elementIds =
      p.elementIds ++ spans.flatMap Markup.Span.ids := by
  induction spans generalizing p with
  | nil => exact (List.append_nil _).symm
  | cons span spans ih =>
    rw [List.foldl_cons, ih, readSpan_elementIds, List.flatMap_cons, List.append_assoc]

/-- A token outside scripts gives its ids. -/
theorem readMarkup_elementIds (config : Config) (p : Progress) (t : Token) :
    (p.readMarkup config t).elementIds = p.elementIds ++ t.ids := by
  by_cases hopen : t.kind = .tagOpen
  · have hids : t.ids = (Markup.spans t.text.toList).flatMap Markup.Span.ids :=
      if_pos (by simpa using hopen)
    rw [hids, readMarkup, hopen]
    exact foldl_readSpan_elementIds config t p _
  · rw [Token.ids_eq_nil hopen, List.append_nil]
    unfold readMarkup
    cases hk : t.kind with
    | tagOpen => exact absurd hk hopen
    | tagClose => exact closeTag_elementIds p _ _
    | doctype => simp only; split <;> rfl
    | text => simp only; split <;> rfl
    | _ => rfl

/-- Chunks give the ids of their tokens, when those of scripts give none. -/
theorem foldl_add_elementIds (config : Config) (p : Progress) {cs : List Chunk}
    (hscripts : ∀ opening inside, .script opening inside ∈ cs →
      (opening :: inside).flatMap Token.ids = []) :
    (cs.foldl (add config) p).elementIds =
      p.elementIds ++ (cs.flatMap Chunk.tokens).flatMap Token.ids := by
  induction cs generalizing p with
  | nil => exact (List.append_nil _).symm
  | cons c cs ih =>
    rw [List.foldl_cons, ih _ fun opening inside h => hscripts opening inside (.tail _ h),
      List.flatMap_cons, List.flatMap_append, ← List.append_assoc]
    congr 1
    cases c with
    | markup t =>
      rw [add, readMarkup_elementIds, Chunk.tokens, List.flatMap_singleton]
    | script opening inside =>
      rw [Chunk.tokens, hscripts opening inside List.mem_cons_self, List.append_nil]
      rfl

end Progress

/-- **The ids of a page are those of its opening tags**, in order. -/
theorem Page.Shows.elementIds_eq_flatMap {config : Config} {source : String} {file : Option String}
    {page : Page} (h : page.Shows file (progressOf config (tokenize source file))) :
    page.elementIds = (tokenize source file).flatMap Token.ids := by
  have hscripts : ∀ opening inside, .script opening inside ∈ chunks (tokenize source file) →
      (opening :: inside).flatMap Token.ids = [] := by
    intro opening inside hmem
    obtain ⟨hopening, hinside⟩ := scans_of_mem_script source file hmem
    refine List.flatMap_eq_nil_iff.2 fun t ht => Token.ids_eq_nil fun hk => ?_
    rcases List.mem_cons.1 ht with rfl | ht
    · rw [hk] at hopening
      cases hopening
    · have hscans := hinside t ht
      rw [hk] at hscans
      cases hscans
  rw [h.elementIds, progressOf, Progress.foldl_add_elementIds config {} hscripts,
    flatMap_tokens_tokenize, flatMap_ids_filter]
  rfl

/-! ## Reports -/

/-- What a pass says of an id that is missing. -/
def missingText (category : Category) (id : String) : String :=
  (if category = .dataInput then "getElementById references non-existent element ID: '"
    else "innerHTML assignment references non-existent element ID: '") ++ id ++ "'"

/-- A diagnostic that reports an id as missing. -/
structure Diagnostic.Misses (d : Diagnostic) (id : String) : Prop where
  category : d.category = .dataInput ∨ d.category = .dataOutput
  description : d.description = missingText d.category id

theorem missingText_injective {category : Category} {id id' : String}
    (h : missingText category id = missingText category id') : id = id' := by
  have hlist := congrArg String.toList h
  simp only [missingText, String.toList_append] at hlist
  exact String.toList_injective (List.append_cancel_left (List.append_cancel_right hlist))

/-- The ids that a node looks up: in a call of the method, or in the target of an assignment to the
contents of an element. -/
def Node.lookups : Node → List String
  | .call _ callee (.identifier argument :: _) =>
    if Text.occursIn Rule.lookupMethod callee.name.toList && Text.isQuoted argument.name.toList then
      [String.ofList (Text.unquoted argument.name.toList)]
    else []
  | .assignment _ target _ _ =>
    if Text.occursIn Rule.contentProperty target.name.toList then
      (Rule.lookedUp? target.name.toList).toList.map fun quoted =>
        String.ofList (Text.unquoted quoted)
    else []
  | _ => []

namespace Rule

variable {ids : List String} {n : Node}

theorem dataInputRule_misses {f : Finding} (h : f ∈ dataInputRule ids n) :
    ∃ id ∈ n.lookups, id ∉ ids ∧ f.description = missingText .dataInput id := by
  unfold dataInputRule at h
  split at h
  · split at h
    · rename_i hcall
      simp only at h
      split at h
      · cases h
      · rename_i hids
        rw [List.mem_singleton.1 h]
        refine ⟨_, ?_, by simpa using hids, rfl⟩
        rw [Node.lookups, if_pos hcall]
        exact List.mem_singleton_self _
    · cases h
  · cases h

theorem dataOutputRule_misses {f : Finding} (h : f ∈ dataOutputRule ids n) :
    ∃ id ∈ n.lookups, id ∉ ids ∧ f.description = missingText .dataOutput id := by
  unfold dataOutputRule at h
  split at h
  · split at h
    · rename_i hcontents
      split at h
      · cases h
      · rename_i quoted hquoted
        simp only at h
        split at h
        · cases h
        · rename_i hids
          rw [List.mem_singleton.1 h]
          refine ⟨_, ?_, by simpa using hids, rfl⟩
          rw [Node.lookups, if_pos hcontents, hquoted]
          exact List.mem_singleton_self _
    · cases h
  · cases h

/-- An id that is looked up and that no element has is found by one of the two passes. -/
theorem exists_finding {id : String} (h : id ∈ n.lookups) (hids : id ∉ ids) :
    ∃ f ∈ dataInputRule ids n ++ dataOutputRule ids n, f.description = missingText f.category id ∧
      (f.category = .dataInput ∨ f.category = .dataOutput) := by
  have hcontains : ids.contains id = false := by simpa using hids
  unfold Node.lookups at h
  split at h
  · split at h
    · rename_i hcall
      obtain rfl := List.mem_singleton.1 h
      rw [dataInputRule, if_pos hcall]
      simp only [hcontains]
      exact ⟨_, List.mem_append_left _ (List.mem_singleton_self _), rfl, Or.inl rfl⟩
    · cases h
  · split at h
    · rename_i hcontents
      obtain ⟨quoted, hquoted, rfl⟩ := List.mem_map.1 h
      rw [dataOutputRule, if_pos hcontents, Option.mem_toList.1 hquoted]
      simp only [hcontains]
      exact ⟨_, List.mem_append_right _ (List.mem_singleton_self _), rfl, Or.inr rfl⟩
    · cases h
  · cases h

end Rule

/-- **The ids reported as missing are those that are looked up and that no element has.** -/
theorem exists_misses_iff {config : Config} {ids : List String} {document : Document}
    (number : Int) (id : String) :
    (∃ d ∈ numberFrom number (findingsOf config ids document Pass.all), d.Misses id) ↔
      id ∉ ids ∧ ∃ n ∈ document.toNode.walk, id ∈ n.lookups := by
  have hfindings := map_finding_numberFrom number (findingsOf config ids document Pass.all)
  constructor
  · rintro ⟨d, hd, hcategory, hdescription⟩
    have hfinding : d.finding ∈ findingsOf config ids document Pass.all := by
      rw [← hfindings]
      exact List.mem_map_of_mem hd
    obtain ⟨pass, -, hpass, hrun⟩ := exists_pass_of_mem_findingsOf hfinding
    have hlookup : ∃ n ∈ document.toNode.walk, ∃ id' ∈ n.lookups, id' ∉ ids ∧
        d.description = missingText d.category id' := by
      rw [show d.category = pass.category from hpass.symm] at hcategory ⊢
      cases pass with
      | dataInput =>
        obtain ⟨n, hn, hf⟩ := List.mem_flatMap.1 hrun
        exact ⟨n, hn, Rule.dataInputRule_misses hf⟩
      | dataOutput =>
        obtain ⟨n, hn, hf⟩ := List.mem_flatMap.1 hrun
        exact ⟨n, hn, Rule.dataOutputRule_misses hf⟩
      | _ => rcases hcategory with hk | hk <;> cases hk
    obtain ⟨n, hn, id', hmem, hids, hdescription'⟩ := hlookup
    obtain rfl := missingText_injective (hdescription.symm.trans hdescription')
    exact ⟨hids, n, hn, hmem⟩
  · rintro ⟨hids, n, hn, hmem⟩
    obtain ⟨f, hf, hdescription, hcategory⟩ := Rule.exists_finding hmem hids
    have hfinding : f ∈ findingsOf config ids document Pass.all := by
      rcases List.mem_append.1 hf with hf | hf
      · exact List.mem_flatMap.2 ⟨.dataInput, by decide, List.mem_flatMap.2 ⟨n, hn, hf⟩⟩
      · exact List.mem_flatMap.2 ⟨.dataOutput, by decide, List.mem_flatMap.2 ⟨n, hn, hf⟩⟩
    rw [← hfindings] at hfinding
    obtain ⟨d, hd, rfl⟩ := List.mem_map.1 hfinding
    exact ⟨d, hd, hcategory, hdescription⟩

/-! ## Pages -/

/-- An analysis has read the page, and its diagnostics are the numbered findings of the passes. -/
theorem exists_analysis {config : Config} {source : String} {file : Option String} {page : Page}
    (h : readPage? config source file = some page) : ∃ a, analyze? config source file = some a ∧
      a.page = page ∧
      a.diagnostics = numberFrom 1 (findingsOf config page.elementIds page.document Pass.all) := by
  refine ⟨_, by rw [analyze?, analyzeInto?, h, Option.map_some], rfl, ?_⟩
  rw [Analysis.diagnostics]
  simp only [validate]
  rw [runPasses_collector, Collector.addAll_diagnostics]
  rfl

/-- **An id that is reported as missing is carried by no opening tag.** The ids of a page are those
of the opening tags outside scripts, and those that are looked up and not among them are reported.
An id that stands clear in an opening tag is among them. -/
theorem missing_ids_not_carried {config : Config} (hlimit : 1 ≤ config.maxExpressionTokens)
    (source : String) (file : Option String) : ∃ a, analyze? config source file = some a ∧
      a.page.elementIds = (tokenize source file).flatMap Token.ids ∧
      (∀ id, (∃ d ∈ a.diagnostics, d.Misses id) ↔
        id ∉ a.page.elementIds ∧ ∃ n ∈ a.page.document.toNode.walk, id ∈ n.lookups) ∧
      ∀ d ∈ a.diagnostics, ∀ id, d.Misses id → ∀ t ∈ tokenize source file, t.kind = .tagOpen →
        ∀ span ∈ Markup.spans t.text.toList, Markup.isClosing span.text = false →
          ¬ Markup.CarriesId span.text id := by
  obtain ⟨page, hpage, hshows⟩ := readPage?_shows hlimit source file
  obtain ⟨a, ha, rfl, hdiagnostics⟩ := exists_analysis hpage
  have hids := hshows.elementIds_eq_flatMap
  have hmisses : ∀ id, (∃ d ∈ a.diagnostics, d.Misses id) ↔
      id ∉ a.page.elementIds ∧ ∃ n ∈ a.page.document.toNode.walk, id ∈ n.lookups := by
    rw [hdiagnostics]
    exact exists_misses_iff 1
  refine ⟨a, ha, hids, hmisses, ?_⟩
  intro d hd id hd' t ht hkind span hspan hclosing hcarries
  refine ((hmisses id).1 ⟨d, hd, hd'⟩).1 ?_
  rw [hids]
  exact List.mem_flatMap.2 ⟨t, ht, Token.mem_ids hkind hspan hclosing hcarries⟩

/-- A page with an id, in single quotes behind blanks, and a look-up of another. -/
def lookedUpPage : String :=
  "<body><p ID = 'a b' class=c>d</p><script>document.getElementById(\"q\");</script></body>"

/-- The tag of the page carries its id. -/
theorem lookedUpPage_carries : Markup.CarriesId "<p ID = 'a b' class=c>".toList "a b" := by
  refine ⟨"ID".toList, "p".toList, [' '], "ID = 'a b'".toList, " class=c".toList, by decide +kernel,
    by decide +kernel, ?_, ?_⟩
  · have hblank : ∀ c ∈ [' '], Text.isBlank c = true := List.forall_mem_singleton.2 (by decide)
    refine @Markup.AttributeText.intro _ _ [' '] [' '] "'a b'".toList (by decide) ?_ hblank hblank
      (.quoted (by decide) (by decide))
    intro c hc
    have hcases : c = 'I' ∨ c = 'D' := by simpa using hc
    rcases hcases with rfl | rfl <;> decide
  · refine ⟨⟨'p', rfl, by decide⟩, rfl, by decide, List.forall_mem_singleton.2 (by decide), ?_, ?_,
      ?_, by decide +kernel⟩
    · rintro _ ⟨⟩
      decide
    · exact fun h => absurd h (by decide)
    · exact fun h => absurd h (by decide)

theorem lookedUpPage_not_carried : 1 ≤ ({} : Config).maxExpressionTokens ∧
    Markup.CarriesId "<p ID = 'a b' class=c>".toList "a b" ∧
    ∃ a, analyze? {} lookedUpPage none = some a ∧
      a.page.elementIds = (tokenize lookedUpPage none).flatMap Token.ids ∧
      (∃ d ∈ a.diagnostics, d.Misses "q") ∧
      ∀ t ∈ tokenize lookedUpPage none, t.kind = .tagOpen →
        ∀ span ∈ Markup.spans t.text.toList, Markup.isClosing span.text = false →
          ¬ Markup.CarriesId span.text "q" := by
  obtain ⟨a, ha, hids, hmisses, hcarried⟩ :=
    @missing_ids_not_carried {} (by decide) lookedUpPage none
  have hlookup : (analyze? {} lookedUpPage none).map (fun a =>
      !a.page.elementIds.contains "q" && a.page.document.toNode.walk.any fun n =>
        n.lookups.contains "q") = some true := by
    decide +kernel
  rw [ha, Option.map_some, Option.some.injEq, Bool.and_eq_true, List.any_eq_true] at hlookup
  obtain ⟨hmissing, n, hn, hq⟩ := hlookup
  obtain ⟨d, hd, hreport⟩ :=
    (hmisses "q").2 ⟨by simpa using hmissing, n, hn, by simpa using hq⟩
  exact ⟨by decide, lookedUpPage_carries, a, ha, hids, ⟨d, hd, hreport⟩, hcarried d hd "q" hreport⟩

/-- The tag of a script gives no ids: `s` is reported. -/
example : ((analyze? {} "<body><script id=\"s\">document.getElementById(\"s\");</script></body>"
    none).map fun a => a.diagnostics.any fun d =>
      d.description == missingText .dataInput "s") = some true := by
  decide +kernel

/-- An id behind a value that ends with an equals sign does not stand clear: `out` is reported. -/
example : ((analyze? {} "<body><p a=b= id=out><script>document.getElementById(\"out\");</script>"
    none).map fun a => a.diagnostics.any fun d =>
      d.description == missingText .dataInput "out") = some true := by
  decide +kernel

end PageLint
