import PageLint.Proofs.Ids.Missing

/-!
# Which settings matter to an analysis

Settings are looked at all over an analysis, but reading a page asks three things of them only: how
long an expression may get, whether a word starts an expression statement and whether an element
never has contents. Settings that answer these alike read every page alike. Of the passes only the
one over the doctype asks for more: how far down a doctype may stand. So what else is set decides
about one diagnostic at most, and about the numbers of those behind it.

* `Config.ReadsAlike` — settings that answer all that reading asks in the same way
* `readPage?_alike` — such settings read every page alike
* `DiffersInLateDoctype` — two analyses that differ in a late doctype alone
* `analyze?_readsAlike` — the analyses of a page under such settings
-/

namespace PageLint

/-- Settings that answer all that reading asks in the same way. -/
structure Config.ReadsAlike (c c' : Config) : Prop where
  limit : c'.maxExpressionTokens = c.maxExpressionTokens
  keywords : ∀ word, word ∈ c'.expressionKeywords ↔ word ∈ c.expressionKeywords
  voids : ∀ name, name ∈ c'.voidElements ↔ name ∈ c.voidElements

/-! ## Reading -/

namespace Progress

section Markup

variable {c c' : Config} (h : ∀ name, name ∈ c'.voidElements ↔ name ∈ c.voidElements)

include h

theorem openTag_alike (p : Progress) (opening : Opening) :
    p.openTag c' opening = p.openTag c opening := by
  have hvoid : c'.voidElements.contains opening.name = c.voidElements.contains opening.name := by
    rw [Bool.eq_iff_iff, List.contains_iff_mem, List.contains_iff_mem]
    exact h opening.name
  simp only [openTag, hvoid]

/-- Outside scripts reading asks for the void elements only. -/
theorem readMarkup_alike (p : Progress) (t : Token) :
    p.readMarkup c' t = p.readMarkup c t := by
  have hspan : readSpan c' t = readSpan c t := by
    funext p span
    simp only [readSpan, openTag_alike h]
  simp only [readMarkup, hspan]

end Markup

end Progress

section Reading

variable {c c' : Config} (h : c.ReadsAlike c')

include h

theorem readStatement?_alike (t : Token) (ts : List Token) :
    readStatement? c' t ts = readStatement? c t ts := by
  have hkeyword : c'.expressionKeywords.contains t.text = c.expressionKeywords.contains t.text := by
    rw [Bool.eq_iff_iff, List.contains_iff_mem, List.contains_iff_mem]
    exact h.keywords t.text
  simp only [readStatement?, h.limit, hkeyword]

namespace Progress

/-- **Settings that answer alike read on alike**, whatever has been read before. -/
theorem readFrom?_alike (p : Progress) (ts : List Token) :
    p.readFrom? c' ts = p.readFrom? c ts := by
  fun_induction readFrom? c p ts with
  | case1 p => rw [readFrom?]
  | case2 p t ts heof => rw [readFrom?, if_pos heof]
  | case3 p t ts heof hregion ih =>
    rw [readFrom?, if_neg heof, hregion, readMarkup_alike h.voids, ih]
  | case4 p t ts heof region hregion hclose ih =>
    rw [readFrom?, if_neg heof, hregion]
    simp only [hclose, if_true, ih]
  | case5 p t ts heof region hregion hclose hfound =>
    rw [readFrom?, if_neg heof, hregion, readStatement?_alike h]
    simp only [hclose, hfound]
    rfl
  | case6 p t ts heof region hregion hclose found hfound hlt ih =>
    rw [readFrom?, if_neg heof, hregion, readStatement?_alike h]
    simp only [hclose, hfound, hlt, if_true, ih]
    rfl
  | case7 p t ts heof region hregion hclose found hfound hlt ih =>
    rw [readFrom?, if_neg heof, hregion, readStatement?_alike h]
    simp only [hclose, hfound, hlt, if_false, ih]
    rfl

end Progress

theorem readPage?_alike (source : String) (file : Option String) :
    readPage? c' source file = readPage? c source file := by
  simp only [readPage?, Progress.readFrom?_alike h]

end Reading

/-! ## Findings -/

/-- Whether a finding tells that a doctype stands too far down. -/
def Finding.isLateDoctype (f : Finding) : Bool :=
  f.category == .htmlStructure &&
    f.description == "DOCTYPE declaration must be at the very beginning of the document"

/-- A pass other than the one over the doctype asks nothing of the settings. -/
theorem Pass.run_config {pass : Pass} (h : pass ≠ .doctype) (c c' : Config) (ids : List String)
    (document : Document) : pass.run c' ids document = pass.run c ids document := by
  cases pass with
  | doctype => exact absurd rfl h
  | _ => rfl

theorem findingsOf_config {passes : List Pass} (h : Pass.doctype ∉ passes) (c c' : Config)
    (ids : List String) (document : Document) :
    findingsOf c' ids document passes = findingsOf c ids document passes :=
  List.flatMap_congr fun _ hpass =>
    congrArg Prod.fst (Pass.run_config (fun heq => h (heq ▸ hpass)) c c' ids document)

/-- A pass other than the one over the doctype finds no late doctype. -/
theorem not_isLateDoctype_of_mem_run {pass : Pass} (h : pass ≠ .doctype) {c : Config}
    {ids : List String} {document : Document} {f : Finding}
    (hf : f ∈ (pass.run c ids document).1) : f.isLateDoctype = false := by
  have hcategory := Pass.category_of_mem_run hf
  cases pass with
  | doctype => exact absurd rfl h
  | skeleton =>
    have hskeleton : f ∈ Rule.skeletonFindings document := hf
    unfold Rule.skeletonFindings at hskeleton
    split at hskeleton
    · rw [List.mem_singleton.1 hskeleton]
      rfl
    · rcases List.mem_append.1 hskeleton with hf | hf <;> split at hf
      · cases hf
      · rw [List.mem_singleton.1 hf]
        rfl
      · cases hf
      · rw [List.mem_singleton.1 hf]
        rfl
  | _ => simp [Finding.isLateDoctype, hcategory, Pass.category]

theorem not_isLateDoctype_of_mem {passes : List Pass} (h : Pass.doctype ∉ passes) {c : Config}
    {ids : List String} {document : Document} :
    ∀ f ∈ findingsOf c ids document passes, f.isLateDoctype = false := by
  intro f hf
  obtain ⟨pass, hpass, hf⟩ := List.mem_flatMap.1 hf
  exact not_isLateDoctype_of_mem_run (fun heq => h (heq ▸ hpass)) hf

/-- What the pass over the doctype finds under all settings, and the late doctype that it finds
under some. -/
theorem doctypeFindings_split (document : Document) : ∃ always : List Finding,
    (∀ f ∈ always, f.isLateDoctype = false) ∧ ∀ c : Config, ∃ late : List Finding,
      Rule.doctypeFindings c document = always ++ late ∧ late.length ≤ 1 ∧
        ∀ f ∈ late, f.isLateDoctype = true := by
  unfold Rule.doctypeFindings
  cases document.doctype with
  | none =>
    refine ⟨_, List.forall_mem_singleton.2 ?_, fun c => ⟨[], (List.append_nil _).symm, ?_, ?_⟩⟩
    · rfl
    · exact Nat.zero_le 1
    · exact List.forall_mem_nil _
  | some doctype =>
    refine ⟨[], List.forall_mem_nil _, fun c => ⟨_, (List.nil_append _).symm, ?_, ?_⟩⟩
    · simp only
      split <;> simp
    · simp only
      split
      · exact List.forall_mem_singleton.2 rfl
      · exact List.forall_mem_nil _

/-- **Settings decide about a late doctype and nothing else**: the findings in front of it and
behind it are the same under all settings. -/
theorem findingsOf_split (ids : List String) (document : Document) :
    ∃ before after : List Finding, (∀ f ∈ before ++ after, f.isLateDoctype = false) ∧
      ∀ c : Config, ∃ late : List Finding,
        findingsOf c ids document Pass.all = before ++ late ++ after ∧ late.length ≤ 1 ∧
          ∀ f ∈ late, f.isLateDoctype = true := by
  let front : List Pass :=
    [.identifiers, .constants, .assignments, .functions, .dataInput, .dataOutput]
  have hfront : Pass.doctype ∉ front := by decide
  have hback : Pass.doctype ∉ [Pass.skeleton] := by decide
  obtain ⟨always, halways, hdoctype⟩ := doctypeFindings_split document
  refine ⟨findingsOf {} ids document front ++ always, findingsOf {} ids document [.skeleton], ?_,
    fun c => ?_⟩
  · simp only [List.forall_mem_append]
    exact ⟨⟨not_isLateDoctype_of_mem hfront, halways⟩, not_isLateDoctype_of_mem hback⟩
  · obtain ⟨late, hfound, hlate⟩ := hdoctype c
    refine ⟨late, ?_, hlate⟩
    have hall : findingsOf c ids document (front ++ [.doctype, .skeleton]) =
        findingsOf c ids document front ++
          (Rule.doctypeFindings c document ++ findingsOf c ids document [.skeleton]) := by
      rw [findingsOf, List.flatMap_append]
      rfl
    show findingsOf c ids document (front ++ [.doctype, .skeleton]) = _
    rw [hall, hfound, findingsOf_config hfront {} c, findingsOf_config hback {} c]
    simp only [List.append_assoc]

/-! ## Analyses -/

/-- Two analyses that differ in the report of a late doctype alone. -/
structure DiffersInLateDoctype (a a' : Analysis) : Prop where
  /-- The document, the ids of its elements and all else that has been read are the same. -/
  page : a'.page = a.page
  /-- Without a late doctype, the lines, descriptions and categories are the same, in order. -/
  others : (a'.diagnostics.map Diagnostic.finding).filter (fun f => !f.isLateDoctype) =
    (a.diagnostics.map Diagnostic.finding).filter fun f => !f.isLateDoctype
  /-- There is one late doctype at most, what is reported in front of it has the same numbers, and
  what is reported behind it is numbered on. -/
  numbered : ∃ before late late' after : List Finding,
    (∀ f ∈ before ++ after, f.isLateDoctype = false) ∧
    (late.length ≤ 1 ∧ ∀ f ∈ late, f.isLateDoctype = true) ∧
    (late'.length ≤ 1 ∧ ∀ f ∈ late', f.isLateDoctype = true) ∧
    a.diagnostics = numberFrom 1 (before ++ late ++ after) ∧
    a'.diagnostics = numberFrom 1 (before ++ late' ++ after)

/-- Findings around a late doctype are what is left without it. -/
theorem filter_around_lateDoctype {before late after : List Finding}
    (hothers : ∀ f ∈ before ++ after, f.isLateDoctype = false)
    (hlate : ∀ f ∈ late, f.isLateDoctype = true) :
    (before ++ late ++ after).filter (fun f => !f.isLateDoctype) = before ++ after := by
  rw [List.forall_mem_append] at hothers
  rw [List.filter_append, List.filter_append,
    List.filter_eq_self.2 fun f hf => by rw [hothers.1 f hf]; rfl,
    List.filter_eq_nil_iff.2 fun f hf => by rw [hlate f hf]; simp,
    List.filter_eq_self.2 fun f hf => by rw [hothers.2 f hf]; rfl, List.append_nil]

/-- **Settings that answer alike what reading asks** give every page the same document, the same ids
and the same reports, up to that of a late doctype and the numbers behind it. -/
theorem analyze?_readsAlike {c c' : Config} (h : c.ReadsAlike c')
    (hlimit : 1 ≤ c.maxExpressionTokens) (source : String) (file : Option String) :
    ∃ a a', analyze? c source file = some a ∧ analyze? c' source file = some a' ∧
      DiffersInLateDoctype a a' := by
  obtain ⟨page, hpage, -⟩ := readPage?_shows hlimit source file
  obtain ⟨a, ha, rfl, hdiagnostics⟩ := exists_analysis hpage
  obtain ⟨a', ha', hsame, hdiagnostics'⟩ :=
    exists_analysis ((readPage?_alike h source file).trans hpage)
  obtain ⟨before, after, hothers, hsplit⟩ := findingsOf_split a.page.elementIds a.page.document
  obtain ⟨late, hfound, hlate⟩ := hsplit c
  obtain ⟨late', hfound', hlate'⟩ := hsplit c'
  rw [hfound] at hdiagnostics
  rw [hfound'] at hdiagnostics'
  refine ⟨a, a', ha, ha', hsame, ?_,
    before, late, late', after, hothers, hlate, hlate', hdiagnostics, hdiagnostics'⟩
  rw [hdiagnostics, hdiagnostics', map_finding_numberFrom, map_finding_numberFrom,
    filter_around_lateDoctype hothers hlate.2, filter_around_lateDoctype hothers hlate'.2]

/-- A page with its doctype on the second line, and no tags. -/
def secondLineDoctype : String := "\n<!DOCTYPE html>"

/-- Settings that allow a doctype on the first line only, with the words in another order. -/
def firstLineOnly : Config :=
  { doctypeMaxLine := 1, expressionKeywords := ["new", "if", "else"], reportExtension := ".log" }

theorem firstLineOnly_readsAlike : ({} : Config).ReadsAlike firstLineOnly where
  limit := rfl
  keywords := by
    intro word
    simp only [firstLineOnly, List.mem_cons, List.not_mem_nil, or_false]
    tauto
  voids := fun _ => Iff.rfl

theorem secondLineDoctype_differs : ({} : Config).ReadsAlike firstLineOnly ∧
    1 ≤ ({} : Config).maxExpressionTokens ∧
    ∃ a a', analyze? {} secondLineDoctype none = some a ∧
      analyze? firstLineOnly secondLineDoctype none = some a' ∧ DiffersInLateDoctype a a' ∧
      a.diagnostics.map Diagnostic.number = [1] ∧ a'.diagnostics.map Diagnostic.number = [1, 2] := by
  obtain ⟨a, a', ha, ha', hdiffers⟩ :=
    analyze?_readsAlike firstLineOnly_readsAlike (by decide) secondLineDoctype none
  have hone : (analyze? {} secondLineDoctype none).map
      (fun a => a.diagnostics.map Diagnostic.number) = some [1] := by
    decide +kernel
  have htwo : (analyze? firstLineOnly secondLineDoctype none).map
      (fun a => a.diagnostics.map Diagnostic.number) = some [1, 2] := by
    decide +kernel
  rw [ha] at hone
  rw [ha'] at htwo
  exact ⟨firstLineOnly_readsAlike, by decide, a, a', ha, ha', hdiffers, Option.some.inj hone,
    Option.some.inj htwo⟩

end PageLint
