import PageLint.Proofs.LineEnds.Independence
import PageLint.Proofs.Naming
import PageLint.Proofs.Passes.Operators
import PageLint.Proofs.Reports.Entries
import PageLint.Proofs.Shape

/-!
# Which diagnostics go over several lines

What is reported of a page quotes names, operators and ids that are looked up. Names and operators
stay on one line. An id is part of what a script spells, and in a script only strings and comments
may go over several lines, of which comments are left out. So only an id that is missing puts
newlines into a report, and it comes from a string with an escaped newline.

* `Token.IsBroken` — a string over several lines
* `scriptNode_lookups` — what scripts without such strings look up stays on one line
* `Rule.oneLine_run` — what is said of names, operators and the skeleton of a page
* `exists_misses_of_newline` — newlines in diagnostics are those of missing ids
* `report_newlines` — the newlines in the report of an analysis
-/

namespace PageLint

/-! ## What scripts look up -/

/-- A string over several lines. -/
def Token.IsBroken (t : Token) : Prop := t.kind = .string ∧ '\n' ∈ t.text.toList

theorem Text.length_respell (w cs : List Char) :
    (respell w cs).length + cs.count '\n' = cs.length + cs.count '\n' * w.length := by
  induction cs with
  | nil => simp
  | cons c cs ih =>
    by_cases hc : c = '\n'
    · rw [hc, respell_newline, List.count_cons_self, List.length_append, List.length_cons,
        Nat.add_mul]
      omega
    · rw [respell_cons hc, List.count_cons_of_ne hc, List.length_cons, List.length_cons]
      omega

/-- A text that stays as it is with carriage returns in front of its newlines has none. -/
theorem View.not_mem_of_returned {s : String} (h : View.returned.text s = s) :
    '\n' ∉ s.toList := by
  have hlength := Text.length_respell (Text.lineEnd View.returned.returns) s.toList
  have hlist := congrArg String.toList h
  rw [View.toList_text] at hlist
  rw [hlist, show (Text.lineEnd View.returned.returns).length = 2 from rfl] at hlength
  rw [← List.count_eq_zero]
  omega

/-- A token of a script is the same with carriage returns in front of newlines, if it is neither the
end of the script nor a string over several lines. -/
theorem Token.shownAs_returned {source : String} {file : Option String} {t : Token}
    (ht : t ∈ tokenize source file) (hscript : Mode.script.scans t.kind = true)
    (hends : t.endsScript = false) (hstring : ¬ t.IsBroken) : t.ShownAs .returned t := by
  have hline : t.kind ≠ .comment → '\n' ∉ t.text.toList := by
    intro hcomment hmem
    cases hstays : t.kind.staysOnLine with
    | true => exact scanFrom_oneLine file .markup .start source.toList t ht hstays hmem
    | false =>
      refine hstring ⟨?_, hmem⟩
      rw [Token.endsScript] at hends
      cases hk : t.kind <;> simp_all [Mode.scans, TokenKind.staysOnLine, TokenKind.isSpelled]
  exact {
    kind := rfl
    line := rfl
    text := fun hcomment => (View.text_of_not_mem _ (hline hcomment)).symm
    spelled := fun hspelled => View.text_of_not_mem _ (hline fun hk => by
      rw [hk] at hspelled
      cases hspelled)
    within := fun _ _ _ => rfl }

/-- What a view keeps of a node it keeps of the nodes under it. -/
theorem Node.view_eq_of_mem_preorder {v : View} {n : Node} (h : n.view .bare = n.view v) :
    ∀ m ∈ n.preorder, m.view .bare = m.view v := by
  induction n using Node.inductionOnChildren with
  | step n ih =>
    refine Node.forall_preorder h fun c hc => ih c hc ?_
    have hchildren := congrArg Node.children h
    rw [Node.view_children, Node.view_children] at hchildren
    exact List.map_inj_left.1 hchildren c hc

/-- What a node looks up is kept by a view that keeps the node. -/
theorem Node.text_of_mem_lookups {v : View} {n : Node} (h : n.view .bare = n.view v) :
    ∀ id ∈ n.lookups, v.text id = id := by
  have hw := Text.lineEnd_isLineEnd v.returns
  have hspelled : ∀ i : Identifier, i.view .bare = i.view v →
      Text.respell (Text.lineEnd v.returns) i.name.toList = i.name.toList := by
    intro i hi
    have hname : i.name = v.text i.name := by
      simpa [Identifier.view] using congrArg Identifier.name hi
    rw [← View.toList_text, ← hname]
  intro id hid
  cases n with
  | call site callee arguments =>
    cases arguments with
    | nil => cases hid
    | cons a arguments =>
      cases a with
      | identifier argument =>
        simp only [Node.view, Node.viewAll, Node.call.injEq, List.cons.injEq,
          Node.identifier.injEq] at h
        rw [Node.lookups] at hid
        split at hid
        · rw [List.mem_singleton.1 hid, View.text, String.toList_ofList,
            ← Text.unquoted_respell hw, hspelled argument h.2.2.1]
        · cases hid
      | _ => cases hid
  | assignment site target operator value =>
    simp only [Node.view, Node.assignment.injEq] at h
    rw [Node.lookups] at hid
    split at hid
    · obtain ⟨quoted, hquoted, rfl⟩ := List.mem_map.1 hid
      -- The text that is found is kept as the target is.
      have hfound := Text.lookedUp?_respell hw target.name.toList
      rw [hspelled target h.2.1, Option.mem_toList.1 hquoted, Option.map_some,
        Option.some.injEq] at hfound
      rw [View.text, String.toList_ofList, ← Text.unquoted_respell hw, ← hfound]
    · cases hid
  | _ => cases hid

/-- **What a script looks up stays on one line**, when no string in it goes over several lines. -/
theorem scriptNode_lookups (config : Config) (opening : Token) {inside : List Token}
    (hinside : ∀ t ∈ inside, t.ShownAs .returned t) :
    ∀ m ∈ (scriptNode config opening inside).preorder, ∀ id ∈ m.lookups, '\n' ∉ id.toList := by
  -- The statements do not depend on the text of the tag of the script.
  have hbare : (Token.bare .scriptOpen "").ShownAs .returned (Token.bare .scriptOpen "") :=
    ⟨rfl, rfl, fun _ => rfl, fun hspelled => absurd hspelled Bool.false_ne_true, fun _ _ _ => rfl⟩
  have hview := scriptNode_shown config hbare (List.forall₂_same.2 hinside)
  have hkept := Node.view_eq_of_mem_preorder hview
  refine Node.forall_preorder (by simp [scriptNode, Node.lookups]) fun c hc m hm id hid => ?_
  refine View.not_mem_of_returned (Node.text_of_mem_lookups (hkept m ?_) id hid)
  rw [Node.preorder_eq]
  exact List.mem_cons_of_mem _ (List.mem_flatMap.2 ⟨c, hc, hm⟩)

/-- An id with a newline that is looked up in a page comes from a string over several lines. -/
theorem Page.Shows.exists_isBroken {config : Config} {source : String} {file : Option String}
    {page : Page} (h : page.Shows file (progressOf config (tokenize source file))) :
    ∀ n ∈ page.document.nodes, ∀ id ∈ n.lookups, '\n' ∈ id.toList →
      ∃ t ∈ tokenize source file, t.IsBroken := by
  have hleaf : ∀ n : Node, n.lookups = [] → n.children = [] → ∀ m ∈ n.preorder,
      ∀ id ∈ m.lookups, '\n' ∈ id.toList → ∃ t ∈ tokenize source file, t.IsBroken :=
    fun n hn hchildren => Node.forall_preorder (by simp [hn]) (by simp [hchildren])
  refine h.forall_nodes (by simp [Document.toNode, Node.lookups]) ?_ fun t _ _ => by
    simp [Progress.doctypeNode, Node.lookups]
  refine h.induction (fun c hc n hn => ?_) fun c _ o _ ns hns => ?_
  · cases hn with
    | text => exact hleaf _ rfl rfl
    | script opening inside =>
      intro m hm id hid hnewline
      by_contra hbroken
      refine scriptNode_lookups config opening (fun t ht => ?_) m hm id hid hnewline
      have hflat : t ∈ (chunks (tokenize source file)).flatMap Chunk.tokens :=
        List.mem_flatMap.2 ⟨_, hc, List.mem_cons_of_mem _ ht⟩
      rw [flatMap_tokens_tokenize] at hflat
      have hmem := List.mem_of_mem_filter hflat
      obtain ⟨_, _, _, _, hinside, _⟩ :=
        exists_of_mem_chunks (Or.inl (rfl : Mode.markup = .markup)) hc
      exact Token.shownAs_returned hmem ((scans_of_mem_script source file hc).2 t ht)
        (hinside t ht) fun h => hbroken ⟨t, hmem, h⟩
  · exact Node.forall_preorder (by simp [Opening.toTag, Node.lookups]) hns

/-! ## What the passes say -/

namespace Rule

theorem newlines_of_isWellFormed {name : String} (h : isWellFormed name = true) :
    newlines name = 0 :=
  newlines_eq_zero.2 (not_mem_of_isWellFormed h (by decide +kernel) (by decide +kernel))

/-- What is put together from texts on one line is on one line. -/
theorem newlines_join {s s' : String} (h : newlines s = 0) (h' : newlines s' = 0) :
    newlines (s ++ s') = 0 := by
  rw [newlines_append, h, h']

theorem ProperReport.newlines_eq_zero {description : String} (h : ProperReport description) :
    newlines description = 0 := by
  cases h with
  | reservedConstant form =>
    exact newlines_join (newlines_join (newlines_literal (by decide))
      (newlines_of_isWellFormed form)) (newlines_literal (by decide))
  | reservedFunction form | reservedParameter form =>
    exact newlines_join (newlines_join (newlines_join
      (newlines_join (newlines_literal (by decide)) (newlines_literal (by decide)))
      (newlines_of_isWellFormed form)) (newlines_literal (by decide)))
      (newlines_literal (by decide))
  | noValue | afterVariable | noName | emptyBody => exact newlines_literal (by decide)

theorem newlines_skeletonFinding (line : Int) {description : String}
    (h : newlines description = 0) :
    newlines (skeletonFinding line description).description = 0 := h

/-- What is found in the skeleton of a page is said on one line. -/
theorem newlines_skeletonFindings (d : Document) :
    ∀ f ∈ skeletonFindings d, newlines f.description = 0 := by
  unfold skeletonFindings
  split
  · exact List.forall_mem_singleton.2 (newlines_skeletonFinding _ (newlines_literal (by decide)))
  · rw [List.forall_mem_append]
    constructor <;> split
    · exact List.forall_mem_nil _
    · exact List.forall_mem_singleton.2 (newlines_skeletonFinding _ (newlines_literal (by decide)))
    · exact List.forall_mem_nil _
    · exact List.forall_mem_singleton.2 (newlines_skeletonFinding _ (newlines_literal (by decide)))

theorem newlines_doctypeFindings (config : Config) (d : Document) :
    ∀ f ∈ doctypeFindings config d, newlines f.description = 0 := by
  unfold doctypeFindings
  split
  · exact List.forall_mem_singleton.2 (newlines_skeletonFinding _ (newlines_literal (by decide)))
  · split
    · exact List.forall_mem_singleton.2 (newlines_skeletonFinding _ (newlines_literal (by decide)))
    · exact List.forall_mem_nil _

end Rule

theorem newlines_missingText (category : Category) (id : String) :
    newlines (missingText category id) = newlines id := by
  have hfront : newlines (if category = .dataInput then
      "getElementById references non-existent element ID: '"
    else "innerHTML assignment references non-existent element ID: '") = 0 := by
    split <;> exact newlines_literal (by decide)
  rw [missingText, newlines_append, newlines_append, hfront, show newlines "'" = 0 by decide]
  omega

/-- A pass says everything on one line, or it looks ids up. -/
theorem Page.Shows.newlines_run {config : Config} {source : String} {file : Option String}
    {page : Page} (h : page.Shows file (progressOf config (tokenize source file)))
    (ids : List String) {pass : Pass} (hinput : pass ≠ .dataInput) (houtput : pass ≠ .dataOutput) :
    ∀ f ∈ (pass.run config ids page.document).1, newlines f.description = 0 := by
  have hwalk : page.document.toNode.walk = page.document.toNode.preorder :=
    Node.walk_eq_preorder h.distinct
  have hnodes : ∀ n ∈ page.document.toNode.preorder, n ∈ page.document.nodes :=
    fun n hn => List.mem_append_left _ hn
  have hnamed : ∀ n ∈ page.document.toNode.preorder, n.WellNamed :=
    fun n hn => h.wellNamed n (hnodes n hn)
  intro f hf
  cases pass with
  | identifiers =>
    obtain ⟨n, hn, hf⟩ := List.mem_flatMap.1 hf
    have hwell := hnamed n (hwalk ▸ hn)
    rw [Rule.identifierRule_of_wellNamed hwell] at hf
    obtain ⟨heading, hheading, rfl⟩ := List.mem_map.1 hf
    have hform := hwell.heading heading (Option.mem_toList.1 (List.mem_of_mem_filter hheading))
    exact Rule.newlines_join (Rule.newlines_join (Rule.newlines_join (newlines_literal (by decide))
      (Rule.newlines_of_isWellFormed hform)) (newlines_literal (by decide)))
      (newlines_literal (by decide))
  | constants =>
    obtain ⟨n, hn, hf⟩ := List.mem_flatMap.1 hf
    rw [hwalk] at hn
    exact (Rule.properReport_constantRule
      (fun m hm => hnamed m (Node.preorder_trans hn hm)) f hf).newlines_eq_zero
  | functions =>
    obtain ⟨n, hn, hf⟩ := List.mem_flatMap.1 hf
    exact (Rule.properReport_functionRule (hnamed n (hwalk ▸ hn)) f hf).newlines_eq_zero
  | assignments =>
    rw [Pass.run, Node.assignments_eq_flatMap h.distinct, Rule.flatMap_operatorFindings] at hf
    obtain ⟨n, hn, rfl⟩ := List.mem_map.1 hf
    obtain ⟨hmem, hmisassigns⟩ := List.mem_filter.1 hn
    have hwords : ∀ operator ∈ assignmentOperators, newlines operator = 0 := by decide
    cases n with
    | assignment site target operator value =>
      show newlines ("Invalid assignment operator: " ++ operator) = 0
      rw [newlines_append, hwords operator (h.shaped.operators _ _ _ _ (hnodes _ hmem))]
      exact newlines_literal (by decide)
    | _ => exact absurd (of_decide_eq_true hmisassigns) id
  | dataInput => exact absurd rfl hinput
  | dataOutput => exact absurd rfl houtput
  | doctype => exact Rule.newlines_doctypeFindings config _ f hf
  | skeleton => exact Rule.newlines_skeletonFindings _ f hf

/-! ## Reports -/

/-- **Newlines in what is reported are those of missing ids**, which come from strings over several
lines. -/
theorem Page.Shows.exists_misses_of_newline {config : Config} {source : String}
    {file : Option String} {page : Page}
    (h : page.Shows file (progressOf config (tokenize source file))) {d : Diagnostic}
    (hd : d.finding ∈ findingsOf config page.elementIds page.document Pass.all)
    (hnewline : newlines d.description ≠ 0) :
    ∃ id, d.Misses id ∧ newlines id ≠ 0 ∧ ∃ t ∈ tokenize source file, t.IsBroken := by
  obtain ⟨pass, -, hpass, hrun⟩ := exists_pass_of_mem_findingsOf hd
  have hcategory : d.category = pass.category := hpass.symm
  have hfound : (d.category = .dataInput ∨ d.category = .dataOutput) ∧
      ∃ n ∈ page.document.toNode.walk, ∃ id ∈ n.lookups,
        d.description = missingText d.category id := by
    by_cases hinput : pass = .dataInput
    · subst hinput
      obtain ⟨n, hn, hf⟩ := List.mem_flatMap.1 hrun
      obtain ⟨id, hid, -, hdescription⟩ := Rule.dataInputRule_misses hf
      exact ⟨Or.inl hcategory, n, hn, id, hid, hcategory ▸ hdescription⟩
    by_cases houtput : pass = .dataOutput
    · subst houtput
      obtain ⟨n, hn, hf⟩ := List.mem_flatMap.1 hrun
      obtain ⟨id, hid, -, hdescription⟩ := Rule.dataOutputRule_misses hf
      exact ⟨Or.inr hcategory, n, hn, id, hid, hcategory ▸ hdescription⟩
    exact absurd (h.newlines_run page.elementIds hinput houtput _ hrun) hnewline
  obtain ⟨hlookup, n, hn, id, hid, hdescription⟩ := hfound
  rw [hdescription, newlines_missingText] at hnewline
  rw [Node.walk_eq_preorder h.distinct] at hn
  have hmem : '\n' ∈ id.toList := by
    by_contra hnone
    exact hnewline (newlines_eq_zero.2 hnone)
  exact ⟨id, ⟨hlookup, hdescription⟩, hnewline,
    h.exists_isBroken n (List.mem_append_left _ hn) id hid hmem⟩

/-- **The newlines in the report of an analysis**: one for each line of the source and one for each
diagnostic, and those in the ids that are reported as missing. Such ids come from strings over
several lines, so that without them, and only then, every line and every diagnostic takes one line
of the report. -/
theorem report_newlines {config : Config} (hlimit : 1 ≤ config.maxExpressionTokens)
    (source : String) (file : Option String) : ∃ a, analyze? config source file = some a ∧
      newlines (Report.format source a.diagnostics) =
        (Text.sourceLines source).length + a.diagnostics.length +
          newlines (String.join (a.diagnostics.map Diagnostic.description)) ∧
      (∀ d ∈ a.diagnostics, newlines d.description ≠ 0 →
        ∃ id, d.Misses id ∧ newlines id = newlines d.description ∧
          ∃ t ∈ tokenize source file, t.IsBroken) ∧
      (newlines (Report.format source a.diagnostics) =
          (Text.sourceLines source).length + a.diagnostics.length ↔
        ∀ d ∈ a.diagnostics, ∀ id, d.Misses id → '\n' ∉ id.toList) := by
  obtain ⟨page, a, hshows, ha, hdiagnostics⟩ := analyze?_eq hlimit source file
  have hcount := Report.newlines_format source a.diagnostics
  have hsource : ∀ d ∈ a.diagnostics, newlines d.description ≠ 0 →
      ∃ id, d.Misses id ∧ newlines id = newlines d.description ∧
        ∃ t ∈ tokenize source file, t.IsBroken := by
    intro d hd hnewline
    have hfinding : d.finding ∈ findingsOf config page.elementIds page.document Pass.all := by
      rw [← map_finding_numberFrom 1 (findingsOf ..), ← hdiagnostics]
      exact List.mem_map_of_mem hd
    obtain ⟨id, hmisses, -, hbroken⟩ := hshows.exists_misses_of_newline hfinding hnewline
    exact ⟨id, hmisses, by rw [hmisses.description, newlines_missingText], hbroken⟩
  refine ⟨a, ha, hcount, hsource, ?_⟩
  rw [hcount]
  constructor
  · intro htotal d hd id hmisses
    have hzero : newlines (String.join (a.diagnostics.map Diagnostic.description)) = 0 := by
      omega
    have hdescription := newlines_join_eq_zero.1 hzero d.description (List.mem_map_of_mem hd)
    rw [hmisses.description, newlines_missingText] at hdescription
    exact newlines_eq_zero.1 hdescription
  · intro hnone
    rw [newlines_join_eq_zero.2 (List.forall_mem_map.2 ?_), Nat.add_zero]
    intro d hd
    by_contra hnewline
    obtain ⟨id, hmisses, hid, -⟩ := hsource d hd hnewline
    exact hnewline (hid ▸ newlines_eq_zero.2 (hnone d hd id hmisses))

/-- A page that looks up an id over two lines, which no element has. -/
def brokenLookup : String :=
  "<body><script>document.getElementById(\"a\\\nb\");</script></body>"

theorem brokenLookup_newlines : 1 ≤ ({} : Config).maxExpressionTokens ∧
    ∃ a, analyze? {} brokenLookup none = some a ∧ a.diagnostics.length = 3 ∧
      (Text.sourceLines brokenLookup).length = 2 ∧
      newlines (Report.format brokenLookup a.diagnostics) = 2 + 3 + 1 ∧
      ∃ d ∈ a.diagnostics, d.Misses "a\\\nb" := by
  obtain ⟨a, ha, hcount, -, hlaw⟩ := @report_newlines {} (by decide) brokenLookup none
  have hfacts : (analyze? {} brokenLookup none).map (fun a =>
      (a.diagnostics.map fun d => newlines d.description,
        a.diagnostics.head?.map fun d => (d.category, d.description))) =
      some ([1, 0, 0], some (.dataInput, missingText .dataInput "a\\\nb")) := by
    decide +kernel
  have hlines : (Text.sourceLines brokenLookup).length = 2 := by decide +kernel
  rw [ha, Option.map_some, Option.some.injEq, Prod.mk.injEq] at hfacts
  obtain ⟨hnewlines, hhead⟩ := hfacts
  obtain ⟨d, hd, hmark⟩ := Option.map_eq_some_iff.1 hhead
  obtain ⟨hcategory, hdescription⟩ := Prod.mk.inj hmark
  have hlength : a.diagnostics.length = 3 := by
    simpa using congrArg List.length hnewlines
  have hone : newlines (String.join (a.diagnostics.map Diagnostic.description)) = 1 := by
    obtain ⟨d₁, d₂, d₃, hall⟩ := List.length_eq_three.1 hlength
    simp only [hall, List.map_cons, List.map_nil, List.cons.injEq] at hnewlines
    simp only [hall, List.map_cons, List.map_nil, String.join_cons, String.join_nil,
      newlines_append, newlines_empty, hnewlines]
  refine ⟨by decide, a, ha, hlength, hlines, ?_, d, List.mem_of_mem_head? hd, ?_⟩
  · rw [hcount, hlines, hlength, hone]
  · exact ⟨Or.inl hcategory, by rw [hdescription, hcategory]⟩

end PageLint
