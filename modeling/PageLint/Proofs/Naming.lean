import PageLint.Proofs.Grammar.Sites
import PageLint.Proofs.Ids.Missing

/-!
# Names in pages

The scanner and the rules for names go by the same classes of characters and the same reserved
words, so the rules have little to find in a page that has been read. Every name in it is spelled by
a word that has been scanned and is well formed, and only identifiers are parameters, which are not
reserved. What is left to report is a variable, a constant or a function with a reserved word for its
name.

A variable or a constant is reported on the line of its name. A function keeps no place of its name
and is reported on its own line, even when its name stands further down.

* `tokenize_properWord` — words that have been scanned are well formed
* `Page.Shows.wellNamed` — the nodes of a page are well named
* `Rule.identifierRule_of_wellNamed` — what is found at a node that is well named
* `Rule.ProperReport` — what the passes over constants and functions say of such nodes
* `analyze?_namesProper` — what an analysis reports about names
-/

namespace PageLint

/-! ## Words of the scanner -/

/-- A token that can spell a name spells a well-formed one, and one that is not reserved if the
token is an identifier. -/
def Token.ProperWord (t : Token) : Prop :=
  t.kind.isWord = true →
    Rule.isWellFormed t.text = true ∧ (t.kind = .identifier → isReserved t.text = false)

theorem isReserved_of_wordKind {word : String} (h : wordKind word = .identifier) :
    isReserved word = false := by
  unfold wordKind at h
  split at h
  · cases h
  split at h
  · cases h
  split at h
  · cases h
  · rename_i hreserved
    simpa using hreserved

theorem isWord_eq_false_of_markup {kind : TokenKind} (h : Mode.markup.scans kind = true) :
    kind.isWord = false := by
  cases kind <;> first | rfl | cases h

theorem isWord_markKind (c : Char) : (markKind c).isWord = false := by
  unfold markKind
  repeat' split
  all_goals rfl

/-- A token of a script that can spell a name is a word. -/
theorem scriptToken_isWord {c : Char} {cs : List Char} (h : (scriptToken c cs).1.isWord = true) :
    Text.isWordStart c = true ∧ scriptToken c cs =
      (wordKind (String.ofList (c :: cs.takeWhile Text.isWordPart)),
        1 + (cs.takeWhile Text.isWordPart).length) := by
  unfold scriptToken at h ⊢
  split at h
  · cases h
  unfold plainToken at h ⊢
  split at h
  · cases h
  rename_i hquote
  split at h
  · cases h
  rename_i hdigit
  split at h
  · rename_i hstart
    refine ⟨hstart, ?_⟩
    simp only [hquote, hdigit, hstart, if_true, take_length_takeWhile]
    rfl
  split at h
  · cases h
  split at h
  · cases h
  · rw [isWord_markKind] at h
    cases h

/-- **A cut that can spell a name is a proper word.** -/
theorem Mode.cut_properWord (mode : Mode) (c : Char) (cs : List Char) (file : Option String)
    (place : Cursor) : ∀ t ∈ (mode.cut c cs).token? file place, t.ProperWord := by
  intro t ht hword
  obtain ⟨kind, hkind, rfl⟩ := Option.map_eq_some_iff.1 ht
  cases mode with
  | markup =>
    rw [show (Token.at file place kind _).kind = kind from rfl,
      isWord_eq_false_of_markup (Mode.scans_cut .markup c cs kind hkind)] at hword
    cases hword
  | script =>
    obtain rfl : (scriptToken c cs).1 = kind := Option.some.inj hkind
    obtain ⟨hstart, htoken⟩ := scriptToken_isWord hword
    have htext : (Mode.script.cut c cs).text = c :: cs.takeWhile Text.isWordPart := by
      show (c :: cs).take (scriptToken c cs).2 = _
      rw [htoken, Nat.add_comm, List.take_succ_cons, take_length_takeWhile]
    have hparts : (cs.takeWhile Text.isWordPart).all Text.isWordPart = true :=
      List.all_eq_true.2 fun _ hd => List.mem_takeWhile_imp hd
    rw [Token.at, htext]
    refine ⟨?_, fun hidentifier => isReserved_of_wordKind ?_⟩
    · simp [Rule.isWellFormed, hstart, hparts]
    · exact (congrArg Prod.fst htoken).symm.trans hidentifier

/-- **Words that have been scanned are proper**, whatever mode and position scanning starts in. -/
theorem scanFrom_properWord (file : Option String) (mode : Mode) (place : Cursor)
    (input : List Char) : ∀ t ∈ (scanFrom file mode place input).tokens, t.ProperWord := by
  fun_induction scanFrom file mode place input with
  | case1 =>
    intro t ht hword
    rw [List.mem_singleton.1 ht] at hword
    cases hword
  | case2 mode place input place' c cs h cut start stop next hlt tail ih =>
    rw [List.forall_mem_append]
    exact ⟨fun t ht => mode.cut_properWord c cs file start t (Option.mem_toList.1 ht), ih⟩

theorem tokenize_properWord (source : String) (file : Option String) :
    ∀ t ∈ tokenize source file, t.ProperWord :=
  scanFrom_properWord file .markup .start source.toList

/-! ## Names in the tree -/

/-- The name under which a variable, a constant or a function is declared, with the line on which it
is reported: that of the name, or that of the function. -/
def Node.heading? : Node → Option (String × Int)
  | .varDecl _ _ target _ | .constDecl _ target _ => some (target.name, target.site.location.line)
  | .function site name _ _ => some (name, site.location.line)
  | _ => none

/-- The parameters of a function. -/
def Node.parameters : Node → List Identifier
  | .function _ _ parameters _ => parameters
  | _ => []

/-- A node whose names are well formed, with parameters that are not reserved. -/
structure Node.WellNamed (n : Node) : Prop where
  heading : ∀ h ∈ n.heading?, Rule.isWellFormed h.1 = true
  parameters : ∀ p ∈ n.parameters, Rule.isWellFormed p.name = true ∧ isReserved p.name = false

/-- Nodes without names are well named. -/
theorem Node.wellNamed_of_unnamed {n : Node} (heading : n.heading? = none)
    (parameters : n.parameters = []) : n.WellNamed where
  heading := by simp [heading]
  parameters := by simp [parameters]

/-- What holds of all nodes under nodes of a form holds of all nodes under those along tokens. -/
theorem Along.forall_preorder {P : List Token → Node → Prop} {Q : Node → Prop} {ts : List Token}
    {ns : List Node} (h : Along P ts ns) (hP : ∀ us n, P us n → ∀ m ∈ n.preorder, Q m) :
    ∀ c ∈ ns, ∀ m ∈ c.preorder, Q m := by
  intro c hc
  obtain ⟨piece, -, form⟩ := h.exists_piece c hc
  exact hP piece c form

theorem Value.wellNamed {limit : Int} {k : Nat} {ts : List Token} {n : Node}
    (h : Value limit (Arguments limit k) ts n) : ∀ m ∈ n.preorder, m.WellNamed := by
  refine Value.induction (motive := fun _ _ n => ∀ m ∈ n.preorder, m.WellNamed) ?_ ?_ ?_ ?_ k h
  · intro k t ts i _
    exact Node.forall_preorder (Node.wellNamed_of_unnamed rfl rfl) (by simp [Node.children])
  · intro t ts callee _
    exact Node.forall_preorder (Node.wellNamed_of_unnamed rfl rfl) (by simp [Node.children])
  · intro k t before inner after callee arguments _ along
    exact Node.forall_preorder (Node.wellNamed_of_unnamed rfl rfl)
      (along.forall_preorder fun _ _ h => h)
  · intro k t ts operands operators along _ _ _
    exact Node.forall_preorder (Node.wellNamed_of_unnamed rfl rfl)
      (along.forall_preorder fun _ _ h => h.2)

section Statements

variable {limit : Int} {ts : List Token} {n : Node}

theorem Chain.wellNamed (h : Chain limit ts n) : ∀ m ∈ n.preorder, m.WellNamed := by
  induction h with
  | value form => exact Value.wellNamed form
  | last => exact Node.forall_preorder (Node.wellNamed_of_unnamed rfl rfl) (by simp [Node.children])
  | link _ _ _ ih =>
    refine Node.forall_preorder (Node.wellNamed_of_unnamed rfl rfl) fun c hc => ?_
    obtain rfl := List.mem_singleton.1 hc
    exact ih

theorem Simple.wellNamed (h : Simple limit ts n) (hts : ∀ t ∈ ts, t.ProperWord) :
    ∀ m ∈ n.preorder, m.WellNamed := by
  cases h with
  | @varDecl keyword name _ _ along word =>
    refine Node.forall_preorder ⟨?_, List.forall_mem_nil _⟩
      (along.forall_preorder fun _ _ => Value.wellNamed)
    rintro _ ⟨⟩
    exact (hts name (by simp) word).1
  | @constDecl keyword name _ _ along word =>
    refine Node.forall_preorder ⟨?_, List.forall_mem_nil _⟩
      (along.forall_preorder fun _ _ => Value.wellNamed)
    rintro _ ⟨⟩
    exact (hts name (by simp) word).1
  | chain form => exact form.wellNamed

theorem Statement.wellNamed (h : Statement limit ts n) (hts : ∀ t ∈ ts, t.ProperWord) :
    ∀ m ∈ n.preorder, m.WellNamed := by
  cases h with
  | simple form => exact form.wellNamed hts
  | @function keyword name list inner parameters body named along word =>
    refine Node.forall_preorder ⟨?_, ?_⟩ fun c hc => ?_
    · rintro _ ⟨⟩
      exact (hts name (by simp) word).1
    · intro p hp
      obtain ⟨t, ht, hkind, rfl⟩ := named p hp
      obtain ⟨hform, hreserved⟩ := hts t (by simp [ht]) (by rw [hkind]; rfl)
      exact ⟨hform, hreserved hkind⟩
    · obtain ⟨piece, hpiece, form⟩ := along.exists_piece c hc
      exact form.wellNamed fun t ht => hts t (by simp [hpiece.subset ht])

end Statements

theorem scriptNode_wellNamed (config : Config) (opening : Token) {inside : List Token}
    (hinside : ∀ t ∈ inside, t.ProperWord) :
    ∀ m ∈ (scriptNode config opening inside).preorder, m.WellNamed := by
  refine Node.forall_preorder (Node.wellNamed_of_unnamed rfl rfl) fun c hc => ?_
  obtain ⟨piece, hpiece, form⟩ := (harvestOf_yields config inside).1.exists_piece c hc
  exact form.wellNamed fun t ht => hinside t (hpiece.subset ht)

/-- **The nodes of a page are well named.** -/
theorem Page.Shows.wellNamed {config : Config} {source : String} {file : Option String}
    {page : Page} (h : page.Shows file (progressOf config (tokenize source file))) :
    ∀ n ∈ page.document.nodes, n.WellNamed := by
  have hinside : ∀ opening inside, .script opening inside ∈ chunks (tokenize source file) →
      ∀ t ∈ inside, t.ProperWord := by
    intro opening inside hmem t ht
    have hflat : t ∈ (chunks (tokenize source file)).flatMap Chunk.tokens :=
      List.mem_flatMap.2 ⟨_, hmem, List.mem_cons_of_mem _ ht⟩
    rw [flatMap_tokens_tokenize] at hflat
    exact tokenize_properWord source file t (List.mem_of_mem_filter hflat)
  refine h.forall_nodes (Node.wellNamed_of_unnamed rfl rfl) ?_
    fun t _ _ => Node.wellNamed_of_unnamed rfl rfl
  refine h.induction (fun c hc n hn => ?_) fun c _ o _ ns hns => ?_
  · cases hn with
    | text =>
      exact Node.forall_preorder (Node.wellNamed_of_unnamed rfl rfl) (by simp [Node.children])
    | script opening inside =>
      exact scriptNode_wellNamed config opening (hinside opening inside hc)
  · exact Node.forall_preorder (Node.wellNamed_of_unnamed rfl rfl) hns

/-! ## What the rules find -/

/-- The description of a finding that refuses the form of a name. -/
def RefusesForm (description : String) : Prop :=
  " does not follow identifier rules".toList <:+ description.toList

/-- A description that ends in another letter does not refuse the form of a name. -/
theorem not_refusesForm (description : String)
    (h : description.toList.getLast?.any (· != 's') = true) : ¬RefusesForm description := by
  rintro ⟨front, hfront⟩
  rw [← hfront, List.getLast?_append_of_ne_nil _ (by decide)] at h
  exact absurd h (by decide)

theorem not_refusesForm_append (front : String) {back : String}
    (h : back.toList.getLast?.any (· != 's') = true) : ¬RefusesForm (front ++ back) := by
  have hne : back.toList ≠ [] := by
    intro hnil
    rw [hnil] at h
    cases h
  refine not_refusesForm _ ?_
  rw [String.toList_append, List.getLast?_append_of_ne_nil _ hne]
  exact h

namespace Rule

/-- The finding of a name that is a reserved word. -/
def reservedFinding (name : String) (line : Int) : Finding :=
  nameFinding line
    ("Identifier '" ++ name ++ "'" ++ " is a JavaScript reserved word and cannot be used")

/-- A name that is well formed has none of the characters that are reported. -/
theorem not_mem_of_isWellFormed {name : String} (h : isWellFormed name = true) {c : Char}
    (hstart : Text.isWordStart c = false) (hpart : Text.isWordPart c = false) :
    c ∉ name.toList := by
  unfold isWellFormed at h
  split at h
  · cases h
  · rename_i first rest hname
    rw [Bool.and_eq_true, List.all_eq_true] at h
    rw [hname]
    intro hmem
    rcases List.mem_cons.1 hmem with rfl | hmem
    · rw [h.1] at hstart
      cases hstart
    · rw [h.2 c hmem] at hpart
      cases hpart

/-- **A well-formed name breaks one rule at most**: not to be reserved. -/
theorem nameFindings_of_isWellFormed {name : String} (h : isWellFormed name = true) (line : Int) :
    nameFindings name line = if isReserved name then [reservedFinding name line] else [] := by
  have hspace : ' ' ∉ name.toList :=
    not_mem_of_isWellFormed h (by decide +kernel) (by decide +kernel)
  have hspecial : firstSpecial? name = none := by
    have hnone : specialChars.all (fun c => !Text.isWordStart c && !Text.isWordPart c) = true := by
      decide +kernel
    refine List.find?_eq_none.2 fun c hc => ?_
    have hc' := List.all_eq_true.1 hnone c hc
    rw [Bool.and_eq_true, Bool.not_eq_true', Bool.not_eq_true'] at hc'
    simpa using not_mem_of_isWellFormed h hc'.1 hc'.2
  unfold isWellFormed at h
  unfold nameFindings
  split at h
  · cases h
  · rename_i first rest hname
    rw [Bool.and_eq_true, List.all_eq_true] at h
    have hinvalid : firstInvalid? name = none := by
      rw [firstInvalid?, hname]
      exact List.find?_eq_none.2 fun c hc => by simp [h.2 c hc]
    rw [hname] at hspace
    simp only [h.1, hinvalid, hspecial, if_true, List.contains_iff_mem, hspace, if_false,
      List.nil_append]
    rfl

/-- **At a node that is well named a reserved heading is found, and nothing else.** -/
theorem identifierRule_of_wellNamed {n : Node} (h : n.WellNamed) : identifierRule n =
    (n.heading?.toList.filter fun h => isReserved h.1).map fun h => reservedFinding h.1 h.2 := by
  have hheading : ∀ heading ∈ n.heading?, nameFindings heading.1 heading.2 =
      ([heading].filter fun h => isReserved h.1).map fun h => reservedFinding h.1 h.2 := by
    intro heading hmem
    rw [nameFindings_of_isWellFormed (h.heading heading hmem), List.filter_singleton]
    cases isReserved heading.1 <;> rfl
  cases n with
  | varDecl site keyword target initializer => exact hheading (_, _) rfl
  | constDecl site target initializer => exact hheading (_, _) rfl
  | function site name parameters body =>
    have hparameters : (parameters.flatMap fun p => nameFindings p.name p.site.location.line) =
        [] := by
      refine List.flatMap_eq_nil_iff.2 fun p hp => ?_
      obtain ⟨hform, hreserved⟩ := h.parameters p hp
      rw [nameFindings_of_isWellFormed hform, hreserved]
      rfl
    rw [identifierRule, hparameters, List.append_nil]
    exact hheading (_, _) rfl
  | _ => rfl

/-- What the passes over constants and functions have to say where names are well formed. -/
inductive ProperReport : String → Prop
  | reservedConstant {name : String} (form : isWellFormed name = true) :
      ProperReport ("Constant name '" ++ name ++ "' is a JavaScript reserved word")
  | noValue : ProperReport "Constant must be assigned a value at declaration"
  | afterVariable : ProperReport "Constant cannot be declared after var or let in the same scope"
  | noName : ProperReport "Function name cannot be empty"
  | reservedFunction {name : String} (form : isWellFormed name = true) :
      ProperReport ("Function name" ++ " '" ++ name ++ "'" ++ " is a JavaScript reserved word")
  | reservedParameter {name : String} (form : isWellFormed name = true) :
      ProperReport ("Function parameter" ++ " '" ++ name ++ "'" ++ " is a JavaScript reserved word")
  | emptyBody : ProperReport "Function body must contain at least one statement"

theorem ProperReport.not_refusesForm {description : String} (h : ProperReport description) :
    ¬RefusesForm description := by
  cases h with
  | reservedConstant | reservedFunction | reservedParameter => exact not_refusesForm_append _ rfl
  | noValue | afterVariable | noName | emptyBody => exact PageLint.not_refusesForm _ rfl

/-- What is found in a scope that is well named. -/
theorem properReport_scopeFindings (afterVariable : Bool) (statements : List Node)
    (h : ∀ n ∈ statements, n.WellNamed) :
    ∀ f ∈ scopeFindings afterVariable statements, ProperReport f.description := by
  fun_induction scopeFindings afterVariable statements with
  | case1 => exact List.forall_mem_nil _
  | case2 _ _ _ _ _ _ ih => exact ih fun n hn => h n (List.mem_cons_of_mem _ hn)
  | case3 afterVariable site target initializer rest ih =>
    rw [List.forall_mem_append]
    refine ⟨?_, ih fun n hn => h n (List.mem_cons_of_mem _ hn)⟩
    have hform : isWellFormed target.name = true :=
      (h _ List.mem_cons_self).heading (target.name, target.site.location.line) rfl
    unfold constantFindings
    simp only [hform, if_true, List.nil_append, List.forall_mem_append]
    refine ⟨⟨?_, ?_⟩, ?_⟩ <;> split
    · exact List.forall_mem_singleton.2 (.reservedConstant hform)
    · exact List.forall_mem_nil _
    · exact List.forall_mem_singleton.2 .noValue
    · exact List.forall_mem_nil _
    · exact List.forall_mem_singleton.2 .afterVariable
    · exact List.forall_mem_nil _
  | case4 _ _ _ _ _ ih => exact ih fun n hn => h n (List.mem_cons_of_mem _ hn)

theorem properReport_constantRule {n : Node} (h : ∀ m ∈ n.preorder, m.WellNamed) :
    ∀ f ∈ constantRule n, ProperReport f.description := by
  have hchildren : ∀ c ∈ n.children, c.WellNamed := by
    intro c hc
    refine h c ?_
    rw [Node.preorder_eq]
    exact List.mem_cons_of_mem _ (List.mem_flatMap.2 ⟨c, hc, by rw [Node.preorder_eq]; simp⟩)
  cases n with
  | script site statements => exact properReport_scopeFindings false statements hchildren
  | function site name parameters body => exact properReport_scopeFindings false body hchildren
  | _ => exact List.forall_mem_nil _

/-- A name that is well formed is found only where it is reserved. -/
theorem properReport_functionNameFindings {what name : String} (h : isWellFormed name = true)
    (hreport : ProperReport (what ++ " '" ++ name ++ "'" ++ " is a JavaScript reserved word"))
    (line : Int) : ∀ f ∈ functionNameFindings what name line, ProperReport f.description := by
  unfold functionNameFindings
  simp only [h, if_true, List.nil_append]
  split
  · exact List.forall_mem_singleton.2 hreport
  · exact List.forall_mem_nil _

theorem properReport_functionRule {n : Node} (h : n.WellNamed) :
    ∀ f ∈ functionRule n, ProperReport f.description := by
  cases n with
  | function site name parameters body =>
    have hname : isWellFormed name = true := h.heading (name, site.location.line) rfl
    rw [functionRule]
    split
    · exact List.forall_mem_singleton.2 .noName
    simp only [List.forall_mem_append]
    refine ⟨⟨properReport_functionNameFindings hname (.reservedFunction hname) _, ?_⟩, ?_⟩
    · intro f hf
      obtain ⟨p, hp, hf⟩ := List.mem_flatMap.1 hf
      have hform := (h.parameters p hp).1
      exact properReport_functionNameFindings hform (.reservedParameter hform) _ f hf
    · split
      · exact List.forall_mem_singleton.2 .emptyBody
      · exact List.forall_mem_nil _
  | _ => exact List.forall_mem_nil _

end Rule

/-! ## Analyses -/

/-- What an analysis has to say about the names of a page. -/
structure Analysis.NamesProper (a : Analysis) : Prop where
  /-- Names are well formed, and parameters are not reserved. -/
  names : ∀ n ∈ a.page.document.nodes, n.WellNamed
  /-- The pass over names reports the reserved names of variables, constants and functions, each
  once, in preorder. -/
  reserved : (a.diagnostics.filter fun d => d.category == .identifier).map Diagnostic.finding =
    ((a.page.document.toNode.preorder.filterMap Node.heading?).filter fun h => isReserved h.1).map
      fun h => Rule.reservedFinding h.1 h.2
  /-- The form of a name is refused neither for a constant nor for a function. -/
  forms : ∀ d ∈ a.diagnostics, d.category = .constant ∨ d.category = .function →
    ¬RefusesForm d.description

/-- The reports of a category are the findings of its passes. -/
theorem reports_of_category (config : Config) (ids : List String) (document : Document)
    (category : Category) (number : Int) :
    ((numberFrom number (findingsOf config ids document Pass.all)).filter
        fun d => d.category == category).map Diagnostic.finding =
      findingsOf config ids document (Pass.all.filter fun pass => pass.category == category) := by
  rw [← filter_findingsOf]
  conv => rhs; rw [← map_finding_numberFrom number (findingsOf config ids document Pass.all)]
  rw [List.filter_map]
  rfl

/-- The headings that are found at nodes are those of the nodes. -/
theorem flatMap_identifierRule {ns : List Node} (h : ∀ n ∈ ns, n.WellNamed) :
    ns.flatMap Rule.identifierRule =
      ((ns.filterMap Node.heading?).filter fun h => isReserved h.1).map
        fun h => Rule.reservedFinding h.1 h.2 := by
  rw [List.flatMap_congr fun n hn => Rule.identifierRule_of_wellNamed (h n hn),
    List.filterMap_eq_flatMap_toList, List.filter_flatMap, List.map_flatMap]

/-- **Of the names of a page only reserved ones are reported**: all names in it are well formed, a
parameter is never reserved, and a variable, a constant or a function whose name is reserved is
reported once, on the line of the name of a variable or a constant and on the line of a function. -/
theorem analyze?_namesProper {config : Config} (hlimit : 1 ≤ config.maxExpressionTokens)
    (source : String) (file : Option String) :
    ∃ a, analyze? config source file = some a ∧ a.NamesProper := by
  obtain ⟨page, hpage, hshows⟩ := readPage?_shows hlimit source file
  obtain ⟨a, ha, rfl, hdiagnostics⟩ := exists_analysis hpage
  have hnamed : ∀ n ∈ a.page.document.nodes, n.WellNamed := hshows.wellNamed
  have hpreorder : ∀ n ∈ a.page.document.toNode.preorder, n.WellNamed :=
    fun n hn => hnamed n (List.mem_append_left _ hn)
  have hwalk : a.page.document.toNode.walk = a.page.document.toNode.preorder :=
    Node.walk_eq_preorder hshows.distinct
  refine ⟨a, ha, hnamed, ?_, fun d hd hcategory => ?_⟩
  · rw [hdiagnostics, reports_of_category]
    show a.page.document.toNode.walk.flatMap Rule.identifierRule ++ [] = _
    rw [hwalk, List.append_nil, flatMap_identifierRule hpreorder]
  · have hfinding : d.finding ∈
        findingsOf config a.page.elementIds a.page.document Pass.all := by
      rw [← map_finding_numberFrom 1 (findingsOf ..), ← hdiagnostics]
      exact List.mem_map_of_mem hd
    obtain ⟨pass, -, hpass, hrun⟩ := exists_pass_of_mem_findingsOf hfinding
    rw [show d.category = pass.category from hpass.symm] at hcategory
    cases pass with
    | constants =>
      obtain ⟨n, hn, hf⟩ := List.mem_flatMap.1 hrun
      rw [hwalk] at hn
      exact (Rule.properReport_constantRule
        (fun m hm => hpreorder m (Node.preorder_trans hn hm)) _ hf).not_refusesForm
    | functions =>
      obtain ⟨n, hn, hf⟩ := List.mem_flatMap.1 hrun
      rw [hwalk] at hn
      exact (Rule.properReport_functionRule (hpreorder n hn) _ hf).not_refusesForm
    | _ => rcases hcategory with hk | hk <;> cases hk

/-- A page with a reserved word for the name of a variable, on the line below its keyword, and for
that of a function with a parameter. -/
def reservedNames : String :=
  "<body><script>let\nif = 1; const A = 2;\nfunction class(p) \x7b x = p; \x7d</script></body>"

theorem reservedNames_namesProper : 1 ≤ ({} : Config).maxExpressionTokens ∧
    ∃ a, analyze? {} reservedNames none = some a ∧ a.NamesProper ∧
      a.page.document.toNode.preorder.filterMap Node.heading? = [("if", 2), ("A", 2), ("class", 3)] ∧
      a.page.document.toNode.preorder.flatMap (fun n => n.parameters.map Identifier.name) = ["p"] ∧
      (a.diagnostics.filter fun d => d.category == .identifier).map Diagnostic.line = [2, 3] := by
  obtain ⟨a, ha, hnames⟩ := @analyze?_namesProper {} (by decide) reservedNames none
  have hfacts : (analyze? {} reservedNames none).map (fun a =>
      (a.page.document.toNode.preorder.filterMap Node.heading?,
        a.page.document.toNode.preorder.flatMap (fun n => n.parameters.map Identifier.name),
        (a.diagnostics.filter fun d => d.category == .identifier).map Diagnostic.line)) =
      some ([("if", 2), ("A", 2), ("class", 3)], ["p"], [2, 3]) := by
    decide +kernel
  rw [ha, Option.map_some, Option.some.injEq, Prod.mk.injEq, Prod.mk.injEq] at hfacts
  exact ⟨by decide, a, ha, hnames, hfacts⟩

/-- A function with a reserved word for its name, which stands on the line below its keyword. -/
def brokenHeading : String :=
  "<body><script>function\nclass() \x7b x = 1; \x7d</script></body>"

/-- **A function is not reported on the line of its name**: the page has one function, the only word
that spells its name stands on the second line, and the report of the name is on the first. -/
theorem brokenHeading_reported_above : ∃ a, analyze? {} brokenHeading none = some a ∧
    (a.page.document.toNode.preorder.filter fun n => n.kind == .function).map Node.caption =
      ["class"] ∧
    ((tokenize brokenHeading none).filter fun t => t.text == "class").map Token.line = [2] ∧
    (a.diagnostics.filter fun d => d.category == .identifier).map Diagnostic.finding =
      [Rule.reservedFinding "class" 1] := by
  have hfacts : (analyze? {} brokenHeading none).map (fun a =>
      ((a.page.document.toNode.preorder.filter fun n => n.kind == .function).map Node.caption,
        (a.diagnostics.filter fun d => d.category == .identifier).map Diagnostic.finding)) =
      some (["class"], [Rule.reservedFinding "class" 1]) := by
    decide +kernel
  obtain ⟨a, ha, hfacts⟩ := Option.map_eq_some_iff.1 hfacts
  rw [Prod.mk.injEq] at hfacts
  exact ⟨a, ha, hfacts.1, by decide +kernel, hfacts.2⟩

end PageLint
