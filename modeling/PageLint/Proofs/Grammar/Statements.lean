import PageLint.Proofs.Grammar.Expressions
import PageLint.Proofs.Scripts
import PageLint.Tree.Walk

/-!
# A grammar of statements

The forms of the statements that readers find: declarations, chains of assignments and expressions,
both in scripts and in functions, and functions in scripts only. A statement stands where its first
token does, words spell the names in it, and the names that are declared on the way are those in the
tree.

* `Chain`, `Simple`, `Statement` — the forms of statements
* `declaredIn` — the names declared in a tree, in preorder
* `Harvest.Yields` — a harvest of statements of a form, with the names they declare
* `scriptFrom?_yields` — a script gives statements with the names they declare
-/

namespace PageLint

/-! ## Forms of statements -/

/-- The form of an expression outside all calls. -/
def OuterValue (limit : Int) : List Token → Node → Prop :=
  Value limit (Arguments limit maxCallDepth)

/-- A chain of assignments around an expression, or around nothing when none follows the last
operator; an expression alone is a chain without assignments. -/
inductive Chain (limit : Int) : List Token → Node → Prop
  | value {ts : List Token} {n : Node} (form : OuterValue limit ts n) : Chain limit ts n
  | last {t : Token} {ts : List Token} {target : Identifier} {operator : String}
      (site : target.site = t.site) (assigns : isAssignmentOperator operator = true) :
      Chain limit (t :: ts) (.assignment t.site target operator none)
  | link {t : Token} {before inner after : List Token} {target : Identifier} {operator : String}
      {n : Node} (site : target.site = t.site) (assigns : isAssignmentOperator operator = true)
      (inner_form : Chain limit inner n) :
      Chain limit (t :: (before ++ (inner ++ after))) (.assignment t.site target operator (some n))

/-- The statements that a function may hold. -/
inductive Simple (limit : Int) : List Token → Node → Prop
  | varDecl {keyword name : Token} {ts : List Token} {initializer : Option Node}
      (along : Along (OuterValue limit) ts initializer.toList)
      (word : name.kind.isWord = true) :
      Simple limit (keyword :: name :: ts)
        (.varDecl keyword.site keyword.text name.toIdentifier initializer)
  | constDecl {keyword name : Token} {ts : List Token} {initializer : Option Node}
      (along : Along (OuterValue limit) ts initializer.toList)
      (word : name.kind.isWord = true) :
      Simple limit (keyword :: name :: ts) (.constDecl keyword.site name.toIdentifier initializer)
  | chain {ts : List Token} {n : Node} (form : Chain limit ts n) : Simple limit ts n

/-- The statements of a script. -/
inductive Statement (limit : Int) : List Token → Node → Prop
  | simple {ts : List Token} {n : Node} (form : Simple limit ts n) : Statement limit ts n
  | function {keyword name : Token} {list inner : List Token} {parameters : List Identifier}
      {body : List Node}
      (named : ∀ i ∈ parameters, ∃ t ∈ list, t.kind = .identifier ∧ i = t.toIdentifier)
      (along : Along (Simple limit) inner body) (word : name.kind.isWord = true) :
      Statement limit (keyword :: name :: (list ++ inner))
        (.function keyword.site name.text parameters body)

/-! ## Names declared in a tree -/

/-- The name that a node declares. -/
def Node.declared? : Node → Option String
  | .varDecl _ _ target _ | .constDecl _ target _ => some target.name
  | _ => none

/-- The names declared by nodes and the nodes under them, in preorder. -/
def declaredIn (ns : List Node) : List String :=
  (ns.flatMap Node.preorder).filterMap Node.declared?

theorem declaredIn_append (ns ms : List Node) :
    declaredIn (ns ++ ms) = declaredIn ns ++ declaredIn ms := by
  rw [declaredIn, List.flatMap_append, List.filterMap_append, declaredIn, declaredIn]

/-- A node declares its own name, and then come those declared under it. -/
theorem declaredIn_singleton (n : Node) :
    declaredIn [n] = n.declared?.toList ++ declaredIn n.children := by
  rw [declaredIn, List.flatMap_singleton, Node.preorder_eq, List.filterMap_cons]
  cases n.declared? <;> rfl

theorem declaredIn_eq_nil {ns : List Node} (h : ∀ n ∈ ns, declaredIn [n] = []) :
    declaredIn ns = [] := by
  induction ns with
  | nil => rfl
  | cons n ns ih =>
    rw [← List.singleton_append, declaredIn_append, h n List.mem_cons_self,
      ih fun m hm => h m (List.mem_cons_of_mem _ hm)]
    rfl

theorem Value.declaredIn_eq_nil {limit : Int} {k : Nat} {ts : List Token} {n : Node}
    (h : Value limit (Arguments limit k) ts n) : declaredIn [n] = [] := by
  refine Value.induction (motive := fun _ _ n => declaredIn [n] = []) ?_ ?_ ?_ ?_ k h
  · intro k t ts i _
    rw [declaredIn_singleton]
    rfl
  · intro t ts callee _
    rw [declaredIn_singleton]
    rfl
  · intro k t before inner after callee arguments _ along
    rw [declaredIn_singleton]
    exact PageLint.declaredIn_eq_nil fun n hn => (along.exists_piece n hn).elim fun _ h => h.2
  · intro k t ts operands operators along _ _ _
    rw [declaredIn_singleton]
    exact PageLint.declaredIn_eq_nil fun n hn => (along.exists_piece n hn).elim fun _ h => h.2.2

theorem Chain.declaredIn_eq_nil {limit : Int} {ts : List Token} {n : Node} (h : Chain limit ts n) :
    declaredIn [n] = [] := by
  induction h with
  | value form => exact Value.declaredIn_eq_nil form
  | last => rw [declaredIn_singleton]; rfl
  | link _ _ _ ih => rw [declaredIn_singleton]; exact ih

/-! ## Harvests -/

/-- What has been found are statements of a form, with the names that they declare. -/
structure Harvest.Yields (P : List Token → Node → Prop) (ts : List Token) (found : Harvest) :
    Prop where
  laid : Laid P ts found.rest found.statements
  declared : found.declared = declaredIn found.statements

namespace Harvest.Yields

variable {P Q : List Token → Node → Prop} {ts us rest : List Token} {found more : Harvest}

theorem nothing (h : rest <:+ ts) : ({ rest } : Harvest).Yields P ts :=
  ⟨Laid.nothing h, rfl⟩

theorem of_suffix (h : found.Yields P ts) (hs : ts <:+ us) : found.Yields P us :=
  ⟨h.laid.of_suffix hs, h.declared⟩

theorem imp (hPQ : ∀ ts n, P ts n → Q ts n) (h : found.Yields P ts) : found.Yields Q ts :=
  ⟨h.laid.imp hPQ, h.declared⟩

theorem append (h : found.Yields P ts) (hs : us <:+ found.rest) (h' : more.Yields P us) :
    (found.append more).Yields P ts where
  laid := h.laid.append (h'.laid.of_suffix hs)
  declared := by
    rw [Harvest.append, h.declared, h'.declared, declaredIn_append]

end Harvest.Yields

/-! ## Readers of simple statements -/

theorem readInitializer_laid (limit : Int) (ts : List Token) :
    Laid (OuterValue limit) ts (readInitializer limit ts).rest
      (readInitializer limit ts).value.toList := by
  unfold readInitializer
  split
  · exact .nothing List.suffix_rfl
  · split
    · exact (expression_laid limit maxCallDepth _).of_suffix (List.suffix_cons _ _)
    · exact .nothing List.suffix_rfl

/-- An expression declares no names. -/
theorem Laid.declaredIn_eq_nil {limit : Int} {ts rest : List Token} {ns : List Node}
    (h : Laid (OuterValue limit) ts rest ns) : declaredIn ns = [] := by
  obtain ⟨_, -, along⟩ := h
  refine PageLint.declaredIn_eq_nil fun n hn => ?_
  obtain ⟨_, -, form⟩ := along.exists_piece n hn
  exact Value.declaredIn_eq_nil form

theorem readDeclaration_yields {limit : Int} {P : List Token → Node → Prop} {keyword : Token}
    {build : Identifier → Option Node → Node}
    (hform : ∀ (name : Token) (ts : List Token) (initializer : Option Node),
      Along (OuterValue limit) ts initializer.toList → name.kind.isWord = true →
      P (keyword :: name :: ts) (build name.toIdentifier initializer))
    (hdeclared : ∀ i initializer, (build i initializer).declared? = some i.name ∧
      (build i initializer).children = initializer.toList) (ts : List Token) :
    (readDeclaration limit build ts).Yields P (keyword :: ts) := by
  unfold readDeclaration
  split
  · exact .nothing (List.suffix_cons _ _)
  · rename_i name ts
    split
    · rename_i hword
      obtain ⟨taken, htaken, along⟩ := readInitializer_laid limit ts
      refine ⟨?_, ?_⟩
      · refine Laid.leaving ⟨keyword :: name :: taken, ?_,
          .singleton (hform name taken _ along hword)⟩ (dropSemicolon_suffix _)
        exact congrArg (fun us => keyword :: name :: us) htaken
      · rw [declaredIn_singleton, (hdeclared _ _).1, (hdeclared _ _).2,
          (readInitializer_laid limit ts).declaredIn_eq_nil]
        rfl
    · exact .nothing (List.suffix_cons _ _)

theorem findAssignment?_split {ts before after : List Token} {operator : Token}
    (h : findAssignment? ts = some (before, operator, after)) :
    ts = before ++ operator :: after ∧ isAssignmentOperator operator.text = true := by
  induction ts generalizing before with
  | nil => simp [findAssignment?] at h
  | cons t ts ih =>
    unfold findAssignment? at h
    split at h
    · simp at h
    split at h
    · rename_i hassigns
      obtain ⟨rfl, rfl, rfl⟩ : [] = before ∧ t = operator ∧ ts = after := by simpa using h
      exact ⟨rfl, (Bool.and_eq_true _ _ ▸ hassigns).2⟩
    · obtain ⟨⟨b, o, a⟩, ha, hb⟩ := Option.map_eq_some_iff.1 h
      obtain ⟨rfl, rfl, rfl⟩ : t :: b = before ∧ o = operator ∧ a = after := by simpa using hb
      obtain ⟨rfl, hassigns⟩ := ih ha
      exact ⟨rfl, hassigns⟩

/-- **A chain of assignments has the form of one**, when its final value is an expression. -/
theorem chainNode_laid {limit : Int} {ts rest : List Token} {value : Option Node}
    (hvalue : Laid (OuterValue limit) (assignmentLinks ts).2 rest value.toList) :
    Laid (Chain limit) ts rest (chainNode (assignmentLinks ts).1 value).toList := by
  fun_induction assignmentLinks ts with
  | case1 => exact hvalue.imp fun _ _ => .value
  | case2 => exact hvalue.imp fun _ _ => .value
  | case3 t ts ht before operator after hfind hlt links left hlinks ih =>
    rw [hlinks] at ih
    obtain ⟨rfl, hassigns⟩ := findAssignment?_split hfind
    obtain ⟨taken, hafter, along⟩ := ih hvalue
    subst hafter
    show Laid (Chain limit) _ rest [.assignment t.site (targetOf t before) operator.text
      (chainNode links value)]
    refine ⟨t :: (before ++ operator :: taken), by simp, .singleton ?_⟩
    cases hchain : chainNode links value with
    | none => exact .last rfl hassigns
    | some n =>
      rw [hchain] at along
      -- The inner chain is made of a piece of the tokens behind the operator.
      obtain ⟨piece, ⟨skipped, behind, rfl⟩, form⟩ := along.exists_piece n (by simp)
      have hsplit : before ++ operator :: (skipped ++ piece ++ behind) =
          (before ++ operator :: skipped) ++ (piece ++ behind) := by simp
      rw [hsplit]
      exact .link rfl hassigns form
  | case4 => exact hvalue.imp fun _ _ => .value

theorem readAssignment_yields (limit : Int) (ts : List Token) :
    (readAssignment limit ts).Yields (Chain limit) ts := by
  have hlaid := chainNode_laid (expression_laid limit maxCallDepth (assignmentLinks ts).2)
  refine ⟨hlaid.leaving (dropSemicolon_suffix _), (PageLint.declaredIn_eq_nil fun n hn => ?_).symm⟩
  obtain ⟨_, -, along⟩ := hlaid
  obtain ⟨_, -, form⟩ := along.exists_piece n hn
  exact form.declaredIn_eq_nil

theorem readSimple?_yields {limit : Int} {t : Token} {ts : List Token} {found : Harvest}
    (h : readSimple? limit t ts = some found) : found.Yields (Simple limit) (t :: ts) := by
  unfold readSimple? at h
  split at h
  · obtain rfl := Option.some.inj h
    exact readDeclaration_yields (fun _ _ _ => .varDecl) (fun _ _ => ⟨rfl, rfl⟩) ts
  split at h
  · obtain rfl := Option.some.inj h
    exact readDeclaration_yields (fun _ _ _ => .constDecl) (fun _ _ => ⟨rfl, rfl⟩) ts
  split at h
  · obtain rfl := Option.some.inj h
    exact (readAssignment_yields limit (t :: ts)).imp fun _ _ => .chain
  · simp at h

/-! ## Functions and scripts -/

theorem bodyFrom?_yields {limit : Int} {depth : Nat} {ts : List Token} {found : Harvest}
    (h : bodyFrom? limit depth ts = some found) : found.Yields (Simple limit) ts := by
  fun_induction bodyFrom? limit depth ts generalizing found with
  | case1 => obtain rfl := Option.some.inj h; exact .nothing List.suffix_rfl
  | case2 => obtain rfl := Option.some.inj h; exact .nothing List.suffix_rfl
  | case3 => obtain rfl := Option.some.inj h; exact .nothing List.suffix_rfl
  | case4 depth t ts _ _ ih => exact (ih h).of_suffix (List.suffix_cons t ts)
  | case5 depth t ts _ _ _ ih => exact (ih h).of_suffix (List.suffix_cons t ts)
  | case6 depth t ts _ _ _ _ ih => exact (ih h).of_suffix (List.suffix_cons t ts)
  | case7 depth t ts _ _ _ first hfirst _ ih =>
    obtain ⟨more, hmore, rfl⟩ := Option.map_eq_some_iff.1 h
    exact (readSimple?_yields hfirst).append List.suffix_rfl (ih hmore)
  | case8 => simp at h

theorem readBody?_yields {limit : Int} {ts : List Token} {found : Harvest}
    (h : readBody? limit ts = some found) : found.Yields (Simple limit) ts := by
  unfold readBody? at h
  split at h
  · obtain rfl := Option.some.inj h
    exact .nothing List.suffix_rfl
  · split at h
    · exact (bodyFrom?_yields h).of_suffix (List.suffix_cons _ _)
    · obtain rfl := Option.some.inj h
      exact .nothing List.suffix_rfl

/-- Parameters are spelled by tokens that are taken with them. -/
theorem readParameters_taken (ts : List Token) : ∃ taken, ts = taken ++ (readParameters ts).2 ∧
    ∀ i ∈ (readParameters ts).1, ∃ t ∈ taken, t.kind = .identifier ∧ i = t.toIdentifier := by
  induction ts with
  | nil => exact ⟨[], rfl, by simp [readParameters]⟩
  | cons t ts ih =>
    rw [readParameters]
    split
    · obtain ⟨taken, htaken⟩ := dropRightParen_suffix (t :: ts)
      exact ⟨taken, htaken.symm, by simp⟩
    · obtain ⟨taken, htaken, hnamed⟩ := ih
      have hmore : ∀ i ∈ (readParameters ts).1,
          ∃ u ∈ t :: taken, u.kind = .identifier ∧ i = u.toIdentifier := by
        intro i hi
        obtain ⟨u, hu, hname⟩ := hnamed i hi
        exact ⟨u, List.mem_cons_of_mem t hu, hname⟩
      refine ⟨t :: taken, congrArg (List.cons t) htaken, ?_⟩
      simp only
      split
      · rename_i hkind
        intro i hi
        rcases List.mem_cons.1 hi with rfl | hi
        · exact ⟨t, List.mem_cons_self, by simpa using hkind, rfl⟩
        · exact hmore i hi
      · exact hmore

theorem readParameterList_taken (ts : List Token) :
    ∃ taken, ts = taken ++ (readParameterList ts).2 ∧
      ∀ i ∈ (readParameterList ts).1, ∃ t ∈ taken, t.kind = .identifier ∧ i = t.toIdentifier := by
  unfold readParameterList
  split
  · exact ⟨[], rfl, by simp⟩
  · rename_i t ts
    split
    · obtain ⟨taken, htaken, hnamed⟩ := readParameters_taken ts
      refine ⟨t :: taken, congrArg (List.cons t) htaken, fun i hi => ?_⟩
      obtain ⟨u, hu, hname⟩ := hnamed i hi
      exact ⟨u, List.mem_cons_of_mem t hu, hname⟩
    · exact ⟨[], rfl, by simp⟩

theorem readFunction?_yields {limit : Int} {keyword : Token} {ts : List Token} {found : Harvest}
    (h : readFunction? limit keyword ts = some found) :
    found.Yields (Statement limit) (keyword :: ts) := by
  unfold readFunction? at h
  split at h
  · obtain rfl := Option.some.inj h
    exact .nothing (List.suffix_cons _ _)
  rename_i name ts
  split at h
  · rename_i hword
    obtain ⟨body, hbody, rfl⟩ := Option.map_eq_some_iff.1 h
    obtain ⟨list, hlist, hnamed⟩ := readParameterList_taken ts
    have hyields := readBody?_yields hbody
    obtain ⟨inner, hinner, along⟩ := hyields.laid
    refine ⟨⟨keyword :: name :: (list ++ inner), ?_, .singleton (.function hnamed along hword)⟩, ?_⟩
    · show keyword :: name :: ts = keyword :: name :: (list ++ inner ++ body.rest)
      rw [List.append_assoc]
      exact congrArg (fun us => keyword :: name :: us)
        (hlist.trans (congrArg (list ++ ·) hinner))
    · show body.declared = _
      rw [declaredIn_singleton, hyields.declared]
      rfl
  · obtain rfl := Option.some.inj h
    exact .nothing (List.suffix_cons _ _)

/-- **A statement of a script has the form of one.** -/
theorem readStatement?_yields {config : Config} {t : Token} {ts : List Token} {found : Harvest}
    (h : readStatement? config t ts = some found) :
    found.Yields (Statement config.maxExpressionTokens) (t :: ts) := by
  simp only [readStatement?] at h
  split at h
  · rename_i hsimple
    obtain rfl := Option.some.inj h
    exact (readSimple?_yields hsimple).imp fun _ _ => .simple
  split at h
  · exact readFunction?_yields h
  split at h
  · obtain rfl := Option.some.inj h
    have hlaid := expression_laid config.maxExpressionTokens maxCallDepth (t :: ts)
    refine ⟨Laid.leaving (hlaid.imp fun _ _ form => ?_) (dropSemicolon_suffix _), ?_⟩
    · exact .simple (.chain (.value form))
    · exact hlaid.declaredIn_eq_nil.symm
  · obtain rfl := Option.some.inj h
    exact .nothing (List.suffix_cons t ts)

/-- **A script gives statements, with the names that they declare.** -/
theorem scriptFrom?_yields {config : Config} {ts : List Token} {found : Harvest}
    (h : scriptFrom? config ts = some found) :
    found.Yields (Statement config.maxExpressionTokens) ts := by
  fun_induction scriptFrom? config ts generalizing found with
  | case1 => obtain rfl := Option.some.inj h; exact .nothing List.suffix_rfl
  | case2 => obtain rfl := Option.some.inj h; exact .nothing List.suffix_rfl
  | case3 => simp at h
  | case4 t ts _ first hfirst _ ih =>
    obtain ⟨more, hmore, rfl⟩ := Option.map_eq_some_iff.1 h
    exact (readStatement?_yields hfirst).append List.suffix_rfl (ih hmore)
  | case5 t ts _ first hfirst hlt ih =>
    obtain ⟨more, hmore, rfl⟩ := Option.map_eq_some_iff.1 h
    -- A statement that takes no token leaves them all.
    have hrest : first.rest = t :: ts :=
      (readStatement?_suffix hfirst).eq_of_length_le (Nat.not_lt.1 hlt)
    exact (readStatement?_yields hfirst).append (hrest ▸ List.suffix_cons t ts) (ih hmore)

end PageLint
