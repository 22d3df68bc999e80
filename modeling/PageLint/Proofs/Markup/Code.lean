import PageLint.Proofs.Scripts
import PageLint.Tree.Walk

/-!
# Scripts hold no markup

A tag, a text or a script is a piece of markup. The nodes inside scripts are none: every reader
builds declarations, assignments, functions, calls, names and expressions only, and puts only such
nodes inside them. So the markup of a page is found by listing its nodes, those inside scripts
included.

* `Piece` — what a tag, a text or a script shows of itself
* `Node.IsCode` — neither a node nor a node under it is a piece of markup
* `scriptFrom?_isCode` — the statements of a script are code
-/

namespace PageLint

/-- What a piece of markup shows, the children of a tag left out. -/
inductive Piece where
  | tag (location : Location) (name : String) (attributes : List Attribute) (selfClosing : Bool)
  | text (location : Location) (content : String)
  | script (location : Location) (statements : List Node)

/-- The piece of markup that a node is. -/
def Node.piece? : Node → Option Piece
  | .tag site name attributes _ selfClosing _ =>
    some (.tag site.location name attributes selfClosing)
  | .text site content => some (.text site.location content)
  | .script site statements => some (.script site.location statements)
  | _ => none

/-- Neither the node nor any node under it is a piece of markup. -/
def Node.IsCode (n : Node) : Prop := ∀ m ∈ n.preorder, m.piece? = none

theorem Node.isCode_of_children {n : Node} (h : n.piece? = none) (hc : ∀ c ∈ n.children, c.IsCode) :
    n.IsCode := by
  intro m hm
  rw [Node.preorder_eq] at hm
  rcases List.mem_cons.1 hm with rfl | hm
  · exact h
  · obtain ⟨c, hmem, hpre⟩ := List.mem_flatMap.1 hm
    exact hc c hmem m hpre

/-- A declaration or an assignment with a value that is code. -/
theorem Node.isCode_of_value {n : Node} {value : Option Node} (h : n.piece? = none)
    (hc : n.children = value.toList) (hv : ∀ m ∈ value, m.IsCode) : n.IsCode := by
  refine Node.isCode_of_children h fun c hmem => ?_
  rw [hc] at hmem
  exact hv c (Option.mem_toList.1 hmem)

theorem isCode_identifier (i : Identifier) : (Node.identifier i).IsCode :=
  Node.isCode_of_children rfl (by simp [Node.children])

/-! ## Expressions -/

section Arguments

variable {args : Reader (List Node)} (hargs : ∀ ts, ∀ n ∈ (args.read ts).value, n.IsCode)

include hargs

theorem argumentsAt_isCode {ts : List Token} {ns : List Node}
    (h : (argumentsAt args ts).value = some ns) : ∀ n ∈ ns, n.IsCode := by
  unfold argumentsAt at h
  split at h
  · simp at h
  · split at h
    · rw [← Option.some.inj h]
      exact hargs _
    · simp at h

theorem namedOperand_isCode (ts : List Token) :
    ∀ n ∈ (namedOperand args ts).value, n.IsCode := by
  intro n hn
  unfold namedOperand at hn
  split at hn
  · simp at hn
  · simp only at hn
    split at hn
    · simp at hn
    · obtain rfl := Option.some.inj hn
      split
      · split
        · rename_i arguments h
          exact Node.isCode_of_children rfl (argumentsAt_isCode hargs h)
        · exact isCode_identifier _
      · exact isCode_identifier _

theorem flatRun_isCode (cut : Event) (n : Nat) (ts : List Token) :
    ∀ m ∈ (flatRun args cut n ts).value.1, m.IsCode := by
  fun_induction flatRun args cut n ts with
  | case1 => simp
  | case2 => simp
  | case3 => simp
  | case4 => simp
  | case5 n t ts _ _ _ more ih => exact ih
  | case6 n t ts _ _ _ operand more ih =>
    intro m hm
    rcases List.mem_append.1 hm with hm | hm
    · exact namedOperand_isCode hargs _ m (Option.mem_toList.1 hm)
    · exact ih m hm
  | case7 n t ts _ _ _ _ more ih =>
    intro m hm
    rcases List.mem_cons.1 hm with rfl | hm
    · exact isCode_identifier _
    · exact ih m hm
  | case8 => simp

theorem readExpression_isCode (limit : Int) (ts : List Token) :
    ∀ n ∈ (readExpression limit args ts).value, n.IsCode := by
  intro n hn
  unfold readExpression at hn
  split at hn
  · simp at hn
  rename_i t ts
  split at hn
  · simp at hn
  split at hn
  · exact namedOperand_isCode hargs _ n hn
  split at hn
  · exact namedOperand_isCode hargs _ n hn
  split at hn
  · obtain rfl := Option.some.inj hn
    exact isCode_identifier _
  · have hrun := flatRun_isCode hargs (.expressionCut t.location limit) limit.toNat (t :: ts)
    simp only at hn
    unfold flatNode at hn
    split at hn
    · simp at hn
    · rename_i operand hoperands _
      obtain rfl := Option.some.inj hn
      exact hrun operand (by rw [hoperands]; exact List.mem_singleton_self _)
    · obtain rfl := Option.some.inj hn
      exact Node.isCode_of_children rfl hrun

end Arguments

theorem argumentsFrom_isCode {expr : Reader (Option Node)}
    (hexpr : ∀ ts, ∀ n ∈ (expr.read ts).value, n.IsCode) (ts : List Token) :
    ∀ n ∈ (argumentsFrom expr ts).value, n.IsCode := by
  fun_induction argumentsFrom expr ts with
  | case1 => simp
  | case2 => simp
  | case3 t ts _ first => exact fun n hn => hexpr _ n (Option.mem_toList.1 hn)
  | case4 t ts _ first => exact fun n hn => hexpr _ n (Option.mem_toList.1 hn)
  | case5 t ts _ first u us _ _ _ more ih =>
    intro n hn
    rcases List.mem_append.1 hn with hn | hn
    · exact hexpr _ n (Option.mem_toList.1 hn)
    · exact ih n hn

/-- **Expressions are code**, whatever depth of calls is read. -/
theorem expression_isCode (limit : Int) (k : Nat) (ts : List Token) :
    ∀ n ∈ ((expression limit k).read ts).value, n.IsCode := by
  induction k generalizing ts with
  | zero => exact readExpression_isCode (by simp [skipArguments]) limit ts
  | succ k ih => exact readExpression_isCode (argumentsFrom_isCode ih) limit ts

/-! ## Statements -/

theorem readInitializer_isCode (limit : Int) (ts : List Token) :
    ∀ n ∈ (readInitializer limit ts).value, n.IsCode := by
  unfold readInitializer
  split
  · simp
  · split
    · exact expression_isCode limit maxCallDepth _
    · simp

theorem readDeclaration_isCode (limit : Int) {build : Identifier → Option Node → Node}
    (hbuild : ∀ i v, (∀ n ∈ v, n.IsCode) → (build i v).IsCode) (ts : List Token) :
    ∀ n ∈ (readDeclaration limit build ts).statements, n.IsCode := by
  unfold readDeclaration
  split
  · simp
  · split
    · intro n hn
      rw [List.mem_singleton.1 hn]
      exact hbuild _ _ (readInitializer_isCode limit _)
    · simp

theorem chainNode_isCode (links : List (Identifier × String)) {value : Option Node}
    (h : ∀ n ∈ value, n.IsCode) : ∀ n ∈ chainNode links value, n.IsCode := by
  induction links with
  | nil => exact h
  | cons link links ih =>
    intro n hn
    obtain rfl := Option.some.inj hn
    exact Node.isCode_of_value rfl rfl ih

theorem readSimple?_isCode {limit : Int} {t : Token} {ts : List Token} {found : Harvest}
    (h : readSimple? limit t ts = some found) : ∀ n ∈ found.statements, n.IsCode := by
  unfold readSimple? at h
  split at h
  · obtain rfl := Option.some.inj h
    exact readDeclaration_isCode limit (fun _ _ => Node.isCode_of_value rfl rfl) ts
  split at h
  · obtain rfl := Option.some.inj h
    exact readDeclaration_isCode limit (fun _ _ => Node.isCode_of_value rfl rfl) ts
  split at h
  · obtain rfl := Option.some.inj h
    intro n hn
    exact chainNode_isCode _ (expression_isCode limit maxCallDepth _) n (Option.mem_toList.1 hn)
  · simp at h

theorem Harvest.isCode_append {a b : Harvest} (ha : ∀ n ∈ a.statements, n.IsCode)
    (hb : ∀ n ∈ b.statements, n.IsCode) : ∀ n ∈ (a.append b).statements, n.IsCode := by
  intro n hn
  rcases List.mem_append.1 hn with hn | hn
  · exact ha n hn
  · exact hb n hn

theorem bodyFrom?_isCode {limit : Int} {depth : Nat} {ts : List Token} {found : Harvest}
    (h : bodyFrom? limit depth ts = some found) : ∀ n ∈ found.statements, n.IsCode := by
  fun_induction bodyFrom? limit depth ts generalizing found with
  | case1 => obtain rfl := Option.some.inj h; simp
  | case2 => obtain rfl := Option.some.inj h; simp
  | case3 => obtain rfl := Option.some.inj h; simp
  | case4 depth t ts _ _ ih => exact ih h
  | case5 depth t ts _ _ _ ih => exact ih h
  | case6 depth t ts _ _ _ _ ih => exact ih h
  | case7 depth t ts _ _ _ first hfirst _ ih =>
    obtain ⟨more, hmore, rfl⟩ := Option.map_eq_some_iff.1 h
    exact Harvest.isCode_append (readSimple?_isCode hfirst) (ih hmore)
  | case8 => simp at h

theorem readFunction?_isCode {limit : Int} {keyword : Token} {ts : List Token} {found : Harvest}
    (h : readFunction? limit keyword ts = some found) : ∀ n ∈ found.statements, n.IsCode := by
  unfold readFunction? at h
  split at h
  · obtain rfl := Option.some.inj h
    simp
  split at h
  · obtain ⟨body, hbody, rfl⟩ := Option.map_eq_some_iff.1 h
    intro n hn
    rw [List.mem_singleton.1 hn]
    refine Node.isCode_of_children rfl ?_
    unfold readBody? at hbody
    split at hbody
    · obtain rfl := Option.some.inj hbody
      simp [Node.children]
    · split at hbody
      · exact bodyFrom?_isCode hbody
      · obtain rfl := Option.some.inj hbody
        simp [Node.children]
  · obtain rfl := Option.some.inj h
    simp

theorem readStatement?_isCode {config : Config} {t : Token} {ts : List Token} {found : Harvest}
    (h : readStatement? config t ts = some found) : ∀ n ∈ found.statements, n.IsCode := by
  simp only [readStatement?] at h
  split at h
  · rename_i hsimple
    obtain rfl := Option.some.inj h
    exact readSimple?_isCode hsimple
  split at h
  · exact readFunction?_isCode h
  split at h
  · obtain rfl := Option.some.inj h
    intro n hn
    exact expression_isCode _ maxCallDepth _ n (Option.mem_toList.1 hn)
  · obtain rfl := Option.some.inj h
    simp

/-- **The statements of a script are code.** -/
theorem scriptFrom?_isCode {config : Config} {ts : List Token} {found : Harvest}
    (h : scriptFrom? config ts = some found) : ∀ n ∈ found.statements, n.IsCode := by
  fun_induction scriptFrom? config ts generalizing found with
  | case1 => obtain rfl := Option.some.inj h; simp
  | case2 => obtain rfl := Option.some.inj h; simp
  | case3 => simp at h
  | case4 t ts _ first hfirst _ ih =>
    obtain ⟨more, hmore, rfl⟩ := Option.map_eq_some_iff.1 h
    exact Harvest.isCode_append (readStatement?_isCode hfirst) (ih hmore)
  | case5 t ts _ first hfirst _ ih =>
    obtain ⟨more, hmore, rfl⟩ := Option.map_eq_some_iff.1 h
    exact Harvest.isCode_append (readStatement?_isCode hfirst) (ih hmore)

end PageLint
