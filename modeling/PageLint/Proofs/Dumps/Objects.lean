import PageLint.Proofs.Dumps.Tables
import PageLint.Proofs.Dumps.Texts

/-!
# Objects tell nodes apart

Two nodes become the same text, at whatever indentation, exactly when they are the same tree: of one
kind and with the same locations, texts and flags and the same trees in their fields. Only which of
their nodes are shared is not in a text, and so labels are left out of account.

* `Node.unlabelled` — a tree without its labels
* `Node.eq_of_fields` — a node is its kind, its label and its fields
* `Node.toJson_sortKeys_eq_iff` — equal objects are objects of equal trees
* `Node.dumpText?_eq_iff` — equal texts are texts of equal trees
-/

namespace PageLint

/-! ## Trees without labels -/

/-- A site without its label. -/
def Site.unlabelled (s : Site) : Site := { s with label := none }

/-- An attribute without its label. -/
def Attribute.unlabelled (a : Attribute) : Attribute := { a with site := a.site.unlabelled }

/-- An identifier without its label. -/
def Identifier.unlabelled (i : Identifier) : Identifier := { i with site := i.site.unlabelled }

namespace Node

mutual

/-- A tree without its labels: what it is when nobody asks which of its nodes are shared. -/
def unlabelled : Node → Node
  | document site children doctype root =>
    document site.unlabelled (unlabelledList children) (unlabelledOption doctype)
      (unlabelledOption root)
  | tag site name attributes children selfClosing closing =>
    tag site.unlabelled name (attributes.map Attribute.unlabelled) (unlabelledList children)
      selfClosing closing
  | attr a => attr a.unlabelled
  | text site content => text site.unlabelled content
  | script site statements => script site.unlabelled (unlabelledList statements)
  | varDecl site keyword target initializer =>
    varDecl site.unlabelled keyword target.unlabelled (unlabelledOption initializer)
  | constDecl site target initializer =>
    constDecl site.unlabelled target.unlabelled (unlabelledOption initializer)
  | assignment site target operator value =>
    assignment site.unlabelled target.unlabelled operator (unlabelledOption value)
  | function site name parameters body =>
    function site.unlabelled name (parameters.map Identifier.unlabelled) (unlabelledList body)
  | call site callee arguments =>
    call site.unlabelled callee.unlabelled (unlabelledList arguments)
  | identifier i => identifier i.unlabelled
  | expression site operands operators =>
    expression site.unlabelled (unlabelledList operands) operators
  | plain site => plain site.unlabelled

def unlabelledList : List Node → List Node
  | [] => []
  | n :: ns => unlabelled n :: unlabelledList ns

def unlabelledOption : Option Node → Option Node
  | none => none
  | some n => some (unlabelled n)

end

theorem unlabelledList_eq_map (ns : List Node) : unlabelledList ns = ns.map unlabelled := by
  induction ns with
  | nil => rfl
  | cons n ns ih => rw [unlabelledList, ih, List.map_cons]

theorem unlabelledOption_eq_map (n : Option Node) : unlabelledOption n = n.map unlabelled := by
  cases n <;> rfl

@[simp] theorem kind_unlabelled (n : Node) : n.unlabelled.kind = n.kind := by cases n <;> rfl

@[simp] theorem label_unlabelled (n : Node) : n.unlabelled.label = none := by cases n <;> rfl

end Node

/-- A field with the nodes in it changed. -/
def Field.map {α β : Type} (f : α → β) : Field α → Field β
  | location l => location l
  | text s => text s
  | texts ss => texts ss
  | flag b => flag b
  | one a => one (f a)
  | optional a => optional (a.map f)
  | many as => many (as.map f)

theorem Field.held_map {α β : Type} (f : α → β) (field : Field α) :
    (field.map f).held = field.held.map f := by
  cases field with
  | optional a => cases a <;> rfl
  | _ => rfl

namespace Node

/-- The fields of a tree without labels hold trees without labels. -/
theorem fields_unlabelled (n : Node) :
    n.unlabelled.fields = n.fields.map fun f => (f.1, f.2.map unlabelled) := by
  cases n <;>
    simp [unlabelled, fields, location, site, Field.map, unlabelledList_eq_map,
      unlabelledOption_eq_map, Attribute.unlabelled, Identifier.unlabelled, Site.unlabelled,
      Function.comp_def]

theorem held_unlabelled (n : Node) : n.unlabelled.held = n.held.map unlabelled := by
  rw [held, fields_unlabelled, List.flatMap_map, held, List.map_flatMap]
  exact List.flatMap_congr fun f _ => Field.held_map unlabelled f.2

/-- What holds of a node whenever it holds of the nodes in its fields holds of every node. -/
@[elab_as_elim]
theorem induction_on_fields {motive : Node → Prop}
    (step : ∀ n, (∀ f ∈ n.fields, ∀ c ∈ f.2.held, motive c) → motive n) (n : Node) : motive n := by
  refine step n fun f hf c hc => ?_
  have hsmaller : sizeOf c < sizeOf n := sizeOf_lt_of_mem_held (List.mem_flatMap.2 ⟨f, hf, hc⟩)
  exact induction_on_fields step c
termination_by sizeOf n

theorem attr_injective : Function.Injective attr := fun _ _ => attr.inj

theorem identifier_injective : Function.Injective identifier := fun _ _ => identifier.inj

/-- Nodes with the same label and the same location, which is their first field, have one site. -/
theorem site_eq_of_fields {a b : Node} (hlabel : a.label = b.label)
    (hfields : a.fields = b.fields) : a.site = b.site := by
  have hlocation : a.location = b.location :=
    Field.location.inj (Prod.mk.inj (List.cons.inj hfields).1).2
  calc a.site
    _ = { location := a.location, label := a.label } := rfl
    _ = b.site := by rw [hlocation, hlabel]; rfl

/-- **A node is its kind, its label and its fields.** -/
theorem eq_of_fields {a b : Node} (hkind : a.kind = b.kind) (hlabel : a.label = b.label)
    (hfields : a.fields = b.fields) : a = b := by
  have hsite := site_eq_of_fields hlabel hfields
  have htail := (List.cons.inj hfields).2
  cases a <;> cases b <;> cases hkind
  case attr.attr.refl a b =>
    cases a
    cases b
    simpa [site, and_assoc] using And.intro hsite htail
  case identifier.identifier.refl i j =>
    cases i
    cases j
    simpa [site] using And.intro hsite htail
  all_goals
    simpa [site, attr_injective.list_map.eq_iff, identifier_injective.list_map.eq_iff]
      using And.intro hsite htail

/-- **Trees are the same but for labels** when they are of one kind and the trees in their fields
are the same. -/
theorem unlabelled_eq_iff {a b : Node} : a.unlabelled = b.unlabelled ↔ a.kind = b.kind ∧
    (a.fields.map fun f => (f.1, f.2.map unlabelled)) =
      b.fields.map fun f => (f.1, f.2.map unlabelled) := by
  rw [← fields_unlabelled, ← fields_unlabelled]
  constructor
  · intro h
    exact ⟨by rw [← kind_unlabelled a, h, kind_unlabelled], by rw [h]⟩
  · rintro ⟨hkind, hfields⟩
    exact eq_of_fields (by simp [hkind]) (by simp) hfields

end Node

/-! ## Fields of nodes of one kind -/

/-- Two fields that hold the same sort of thing. -/
inductive Field.SameSort {α : Type} : Field α → Field α → Prop where
  | location (l m : Location) : SameSort (location l) (location m)
  | text (s t : String) : SameSort (text s) (text t)
  | texts (ss ts : List String) : SameSort (texts ss) (texts ts)
  | flag (b c : Bool) : SameSort (flag b) (flag c)
  | one (a b : α) : SameSort (one a) (one b)
  | optional (a b : Option α) : SameSort (optional a) (optional b)
  | many (as bs : List α) : SameSort (many as) (many bs)

namespace Node

/-- Nodes of one kind have fields of the same names and sorts, one by one. -/
theorem forall₂_fields {a b : Node} (h : a.kind = b.kind) :
    List.Forall₂ (fun f g => f.1 = g.1 ∧ f.2.SameSort g.2) a.fields b.fields := by
  cases a <;> cases b <;> cases h <;> repeat' constructor

/-- No two keys in the object of a node are the same. -/
theorem nodup_keys (n : Node) : ("_type" :: n.fields.map Prod.fst).Nodup := by
  cases n <;> simp [fields]

end Node

/-! ## Objects -/

theorem NodeKind.label_injective : Function.Injective NodeKind.label := by
  intro k l h
  cases k <;> cases l <;> first | rfl | exact absurd h (by decide)

/-- Lists agree under a function when they agree under it one by one. -/
theorem map_eq_map_iff_forall₂ {α β : Type} {f : α → β} {as bs : List α} :
    as.map f = bs.map f ↔ List.Forall₂ (fun a b => f a = f b) as bs := by
  rw [← List.forall₂_eq_eq_eq, List.forall₂_map_left_iff, List.forall₂_map_right_iff]

/-- **A location** is told by its object. -/
theorem Location.eq_of_sortKeys {l m : Location} (h : l.toJson.sortKeys = m.toJson.sortKeys) :
    l = m := by
  have hfields := Json.fields_eq_of_sortKeys h rfl (by simp)
  obtain ⟨line, column, start, stop, file⟩ := l
  obtain ⟨line', column', start', stop', file'⟩ := m
  cases file <;> cases file' <;> simp [Json.sortKeys] at hfields <;> simp [hfields]

namespace Node

/-- A node whose object no node of another tree has. -/
def Told (n : Node) : Prop :=
  ∀ m : Node, n.toJson.sortKeys = m.toJson.sortKeys → n.unlabelled = m.unlabelled

/-- The object of a node is not the value for a node that is missing. -/
theorem sortKeys_toJson_ne_null (n : Node) : n.toJson.sortKeys ≠ .null := by
  rw [toJson_eq, Json.sortKeys]
  exact Json.noConfusion

/-- Objects that agree are objects of nodes of one kind. -/
theorem kind_eq_of_sortKeys {a b : Node} (h : a.toJson.sortKeys = b.toJson.sortKeys) :
    a.kind = b.kind := by
  rw [toJson_eq, toJson_eq] at h
  have hperm := Json.perm_of_sortKeys h
  -- Wherever the name of the kind stands among the sorted fields, no other has its key.
  have hlookup := lookup_of_perm hperm
    (by simpa [Function.comp_def] using b.nodup_keys) List.mem_cons_self
  exact NodeKind.label_injective (by simpa [Json.sortKeys] using hlookup)

/-- Objects that agree are objects of nodes with the same values in their fields. -/
theorem fields_eq_of_sortKeys {a b : Node} (h : a.toJson.sortKeys = b.toJson.sortKeys) :
    List.Forall₂ (fun f g => f.2.toJson.sortKeys = g.2.toJson.sortKeys) a.fields b.fields := by
  have hkind := kind_eq_of_sortKeys h
  have hnames : a.fields.map Prod.fst = b.fields.map Prod.fst :=
    map_eq_map_iff_forall₂.2 ((forall₂_fields hkind).imp fun _ _ h => h.1)
  rw [toJson_eq, toJson_eq] at h
  have hvalues := Json.fields_eq_of_sortKeys h (by simp [hnames, Function.comp_def])
    (by simpa [Function.comp_def] using b.nodup_keys)
  rw [List.map_cons, List.map_cons, List.map_map, List.map_map] at hvalues
  exact (map_eq_map_iff_forall₂.1 (List.cons.inj hvalues).2).imp fun _ _ h => (Prod.mk.inj h).2

end Node

/-- The value of a field depends only on the objects of the nodes in it. -/
theorem Field.toJson_map {g : Node → Node} {f : Field Node}
    (h : ∀ c ∈ f.held, (g c).toJson = c.toJson) : (f.map g).toJson = f.toJson := by
  cases f with
  | one n => exact h n List.mem_cons_self
  | optional n =>
    cases n with
    | none => rfl
    | some n => exact h n List.mem_cons_self
  | many ns =>
    rw [map, toJson, toJson, List.map_map]
    exact congrArg Json.array (List.map_congr_left h)
  | _ => rfl

/-- **A field** is told by its value among fields of its sort, where the nodes in it are told by
their objects. -/
theorem Field.map_eq_of_sortKeys {f g : Field Node} (hsort : f.SameSort g)
    (h : f.toJson.sortKeys = g.toJson.sortKeys) (htold : ∀ n ∈ f.held, n.Told) :
    f.map Node.unlabelled = g.map Node.unlabelled := by
  cases hsort with
  | location => exact congrArg Field.location (Location.eq_of_sortKeys h)
  | text s t => exact congrArg Field.text (Json.string.inj h)
  | texts ss ts =>
    have hstrings : Function.Injective Json.string := fun _ _ => Json.string.inj
    simp only [toJson, Json.sortKeys, Json.sortKeysItems_eq_map, List.map_map] at h
    exact congrArg Field.texts (hstrings.list_map (Json.array.inj h))
  | flag b c => exact congrArg Field.flag (Json.bool.inj h)
  | one n m => exact congrArg Field.one (htold n List.mem_cons_self m h)
  | optional a b =>
    cases a with
    | none =>
      cases b with
      | none => rfl
      | some m => exact absurd h.symm m.sortKeys_toJson_ne_null
    | some n =>
      cases b with
      | none => exact absurd h n.sortKeys_toJson_ne_null
      | some m => exact congrArg (fun n => Field.optional (some n)) (htold n List.mem_cons_self m h)
  | many ns ms =>
    simp only [toJson, Json.sortKeys, Json.sortKeysItems_eq_map, List.map_map] at h
    have hobjects := map_eq_map_iff_forall₂.1 (Json.array.inj h)
    have htrees := ((List.forall₂_and_left _ _).2 ⟨htold, hobjects⟩).imp fun n m h => h.1 m h.2
    exact congrArg Field.many (map_eq_map_iff_forall₂.2 htrees)

namespace Node

/-- **A tree** is told by its object. -/
theorem told (n : Node) : n.Told := by
  induction n using induction_on_fields with
  | step n htold =>
    intro m h
    have hkind := kind_eq_of_sortKeys h
    have hfields := (List.forall₂_and_left _ _).2
      ⟨htold, (forall₂_fields hkind).mp (fun _ _ => And.intro) (fields_eq_of_sortKeys h)⟩
    refine unlabelled_eq_iff.2 ⟨hkind, map_eq_map_iff_forall₂.2 (hfields.imp ?_)⟩
    rintro f g ⟨htold, ⟨hname, hsort⟩, hvalue⟩
    exact Prod.ext hname (Field.map_eq_of_sortKeys hsort hvalue htold)

/-- Labels leave no trace in an object. -/
theorem toJson_unlabelled (n : Node) : n.unlabelled.toJson = n.toJson := by
  induction n using induction_on_fields with
  | step n ih =>
    have hfield : ∀ f ∈ n.fields, (f.2.map unlabelled).toJson = f.2.toJson := fun f hf =>
      Field.toJson_map (ih f hf)
    rw [toJson_eq, toJson_eq, kind_unlabelled, fields_unlabelled, List.map_map]
    refine congrArg (fun fields => Json.object (_ :: fields)) (List.map_congr_left fun f hf => ?_)
    exact congrArg (Prod.mk f.1) (hfield f hf)

/-- **Equal objects are objects of equal trees**, up to the order of the keys. -/
theorem toJson_sortKeys_eq_iff {a b : Node} :
    a.toJson.sortKeys = b.toJson.sortKeys ↔ a.unlabelled = b.unlabelled := by
  constructor
  · exact told a b
  · intro h
    rw [← toJson_unlabelled a, h, toJson_unlabelled]

/-! ## Texts -/

/-- Without labels every node has its own address. -/
theorem unlabelled_consistent (n : Node) : n.unlabelled.Consistent := by
  have hholds : ∀ a, n.unlabelled.Holds a → ∃ m : Node, a = m.unlabelled := by
    intro a ha
    induction ha with
    | refl => exact ⟨n, rfl⟩
    | tail _ hc ih =>
      obtain ⟨m, rfl⟩ := ih
      rw [held_unlabelled] at hc
      obtain ⟨c, -, rfl⟩ := List.mem_map.1 hc
      exact ⟨c, rfl⟩
  intro a ha b _ k hk
  obtain ⟨m, rfl⟩ := hholds a ha
  rw [label_unlabelled] at hk
  cases hk

/-- **The text of a tree loses nothing of it**: at every indentation two nodes have a text each, and
the texts are equal just when the nodes are the same tree, however nodes in it are shared. -/
theorem dumpText?_eq_iff {a b : Node} (ha : a.Consistent) (hb : b.Consistent)
    (indent : Option Int) : ∃ s t, a.dumpText? (.ofIndent indent) = some s ∧
      b.dumpText? (.ofIndent indent) = some t ∧ (s = t ↔ a.unlabelled = b.unlabelled) := by
  have htext {n : Node} (hn : n.Consistent) : n.dumpText? (.ofIndent indent) =
      some (Json.render (.ofIndent indent) n.toJson) := by
    rw [dumpText?, dump?_eq hn]
    rfl
  exact ⟨_, _, htext ha, htext hb, Json.render_eq_iff.trans toJson_sortKeys_eq_iff⟩

/-- A name that is one node wherever it stands. -/
def sharedName : Node :=
  .identifier { site := { location := .unknown, label := some 0 }, name := "x" }

/-- A sum with the name on both sides. -/
def doubledName : Node := .expression { location := .unknown } [sharedName, sharedName] ["+"]

theorem doubledName_text :
    doubledName.Consistent ∧ doubledName.unlabelled.Consistent ∧
      ∃ text, doubledName.dumpText? (.ofIndent (some 2)) = some text ∧
        doubledName.unlabelled.dumpText? (.ofIndent (some 2)) = some text := by
  have hsum : doubledName.held = [sharedName, sharedName] := rfl
  have hname : sharedName.held = [] := rfl
  have hholds : ∀ a, doubledName.Holds a → a = doubledName ∨ a = sharedName := by
    intro a ha
    induction ha with
    | refl => exact Or.inl rfl
    | tail _ hc ih =>
      rcases ih with rfl | rfl
      · exact Or.inr (by simpa [hsum] using hc)
      · simp [hname] at hc
  have hshared : ∀ a, doubledName.Holds a → ∀ k, a.label = some k → a = sharedName := by
    intro a ha k hk
    rcases hholds a ha with rfl | rfl
    · cases hk
    · rfl
  have hconsistent : doubledName.Consistent := fun a ha b hb k hka hkb =>
    (hshared a ha k hka).trans (hshared b hb k hkb).symm
  have hunlabelled := doubledName.unlabelled_consistent
  obtain ⟨s, t, hs, ht, hsame⟩ := dumpText?_eq_iff hconsistent hunlabelled (some 2)
  exact ⟨hconsistent, hunlabelled, s, hs, hsame.2 rfl ▸ ht⟩

end Node

end PageLint
