import Mathlib.Logic.Relation
import PageLint.Proofs.Freeze
import PageLint.Tree.Dump

/-!
# Trees as objects

A node that is converted with a list of tasks becomes the object that the recursion gives, however
its nodes are shared, and no look-up fails on the way.

When the object of a node is put together, those of the nodes in its fields have to be in the table.
Some may have got there long before, from another field that holds the same node, and their tasks
did nothing. What carries the proof is that a table only ever holds what the recursion gives, and
that the tasks for a member leave the table with an object for it, whether they did anything or not.

* `Node.Consistent` — a label names one node, wherever it is held
* `Node.Consistent.node_eq` — equal addresses are equal nodes
* `Member.object?_eq` — an object is put together from those in the table
* `Member.completes` — the tasks for one member
* `Node.dump?_eq` — the conversion is the recursion
-/

namespace PageLint

/-! ## What a node holds -/

/-- A node holds itself and what the nodes in its fields hold. -/
def Node.Holds : Node → Node → Prop := Relation.ReflTransGen fun m c => c ∈ m.held

/-- A label names one node of all that a node holds. Where nothing is shared no label is needed;
any graph of nodes without cycles is given by labels for the nodes that are. -/
def Node.Consistent (n : Node) : Prop :=
  ∀ a, n.Holds a → ∀ b, n.Holds b → ∀ k, a.label = some k → b.label = some k → a = b

/-- The members held by the member at the top. -/
inductive Member.Under (n : Node) : Member → Prop where
  | top : Under n (.top n)
  | field {o p : Member} : Under n o → p ∈ o.held → Under n p

theorem Member.node_mem_held {o p : Member} (h : p ∈ o.held) : p.node ∈ o.node.held := by
  rw [← map_node_held]
  exact List.mem_map_of_mem h

theorem Member.Under.holds {n : Node} {o : Member} (h : Under n o) : n.Holds o.node := by
  induction h with
  | top => exact .refl
  | field _ hp ih => exact ih.tail (node_mem_held hp)

/-! ## Equal addresses -/

/-- The node at a place in the fields of a node. -/
def Node.heldAt? (n : Node) (place : Nat × Nat) : Option Node :=
  n.fields[place.1]?.bind fun field => field.2.held[place.2]?

/-- The node at the end of a way that leads back up to a node. -/
def Node.along? (n : Node) : List (Nat × Nat) → Option Node
  | [] => some n
  | place :: way => (n.along? way).bind fun m => m.heldAt? place

/-- A member is found again from the node that its address starts at. -/
theorem Member.Under.exists_anchor {n : Node} {o : Member} (h : Under n o) :
    ∃ a, n.Holds a ∧ a.label = o.address.anchor ∧ (o.address.anchor = none → a = n) ∧
      a.along? o.address.way = some o.node := by
  induction h with
  | top => exact ⟨n, .refl, rfl, fun _ => rfl, rfl⟩
  | @field o p ho hp ih =>
    obtain ⟨a, ha, hlabel, hnone, hway⟩ := ih
    have hholds : n.Holds p.node := (Under.field ho hp).holds
    obtain ⟨i, j, field, c, hfield, hc, rfl⟩ := exists_place hp
    -- A label starts a new way, from the node itself; otherwise the way gets one step longer.
    cases hk : c.label with
    | some k =>
      have haddress : (o.inner i j c).address = { anchor := some k, depth := 0, way := [] } := by
        simp [inner, hk]
      rw [haddress]
      exact ⟨c, hholds, hk, by simp, rfl⟩
    | none =>
      have haddress : (o.inner i j c).address =
          { anchor := o.address.anchor
            depth := o.address.depth + 1
            way := (i, j) :: o.address.way } := by
        simp [inner, hk]
      rw [haddress]
      refine ⟨a, ha, hlabel, hnone, ?_⟩
      rw [Node.along?, hway, Option.bind_some, Node.heldAt?, hfield, Option.bind_some, hc]
      rfl

/-- **Where a label names one node, an address does.** -/
theorem Node.Consistent.node_eq {n : Node} (h : n.Consistent) {o p : Member}
    (ho : Member.Under n o) (hp : Member.Under n p) (heq : o.address = p.address) :
    o.node = p.node := by
  obtain ⟨a, ha, hlabel, hnone, hway⟩ := ho.exists_anchor
  obtain ⟨b, hb, hlabel', hnone', hway'⟩ := hp.exists_anchor
  rw [heq] at hlabel hnone hway
  have hab : a = b := by
    cases hanchor : p.address.anchor with
    | none => rw [hnone hanchor, hnone' hanchor]
    | some k => exact h a ha b hb k (hlabel.trans hanchor) (hlabel'.trans hanchor)
  rw [hab, hway'] at hway
  exact (Option.some.inj hway).symm

/-! ## Objects -/

theorem Node.toJsonList_eq_map (ns : List Node) : toJsonList ns = ns.map toJson := by
  induction ns with
  | nil => rfl
  | cons n ns ih => rw [toJsonList, ih, List.map_cons]

/-- The value of a field by recursion. -/
def Field.toJson : Field Node → Json
  | location l => l.toJson
  | text s => .string s
  | texts ss => .array (ss.map .string)
  | flag b => .bool b
  | one n => n.toJson
  | optional n => Node.toJsonOption n
  | many ns => .array (ns.map Node.toJson)

/-- An object has the name of the kind and all fields. -/
theorem Node.toJson_eq (n : Node) : n.toJson =
    .object (("_type", .string n.kind.label) :: n.fields.map fun f => (f.1, f.2.toJson)) := by
  cases n <;>
    simp [Node.toJson, Node.fields, Field.toJson, entry, Node.kind, Node.location, Node.site,
      toJsonList_eq_map, Attribute.toJson, Identifier.toJson, Function.comp_def]

section Objects

variable {table : Member.Table} {o : Member}

theorem Field.value?_eq {field : Field Node} {i : Nat}
    (h : ∀ p ∈ (field.mapIdx (o.inner i)).held, table.lookup p.address = some p.node.toJson) :
    (field.mapIdx (o.inner i)).value? (fun p => table.lookup p.address) = some field.toJson := by
  cases field with
  | one n => exact h _ List.mem_cons_self
  | optional n =>
    cases n with
    | none => rfl
    | some n => exact h _ List.mem_cons_self
  | many ns =>
    have hvalues : (ns.mapIdx (o.inner i)).mapM (fun p => table.lookup p.address) =
        some ((ns.mapIdx (o.inner i)).map fun p => p.node.toJson) :=
      mapM_eq_some_map h
    have hnodes : (ns.mapIdx (o.inner i)).map (fun p => p.node.toJson) = ns.map Node.toJson := by
      calc (ns.mapIdx (o.inner i)).map (fun p => p.node.toJson)
        _ = ((ns.mapIdx (o.inner i)).map Member.node).map Node.toJson := List.map_map.symm
        _ = ns.map Node.toJson := by rw [Member.map_node_inner]
    rw [mapIdx, value?, hvalues, hnodes]
    rfl
  | _ => rfl

/-- **An object is put together from those in the table.** -/
theorem Member.object?_eq (h : ∀ p ∈ o.held, table.lookup p.address = some p.node.toJson) :
    o.object? table = some o.node.toJson := by
  have hfields : o.node.fields.zipIdx.map (fun x => (x.1.1, x.1.2.toJson)) =
      o.node.fields.map fun f => (f.1, f.2.toJson) := by
    calc o.node.fields.zipIdx.map (fun x => (x.1.1, x.1.2.toJson))
      _ = (o.node.fields.zipIdx.map Prod.fst).map (fun f => (f.1, f.2.toJson)) := by
        rw [List.map_map]
        rfl
      _ = o.node.fields.map fun f => (f.1, f.2.toJson) := by rw [List.zipIdx_map_fst]
  rw [object?, fields, List.mapM_map,
    mapM_eq_some_map (g := fun x => (x.1.1, x.1.2.toJson)) ?_, hfields, Node.toJson_eq]
  · rfl
  rintro ⟨field, i⟩ hfield
  have hheld : ∀ p ∈ (field.2.mapIdx (o.inner i)).held,
      table.lookup p.address = some p.node.toJson := fun p hp =>
    h p (List.mem_flatMap.2 ⟨_, List.mem_map_of_mem hfield, hp⟩)
  exact congrArg (Option.map (field.1, ·)) (Field.value?_eq hheld)

end Objects

/-! ## Tasks -/

namespace Member

/-- In a table there stands only what the recursion gives. -/
def Sound (n : Node) (table : Table) : Prop :=
  ∀ o, Under n o → ∀ object, table.lookup o.address = some object → object = o.node.toJson

/-- Over a table the tasks leave an object for each of the members, keep what is there, and go on
with whatever comes behind. -/
def Completes (n : Node) (table : Table) (tasks : List Task) (os : List Member) : Prop :=
  ∃ table', Sound n table' ∧
    (∀ a, (table.lookup a).isSome → (table'.lookup a).isSome) ∧
    (∀ o ∈ os, (table'.lookup o.address).isSome) ∧
    ∀ rest, runTasks table (tasks ++ rest) = runTasks table' rest

variable {n : Node} {table : Table} {o : Member} {os : List Member}

theorem Sound.lookup_eq (h : Sound n table) (ho : Under n o)
    (hsome : (table.lookup o.address).isSome) : table.lookup o.address = some o.node.toJson := by
  obtain ⟨object, hobject⟩ := Option.isSome_iff_exists.1 hsome
  rw [hobject, h o ho object hobject]

/-- A table stays sound with one more object of the recursion. -/
theorem Sound.cons (hn : n.Consistent) (h : Sound n table) (ho : Under n o) :
    Sound n ((o.address, o.node.toJson) :: table) := by
  intro p hp object hobject
  rw [List.lookup_cons] at hobject
  by_cases heq : p.address = o.address
  · rw [heq, beq_self_eq_true] at hobject
    rw [← Option.some.inj hobject, hn.node_eq hp ho heq]
  · rw [beq_false_of_ne heq] at hobject
    exact h p hp object hobject

/-- A task that does nothing, because the object of its member is there. -/
theorem Completes.skip {task : Task} (h : Sound n table)
    (hskip : ∀ rest, runTasks table (task :: rest) = runTasks table rest)
    (hsome : (table.lookup o.address).isSome) : Completes n table [task] [o] :=
  ⟨table, h, fun _ ha => ha, fun p hp => by rwa [List.mem_singleton.1 hp], hskip⟩

/-- **The object of a member** is put together once those of the members in its fields are there. -/
theorem Completes.build (hn : n.Consistent) (h : Sound n table) (ho : Under n o)
    (hheld : ∀ p ∈ o.held, (table.lookup p.address).isSome) :
    Completes n table [.build o] [o] := by
  cases hlookup : table.lookup o.address with
  | some object => exact .skip h (fun rest => by rw [runTasks, hlookup]) (by rw [hlookup]; rfl)
  | none =>
    have hobject : o.object? table = some o.node.toJson :=
      object?_eq fun p hp => h.lookup_eq (.field ho hp) (hheld p hp)
    refine ⟨(o.address, o.node.toJson) :: table, h.cons hn ho, fun a ha => ?_, by simp,
      fun rest => ?_⟩
    · rw [List.lookup_cons]
      split <;> simp [ha]
    · rw [List.singleton_append, runTasks, hlookup, hobject]

theorem Completes.append {tasks tasks' : List Task} {os' : List Member}
    (h : Completes n table tasks os)
    (h' : ∀ table', Sound n table' → (∀ o ∈ os, (table'.lookup o.address).isSome) →
      Completes n table' tasks' os') : Completes n table (tasks ++ tasks') (os ++ os') := by
  obtain ⟨mid, hmid, hkept, hos, hfirst⟩ := h
  obtain ⟨last, hlast, hkept', hos', hsecond⟩ := h' mid hmid hos
  refine ⟨last, hlast, fun a ha => hkept' a (hkept a ha), fun o ho => ?_, fun rest => ?_⟩
  · rcases List.mem_append.1 ho with ho | ho
    · exact hkept' _ (hos o ho)
    · exact hos' o ho
  · rw [List.append_assoc, hfirst, hsecond]

theorem Completes.expand_all
    (hone : ∀ o ∈ os, ∀ table, Sound n table → Completes n table [.expand o] [o])
    (h : Sound n table) : Completes n table (os.map Task.expand) os := by
  induction os generalizing table with
  | nil => exact ⟨table, h, fun _ ha => ha, by simp, fun rest => rfl⟩
  | cons o os ih =>
    refine (hone o List.mem_cons_self table h).append fun table' h' _ => ?_
    exact ih (fun p hp => hone p (List.mem_cons_of_mem o hp)) h'

/-- **One member**: its task leaves an object for it, whether the member is there already, is in
the fields of one that is, or is new. -/
theorem completes (hn : n.Consistent) {o : Member} (ho : Under n o) {table : Table}
    (h : Sound n table) : Completes n table [.expand o] [o] := by
  cases hlookup : table.lookup o.address with
  | some object => exact .skip h (fun rest => by rw [runTasks, hlookup]) (by rw [hlookup]; rfl)
  | none =>
    have hinner : ∀ p ∈ o.held, ∀ table, Sound n table → Completes n table [.expand p] [p] :=
      fun p hp table h => completes hn (.field ho hp) h
    obtain ⟨table', h', hkept, hos, hrun⟩ :=
      (Completes.expand_all hinner h).append fun table' h' hheld => Completes.build hn h' ho hheld
    refine ⟨table', h', hkept, fun p hp => hos p (List.mem_append_right _ hp), fun rest => ?_⟩
    rw [List.singleton_append, runTasks, hlookup, ← hrun, List.append_assoc]
    rfl
termination_by sizeOf o.node
decreasing_by exact Node.sizeOf_lt_of_mem_held (node_mem_held hp)

end Member

/-- **The conversion is the recursion**: however nodes are shared, a node is converted, no look-up
fails, and the object is the one that the recursion gives. -/
theorem Node.dump?_eq {n : Node} (h : n.Consistent) : n.dump? = some n.toJson := by
  have hempty : Member.Sound n [] := fun _ _ _ hobject => by simp at hobject
  obtain ⟨table, hsound, -, hos, hrun⟩ := Member.completes h .top hempty
  have hall : Member.runTasks [] [.expand (.top n)] = some table := by
    simpa [Member.runTasks] using hrun []
  rw [dump?, hall]
  exact hsound.lookup_eq .top (hos _ List.mem_cons_self)

/-- A paragraph that stands in two places. -/
def repeatedParagraph : Node :=
  .tag { location := .unknown, label := some 1 } "p" [] [.text { location := .unknown } "x"]
    false false

/-- An `html` tag that holds the paragraph twice. -/
def repeatingRoot : Node :=
  .tag { location := .unknown, label := some 0 } "html" [] [repeatedParagraph, repeatedParagraph]
    false false

/-- The page of the tag, which is its root too. -/
def repeatingPage : Node :=
  .document { location := .unknown } [repeatingRoot] none (some repeatingRoot)

theorem repeatingPage_dumps :
    repeatingPage.Consistent ∧ repeatingPage.dump? = some repeatingPage.toJson := by
  have hpage : repeatingPage.held = [repeatingRoot, repeatingRoot] := rfl
  have hroot : repeatingRoot.held = [repeatedParagraph, repeatedParagraph] := rfl
  have hparagraph : repeatedParagraph.held = [.text { location := .unknown } "x"] := rfl
  have htext : (Node.text { location := .unknown } "x").held = [] := rfl
  have hholds : ∀ a, repeatingPage.Holds a → a = repeatingPage ∨ a = repeatingRoot ∨
      a = repeatedParagraph ∨ a = .text { location := .unknown } "x" := by
    intro a ha
    induction ha with
    | refl => exact Or.inl rfl
    | tail _ hc ih =>
      rcases ih with rfl | rfl | rfl | rfl
      · exact Or.inr (Or.inl (by simpa [hpage] using hc))
      · exact Or.inr (Or.inr (Or.inl (by simpa [hroot] using hc)))
      · exact Or.inr (Or.inr (Or.inr (by simpa [hparagraph] using hc)))
      · simp [htext] at hc
  have hlabel : ∀ a, repeatingPage.Holds a → ∀ k, a.label = some k →
      a = if k = 0 then repeatingRoot else repeatedParagraph := by
    intro a ha k hk
    rcases hholds a ha with rfl | rfl | rfl | rfl <;> cases hk <;> rfl
  have hconsistent : repeatingPage.Consistent := by
    intro a ha b hb k hka hkb
    rw [hlabel a ha k hka, hlabel b hb k hkb]
  exact ⟨hconsistent, Node.dump?_eq hconsistent⟩

end PageLint
