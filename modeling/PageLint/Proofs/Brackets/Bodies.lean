import Mathlib.Data.List.Forall2
import PageLint.Proofs.Brackets.Arguments
import PageLint.Proofs.Grammar.Statements

/-!
# Where bodies end

The loop over the body of a function counts the braces that it meets itself. That it counts them all
rests on its statements: no declaration, assignment or expression takes a brace or the end of the
script, however it is broken off. So the body ends at the brace that closes it, and every statement
in it starts at a token of its own in front of that.

* `Avoids` — going on over tokens without taking a boundary
* `readSimple?_avoids` — the statements that a body may hold do so
* `bodyFrom?_rest` — a body leaves what a search for its closing brace leaves
* `StartWithin` — nodes that start at tokens between two indices, in order
* `bodyFrom?_stops` — where a body stops, and where its statements start
-/

namespace PageLint

/-! ## Statements take no brace -/

/-- Going on from tokens to others takes no boundary. -/
def Avoids (ts rest : List Token) : Prop :=
  ∃ taken, ts = taken ++ rest ∧ ∀ t ∈ taken, t.kind.isBoundary = false

namespace Avoids

variable {ts us rest : List Token} {t : Token}

theorem refl (ts : List Token) : Avoids ts ts := ⟨[], rfl, by simp⟩

theorem trans (h : Avoids ts us) (h' : Avoids us rest) : Avoids ts rest := by
  obtain ⟨taken, rfl, htaken⟩ := h
  obtain ⟨more, rfl, hmore⟩ := h'
  exact ⟨taken ++ more, by rw [List.append_assoc], List.forall_mem_append.2 ⟨htaken, hmore⟩⟩

theorem cons (ht : t.kind.isBoundary = false) (h : Avoids ts rest) : Avoids (t :: ts) rest := by
  obtain ⟨taken, rfl, htaken⟩ := h
  exact ⟨t :: taken, rfl, List.forall_mem_cons.2 ⟨ht, htaken⟩⟩

/-- A search for a closing brace goes over what is avoided. -/
theorem skip (h : Avoids ts rest) (depth : Nat) :
    braces.skip (depth + 1) ts = braces.skip (depth + 1) rest := by
  obtain ⟨taken, rfl, htaken⟩ := h
  induction taken with
  | nil => rfl
  | cons t taken ih =>
    obtain ⟨ht, htaken⟩ := List.forall_mem_cons.1 htaken
    have hkinds : braces.ends t.kind = false ∧ t.kind ≠ .leftBrace ∧ t.kind ≠ .rightBrace := by
      cases hk : t.kind <;> simp [hk, TokenKind.isBoundary] at ht <;> simp [braces]
    rw [List.cons_append, Brackets.skip_other hkinds.1 hkinds.2.1 hkinds.2.2, ih htaken]

end Avoids

theorem Crosses.avoids {ts rest : List Token} (h : Crosses ts rest) : Avoids ts rest := by
  obtain ⟨taken, n, rfl, hn⟩ := h
  exact ⟨taken, rfl, Brackets.openAfter?_clear hn⟩

theorem dropSemicolon_avoids (ts : List Token) : Avoids ts (dropSemicolon ts) := by
  unfold dropSemicolon
  split
  · exact .refl _
  · split
    · rename_i h
      exact (Crosses.mark h _).avoids
    · exact .refl _

theorem outerExpression_avoids (limit : Int) (ts : List Token) :
    Avoids ts ((outerExpression limit).read ts).rest :=
  (expression_crosses limit maxCallDepth ts).avoids

theorem readInitializer_avoids (limit : Int) (ts : List Token) :
    Avoids ts (readInitializer limit ts).rest := by
  unfold readInitializer
  split
  · exact .refl _
  · split
    · rename_i h
      rw [Bool.and_eq_true, beq_iff_eq] at h
      exact .cons (by rw [h.1]; rfl) (outerExpression_avoids limit _)
    · exact .refl _

theorem readDeclaration_avoids (limit : Int) (build : Identifier → Option Node → Node)
    (ts : List Token) : Avoids ts (readDeclaration limit build ts).rest := by
  unfold readDeclaration
  split
  · exact .refl _
  · split
    · rename_i h
      exact (Crosses.word h _).avoids.trans
        ((readInitializer_avoids limit _).trans (dropSemicolon_avoids _))
    · exact .refl _

/-- The look-ahead for an assignment stops at a boundary. -/
theorem findAssignment?_avoids {ts before after : List Token} {operator : Token}
    (h : findAssignment? ts = some (before, operator, after)) : Avoids ts after := by
  induction ts generalizing before with
  | nil => simp [findAssignment?] at h
  | cons t ts ih =>
    unfold findAssignment? at h
    split at h
    · simp at h
    rename_i hstop
    rw [Bool.or_eq_true, not_or, Bool.not_eq_true] at hstop
    refine .cons hstop.1 ?_
    split at h
    · simp only [Option.some.injEq, Prod.mk.injEq] at h
      rw [← h.2.2]
      exact .refl ts
    · obtain ⟨⟨b, o, a⟩, ha, hb⟩ := Option.map_eq_some_iff.1 h
      obtain ⟨-, rfl, rfl⟩ : t :: b = before ∧ o = operator ∧ a = after := by simpa using hb
      exact ih ha

theorem assignmentLinks_avoids (ts : List Token) : Avoids ts (assignmentLinks ts).2 := by
  fun_induction assignmentLinks ts with
  | case1 => exact .refl _
  | case2 => exact .refl _
  | case3 t ts ht before operator after h hlt links rest eq ih =>
    rw [eq] at ih
    exact .cons (by rw [beq_iff_eq.1 ht]; rfl) ((findAssignment?_avoids h).trans ih)
  | case4 => exact .refl _

theorem readAssignment_avoids (limit : Int) (ts : List Token) :
    Avoids ts (readAssignment limit ts).rest :=
  (assignmentLinks_avoids ts).trans
    ((outerExpression_avoids limit _).trans (dropSemicolon_avoids _))

/-- **A statement inside a function takes no brace** and no end of a script. -/
theorem readSimple?_avoids {limit : Int} {t : Token} {ts : List Token} {found : Harvest}
    (h : readSimple? limit t ts = some found) : Avoids (t :: ts) found.rest := by
  unfold readSimple? at h
  split at h
  · rename_i hk
    rw [Bool.and_eq_true, beq_iff_eq] at hk
    rw [← Option.some.inj h]
    exact .cons (by rw [hk.1]; rfl) (readDeclaration_avoids limit _ ts)
  split at h
  · rename_i hk
    rw [Bool.and_eq_true, beq_iff_eq] at hk
    rw [← Option.some.inj h]
    exact .cons (by rw [hk.1]; rfl) (readDeclaration_avoids limit _ ts)
  split at h
  · rw [← Option.some.inj h]
    exact readAssignment_avoids limit (t :: ts)
  · simp at h

/-! ## The loop over a body -/

/-- **A body leaves what a search for its closing brace leaves.** -/
theorem bodyFrom?_rest {limit : Int} {depth : Nat} {ts : List Token} {found : Harvest}
    (h : bodyFrom? limit depth ts = some found) : found.rest = braces.skip depth ts := by
  fun_induction bodyFrom? limit depth ts generalizing found with
  | case1 ts =>
    obtain rfl := Option.some.inj h
    rw [Brackets.skip]
  | case2 =>
    obtain rfl := Option.some.inj h
    rw [Brackets.skip]
  | case3 depth t ts hends =>
    obtain rfl := Option.some.inj h
    rw [Brackets.skip, if_pos (show braces.ends t.kind = true from hends)]
  | case4 depth t ts _ hopen ih => rw [ih h, Brackets.skip_opening (beq_iff_eq.1 hopen)]
  | case5 depth t ts _ _ hclose ih => rw [ih h, Brackets.skip_closing (beq_iff_eq.1 hclose)]
  | case6 depth t ts hends hopen hclose _ ih =>
    rw [ih h, Brackets.skip_other (by simpa [braces] using hends) (by simpa [braces] using hopen)
      (by simpa [braces] using hclose)]
  | case7 depth t ts _ _ _ first hfirst _ ih =>
    obtain ⟨more, hmore, rfl⟩ := Option.map_eq_some_iff.1 h
    rw [Harvest.append, ih hmore, (readSimple?_avoids hfirst).skip]
  | case8 => simp at h

/-! ## Where statements start -/

theorem Value.site {limit : Int} {A : List Token → List Node → Prop} {ts : List Token} {n : Node}
    (h : Value limit A ts n) : ∃ t us, ts = t :: us ∧ n.site = t.site := by
  cases h with
  | operand form =>
    cases form with
    | name site => exact ⟨_, _, rfl, site⟩
    | call _ _ => exact ⟨_, _, rfl, rfl⟩
  | expression => exact ⟨_, _, rfl, rfl⟩

theorem Chain.site {limit : Int} {ts : List Token} {n : Node} (h : Chain limit ts n) :
    ∃ t us, ts = t :: us ∧ n.site = t.site := by
  cases h with
  | value form => exact Value.site form
  | last => exact ⟨_, _, rfl, rfl⟩
  | link => exact ⟨_, _, rfl, rfl⟩

/-- A statement stands at the first of its tokens. -/
theorem Simple.site {limit : Int} {ts : List Token} {n : Node} (h : Simple limit ts n) :
    ∃ t us, ts = t :: us ∧ n.site = t.site := by
  cases h with
  | varDecl => exact ⟨_, _, rfl, rfl⟩
  | constDecl => exact ⟨_, _, rfl, rfl⟩
  | chain form => exact form.site

/-- Nodes that start at tokens from one index up to another, each behind the one before it. -/
def StartWithin (ts : List Token) (lo hi : Nat) (ns : List Node) : Prop :=
  ∃ places : List Nat, places.Pairwise (· < ·) ∧ (∀ m ∈ places, lo ≤ m ∧ m < hi) ∧
    List.Forall₂ (fun m n => ∃ t, ts[m]? = some t ∧ n.site = t.site) places ns

namespace StartWithin

variable {ts : List Token} {lo hi : Nat} {ns : List Node}

theorem behind (h : StartWithin ts lo hi ns) (front : List Token) :
    StartWithin (front ++ ts) (front.length + lo) (front.length + hi) ns := by
  obtain ⟨places, hrising, hbounds, hstarts⟩ := h
  refine ⟨places.map (front.length + ·), ?_, ?_, ?_⟩
  · exact hrising.map _ fun _ _ hlt => Nat.add_lt_add_left hlt _
  · intro m hm
    obtain ⟨p, hp, rfl⟩ := List.mem_map.1 hm
    have := hbounds p hp
    omega
  · rw [List.forall₂_map_left_iff]
    refine hstarts.imp fun m n hstart => ?_
    rwa [List.getElem?_append_right (Nat.le_add_right _ _), Nat.add_sub_cancel_left]

theorem append_right (h : StartWithin ts lo hi ns) (back : List Token) :
    StartWithin (ts ++ back) lo hi ns := by
  obtain ⟨places, hrising, hbounds, hstarts⟩ := h
  refine ⟨places, hrising, hbounds, hstarts.imp ?_⟩
  rintro m n ⟨t, ht, hsite⟩
  exact ⟨t, List.getElem?_append_left (List.getElem?_eq_some_iff.1 ht).1 ▸ ht, hsite⟩

/-- One more node, at the first of the tokens in front of the others. -/
theorem cons {t : Token} {n : Node} (hsite : n.site = t.site) (us : List Token)
    (h : StartWithin ts 0 ts.length ns) :
    StartWithin (t :: us ++ ts) 0 (t :: us ++ ts).length (n :: ns) := by
  obtain ⟨places, hrising, hbounds, hstarts⟩ := h.behind (t :: us)
  refine ⟨0 :: places, ?_, ?_, .cons ⟨t, rfl, hsite⟩ hstarts⟩
  · refine List.pairwise_cons.2 ⟨fun m hm => ?_, hrising⟩
    have hlo := (hbounds m hm).1
    rw [List.length_cons] at hlo
    omega
  · refine List.forall_mem_cons.2 ⟨⟨Nat.le_refl 0, by simp⟩, fun m hm => ⟨Nat.zero_le m, ?_⟩⟩
    rw [List.length_append]
    exact (hbounds m hm).2

end StartWithin

/-- **Nodes along tokens start at them**, when each of them stands at the first token of its
piece. -/
theorem Along.startWithin {P : List Token → Node → Prop} {ts : List Token} {ns : List Node}
    (h : Along P ts ns) (hP : ∀ ts n, P ts n → ∃ t us, ts = t :: us ∧ n.site = t.site) :
    StartWithin ts 0 ts.length ns := by
  induction h with
  | nil => exact ⟨[], .nil, by simp, .nil⟩
  | @cons skipped piece rest n ns head _ ih =>
    obtain ⟨t, us, rfl, hsite⟩ := hP _ _ head
    obtain ⟨places, hrising, hbounds, hstarts⟩ := (ih.cons hsite us).behind skipped
    refine ⟨places, hrising, fun m hm => ⟨Nat.zero_le m, ?_⟩, hstarts⟩
    rw [List.length_append]
    exact (hbounds m hm).2

/-! ## Where a body stops -/

/-- **A body stops at the brace that closes it**, or at the end of the script in front of that, and
each of its statements starts at a token between the braces, in order. -/
theorem bodyFrom?_stops {limit : Int} (hlimit : 1 ≤ limit) {ts : List Token} {i : Nat} {t : Token}
    (hi : ts[i]? = some t) (ht : t.kind = .leftBrace) :
    ∃ found stop, bodyFrom? limit 1 (ts.drop (i + 1)) = some found ∧ found.rest = ts.drop stop ∧
      braces.StopsAt ts i stop ∧ StartWithin ts (i + 1) stop found.statements := by
  obtain ⟨stop, hskip, hstops⟩ := Brackets.skip_stopsAt (b := braces) hi ht
  obtain ⟨found, hfound⟩ := bodyFrom?_isSome hlimit 1 (ts.drop (i + 1))
  have hrest : found.rest = ts.drop stop := (bodyFrom?_rest hfound).trans hskip
  refine ⟨found, stop, hfound, hrest, hstops, ?_⟩
  obtain ⟨taken, htaken, halong⟩ := (bodyFrom?_yields hfound).laid
  have hstarts := ((halong.startWithin fun _ _ form => form.site).append_right found.rest).behind
    (ts.take (i + 1))
  rw [← htaken, List.take_append_drop] at hstarts
  obtain ⟨places, hrising, hbounds, hplaced⟩ := hstarts
  refine ⟨places, hrising, fun m hm => ?_, hplaced⟩
  have hlt := (List.getElem?_eq_some_iff.1 hi).1
  have hle := hstops.le_length
  have hlength := congrArg List.length htaken
  rw [List.length_append, hrest, List.length_drop, List.length_drop] at hlength
  have hm := hbounds m hm
  rw [List.length_take] at hm
  omega

/-- A body that leaves an argument list open at a brace; a name stands behind it. -/
def braceInArguments : List Token :=
  [.bare .leftBrace "\x7b", .bare .keyword "let", .bare .identifier "a", .bare .operator "=",
    .bare .identifier "f", .bare .leftParen "(", .bare .leftBrace "\x7b", .bare .identifier "b",
    .bare .punctuation ";", .bare .rightBrace "\x7d", .bare .rightBrace "\x7d",
    .bare .identifier "x"]

/-- The body goes on to its own closing brace and holds a declaration and a name. -/
theorem braceInArguments_stops :
    (1 : Int) ≤ 1 ∧ braceInArguments[0]? = some (.bare .leftBrace "\x7b") ∧
    (Token.bare .leftBrace "\x7b").kind = .leftBrace ∧
    ∃ found stop, bodyFrom? 1 1 (braceInArguments.drop (0 + 1)) = some found ∧
      found.rest = braceInArguments.drop stop ∧ braces.StopsAt braceInArguments 0 stop ∧
      StartWithin braceInArguments (0 + 1) stop found.statements ∧
      stop = 11 ∧ found.statements.length = 2 := by
  refine ⟨Int.le_refl 1, rfl, rfl, ?_⟩
  obtain ⟨found, stop, hfound, hrest, hstops, hwithin⟩ :=
    bodyFrom?_stops (Int.le_refl 1) (show braceInArguments[0]? = some _ from rfl) rfl
  have hlengths : (bodyFrom? 1 1 (braceInArguments.drop (0 + 1))).map
      (fun body => (body.rest.length, body.statements.length)) = some (1, 2) := by
    decide +kernel
  rw [hfound, Option.map_some, Option.some_inj, Prod.mk.injEq, hrest, List.length_drop] at hlengths
  have hlength : braceInArguments.length = 12 := rfl
  exact ⟨found, stop, hfound, hrest, hstops, hwithin, by omega, hlengths.2⟩

end PageLint
