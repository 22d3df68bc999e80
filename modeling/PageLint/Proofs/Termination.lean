import PageLint.Proofs.Forest
import PageLint.Proofs.Suffix

/-!
# Reading comes to an end

Reading a page is a loop over its tokens. Inside it, the body of a function and the arguments of a
call are loops of their own. Here each loop is taken apart into turns, and each turn is shown to
take at least one token, provided that an expression may take one.

The loop over a function body is the only one that can run for ever: nothing in it asks whether a
turn has taken a token. `bodyFrom?` has no result exactly when this loop never ends
(`bodyFrom?_eq_none_iff`).

* `Progress.readFrom?_cons`, `argumentsFrom_turn` — the loops are their turns
* `readStatement?_isSome` — no function body runs for ever
* `reading_ends_iff` — every token list can be read exactly when expressions may take a token
-/

namespace PageLint

/-! ## The loop over a function body -/

/-- Where the loop over a function body stands: the open braces, and what has been found so far
together with the tokens that are left. -/
structure BodyState where
  depth : Nat
  found : Harvest

namespace BodyState

/-- The loop before its first turn. -/
def start (depth : Nat) (ts : List Token) : BodyState := { depth, found := { rest := ts } }

/-- The state after one token that is passed over. -/
def skip (s : BodyState) (depth : Nat) (ts : List Token) : BodyState :=
  { depth, found := { s.found with rest := ts } }

/-- One turn of the loop; none when the loop is left. It does not matter here whether the turn
takes a token. -/
def turn? (limit : Int) (s : BodyState) : Option BodyState :=
  match s.depth, s.found.rest with
  | 0, _ => none
  | _ + 1, [] => none
  | depth + 1, t :: ts =>
    if t.kind == .eof || t.kind == .scriptClose then none
    else if t.kind == .leftBrace then some (s.skip (depth + 2) ts)
    else if t.kind == .rightBrace then some (s.skip depth ts)
    else
      match readSimple? limit t ts with
      | none => some (s.skip (depth + 1) ts)
      | some found => some { depth := depth + 1, found := s.found.append found }

/-- The state after a number of turns; none when the loop is left before. -/
def after? (limit : Int) : Nat → BodyState → Option BodyState
  | 0, s => some s
  | n + 1, s => (s.turn? limit).bind (after? limit n)

/-- The loop is left after a number of turns, with what has been found. -/
def EndsWith (limit : Int) (s : BodyState) (found : Harvest) : Prop :=
  ∃ n last, s.after? limit n = some last ∧ last.turn? limit = none ∧ last.found = found

/-- The loop is not left after any number of turns. -/
def NeverEnds (limit : Int) (s : BodyState) : Prop := ∀ n, ∃ t, s.after? limit n = some t

variable {limit : Int} {s s' : BodyState}

theorem EndsWith.of_turn {found : Harvest} (h : s.turn? limit = some s')
    (he : s'.EndsWith limit found) : s.EndsWith limit found := by
  obtain ⟨n, last, hn, hlast, hfound⟩ := he
  refine ⟨n + 1, last, ?_, hlast, hfound⟩
  rw [after?, h]
  exact hn

theorem EndsWith.of_left (h : s.turn? limit = none) : s.EndsWith limit s.found :=
  ⟨0, s, rfl, h, rfl⟩

theorem NeverEnds.of_turn (h : s.turn? limit = some s') (hn : s'.NeverEnds limit) :
    s.NeverEnds limit := by
  intro n
  cases n with
  | zero => exact ⟨s, rfl⟩
  | succ n =>
    obtain ⟨t, ht⟩ := hn n
    exact ⟨t, by rw [after?, h]; exact ht⟩

theorem after?_succ (n : Nat) (s : BodyState) :
    s.after? limit (n + 1) = (s.after? limit n).bind (turn? limit) := by
  induction n generalizing s with
  | zero =>
    show (s.turn? limit).bind some = s.turn? limit
    cases s.turn? limit <;> rfl
  | succ n ih =>
    rw [after?, after?, Option.bind_assoc]
    exact congrArg _ (funext fun t => ih t)

/-- A loop that is left does not run for ever. -/
theorem EndsWith.not_neverEnds {found : Harvest} (h : s.EndsWith limit found) :
    ¬s.NeverEnds limit := by
  obtain ⟨n, last, hn, hlast, -⟩ := h
  intro hall
  obtain ⟨t, ht⟩ := hall (n + 1)
  rw [after?_succ, hn, Option.bind_some, hlast] at ht
  simp at ht

end BodyState

theorem Harvest.append_rest (before : Harvest) (ts : List Token) :
    before.append { rest := ts } = { before with rest := ts } := by
  simp [Harvest.append]

theorem Harvest.append_assoc (a b c : Harvest) :
    (a.append b).append c = a.append (b.append c) := by
  simp [Harvest.append]

namespace BodyState

variable {limit : Int} {s s' : BodyState}

/-- What a turn can do: pass over a brace or a token without a place in a function, or take a
statement. -/
theorem turn?_cases (h : s.turn? limit = some s') : ∃ depth t ts,
    s.depth = depth + 1 ∧ s.found.rest = t :: ts ∧
    ¬(t.kind == .eof || t.kind == .scriptClose) = true ∧
    ((t.kind == .leftBrace) = true ∧ s' = s.skip (depth + 2) ts ∨
      ¬(t.kind == .leftBrace) = true ∧ (t.kind == .rightBrace) = true ∧ s' = s.skip depth ts ∨
      ¬(t.kind == .leftBrace) = true ∧ ¬(t.kind == .rightBrace) = true ∧
        readSimple? limit t ts = none ∧ s' = s.skip (depth + 1) ts ∨
      ∃ found, ¬(t.kind == .leftBrace) = true ∧ ¬(t.kind == .rightBrace) = true ∧
        readSimple? limit t ts = some found ∧
        s' = { depth := depth + 1, found := s.found.append found }) := by
  unfold turn? at h
  split at h
  · simp at h
  · simp at h
  · rename_i depth t ts hdepth hrest
    split at h
    · simp at h
    rename_i hend
    refine ⟨depth, t, ts, hdepth, hrest, hend, ?_⟩
    split at h
    · exact Or.inl ⟨by assumption, (Option.some.inj h).symm⟩
    split at h
    · exact Or.inr (Or.inl ⟨by assumption, by assumption, (Option.some.inj h).symm⟩)
    split at h
    · exact Or.inr (Or.inr (Or.inl ⟨by assumption, by assumption, by assumption,
        (Option.some.inj h).symm⟩))
    · exact Or.inr (Or.inr (Or.inr ⟨_, by assumption, by assumption, by assumption,
        (Option.some.inj h).symm⟩))

/-- **A turn of the loop over a function body takes a token**, when expressions may take one. -/
theorem turn?_suffix (hlimit : 1 ≤ limit) (h : s.turn? limit = some s') :
    ∃ t ts, s.found.rest = t :: ts ∧ s'.found.rest <:+ ts := by
  obtain ⟨depth, t, ts, -, hrest, -, hturn⟩ := turn?_cases h
  refine ⟨t, ts, hrest, ?_⟩
  rcases hturn with ⟨-, rfl⟩ | ⟨-, -, rfl⟩ | ⟨-, -, -, rfl⟩ | ⟨found, -, -, hfound, rfl⟩
  · exact List.suffix_rfl
  · exact List.suffix_rfl
  · exact List.suffix_rfl
  · show found.rest <:+ ts
    exact readSimple?_suffix_tail hlimit hfound

/-- What the loop finds from a state on, in addition to what has been found. -/
def result? (limit : Int) (s : BodyState) : Option Harvest :=
  (bodyFrom? limit s.depth s.found.rest).map s.found.append

theorem result?_of_left (h : s.turn? limit = none) : s.result? limit = some s.found := by
  have hnothing : s.found.append { rest := s.found.rest } = s.found := Harvest.append_rest _ _
  unfold turn? at h
  unfold result?
  split at h
  · rename_i hdepth
    rw [hdepth, bodyFrom?, Option.map_some, hnothing]
  · rename_i hdepth hrest
    rw [hrest] at hnothing
    rw [hdepth, hrest, bodyFrom?, Option.map_some, hnothing]
  · rename_i depth t ts hdepth hrest
    split at h
    · rename_i hend
      rw [hrest] at hnothing
      rw [hdepth, hrest, bodyFrom?, if_pos hend, Option.map_some, hnothing]
    split at h
    · simp at h
    split at h
    · simp at h
    split at h <;> simp at h

theorem result?_skip (s : BodyState) (depth : Nat) (ts : List Token) :
    (s.skip depth ts).result? limit = (bodyFrom? limit depth ts).map s.found.append := rfl

/-- A turn that takes a token is a step of `bodyFrom?`. -/
theorem result?_of_turn (h : s.turn? limit = some s')
    (hlt : s'.found.rest.length < s.found.rest.length) :
    s.result? limit = s'.result? limit := by
  obtain ⟨depth, t, ts, hdepth, hrest, hend, hturn⟩ := turn?_cases h
  rw [result?, hdepth, hrest, bodyFrom?, if_neg hend]
  rcases hturn with ⟨hopen, rfl⟩ | ⟨hopen, hclose, rfl⟩ | ⟨hopen, hclose, hnone, rfl⟩ |
    ⟨found, hopen, hclose, hfound, rfl⟩
  · rw [if_pos hopen, result?_skip]
  · rw [if_neg hopen, if_pos hclose, result?_skip]
  · rw [if_neg hopen, if_neg hclose, hnone, result?_skip]
  · replace hlt : found.rest.length < (t :: ts).length := hrest ▸ hlt
    rw [if_neg hopen, if_neg hclose, hfound, result?]
    simp only
    rw [if_pos hlt, Option.map_map]
    exact congrArg (Option.map · _) (funext fun more => (Harvest.append_assoc _ _ more).symm)

/-- A turn that takes no token leads back to the tokens it started from, and so does every turn
after it. -/
theorem turn?_stalled (h : s.turn? limit = some s')
    (hlt : ¬s'.found.rest.length < s.found.rest.length) :
    s.result? limit = none ∧ ∃ found : Harvest, found.rest = s.found.rest ∧
      ∀ b : Harvest, b.rest = s.found.rest →
        turn? limit { depth := s.depth, found := b }
          = some { depth := s.depth, found := b.append found } := by
  obtain ⟨depth, t, ts, hdepth, hrest, hend, hturn⟩ := turn?_cases h
  rw [hrest] at hlt
  rcases hturn with ⟨-, rfl⟩ | ⟨-, -, rfl⟩ | ⟨-, -, -, rfl⟩ | ⟨found, hopen, hclose, hfound, rfl⟩
  · exact absurd (Nat.lt_succ_self ts.length) hlt
  · exact absurd (Nat.lt_succ_self ts.length) hlt
  · exact absurd (Nat.lt_succ_self ts.length) hlt
  · replace hlt : ¬found.rest.length < (t :: ts).length := hlt
    have hsuffix := readSimple?_suffix hfound
    refine ⟨?_, found, ?_, ?_⟩
    · rw [result?, hdepth, hrest, bodyFrom?, if_neg hend, if_neg hopen, if_neg hclose, hfound]
      simp only
      rw [if_neg hlt, Option.map_none]
    · rw [hrest]
      exact hsuffix.eq_of_length (Nat.le_antisymm hsuffix.length_le (Nat.le_of_not_lt hlt))
    · intro b hb
      simp only [turn?, hdepth, hb, hrest, hend, hopen, hclose, hfound, Bool.false_eq_true,
        if_false]

theorem neverEnds_of_stalled {depth : Nat} {found b : Harvest} {ts : List Token}
    (hfound : found.rest = ts) (hb : b.rest = ts)
    (h : ∀ b : Harvest, b.rest = ts →
      turn? limit { depth, found := b } = some { depth, found := b.append found }) :
    NeverEnds limit { depth, found := b } := by
  intro n
  induction n generalizing b with
  | zero => exact ⟨_, rfl⟩
  | succ n ih =>
    rw [after?, h b hb]
    exact ih (show (b.append found).rest = ts from hfound)

/-- The loop is left with its result, and runs for ever when there is none. -/
theorem runs (limit : Int) (s : BodyState) :
    (∃ found, s.result? limit = some found ∧ s.EndsWith limit found) ∨
      s.result? limit = none ∧ s.NeverEnds limit := by
  cases h : s.turn? limit with
  | none => exact Or.inl ⟨_, result?_of_left h, EndsWith.of_left h⟩
  | some s' =>
    by_cases hlt : s'.found.rest.length < s.found.rest.length
    · rw [result?_of_turn h hlt]
      rcases runs limit s' with ⟨found, hresult, hends⟩ | ⟨hnone, hnever⟩
      · exact Or.inl ⟨found, hresult, EndsWith.of_turn h hends⟩
      · exact Or.inr ⟨hnone, NeverEnds.of_turn h hnever⟩
    -- A turn that takes nothing is taken again and again.
    · obtain ⟨hnone, found, hfound, hagain⟩ := turn?_stalled h hlt
      exact Or.inr ⟨hnone, neverEnds_of_stalled hfound rfl hagain⟩
termination_by s.found.rest.length

end BodyState

/-- **There is no result exactly when the loop over the body never ends.** -/
theorem bodyFrom?_eq_none_iff (limit : Int) (depth : Nat) (ts : List Token) :
    bodyFrom? limit depth ts = none ↔ (BodyState.start depth ts).NeverEnds limit := by
  have hresult : bodyFrom? limit depth ts = none ↔
      (BodyState.start depth ts).result? limit = none := Option.map_eq_none_iff.symm
  rw [hresult]
  rcases BodyState.runs limit (.start depth ts) with ⟨found, hsome, hends⟩ | ⟨hnone, hnever⟩
  · constructor
    · intro h
      rw [hsome] at h
      simp at h
    · intro h
      exact absurd h hends.not_neverEnds
  · exact ⟨fun _ => hnever, fun _ => hnone⟩

/-- No function body runs for ever when expressions may take a token. -/
theorem bodyFrom?_isSome {limit : Int} (hlimit : 1 ≤ limit) (depth : Nat) (ts : List Token) :
    ∃ found, bodyFrom? limit depth ts = some found := by
  fun_induction bodyFrom? limit depth ts with
  | case1 => exact ⟨_, rfl⟩
  | case2 => exact ⟨_, rfl⟩
  | case3 => exact ⟨_, rfl⟩
  | case4 depth t ts _ _ ih => exact ih
  | case5 depth t ts _ _ _ ih => exact ih
  | case6 depth t ts _ _ _ _ ih => exact ih
  | case7 depth t ts _ _ _ found hfound hlt ih =>
    obtain ⟨more, hmore⟩ := ih
    exact ⟨_, by rw [hmore]; rfl⟩
  | case8 depth t ts _ _ _ found hfound hlt =>
    have hsuffix := readSimple?_suffix_tail hlimit hfound
    exact absurd (Nat.lt_succ_of_le hsuffix.length_le) hlt

theorem readFunction?_isSome {limit : Int} (hlimit : 1 ≤ limit) (keyword : Token)
    (ts : List Token) : ∃ found, readFunction? limit keyword ts = some found := by
  unfold readFunction?
  split
  · exact ⟨_, rfl⟩
  · rename_i name ts
    split
    · have hbody : ∃ body, readBody? limit (readParameterList ts).2 = some body := by
        unfold readBody?
        split
        · exact ⟨_, rfl⟩
        · split
          · exact bodyFrom?_isSome hlimit 1 _
          · exact ⟨_, rfl⟩
      obtain ⟨body, hbody⟩ := hbody
      show ∃ found, (readBody? limit (readParameterList ts).2).map _ = some found
      rw [hbody]
      exact ⟨_, rfl⟩
    · exact ⟨_, rfl⟩

/-- **Every statement of a script can be read** when expressions may take a token. -/
theorem readStatement?_isSome {config : Config} (hlimit : 1 ≤ config.maxExpressionTokens)
    (t : Token) (ts : List Token) : ∃ found, readStatement? config t ts = some found := by
  simp only [readStatement?]
  split
  · exact ⟨_, rfl⟩
  split
  · exact readFunction?_isSome hlimit t ts
  split
  · exact ⟨_, rfl⟩
  · exact ⟨_, rfl⟩

/-! ## The loop over a list of arguments -/

/-- One turn of the loop over a list of arguments: the tokens with which it goes on; none when it
is left. -/
def argumentsTurn? (expr : Reader (Option Node)) : List Token → Option (List Token)
  | [] => none
  | t :: ts =>
    if endsArguments t then none
    else
      match (expr.read (t :: ts)).rest with
      | [] => none
      | u :: us => if endsArguments u then none else some us

/-- The loop is its first turn and the loop over what that leaves. -/
theorem argumentsFrom_turn {expr : Reader (Option Node)} {ts us : List Token}
    (h : argumentsTurn? expr ts = some us) :
    argumentsFrom expr ts =
      { value := (expr.read ts).value.toList ++ (argumentsFrom expr us).value
        events := (expr.read ts).events ++ (argumentsFrom expr us).events
        rest := (argumentsFrom expr us).rest } := by
  fun_cases argumentsFrom expr ts with
  | case1 => simp [argumentsTurn?] at h
  | case2 t ts ht => simp [argumentsTurn?, ht] at h
  | case3 t ts ht first hrest => simp [argumentsTurn?, ht, first, hrest] at h
  | case4 t ts ht first u us' hrest hu => simp [argumentsTurn?, ht, first, hrest, hu] at h
  | case5 t ts ht first u us' hrest hu hlt more =>
    have : us' = us := by simpa [argumentsTurn?, ht, first, hrest, hu] using h
    rw [← this]

theorem argumentsTurn?_suffix {expr : Reader (Option Node)} (hexpr : expr.LeavesSuffix)
    {t : Token} {ts us : List Token} (h : argumentsTurn? expr (t :: ts) = some us) : us <:+ ts := by
  unfold argumentsTurn? at h
  simp only at h
  split at h
  · simp at h
  · split at h
    · simp at h
    · rename_i u us' hrest
      split at h
      · simp at h
      · have hsuffix := hexpr (t :: ts)
        rw [hrest, Option.some.inj h] at hsuffix
        rcases List.suffix_cons_iff.1 hsuffix with he | hs
        · exact ⟨[], (List.cons.inj he).2⟩
        · exact (List.suffix_cons u us).trans hs

/-! ## The loop over a page -/

namespace Progress

/-- One turn of the loop over a page, at a token that is not the end of the input; none when the
statement at the token never ends. A statement that takes no token is made to take one. -/
def turn? (config : Config) (p : Progress) (t : Token) (ts : List Token) :
    Option (Progress × List Token) :=
  match p.region with
  | none => some (p.readMarkup config t, ts)
  | some region =>
    if t.kind == .scriptClose then some (p.closeScript region, ts)
    else
      (readStatement? config t ts).map fun found =>
        (p.collect region found, if found.rest.length < (t :: ts).length then found.rest else ts)

/-- The loop is its first turn and the loop over what that leaves. -/
theorem readFrom?_cons {config : Config} {p : Progress} {t : Token} (ht : t.kind ≠ .eof)
    (ts : List Token) : p.readFrom? config (t :: ts) =
      (p.turn? config t ts).bind fun next => next.1.readFrom? config next.2 := by
  rw [readFrom?, if_neg (by simpa using ht), turn?]
  cases p.region with
  | none => rfl
  | some region =>
    simp only
    by_cases hclose : (t.kind == .scriptClose) = true
    · rw [if_pos hclose, if_pos hclose, Option.bind_some]
    · rw [if_neg hclose, if_neg hclose]
      cases readStatement? config t ts with
      | none => rfl
      | some found =>
        simp only [Option.map_some, Option.bind_some]
        split <;> rfl

/-- **A turn of the loop over a page takes a token.** -/
theorem turn?_suffix {config : Config} {p q : Progress} {t : Token} {ts rest : List Token}
    (h : p.turn? config t ts = some (q, rest)) : rest <:+ ts := by
  unfold turn? at h
  split at h
  · obtain ⟨-, rfl⟩ := Prod.mk.inj (Option.some.inj h)
    exact List.suffix_rfl
  · split at h
    · obtain ⟨-, rfl⟩ := Prod.mk.inj (Option.some.inj h)
      exact List.suffix_rfl
    · obtain ⟨found, hfound, hnext⟩ := Option.map_eq_some_iff.1 h
      rw [← (Prod.mk.inj hnext).2]
      split
      · rename_i hlt
        rcases List.suffix_cons_iff.1 (readStatement?_suffix hfound) with he | hs
        · rw [he] at hlt
          exact absurd hlt (Nat.lt_irrefl _)
        · exact hs
      · exact List.suffix_rfl

theorem turn?_isSome {config : Config} (hlimit : 1 ≤ config.maxExpressionTokens) (p : Progress)
    (t : Token) (ts : List Token) : ∃ q rest, p.turn? config t ts = some (q, rest) := by
  unfold turn?
  split
  · exact ⟨_, _, rfl⟩
  · split
    · exact ⟨_, _, rfl⟩
    · obtain ⟨found, hfound⟩ := readStatement?_isSome hlimit t ts
      exact ⟨_, _, by rw [hfound]; rfl⟩

/-- A script keeps its list of statements, which only grows, until its closing tag. -/
theorem turn?_region {config : Config} {p q : Progress} {region : Region} {t : Token}
    {ts rest : List Token} (hregion : p.region = some region) (ht : t.kind ≠ .scriptClose)
    (h : p.turn? config t ts = some (q, rest)) :
    ∃ more, q.region = some { region with statements := region.statements ++ more } := by
  unfold turn? at h
  rw [hregion] at h
  simp only at h
  rw [if_neg (by simpa using ht)] at h
  obtain ⟨found, -, hnext⟩ := Option.map_eq_some_iff.1 h
  rw [← (Prod.mk.inj hnext).1]
  exact ⟨found.statements, rfl⟩

/-- The loop over a page ends when every turn does. -/
theorem readFrom?_isSome {config : Config} (hlimit : 1 ≤ config.maxExpressionTokens)
    (p : Progress) (ts : List Token) : ∃ q, p.readFrom? config ts = some q := by
  match ts with
  | [] => exact ⟨_, by rw [readFrom?]⟩
  | t :: ts =>
    by_cases ht : t.kind = .eof
    · exact ⟨_, by rw [readFrom?, if_pos (by simpa using ht)]⟩
    · obtain ⟨q, rest, hturn⟩ := turn?_isSome hlimit p t ts
      have hle : rest.length ≤ ts.length := (turn?_suffix hturn).length_le
      rw [readFrom?_cons ht, hturn, Option.bind_some]
      exact readFrom?_isSome hlimit q rest
termination_by ts.length
decreasing_by exact Nat.lt_succ_of_le hle

end Progress

/-- A chain with at least one target is an assignment. -/
theorem chainNode_eq_assignment {links : List (Identifier × String)} (h : links ≠ [])
    (value : Option Node) : ∃ site target operator inner,
      chainNode links value = some (.assignment site target operator inner) := by
  obtain ⟨⟨target, operator⟩, links, rfl⟩ := List.exists_cons_of_ne_nil h
  exact ⟨target.site, target, operator, chainNode links value, rfl⟩

/-! ## When reading ends -/

/-- Every turn of every loop of reading takes a token before the loop goes on with the rest, and what
is looked up on the way is there: a script has its list of statements up to its end, a chain of
assignments is an assignment, and the tags of the finished page are in the table they are looked up
in. -/
structure Advances (config : Config) : Prop where
  page_turn : ∀ (p : Progress) (t : Token) (ts : List Token), t.kind ≠ .eof →
    ∃ q rest, p.turn? config t ts = some (q, rest) ∧ rest <:+ ts ∧
      p.readFrom? config (t :: ts) = q.readFrom? config rest
  body_turn : ∀ s s' : BodyState, s.turn? config.maxExpressionTokens = some s' →
    s.result? config.maxExpressionTokens = s'.result? config.maxExpressionTokens ∧
      ∃ t ts, s.found.rest = t :: ts ∧ s'.found.rest <:+ ts
  arguments_turn : ∀ (depth : Nat) (t : Token) (ts us : List Token),
    let expr := expression config.maxExpressionTokens depth
    argumentsTurn? expr (t :: ts) = some us → us <:+ ts ∧
      argumentsFrom expr (t :: ts) =
        { value := (expr.read (t :: ts)).value.toList ++ (argumentsFrom expr us).value
          events := (expr.read (t :: ts)).events ++ (argumentsFrom expr us).events
          rest := (argumentsFrom expr us).rest }
  region_kept : ∀ (p q : Progress) (region : Region) (t : Token) (ts rest : List Token),
    p.region = some region → t.kind ≠ .scriptClose → p.turn? config t ts = some (q, rest) →
    ∃ more, q.region = some { region with statements := region.statements ++ more }
  chain_assigns : ∀ (ts : List Token) (value : Option Node), (assignmentLinks ts).1 ≠ [] →
    ∃ site target operator inner,
      chainNode (assignmentLinks ts).1 value = some (.assignment site target operator inner)
  tags_found : ∀ ts : List Token, ∃ q frozen, ({} : Progress).readFrom? config ts = some q ∧
    freeze? q.forest.frames = some frozen ∧
    ∀ serial, q.rootSerial = some serial → (frozen.built.lookup serial).isSome

theorem advances {config : Config} (hlimit : 1 ≤ config.maxExpressionTokens) : Advances config where
  page_turn p t ts ht := by
    obtain ⟨q, rest, h⟩ := p.turn?_isSome hlimit t ts
    refine ⟨q, rest, h, Progress.turn?_suffix h, ?_⟩
    rw [Progress.readFrom?_cons ht, h, Option.bind_some]
  body_turn s s' h := by
    obtain ⟨t, ts, hrest, hsuffix⟩ := BodyState.turn?_suffix hlimit h
    refine ⟨BodyState.result?_of_turn h ?_, t, ts, hrest, hsuffix⟩
    rw [hrest]
    exact Nat.lt_succ_of_le hsuffix.length_le
  arguments_turn depth _ _ _ h :=
    ⟨argumentsTurn?_suffix (expression_suffix _ depth) h, argumentsFrom_turn h⟩
  region_kept _ _ _ _ _ _ hregion ht h := Progress.turn?_region hregion ht h
  chain_assigns _ value h := chainNode_eq_assignment h value
  tags_found ts := by
    obtain ⟨q, hq⟩ := Progress.readFrom?_isSome hlimit {} ts
    have hnumbered := (Progress.numbered_empty []).readFrom? hq
    obtain ⟨frozen, hfrozen, hroot⟩ := hnumbered.exists_frozen
    exact ⟨q, frozen, hq, hfrozen, hroot⟩

/-- A token of a kind and text, with nothing known about its place. -/
def Token.bare (kind : TokenKind) (text : String) : Token :=
  { kind, text, line := 1, column := 1, offset := 0 }

/-- A script with a function whose body holds a name before its closing brace. -/
def nameInBody : List Token :=
  [.bare .scriptOpen "<script>", .bare .keyword "function", .bare .identifier "f",
    .bare .leftBrace "\x7b", .bare .identifier "x", .bare .rightBrace "\x7d"]

/-- An expression that may not take a token leaves a name before a brace. -/
theorem readSimple?_nameInBody {limit : Int} (hlimit : limit < 1) :
    ∃ found, readSimple? limit (.bare .identifier "x") [.bare .rightBrace "\x7d"] = some found ∧
      found.rest = [.bare .identifier "x", .bare .rightBrace "\x7d"] := by
  have hzero : limit.toNat = 0 := by omega
  have hlinks : assignmentLinks [.bare .identifier "x", .bare .rightBrace "\x7d"]
      = ([], [.bare .identifier "x", .bare .rightBrace "\x7d"]) := by
    rw [assignmentLinks]
    rfl
  refine ⟨readAssignment limit _, rfl, ?_⟩
  rw [readAssignment, hlinks, outerExpression, expression_eq]
  simp only [expressionReader, readExpression, hzero]
  rfl

theorem readFrom?_nameInBody {config : Config} (hlimit : config.maxExpressionTokens < 1) :
    ({} : Progress).readFrom? config nameInBody = none := by
  obtain ⟨found, hfound, hrest⟩ := readSimple?_nameInBody hlimit
  have hbody : bodyFrom? config.maxExpressionTokens 1
      [.bare .identifier "x", .bare .rightBrace "\x7d"] = none := by
    rw [bodyFrom?, hfound]
    simp [Token.bare, hrest]
  have hstatement : readStatement? config (.bare .keyword "function")
      [.bare .identifier "f", .bare .leftBrace "\x7b", .bare .identifier "x",
        .bare .rightBrace "\x7d"] = none := by
    simp only [readStatement?]
    show (readBody? config.maxExpressionTokens [.bare .leftBrace "\x7b", .bare .identifier "x",
        .bare .rightBrace "\x7d"]).map _ = none
    rw [readBody?]
    simp only [Token.bare, beq_self_eq_true, if_true] at hbody ⊢
    rw [hbody]
    rfl
  rw [nameInBody, Progress.readFrom?_cons (by simp [Token.bare])]
  show (Progress.readFrom? config _ _) = none
  rw [Progress.readFrom?_cons (by simp [Token.bare]), Progress.turn?]
  show ((readStatement? config _ _).map _).bind _ = none
  rw [hstatement]
  rfl

/-- **Every list of tokens can be read exactly when expressions may take a token**, and then every
turn of every loop takes one. What cannot be read holds a function whose body is read for ever. -/
theorem reading_ends_iff (config : Config) :
    ((∀ ts file, ∃ page, readTokens? config ts file = some page) ↔
      1 ≤ config.maxExpressionTokens) ∧
    (∀ limit depth ts, bodyFrom? limit depth ts = none ↔
      (BodyState.start depth ts).NeverEnds limit) ∧
    (1 ≤ config.maxExpressionTokens → Advances config) := by
  -- With no room for a token, a name in the body of a function is read for ever.
  refine ⟨⟨?_, ?_⟩, bodyFrom?_eq_none_iff, advances⟩
  · intro h
    refine Int.not_lt.1 fun hlimit => ?_
    obtain ⟨page, hpage⟩ := h nameInBody none
    rw [readTokens?, readFrom?_nameInBody hlimit] at hpage
    simp at hpage
  · intro hlimit ts file
    obtain ⟨q, hq⟩ := Progress.readFrom?_isSome hlimit {} ts
    obtain ⟨page, hpage⟩ := ((Progress.numbered_empty []).readFrom? hq).page?_isSome file
    exact ⟨page, by rw [readTokens?, hq, Option.bind_some, hpage]⟩

end PageLint
