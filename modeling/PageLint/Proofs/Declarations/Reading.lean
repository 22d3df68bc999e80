import Mathlib.Data.List.Forall2
import PageLint.Proofs.Declarations.Text
import PageLint.Proofs.DeclaredNames
import PageLint.Proofs.Scripts

/-!
# Reading declarations

What a script of declarations is read as. A literal that no semicolon closes is read together with
the token behind it, unless that ends the script or expressions have one token only. If that token
is the word of the next declaration, the declaration is lost.

* `Declaration.readStatement?_eq` — what one declaration is read as, and what it leaves
* `scriptFrom?_declarations` — a script in which no word is taken away is read in full
* `declarations_kept_iff` — when the declarations of a page are all kept
-/

namespace PageLint

/-! ## Declarations in the tree -/

namespace Declaration

/-- Whether an initializer in the tree is the literal of a declaration, or missing like it. -/
def HasInitializer (d : Declaration) (initializer : Option Node) : Prop :=
  match d.initializer, initializer with
  | none, none => True
  | some i, some (.identifier value) => value.name = i.literal.text
  | _, _ => False

/-- Whether a node is a declaration, with its word, its name and its literal. -/
def IsReadAs (d : Declaration) : Node → Prop
  | .varDecl _ keyword target initializer =>
    d.word ≠ .constWord ∧ keyword = d.word.text ∧ target.name = d.name.text ∧
      d.HasInitializer initializer
  | .constDecl _ target initializer =>
    d.word = .constWord ∧ target.name = d.name.text ∧ d.HasInitializer initializer
  | _ => False

end Declaration

/-- **A page keeps declarations**: it is a body with one script, which holds one statement for each
of them in their order, and it declares their names. -/
structure Page.Keeps (page : Page) (ds : List Declaration) : Prop where
  children : ∃ bodySite scriptSite statements, page.document.children =
      [.tag bodySite "body" [] [.script scriptSite statements] false false] ∧
    List.Forall₂ Declaration.IsReadAs ds statements
  names : page.declaredNames = ds.map fun d => d.name.text

/-- The same for what has been read of a script. -/
structure Harvest.Keeps (found : Harvest) (ds : List Declaration) : Prop where
  statements : List.Forall₂ Declaration.IsReadAs ds found.statements
  declared : found.declared = ds.map fun d => d.name.text

theorem Harvest.Keeps.append {a b : Harvest} {ds es : List Declaration} (ha : a.Keeps ds)
    (hb : b.Keeps es) : (a.append b).Keeps (ds ++ es) where
  statements := List.rel_append ha.statements hb.statements
  declared := by
    show a.declared ++ b.declared = _
    rw [ha.declared, hb.declared, List.map_append]

/-! ## Reading one declaration -/

section Literals

variable {limit : Int} {literal next : Token} {rest : List Token}

theorem kind_of_isLiteral (hl : literal.kind.isLiteral = true) :
    literal.kind ≠ .eof ∧ literal.kind ≠ .keyword ∧ literal.kind ≠ .identifier ∧
      literal.kind ≠ .operator ∧ literal.kind.isBoundary = false ∧
      isTerminator (some literal) = false := by
  cases hk : literal.kind <;> simp [hk, TokenKind.isLiteral] at hl <;>
    simp [isTerminator, Token.isMark, TokenKind.isBoundary, hk]

/-- A literal in front of a semicolon is an expression of its own. -/
theorem outerExpression_closed (hl : literal.kind.isLiteral = true) (hn : next.isMark ";" = true) :
    (outerExpression limit).read (literal :: next :: rest) =
      { value := some (.identifier literal.toIdentifier), rest := next :: rest } := by
  obtain ⟨he, hk, hi, -⟩ := kind_of_isLiteral hl
  rw [outerExpression, expression_eq]
  simp [expressionReader, readExpression, he, hk, hi, hl, isTerminator, hn]

theorem flatRun_literal (args : Reader (List Node)) (cut : Event) (n : Nat)
    (hl : literal.kind.isLiteral = true) (ts : List Token) :
    flatRun args cut (n + 1) (literal :: ts) =
      let more := flatRun args cut n ts
      { more with value := (.identifier literal.toIdentifier :: more.value.1, more.value.2) } := by
  obtain ⟨-, -, hi, ho, hb, ht⟩ := kind_of_isLiteral hl
  simp [flatRun, hb, ht, ho, hi, hl]

/-- A word has no place in an expression: it is taken and ends it, when a step is left. -/
theorem flatRun_next (args : Reader (List Node)) (cut : Event) (n : Nat)
    (hn : next.kind = .keyword ∨ next.kind = .scriptClose) (rest : List Token) :
    (flatRun args cut n (next :: rest)).value = ([], []) ∧
      (flatRun args cut n (next :: rest)).rest =
        if next.kind = .keyword ∧ n ≠ 0 then rest else next :: rest := by
  cases n with
  | zero => simp [flatRun]
  | succ n =>
    rcases hn with hn | hn
    · simp [flatRun, isTerminator, Token.isMark, TokenKind.isBoundary, TokenKind.isLiteral, hn]
    · simp [flatRun, TokenKind.isBoundary, hn]

/-- **A literal that nothing closes takes the word behind it along**, when expressions have more
than one token. -/
theorem outerExpression_open (hlimit : 1 ≤ limit) (hl : literal.kind.isLiteral = true)
    (hn : next.kind = .keyword ∨ next.kind = .scriptClose) (rest : List Token) :
    ((outerExpression limit).read (literal :: next :: rest)).value =
        some (.identifier literal.toIdentifier) ∧
      ((outerExpression limit).read (literal :: next :: rest)).rest =
        if next.kind = .keyword ∧ limit ≠ 1 then rest else next :: rest := by
  obtain ⟨he, hk, hi, -⟩ := kind_of_isLiteral hl
  have hnext : isTerminator (some next) = false := by
    rcases hn with hn | hn <;> simp [isTerminator, Token.isMark, hn]
  obtain ⟨n, hsteps⟩ : ∃ n, limit.toNat = n + 1 := ⟨limit.toNat - 1, by omega⟩
  -- The literal takes one step, so a word is taken when there is a second one.
  have hone : limit ≠ 1 ↔ n ≠ 0 := by omega
  let args := argumentReader limit maxCallDepth
  let cut := Event.expressionCut literal.location limit
  obtain ⟨hvalue, hrest⟩ := flatRun_next args cut n hn rest
  have hread : (outerExpression limit).read (literal :: next :: rest) =
      let run := flatRun args cut (n + 1) (literal :: next :: rest)
      { value := flatNode literal run.value.1 run.value.2
        events := run.events
        rest := run.rest } := by
    rw [outerExpression, expression_eq, ← hsteps]
    simp [expressionReader, readExpression, he, hk, hi, hnext, args, cut]
  rw [hread, flatRun_literal args cut n hl]
  simp only [hvalue, hrest, flatNode, hone, and_self]

end Literals

/-- The node of a declaration at its word. -/
def DeclaringWord.node (w : DeclaringWord) (t : Token) : Identifier → Option Node → Node :=
  match w with
  | constWord => .constDecl { location := t.location }
  | _ => .varDecl { location := t.location } w.text

theorem readStatement?_declaringWord (config : Config) {w : DeclaringWord} {t : Token}
    (hk : t.kind = .keyword) (ht : t.text = w.text) (ts : List Token) :
    readStatement? config t ts =
      some (readDeclaration config.maxExpressionTokens (w.node t) ts) := by
  have hsimple : readSimple? config.maxExpressionTokens t ts =
      some (readDeclaration config.maxExpressionTokens (w.node t) ts) := by
    cases w <;> simp [readSimple?, hk, ht, DeclaringWord.text, DeclaringWord.node]
  simp only [readStatement?, hsimple]

namespace Declaration

/-- What a declaration leaves of a script that goes on with a token: the token is gone when the
declaration ends with an open literal, the token is a word and expressions have room for it. -/
def left (d : Declaration) (limit : Int) (next : Token) (rest : List Token) : List Token :=
  if d.endsOpen = true ∧ next.kind = .keyword ∧ limit ≠ 1 then dropSemicolon rest
  else next :: rest

theorem semicolon_cases (d : Declaration) {ss : List Token}
    (h : ss.map Token.shape = d.semicolonShapes) :
    (d.semicolon = none ∧ ss = []) ∨
      ∃ g t, d.semicolon = some g ∧ ss = [t] ∧ t.isMark ";" = true := by
  unfold semicolonShapes at h
  cases hs : d.semicolon with
  | none => exact Or.inl ⟨rfl, by simpa [hs] using h⟩
  | some g =>
    obtain ⟨t, rfl, ht⟩ : ∃ t, ss = [t] ∧ t.shape = (.punctuation, ";") := by
      simpa [hs, List.map_eq_cons_iff] using h
    obtain ⟨hkind, htext⟩ := Prod.mk.inj ht
    exact Or.inr ⟨g, t, rfl, rfl, by simp [Token.isMark, hkind, htext]⟩

theorem initializer_cases (d : Declaration) {is : List Token}
    (h : is.map Token.shape = d.initializerShapes) :
    (d.initializer = none ∧ is = []) ∨
      ∃ i sign literal, d.initializer = some i ∧ is = [sign, literal] ∧
        sign.kind = .operator ∧ sign.text = "=" ∧
        literal.kind.isLiteral = true ∧ literal.text = i.literal.text := by
  unfold initializerShapes at h
  cases hi : d.initializer with
  | none => exact Or.inl ⟨rfl, by simpa [hi] using h⟩
  | some i =>
    obtain ⟨sign, literal, rfl, hsign, hliteral⟩ : ∃ t u, is = [t, u] ∧
        t.shape = (.operator, "=") ∧ u.shape = (i.literal.kind, i.literal.text) := by
      rw [hi] at h
      obtain ⟨t, ts, rfl, ht, hts⟩ := List.map_eq_cons_iff.1 h
      obtain ⟨u, us, rfl, hu, hus⟩ := List.map_eq_cons_iff.1 hts
      obtain rfl := List.map_eq_nil_iff.1 hus
      exact ⟨t, u, rfl, ht, hu⟩
    obtain ⟨hkind, htext⟩ := Prod.mk.inj hsign
    obtain ⟨hkind', htext'⟩ := Prod.mk.inj hliteral
    refine Or.inr ⟨i, sign, literal, rfl, rfl, hkind, htext, ?_, htext'⟩
    rw [hkind']
    cases i.literal <;> rfl

/-- The initializer of a declaration, and what it and the semicolon leave. -/
theorem readInitializer_eq {limit : Int} (hlimit : 1 ≤ limit) (d : Declaration)
    {is ss : List Token} (his : is.map Token.shape = d.initializerShapes)
    (hss : ss.map Token.shape = d.semicolonShapes) {next : Token}
    (hn : next.kind = .keyword ∨ next.kind = .scriptClose) (rest : List Token) :
    d.HasInitializer (readInitializer limit (is ++ (ss ++ next :: rest))).value ∧
      dropSemicolon (readInitializer limit (is ++ (ss ++ next :: rest))).rest =
        d.left limit next rest := by
  have hnext : next.kind ≠ .operator ∧ next.isMark ";" = false := by
    rcases hn with hn | hn <;> simp [Token.isMark, hn]
  have hdrop : dropSemicolon (next :: rest) = next :: rest := by simp [dropSemicolon, hnext]
  rcases d.initializer_cases his with ⟨hi, rfl⟩ | ⟨i, sign, literal, hi, rfl, hk, ht, hl, htext⟩
  · rcases d.semicolon_cases hss with ⟨hs, rfl⟩ | ⟨g, semicolon, hs, rfl, hmark⟩
    · simp [readInitializer, hnext, hdrop, HasInitializer, left, endsOpen, hi]
    · have hkind : semicolon.kind ≠ .operator := by
        intro hkind
        simp [Token.isMark, hkind] at hmark
      simp [readInitializer, hkind, dropSemicolon, hmark, HasInitializer, left, endsOpen, hi]
  · have hread : ∀ ts, readInitializer limit ([sign, literal] ++ ts) =
        (outerExpression limit).read (literal :: ts) := by
      intro ts
      simp [readInitializer, hk, ht]
    rw [hread]
    rcases d.semicolon_cases hss with ⟨hs, rfl⟩ | ⟨g, semicolon, hs, rfl, hmark⟩
    · obtain ⟨hvalue, hrest⟩ := outerExpression_open hlimit hl hn rest
      rw [List.nil_append, hvalue, hrest]
      refine ⟨by simp [HasInitializer, hi, Token.toIdentifier, htext], ?_⟩
      simp only [left, endsOpen, hi, hs, Option.isSome_some, Option.isNone_none, Bool.and_self,
        true_and]
      split
      · rfl
      · exact hdrop
    · rw [List.singleton_append, outerExpression_closed hl hmark]
      simp [dropSemicolon, hmark, HasInitializer, left, endsOpen, hi, hs, Token.toIdentifier, htext]

/-- **What one declaration is read as, and what it leaves of a script that goes on.** -/
theorem readStatement?_eq {config : Config} (hlimit : 1 ≤ config.maxExpressionTokens)
    (d : Declaration) {ts : List Token} (hts : ts.map Token.shape = d.shapes) {next : Token}
    (hn : next.kind = .keyword ∨ next.kind = .scriptClose) (rest : List Token) :
    ∃ t us found, ts = t :: us ∧ t.kind = .keyword ∧
      readStatement? config t (us ++ next :: rest) = some found ∧ found.Keeps [d] ∧
      found.rest = d.left config.maxExpressionTokens next rest := by
  obtain ⟨t, us, rfl, ht, hus⟩ := List.map_eq_cons_iff.1 hts
  obtain ⟨name, us, rfl, hname, hus⟩ := List.map_eq_cons_iff.1 hus
  obtain ⟨is, ss, rfl, his, hss⟩ := List.map_eq_append_iff.1 hus
  obtain ⟨hk, htext⟩ := Prod.mk.inj ht
  obtain ⟨hnk, hntext⟩ := Prod.mk.inj hname
  obtain ⟨hvalue, hleft⟩ := d.readInitializer_eq hlimit his hss hn rest
  refine ⟨t, name :: (is ++ ss), _, rfl, hk, readStatement?_declaringWord config hk htext _, ?_⟩
  rw [List.cons_append, List.append_assoc, readDeclaration, if_pos (by rw [hnk]; rfl)]
  refine ⟨⟨.cons ?_ .nil, by rw [hntext]; rfl⟩, hleft⟩
  cases hw : d.word <;> simp [DeclaringWord.node, IsReadAs, hw, Token.toIdentifier, hntext, hvalue]

end Declaration

/-! ## Reading a script of declarations -/

/-- Each declaration has one word that declares a name. -/
theorem declaring_declarations {ds : List Declaration} {ts : List Token}
    (h : ts.map Token.shape = ds.flatMap Declaration.shapes) : declaring ts = ds.length := by
  let declares (shape : TokenKind × String) : Bool :=
    shape.1 == .keyword && (shape.2 == "let" || shape.2 == "var" || shape.2 == "const")
  have hshapes : declaring ts = (ts.map Token.shape).countP declares := by
    rw [List.countP_map]
    rfl
  have hone : ∀ d : Declaration, d.shapes.countP declares = 1 := by
    intro d
    have hword : declares (.keyword, d.word.text) = true := by cases d.word <;> rfl
    have hinitializer : d.initializerShapes.countP declares = 0 := by
      unfold Declaration.initializerShapes
      cases d.initializer with
      | none => rfl
      | some i => cases hl : i.literal <;> simp [declares, LiteralText.kind, hl]
    have hsemicolon : d.semicolonShapes.countP declares = 0 := by
      unfold Declaration.semicolonShapes
      cases d.semicolon <;> rfl
    rw [Declaration.shapes, List.countP_cons_of_pos hword,
      List.countP_cons_of_neg (by simp [declares]), List.countP_append, hinitializer, hsemicolon]
  rw [hshapes, h, List.countP_flatMap]
  simp [Function.comp_def, hone]

theorem declares_of_shape {t : Token} {w : DeclaringWord} (h : t.shape = (.keyword, w.text)) :
    t.declares = true := by
  obtain ⟨hk, ht⟩ := Prod.mk.inj h
  rw [Token.declares, hk, ht]
  cases w <;> rfl

theorem kind_of_declares {t : Token} (h : t.declares = true) : t.kind = .keyword := by
  rw [Token.declares, Bool.and_eq_true, beq_iff_eq] at h
  exact h.1

/-- A script of declarations goes on with the word of the next one or ends. -/
theorem exists_next {ds : List Declaration} {ts : List Token}
    (h : ts.map Token.shape = ds.flatMap Declaration.shapes) {close : Token}
    (hc : close.kind = .scriptClose) (rest : List Token) :
    ∃ next others, ts ++ close :: rest = next :: others ∧
      (ds = [] ∧ next.kind = .scriptClose ∨ ds ≠ [] ∧ next.declares = true) := by
  cases ds with
  | nil =>
    obtain rfl : ts = [] := List.map_eq_nil_iff.1 h
    exact ⟨close, rest, rfl, Or.inl ⟨rfl, hc⟩⟩
  | cons e es =>
    obtain ⟨t, ts, rfl, ht, -⟩ := List.map_eq_cons_iff.1 h
    exact ⟨t, ts ++ close :: rest, rfl, Or.inr ⟨List.cons_ne_nil e es, declares_of_shape ht⟩⟩

/-- No declaration ends open that another one follows. -/
theorem closed_cons_iff (d : Declaration) (ds : List Declaration) :
    (∀ e ∈ (d :: ds).dropLast, e.endsOpen = false) ↔
      (ds ≠ [] → d.endsOpen = false) ∧ ∀ e ∈ ds.dropLast, e.endsOpen = false := by
  cases ds with
  | nil => simp
  | cons e ds => simp

section Script

variable {config : Config} (hlimit : 1 ≤ config.maxExpressionTokens) {close : Token}
  (hc : close.kind = .scriptClose) (rest : List Token)

include hlimit hc

/-- **A script in which no word is taken away is read in full.** -/
theorem scriptFrom?_declarations {ds : List Declaration}
    (hkept : config.maxExpressionTokens = 1 ∨ ∀ d ∈ ds.dropLast, d.endsOpen = false)
    {ts : List Token} (h : ts.map Token.shape = ds.flatMap Declaration.shapes) :
    ∃ found, scriptFrom? config (ts ++ close :: rest) = some found ∧ found.Keeps ds ∧
      found.rest = close :: rest := by
  induction ds generalizing ts with
  | nil =>
    obtain rfl : ts = [] := List.map_eq_nil_iff.1 h
    exact ⟨_, scriptFrom?_close config hc rest, ⟨.nil, rfl⟩, rfl⟩
  | cons d ds ih =>
    rw [List.flatMap_cons] at h
    obtain ⟨us, vs, rfl, hus, hvs⟩ := List.map_eq_append_iff.1 h
    obtain ⟨next, others, hsplit, hnext⟩ := exists_next hvs hc rest
    have hkind : next.kind = .keyword ∨ next.kind = .scriptClose := by
      rcases hnext with ⟨-, hk⟩ | ⟨-, hd⟩
      · exact Or.inr hk
      · exact Or.inl (kind_of_declares hd)
    obtain ⟨t, us, found, rfl, hk, hread, hkeeps, hrest⟩ :=
      d.readStatement?_eq hlimit hus hkind others
    -- The next token stays: it ends the script, or nothing here is open, or there is no room for it.
    have hleft : d.left config.maxExpressionTokens next others = vs ++ close :: rest := by
      rw [hsplit, Declaration.left, if_neg]
      rintro ⟨hopen, hword, hne⟩
      rcases hnext with ⟨-, hk⟩ | ⟨hds, -⟩
      · rw [hk] at hword
        exact absurd hword (by decide)
      · rcases hkept with hone | hclosed
        · exact hne hone
        · rw [((closed_cons_iff d ds).1 hclosed).1 hds] at hopen
          exact absurd hopen Bool.false_ne_true
    obtain ⟨more, hmore, hkeeps', hrest'⟩ :=
      ih (hkept.imp_right fun hclosed => ((closed_cons_iff d ds).1 hclosed).2) hvs
    refine ⟨found.append more, ?_, hkeeps.append hkeeps', hrest'⟩
    rw [List.append_assoc, List.cons_append, hsplit]
    refine scriptFrom?_statement hlimit (by simp [hk]) (by simp [hk]) hread ?_
    rw [hrest, hleft, hmore]

/-- **A word that is taken away leaves fewer names than declarations.** -/
theorem readFrom?_lost (hne : config.maxExpressionTokens ≠ 1) {ds : List Declaration}
    (hlost : ¬ ∀ d ∈ ds.dropLast, d.endsOpen = false) {ts : List Token}
    (h : ts.map Token.shape = ds.flatMap Declaration.shapes) {p q : Progress} {region : Region}
    (hr : p.region = some region) (hq : p.readFrom? config (ts ++ close :: rest) = some q) :
    q.declaredNames.length < p.declaredNames.length + ds.length + declaring rest := by
  induction ds generalizing ts p region with
  | nil => simp at hlost
  | cons d ds ih =>
    rw [List.flatMap_cons] at h
    obtain ⟨us, vs, rfl, hus, hvs⟩ := List.map_eq_append_iff.1 h
    obtain ⟨next, others, hsplit, ⟨rfl, -⟩ | ⟨hds, hd⟩⟩ := exists_next hvs hc rest
    · simp at hlost
    have hk := kind_of_declares hd
    obtain ⟨t, us, found, rfl, ht, hread, hkeeps, hrest⟩ :=
      d.readStatement?_eq hlimit hus (Or.inl hk) others
    rw [List.append_assoc, List.cons_append, hsplit,
      Progress.readFrom?_statement hr hlimit (by simp [ht]) (by simp [ht]) hread] at hq
    have hnames : (p.collect region found).declaredNames.length = p.declaredNames.length + 1 := by
      simp [Progress.collect, hkeeps.declared]
    by_cases hopen : d.endsOpen = true
    · -- The word of the next declaration is gone, and with it a name.
      have hothers : declaring others + 1 = ds.length + declaring rest := by
        have hclose : close.declares = false := by simp [Token.declares, hc]
        rw [← declaring_cons_of_declares hd, ← hsplit, declaring_append,
          declaring_declarations hvs]
        simp [declaring, hclose]
      have hleft : found.rest = dropSemicolon others := by
        rw [hrest, Declaration.left, if_pos ⟨hopen, hk, hne⟩]
      have hdrop := declaring_le_of_suffix (dropSemicolon_suffix others)
      have hrun := Progress.readFrom?_declared_le hq
      rw [hleft, hnames] at hrun
      rw [List.length_cons]
      omega
    · have hleft : found.rest = vs ++ close :: rest := by
        rw [hrest, Declaration.left, if_neg (fun h => hopen h.1), hsplit]
      rw [hleft] at hq
      have hlost' : ¬ ∀ e ∈ ds.dropLast, e.endsOpen = false := by
        intro hclosed
        exact hlost ((closed_cons_iff d ds).2 ⟨fun _ => by simpa using hopen, hclosed⟩)
      have hrun := ih hlost' hvs rfl hq
      rw [hnames] at hrun
      rw [List.length_cons]
      omega

end Script

/-! ## Pages of declarations -/

theorem Progress.page?_declaredNames {p : Progress} {file : Option String} {page : Page}
    (h : p.page? file = some page) : page.declaredNames = p.declaredNames := by
  obtain ⟨document, -, rfl⟩ := Option.map_eq_some_iff.1 h
  rfl

/-- **No declaration of a script is lost** exactly when each literal that another declaration
follows is closed by a semicolon, or expressions have one token only. -/
theorem declarations_kept_iff (config : Config) (hlimit : 1 ≤ config.maxExpressionTokens)
    (hvoid : "body" ∉ config.voidElements) (ds : List Declaration) (file : Option String) :
    (∃ page, readPage? config (inScript (declarationChars ds)) file = some page ∧ page.Keeps ds) ↔
      config.maxExpressionTokens = 1 ∨ ∀ d ∈ ds.dropLast, d.endsOpen = false := by
  have hshapes := scan_inScript (Scans.declarations file ds rfl)
  obtain ⟨body, opening, ts, close, last, eof, htokens, hbody, hopening, hts, hclose, hlast,
    heof⟩ := exists_tokens_around hshapes
  obtain ⟨hbk, hbt⟩ := Prod.mk.inj hbody
  obtain ⟨hok, -⟩ := Prod.mk.inj hopening
  obtain ⟨hck, -⟩ := Prod.mk.inj hclose
  obtain ⟨hlk, hlt⟩ := Prod.mk.inj hlast
  obtain ⟨hek, -⟩ := Prod.mk.inj heof
  simp only [readPage?, htokens]
  constructor
  · rintro ⟨page, hpage, hkeeps⟩
    by_contra hlost
    rw [not_or] at hlost
    rw [Progress.readFrom?_openings hvoid hbk hbt hok] at hpage
    obtain ⟨q, hq, hpage⟩ := Option.bind_eq_some_iff.1 hpage
    -- Fewer names than declarations are left, but the page declares them all.
    have hlt := readFrom?_lost hlimit hck [last, eof] hlost.1 hlost.2 hts rfl hq
    have hrest : declaring [last, eof] = 0 := by simp [declaring, Token.declares, hlk, hek]
    rw [← Progress.page?_declaredNames hpage, hkeeps.names, hrest, List.length_map] at hlt
    simp [Progress.inBody] at hlt
  · intro hkept
    obtain ⟨found, hfound, hkeeps, hrest⟩ :=
      scriptFrom?_declarations hlimit hck [last, eof] hkept hts
    rw [Progress.readFrom?_body hvoid hbk hbt hok, hfound, Option.bind_some, hrest]
    obtain ⟨q, hq, hbody⟩ :=
      Progress.readFrom?_inBody_close config body opening _ found hck hlk hlt hek
    obtain ⟨page, hpage, hchildren, -, hnames⟩ := hbody.page? file
    rw [hq, Option.bind_some]
    refine ⟨page, hpage, ⟨?_, hnames.trans hkeeps.declared⟩⟩
    exact ⟨_, _, _, hchildren, hkeeps.statements⟩

/-- The declaration `let a = 1`, with or without a semicolon. -/
def letA (closed : Bool) : Declaration where
  lead := ⟨[], rfl⟩
  word := .letWord
  space := ⟨[' '], rfl⟩
  space_ne := List.cons_ne_nil ' ' []
  name := ⟨'a', [], by decide +kernel, rfl, by decide +kernel⟩
  initializer := some {
    beforeSign := ⟨[' '], rfl⟩
    afterSign := ⟨[' '], rfl⟩
    literal := .number ⟨'1', [], none, none, by decide +kernel, rfl, by simp⟩ }
  semicolon := if closed then some ⟨[], rfl⟩ else none
  trail := ⟨[], rfl⟩

/-- The declaration `const B`. -/
def constB : Declaration where
  lead := ⟨[], rfl⟩
  word := .constWord
  space := ⟨[' '], rfl⟩
  space_ne := List.cons_ne_nil ' ' []
  name := ⟨'B', [], by decide +kernel, rfl, by decide +kernel⟩
  initializer := none
  semicolon := none
  trail := ⟨[], rfl⟩

theorem constB_lost_behind_open_literal :
    (1 ≤ ({} : Config).maxExpressionTokens ∧ "body" ∉ ({} : Config).voidElements) ∧
    (∃ page, readPage? {} (inScript "let a = 1;\nconst B".toList) none = some page ∧
      page.Keeps [letA true, constB]) ∧
    ¬ ∃ page, readPage? {} (inScript "let a = 1\nconst B".toList) none = some page ∧
      page.Keeps [letA false, constB] := by
  have hclosed : declarationChars [letA true, constB] = "let a = 1;\nconst B".toList := by
    decide +kernel
  have hopen : declarationChars [letA false, constB] = "let a = 1\nconst B".toList := by
    decide +kernel
  refine ⟨⟨by decide, by decide⟩, ?_, ?_⟩
  · rw [← hclosed]
    exact (declarations_kept_iff {} (by decide) (by decide) _ none).2 (by decide)
  · rw [← hopen, declarations_kept_iff {} (by decide) (by decide)]
    decide

end PageLint
