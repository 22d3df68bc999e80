import PageLint.Proofs.Termination

/-!
# Declared names and the words that declare them

A name is declared by one of the words `let`, `var` and `const`, and a word that has been read is
never read again. So a page never declares more names than such words stand in its scripts.

* `readStatement?_covered` — the words a statement takes cover the names it declares
* `Progress.readFrom?_declared_le` — the same for a whole page
-/

namespace PageLint

/-- Whether a token is a word that declares a name. -/
def Token.declares (t : Token) : Bool :=
  t.kind == .keyword && (t.text == "let" || t.text == "var" || t.text == "const")

/-- The number of words in a list of tokens that declare a name. -/
def declaring (ts : List Token) : Nat := ts.countP Token.declares

theorem declaring_append (ts us : List Token) :
    declaring (ts ++ us) = declaring ts + declaring us :=
  List.countP_append

theorem declaring_le_of_suffix {ts us : List Token} (h : ts <:+ us) : declaring ts ≤ declaring us :=
  h.sublist.countP_le

theorem declaring_cons_of_declares {t : Token} (h : t.declares = true) (ts : List Token) :
    declaring (t :: ts) = declaring ts + 1 :=
  List.countP_cons_of_pos h

/-- **The words that a harvest takes cover the names it declares.** -/
def Harvest.Covered (found : Harvest) (ts : List Token) : Prop :=
  found.declared.length + declaring found.rest ≤ declaring ts

theorem Harvest.Covered.of_suffix {found : Harvest} {ts us : List Token} (h : found.Covered ts)
    (hs : ts <:+ us) : found.Covered us :=
  Nat.le_trans h (declaring_le_of_suffix hs)

/-- A harvest that declares nothing is covered by whatever it takes. -/
theorem Harvest.Covered.of_nothing {found : Harvest} {ts : List Token} (hd : found.declared = [])
    (hs : found.rest <:+ ts) : found.Covered ts := by
  rw [Harvest.Covered, hd, List.length_nil, Nat.zero_add]
  exact declaring_le_of_suffix hs

theorem Harvest.Covered.append {a b : Harvest} {ts : List Token} (ha : a.Covered ts)
    (hb : b.Covered a.rest) : (a.append b).Covered ts := by
  unfold Harvest.Covered at *
  simp only [Harvest.append, List.length_append]
  omega

/-! ## Statements -/

theorem readDeclaration_covered (limit : Int) (build : Identifier → Option Node → Node) {t : Token}
    (ht : t.declares = true) (ts : List Token) :
    (readDeclaration limit build ts).Covered (t :: ts) := by
  have hrest := declaring_le_of_suffix (readDeclaration_suffix limit build ts)
  have hone : (readDeclaration limit build ts).declared.length ≤ 1 := by
    unfold readDeclaration
    split
    · exact Nat.zero_le 1
    · split
      · exact Nat.le_refl 1
      · exact Nat.zero_le 1
  rw [Harvest.Covered, declaring_cons_of_declares ht]
  omega

theorem readSimple?_covered {limit : Int} {t : Token} {ts : List Token} {found : Harvest}
    (h : readSimple? limit t ts = some found) : found.Covered (t :: ts) := by
  unfold readSimple? at h
  split at h
  · rename_i ht
    rw [← Option.some.inj h]
    refine readDeclaration_covered limit _ ?_ ts
    rw [Bool.and_eq_true] at ht
    rw [Token.declares, ht.1, ht.2]
    rfl
  split at h
  · rename_i ht
    rw [← Option.some.inj h]
    refine readDeclaration_covered limit _ ?_ ts
    rw [Bool.and_eq_true] at ht
    simp [Token.declares, ht.1, ht.2]
  split at h
  · rw [← Option.some.inj h]
    exact .of_nothing rfl (readAssignment_suffix limit (t :: ts))
  · simp at h

theorem bodyFrom?_covered {limit : Int} {depth : Nat} {ts : List Token} {found : Harvest}
    (h : bodyFrom? limit depth ts = some found) : found.Covered ts := by
  fun_induction bodyFrom? limit depth ts generalizing found with
  | case1 ts => rw [← Option.some.inj h]; exact .of_nothing rfl List.suffix_rfl
  | case2 => rw [← Option.some.inj h]; exact .of_nothing rfl List.suffix_rfl
  | case3 => rw [← Option.some.inj h]; exact .of_nothing rfl List.suffix_rfl
  | case4 depth t ts _ _ ih => exact (ih h).of_suffix (List.suffix_cons t ts)
  | case5 depth t ts _ _ _ ih => exact (ih h).of_suffix (List.suffix_cons t ts)
  | case6 depth t ts _ _ _ _ ih => exact (ih h).of_suffix (List.suffix_cons t ts)
  | case7 depth t ts _ _ _ simple hs hlt ih =>
    obtain ⟨more, hm, rfl⟩ := Option.map_eq_some_iff.1 h
    exact (readSimple?_covered hs).append (ih hm)
  | case8 => simp at h

theorem readBody?_covered {limit : Int} {ts : List Token} {found : Harvest}
    (h : readBody? limit ts = some found) : found.Covered ts := by
  unfold readBody? at h
  split at h
  · rw [← Option.some.inj h]
    exact .of_nothing rfl List.suffix_rfl
  split at h
  · exact (bodyFrom?_covered h).of_suffix (List.suffix_cons _ _)
  · rw [← Option.some.inj h]
    exact .of_nothing rfl List.suffix_rfl

theorem readFunction?_covered {limit : Int} {keyword : Token} {ts : List Token} {found : Harvest}
    (h : readFunction? limit keyword ts = some found) : found.Covered ts := by
  unfold readFunction? at h
  split at h
  · rw [← Option.some.inj h]
    exact .of_nothing rfl List.suffix_rfl
  rename_i name ts
  split at h
  · obtain ⟨body, hbody, rfl⟩ := Option.map_eq_some_iff.1 h
    exact (readBody?_covered hbody).of_suffix
      ((readParameterList_suffix ts).trans (List.suffix_cons name ts))
  · rw [← Option.some.inj h]
    exact .of_nothing rfl List.suffix_rfl

/-- **The words that a statement takes cover the names it declares.** -/
theorem readStatement?_covered {config : Config} {t : Token} {ts : List Token} {found : Harvest}
    (h : readStatement? config t ts = some found) : found.Covered (t :: ts) := by
  have hsuffix := readStatement?_suffix h
  simp only [readStatement?] at h
  split at h
  · rename_i hs
    rw [← Option.some.inj h]
    exact readSimple?_covered hs
  split at h
  · exact (readFunction?_covered h).of_suffix (List.suffix_cons t ts)
  split at h
  · rw [← Option.some.inj h] at hsuffix ⊢
    exact .of_nothing rfl hsuffix
  · rw [← Option.some.inj h]
    exact .of_nothing rfl (List.suffix_cons t ts)

/-! ## Pages -/

namespace Progress

theorem closeTag_declaredNames (p : Progress) (name : String) (location : Location) :
    (p.closeTag name location).declaredNames = p.declaredNames := by
  unfold closeTag
  split <;> rfl

theorem readSpan_declaredNames (config : Config) (t : Token) (p : Progress) (span : Markup.Span) :
    (p.readSpan config t span).declaredNames = p.declaredNames := by
  unfold readSpan
  dsimp only
  split
  · exact closeTag_declaredNames p _ _
  · split <;> rfl

theorem foldl_readSpan_declaredNames (config : Config) (t : Token) (p : Progress)
    (spans : List Markup.Span) :
    (spans.foldl (readSpan config t) p).declaredNames = p.declaredNames := by
  induction spans generalizing p with
  | nil => rfl
  | cons span spans ih => rw [List.foldl_cons, ih, readSpan_declaredNames]

/-- Markup declares no names. -/
theorem readMarkup_declaredNames (config : Config) (p : Progress) (t : Token) :
    (p.readMarkup config t).declaredNames = p.declaredNames := by
  unfold readMarkup
  split
  · split <;> rfl
  · exact foldl_readSpan_declaredNames config t p _
  · exact closeTag_declaredNames p _ _
  · split <;> rfl
  · rfl
  · rfl

theorem closeScript_declaredNames (p : Progress) (region : Region) :
    (p.closeScript region).declaredNames = p.declaredNames := by
  unfold closeScript
  dsimp only
  split
  · split <;> rfl
  · rfl

/-- One turn of the loop over a page takes the words for the names it adds. -/
theorem turn?_declared_le {config : Config} {p q : Progress} {t : Token} {ts rest : List Token}
    (h : p.turn? config t ts = some (q, rest)) :
    q.declaredNames.length + declaring rest ≤ p.declaredNames.length + declaring (t :: ts) := by
  have hts : declaring ts ≤ declaring (t :: ts) := declaring_le_of_suffix (List.suffix_cons t ts)
  unfold turn? at h
  split at h
  · obtain ⟨rfl, rfl⟩ := Prod.mk.inj (Option.some.inj h)
    rw [readMarkup_declaredNames]
    omega
  split at h
  · obtain ⟨rfl, rfl⟩ := Prod.mk.inj (Option.some.inj h)
    rw [closeScript_declaredNames]
    omega
  · obtain ⟨found, hfound, hnext⟩ := Option.map_eq_some_iff.1 h
    obtain ⟨rfl, rfl⟩ := Prod.mk.inj hnext
    have hcovered : found.declared.length + declaring found.rest ≤ declaring (t :: ts) :=
      readStatement?_covered hfound
    simp only [collect, List.length_append]
    split
    · omega
    · -- A statement that takes no token declares nothing.
      rename_i hlt
      have hsame : found.rest = t :: ts :=
        (readStatement?_suffix hfound).eq_of_length_le (Nat.not_lt.1 hlt)
      rw [hsame] at hcovered
      omega

/-- **A page declares no more names than words that declare one are left to read.** -/
theorem readFrom?_declared_le {config : Config} {p q : Progress} {ts : List Token}
    (h : p.readFrom? config ts = some q) :
    q.declaredNames.length ≤ p.declaredNames.length + declaring ts := by
  have hfinish : p.finish.declaredNames = p.declaredNames := by
    unfold finish
    split
    · exact closeScript_declaredNames p _
    · rfl
  match ts with
  | [] =>
    rw [readFrom?] at h
    rw [← Option.some.inj h, hfinish]
    omega
  | t :: ts =>
    by_cases ht : t.kind = .eof
    · rw [readFrom?, if_pos (by simpa using ht)] at h
      rw [← Option.some.inj h, hfinish]
      omega
    · rw [readFrom?_cons ht] at h
      obtain ⟨⟨p', rest⟩, hturn, hrest⟩ := Option.bind_eq_some_iff.1 h
      have hlt : rest.length ≤ ts.length := (turn?_suffix hturn).length_le
      have hstep := turn?_declared_le hturn
      have hrun : q.declaredNames.length ≤ p'.declaredNames.length + declaring rest :=
        readFrom?_declared_le hrest
      omega
termination_by ts.length
decreasing_by exact Nat.lt_succ_of_le hlt

end Progress

end PageLint
