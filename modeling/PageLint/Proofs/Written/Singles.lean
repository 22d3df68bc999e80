import PageLint.Proofs.Settings
import PageLint.Proofs.Written.Spelling

/-!
# Scripts of one statement

A script whose tokens are one statement, whatever the settings are, adds this statement to the tag
around it and nothing else. How long an expression may get decides which pages are read at all, but
not how such a script is read, nor the markup in front of it and behind it.

* `readFrom?_without_openings` — tokens that open no script are read alike under all settings
* `IsSingle` — tokens that are a script of one statement
* `IsSingle.readFrom?` — such a script anywhere inside a tag
* `IsSingle.exists_page` — the page of a tag and such a script
-/

namespace PageLint.Written

/-! ## Settings -/

section Alike

variable {c c' : Config} {p : Progress} {t : Token} {ts tail : List Token}

/-- Outside scripts settings with the same void elements read a token alike. -/
theorem readFrom?_markup_alike (ht : t.kind ≠ .eof) (hvoid : c'.voidElements = c.voidElements)
    (hp : p.region = none)
    (h : (p.readMarkup c t).readFrom? c' ts = (p.readMarkup c t).readFrom? c ts) :
    p.readFrom? c' (t :: ts) = p.readFrom? c (t :: ts) := by
  have hsame : p.readMarkup c' t = p.readMarkup c t :=
    Progress.readMarkup_alike (fun name => by rw [hvoid]) p t
  rw [Progress.readFrom?_cons ht, Progress.readFrom?_cons ht, Progress.turn?, Progress.turn?, hp]
  simpa only [hsame, Option.bind_some] using h

/-- All settings read the closing tag of a script alike. -/
theorem readFrom?_close_alike (ht : t.kind ≠ .eof) {region : Region} (hp : p.region = some region)
    (hclose : t.kind = .scriptClose)
    (h : (p.closeScript region).readFrom? c' ts = (p.closeScript region).readFrom? c ts) :
    p.readFrom? c' (t :: ts) = p.readFrom? c (t :: ts) := by
  rw [Progress.readFrom?_cons ht, Progress.readFrom?_cons ht, Progress.turn?, Progress.turn?, hp]
  simpa only [hclose, beq_self_eq_true, if_true, Option.bind_some] using h

variable (hvoid : c'.voidElements = c.voidElements)

include hvoid

/-- **Tokens that open no script are read alike** however long an expression may get. -/
theorem readFrom?_without_openings (hts : ∀ t ∈ ts, t.kind ≠ .scriptOpen) (hp : p.region = none) :
    p.readFrom? c' ts = p.readFrom? c ts := by
  induction ts generalizing p with
  | nil => rw [Progress.readFrom?, Progress.readFrom?]
  | cons t ts ih =>
    obtain ⟨ht, hts⟩ := List.forall_mem_cons.1 hts
    by_cases heof : t.kind = .eof
    · rw [Progress.readFrom?, Progress.readFrom?, if_pos (by simp [heof]), if_pos (by simp [heof])]
    · refine readFrom?_markup_alike heof hvoid hp (ih hts ?_)
      rw [← Option.not_isSome_iff_eq_none, Progress.readMarkup_region c hp]
      simpa using ht

variable (htail : Ended tail) (hlast : ∀ t ∈ tail, t.kind ≠ .scriptOpen)

include htail hlast

/-- The end of a script, with no other script behind it, is read alike. -/
theorem readFrom?_ended (hp : p.region.isSome = true) :
    p.readFrom? c' tail = p.readFrom? c tail := by
  obtain ⟨region, hp⟩ := Option.isSome_iff_exists.1 hp
  rcases htail.cases with rfl | ⟨t, tail, rfl, hk⟩
  · rw [Progress.readFrom?, Progress.readFrom?]
  · by_cases heof : t.kind = .eof
    · rw [Progress.readFrom?, Progress.readFrom?, if_pos (by simp [heof]), if_pos (by simp [heof])]
    · exact readFrom?_close_alike heof hp (hk.resolve_left heof)
        (readFrom?_without_openings hvoid (List.forall_mem_cons.1 hlast).2
          (Progress.closeScript_region ..))

/-- A tag and a script that settings read alike. -/
theorem readFrom?_script_alike (hp : p.region = none) {tag opening : Token}
    (htag : tag.kind = .tagOpen) (hopening : opening.kind = .scriptOpen) {inside : List Token}
    {found : Harvest} (hrest : found.rest = tail)
    (hfound : scriptFrom? c (inside ++ tail) = some found)
    (hfound' : scriptFrom? c' (inside ++ tail) = some found) :
    p.readFrom? c' (tag :: opening :: (inside ++ tail)) =
      p.readFrom? c (tag :: opening :: (inside ++ tail)) := by
  -- The tag and the opening of the script, then the script, then what stands behind it.
  have hmarkup : (p.readMarkup c tag).region = none := by
    rw [← Option.not_isSome_iff_eq_none, Progress.readMarkup_region c hp, htag]
    decide
  have hscript : ((p.readMarkup c tag).readMarkup c opening).region =
      some { location := opening.location } := by
    rw [Progress.readMarkup, hopening]
  refine readFrom?_markup_alike (by simp [htag]) hvoid hp ?_
  refine readFrom?_markup_alike (by simp [hopening]) hvoid hmarkup ?_
  rw [Progress.readFrom?_script hscript, Progress.readFrom?_script hscript, hfound, hfound',
    Option.bind_some, Option.bind_some, hrest]
  exact readFrom?_ended hvoid htail hlast rfl

end Alike

/-! ## Scripts of one statement -/

/-- A statement that takes all tokens of a script. -/
theorem scriptFrom?_single {config : Config} {t : Token} (hk : t.kind = .identifier)
    {us tail : List Token} (htail : Ended tail) {n : Node}
    (h : readStatement? config t (us ++ tail) = some { statements := [n], rest := tail }) :
    scriptFrom? config (t :: (us ++ tail)) = some { statements := [n], rest := tail } := by
  have hend : scriptFrom? config tail = some { rest := tail } := by
    rcases htail.cases with rfl | ⟨u, tail, rfl, hu⟩
    · exact scriptFrom?_nil config
    · rw [scriptFrom?, if_pos (by rcases hu with hu | hu <;> simp [hu])]
  have hlt : tail.length < (t :: (us ++ tail)).length := by
    simp only [List.length_cons, List.length_append]
    omega
  rw [scriptFrom?, if_neg (by simp [hk])]
  simp only [h, hlt, if_true, hend, Option.map_some]
  rfl

/-- Tokens that are a script with one statement under all settings, wherever the script ends. -/
def IsSingle (inside : List Token) (n : Node) : Prop :=
  ∀ config tail, Ended tail →
    scriptFrom? config (inside ++ tail) = some { statements := [n], rest := tail }

/-- What has been read of a page, with a script of one statement added to the innermost open tag. -/
def withScript (p : Progress) (opening : Token) (statement : Node) : Progress :=
  { p with forest := p.forest.addLeaf (.script { location := opening.location } [statement]) }

namespace IsSingle

variable {inside : List Token} {n : Node} (h : IsSingle inside n) {config : Config}
  {opening : Token} (hopening : opening.kind = .scriptOpen)

include h hopening

/-- **Wherever a script of one statement stands inside a tag**, that tag gets it as its next child,
and what has been read is the same otherwise. -/
theorem readFrom? {p : Progress} (hregion : p.region = none)
    (htags : p.forest.openTags.isEmpty = false) {close : Token} (hclose : close.kind = .scriptClose)
    (rest : List Token) :
    p.readFrom? config (opening :: (inside ++ close :: rest)) =
      (withScript p opening n).readFrom? config rest := by
  obtain ⟨forest, nextSerial, rootSerial, doctype, elementIds, names, region, events⟩ := p
  obtain rfl : region = none := hregion
  rw [Progress.readFrom?_cons (by simp [hopening]), Progress.turn?]
  simp only [Progress.readMarkup, hopening, Option.bind_some]
  rw [Progress.readFrom?_script rfl, h config _ (ended_close hclose rest), Option.bind_some,
    Progress.readFrom?_cons (by simp [hclose])]
  simp only [Progress.turn?, Progress.collect, Progress.closeScript, hclose, beq_self_eq_true,
    if_true, Option.bind_some, List.append_nil, List.nil_append, htags]
  rfl

/-- **A tag and a script of one statement give a page with this script**, however long an expression
may get. -/
theorem exists_page (hinside : Inside inside) {tag : Token} (htag : tag.OpensTag config)
    {tail : List Token} (htail : Ended tail) (hlast : ∀ t ∈ tail, t.kind ≠ .scriptOpen)
    (file : Option String) : ∃ page site,
      readTokens? config (tag :: opening :: (inside ++ tail)) file = some page ∧
      page.document.scripts = [.script site [n]] := by
  -- Settings that allow an expression to take a token read every page.
  let allowing : Config := { config with maxExpressionTokens := 1 }
  have hvoid : config.voidElements = allowing.voidElements := rfl
  have hmarkup : ({} : Progress).readMarkup allowing tag = ({} : Progress).readMarkup config tag :=
    Progress.readMarkup_alike (fun _ => Iff.rfl) {} tag
  have htag' : tag.OpensTag allowing := ⟨htag.kind, by rw [hmarkup]; exact htag.opens⟩
  have hharvest : harvestOf allowing inside = { statements := [n], rest := [] } := by
    have hall := h allowing [] ended_nil
    rw [List.append_nil] at hall
    rw [harvestOf, hall]
    rfl
  obtain ⟨page, hpage, hscripts⟩ :=
    readTokens?_alone htag' hopening hinside htail hlast (Int.le_refl 1) file
  rw [hharvest] at hscripts
  obtain ⟨node, hnode, hpiece⟩ := List.map_eq_singleton_iff.1 hscripts
  obtain ⟨site, rfl⟩ := Node.exists_script_of_piece? hpiece
  refine ⟨page, site, ?_, hnode⟩
  rw [← hpage, readTokens?, readTokens?]
  congr 1
  exact readFrom?_script_alike hvoid htail hlast rfl htag.kind hopening rfl (h allowing tail htail)
    (h config tail htail)

end IsSingle

end PageLint.Written
