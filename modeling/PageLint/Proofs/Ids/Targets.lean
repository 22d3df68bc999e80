import Mathlib.Data.List.Infix
import PageLint.Proofs.Ids.Missing

/-!
# Look-ups in targets

The target of an assignment is one text, and a look-up in it is found by searching that text. The
first look-up is found where it is. Its argument is found in double quotes, and in single quotes
when no double quote stands behind it: an argument in single quotes is passed over for a double
quote, be it in the argument itself or anywhere behind the call. Then the id that is tested is
what stands between the first two double quotes, and without a second one no id is tested.

* `Text.fromFirst?_append` — the first occurrence of a piece, behind a text without it
* `Lookup` — a target with a look-up of a quoted literal
* `Lookup.IsFirst.lookedUp?_eq_argument_iff` — when its argument is what is found
* `Lookup.checked` — the id that is tested when contents are assigned
-/

namespace PageLint

/-! ## The first occurrence of a piece -/

namespace Text

/-- A piece whose first character does not come again in it is found behind a text without it. -/
theorem fromFirst?_append {c : Char} {piece before : List Char} (hc : c ∉ piece)
    (hbefore : ¬ (c :: piece) <:+: before) (rest : List Char) :
    fromFirst? (c :: piece) (before ++ (c :: piece ++ rest)) = some (c :: piece ++ rest) := by
  induction before with
  | nil =>
    have hfound : (c :: piece).isPrefixOf (c :: (piece ++ rest)) = true :=
      List.isPrefixOf_iff_prefix.2 (List.prefix_append (c :: piece) rest)
    exact if_pos hfound
  | cons d before ih =>
    rw [List.infix_cons_iff, not_or] at hbefore
    have hnot : ¬ (c :: piece) <+: d :: before ++ (c :: piece ++ rest) := by
      rintro ⟨tail, htail⟩
      rcases List.append_eq_append_iff.1 htail with ⟨more, hmore, -⟩ | ⟨more, hmore, hstart⟩
      · exact hbefore.1 ⟨more, hmore.symm⟩
      · -- The piece would start a second time within itself.
        cases more with
        | nil => exact hbefore.1 ⟨[], by rw [hmore, List.append_nil, List.append_nil]⟩
        | cons e more =>
          refine hc ?_
          rw [(List.cons.inj hmore).2, (List.cons.inj hstart).1]
          exact List.mem_append_right _ List.mem_cons_self
    rw [List.cons_append] at hnot ⊢
    rw [fromFirst?, if_neg fun h => hnot (List.isPrefixOf_iff_prefix.1 h), ih hbefore.2]

/-- A piece is not found exactly when it does not occur. -/
theorem fromFirst?_eq_none_iff {piece : List Char} (hpiece : piece ≠ []) (cs : List Char) :
    fromFirst? piece cs = none ↔ ¬ piece <:+: cs := by
  induction cs with
  | nil =>
    rw [fromFirst?, if_neg (by simpa using hpiece), List.infix_nil]
    simp [hpiece]
  | cons c cs ih =>
    rw [fromFirst?, List.infix_cons_iff, not_or, ← ih, ← List.isPrefixOf_iff_prefix]
    split <;> simp_all

theorem occursIn_iff {piece : List Char} (hpiece : piece ≠ []) (cs : List Char) :
    occursIn piece cs = true ↔ piece <:+: cs := by
  rw [← not_iff_not, ← fromFirst?_eq_none_iff hpiece, occursIn, Bool.not_eq_true,
    Option.isSome_eq_false_iff, Option.isNone_iff_eq_none]

/-- A mark is found where it stands first. -/
theorem fromFirst?_mark {mark : Char} {front : List Char} (h : mark ∉ front) (rest : List Char) :
    fromFirst? [mark] (front ++ mark :: rest) = some (mark :: rest) :=
  fromFirst?_append List.not_mem_nil (mt (List.singleton_infix_iff mark front).1 h) rest

theorem fromFirst?_mark_eq_none_iff (mark : Char) (cs : List Char) :
    fromFirst? [mark] cs = none ↔ mark ∉ cs := by
  rw [fromFirst?_eq_none_iff (List.cons_ne_nil _ _), List.singleton_infix_iff]

end Text

/-- A text through the closing mark goes through the first one behind the opening mark. -/
theorem Rule.throughQuote?_append {mark : Char} {body : List Char} (h : mark ∉ body)
    (rest : List Char) :
    throughQuote? (mark :: (body ++ mark :: rest)) = some (mark :: (body ++ [mark])) := by
  have hcontains : (body ++ mark :: rest).contains mark = true := by simp
  rw [throughQuote?, if_pos hcontains, List.takeWhile_append_of_pos (Text.bne_of_not_mem h)]
  simp

/-! ## Look-ups -/

/-- A target with a look-up of a quoted literal: what stands in front of the name of the method,
the mark of the literal, what is between the marks, and what follows the call. -/
structure Lookup where
  before : List Char
  mark : Char
  id : List Char
  after : List Char

namespace Lookup

variable (l : Lookup)

/-- The literal, with its marks. -/
def argument : List Char := l.mark :: (l.id ++ [l.mark])

/-- The call from the name of the method on, and what follows it. -/
def call : List Char := Rule.lookupMethod ++ '(' :: (l.argument ++ ')' :: l.after)

/-- The text of the target. -/
def target : List Char := l.before ++ l.call

/-- The look-up is the first one of the target, and its literal ends where it is closed first. -/
structure IsFirst : Prop where
  isMark : Text.isQuoteMark l.mark = true
  closed : l.mark ∉ l.id
  first : ¬ Rule.lookupMethod <:+: l.before

/-- No double quote comes between the argument and the search for it. -/
def InReach : Prop := l.mark = '"' ∨ '"' ∉ l.id ++ l.after

instance : Decidable l.InReach := inferInstanceAs (Decidable (_ ∨ _))

variable {l}

/-- The look-up is found where it is. -/
theorem IsFirst.fromFirst?_target (h : l.IsFirst) :
    Text.fromFirst? Rule.lookupMethod l.target = some l.call :=
  Text.fromFirst?_append (c := 'g') (by decide) h.first _

/-- What follows the opening mark of the literal. -/
theorem call_eq : l.call =
    Rule.lookupMethod ++ ['('] ++ l.mark :: (l.id ++ l.mark :: ')' :: l.after) := by
  simp [call, argument]

theorem IsFirst.mark_cases (h : l.IsFirst) : l.mark = '"' ∨ l.mark = '\'' := by
  simpa [Text.isQuoteMark] using h.isMark

theorem IsFirst.mark_of_not_inReach (h : l.IsFirst) (hreach : ¬ l.InReach) :
    l.mark = '\'' ∧ '"' ∈ l.id ++ l.after := by
  rw [InReach, not_or, not_not] at hreach
  exact ⟨h.mark_cases.resolve_left hreach.1, hreach.2⟩

/-- The literal is found by its own mark. -/
theorem IsFirst.throughQuote?_mark (h : l.IsFirst) :
    (Text.fromFirst? [l.mark] l.call).bind Rule.throughQuote? = some l.argument := by
  have hname : l.mark ∉ Rule.lookupMethod ++ ['('] := by
    rcases h.mark_cases with hmark | hmark <;> rw [hmark] <;> decide
  rw [call_eq, Text.fromFirst?_mark hname, Option.bind_some,
    Rule.throughQuote?_append h.closed]
  rfl

/-- A literal in reach is found. -/
theorem IsFirst.lookedUp?_argument (h : l.IsFirst) (hreach : l.InReach) :
    Rule.lookedUp? l.target = some l.argument := by
  have hmark := h.throughQuote?_mark
  rw [Rule.lookedUp?, h.fromFirst?_target]
  simp only
  rcases h.mark_cases with hdouble | hsingle
  · rw [hdouble] at hmark
    obtain ⟨quoted, hquoted, hthrough⟩ := Option.bind_eq_some_iff.1 hmark
    rw [hquoted]
    exact hthrough
  · have habsent : '"' ∉ l.call := by
      have hrest : '"' ∉ l.id ++ l.after :=
        hreach.resolve_left (by rw [hsingle]; decide)
      rw [List.mem_append, not_or] at hrest
      rw [call_eq, hsingle]
      simp only [List.mem_append, List.mem_cons, hrest.1, hrest.2]
      decide
    rw [(Text.fromFirst?_mark_eq_none_iff '"' l.call).2 habsent]
    rwa [hsingle] at hmark

/-- A literal in single quotes is passed over for the first double quote behind its opening mark. -/
theorem IsFirst.lookedUp?_double (h : l.IsFirst) (hmark : l.mark = '\'') {front rest : List Char}
    (hbehind : l.id ++ '\'' :: ')' :: l.after = front ++ '"' :: rest) (hfront : '"' ∉ front) :
    Rule.lookedUp? l.target = Rule.throughQuote? ('"' :: rest) := by
  have hcall : l.call = Rule.lookupMethod ++ ['('] ++ '\'' :: front ++ '"' :: rest := by
    rw [call_eq, hmark, hbehind]
    simp
  have habsent : '"' ∉ Rule.lookupMethod ++ ['('] ++ '\'' :: front := by
    simp only [List.mem_append, List.mem_cons, hfront]
    decide
  rw [Rule.lookedUp?, h.fromFirst?_target, hcall]
  simp only [Text.fromFirst?_mark habsent]

/-- **What is found is the argument of the first look-up, when the argument is in reach**, and only
then. -/
theorem IsFirst.lookedUp?_eq_argument_iff (h : l.IsFirst) :
    Rule.lookedUp? l.target = some l.argument ↔ l.InReach := by
  refine ⟨fun hfound => Decidable.byContradiction fun hreach => ?_, h.lookedUp?_argument⟩
  obtain ⟨hmark, hmem⟩ := h.mark_of_not_inReach hreach
  have hquote : '"' ∈ l.id ++ '\'' :: ')' :: l.after := by
    rcases List.mem_append.1 hmem with hid | hafter
    · exact List.mem_append_left _ hid
    · exact List.mem_append_right _ (.tail _ (.tail _ hafter))
  obtain ⟨front, rest, hbehind, hfront⟩ := List.eq_append_cons_of_mem hquote
  -- What is found starts with a double quote, the argument with a single one.
  rw [h.lookedUp?_double hmark hbehind hfront, Rule.throughQuote?] at hfound
  split at hfound
  · have hquote := (List.cons.inj (Option.some.inj hfound)).1
    rw [hmark] at hquote
    cases hquote
  · cases hfound

end Lookup

/-! ## The test of the id -/

/-- What is reported of an id that the contents of an element are assigned by. -/
def Rule.outputFindings (ids : List String) (line : Int) (id : List Char) : List Finding :=
  if String.ofList id ∈ ids then []
  else [⟨line, missingText .dataOutput (String.ofList id), .dataOutput⟩]

/-- An assignment to the contents of an element tests the id that is found in its target. -/
theorem Rule.dataOutputRule_assignment {target : Identifier}
    (hcontents : contentProperty <:+: target.name.toList) (ids : List String) (site : Site)
    (operator : String) (value : Option Node) :
    dataOutputRule ids (.assignment site target operator value) =
      (lookedUp? target.name.toList).toList.flatMap fun quoted =>
        outputFindings ids site.location.line (Text.unquoted quoted) := by
  rw [dataOutputRule, if_pos ((Text.occursIn_iff (by decide) _).2 hcontents)]
  cases lookedUp? target.name.toList with
  | none => rfl
  | some quoted =>
    simp only [Option.toList_some, List.flatMap_singleton, outputFindings, List.contains_eq_mem,
      decide_eq_true_eq]
    rfl

/-- **The id of the first look-up is the one checked, where no double quote comes between**: the
argument of the first look-up of a target is found exactly when it is in double quotes or no double
quote stands in it or behind the call, and then an assignment to the contents of the element tests
what is between its marks. Otherwise what is between the first two double quotes is tested, and
nothing where there is only one. -/
theorem Lookup.checked {l : Lookup} (h : l.IsFirst) {target : Identifier}
    (htarget : target.name.toList = l.target) (ids : List String) (site : Site) (operator : String)
    (value : Option Node) :
    (Rule.lookedUp? l.target = some l.argument ↔ l.InReach) ∧
    (Rule.contentProperty <:+: l.target →
      (l.InReach → Rule.dataOutputRule ids (.assignment site target operator value) =
        Rule.outputFindings ids site.location.line l.id) ∧
      (l.mark = '\'' → ∀ front rest, l.id ++ '\'' :: ')' :: l.after = front ++ '"' :: rest →
        '"' ∉ front → Rule.dataOutputRule ids (.assignment site target operator value) =
          if '"' ∈ rest then
            Rule.outputFindings ids site.location.line (rest.takeWhile (· != '"'))
          else [])) := by
  refine ⟨h.lookedUp?_eq_argument_iff, fun hcontents => ⟨fun hreach => ?_, ?_⟩⟩
  · rw [Rule.dataOutputRule_assignment (htarget ▸ hcontents), htarget,
      h.lookedUp?_argument hreach, Option.toList_some, List.flatMap_singleton, argument,
      Text.unquoted_of_quoted h.isMark]
  · intro hmark front rest hbehind hfront
    rw [Rule.dataOutputRule_assignment (htarget ▸ hcontents), htarget,
      h.lookedUp?_double hmark hbehind hfront, Rule.throughQuote?]
    simp only [List.contains_eq_mem, decide_eq_true_eq]
    split
    · rw [Option.toList_some, List.flatMap_singleton, Text.unquoted_of_quoted (by decide)]
    · rfl

/-- A look-up in single quotes, with a property behind it that is given in double quotes. -/
def bracketLookup : Lookup :=
  ⟨"document.".toList, '\'', "out".toList, "[\"innerHTML\"]".toList⟩

/-- The property is taken for the id. -/
theorem bracketLookup_checked : bracketLookup.IsFirst ∧
    Rule.contentProperty <:+: bracketLookup.target ∧
    Rule.lookedUp? bracketLookup.target ≠ some bracketLookup.argument ∧
    ∀ ids site operator value,
      Rule.dataOutputRule ids
          (.assignment site ⟨site, String.ofList bracketLookup.target⟩ operator value) =
        Rule.outputFindings ids site.location.line "innerHTML".toList := by
  have hfirst : bracketLookup.IsFirst := ⟨by decide, by decide, by decide⟩
  have hcontents : Rule.contentProperty <:+: bracketLookup.target := by decide
  refine ⟨hfirst, hcontents, ?_, fun ids site operator value => ?_⟩
  · have hiff := (@Lookup.checked bracketLookup hfirst ⟨default, _⟩ String.toList_ofList [] default
      "" none).1
    exact mt hiff.1 (by decide)
  · have htest := ((@Lookup.checked bracketLookup hfirst ⟨site, _⟩ String.toList_ofList ids site
      operator value).2 hcontents).2 rfl "out')[".toList "innerHTML\"]".toList (by decide)
      (by decide)
    have hquoted : ("innerHTML\"]".toList.takeWhile (· != '"')) = "innerHTML".toList := by decide
    rwa [if_pos (by decide), hquoted] at htest

/-- A page that has the element, where the property is reported in its place. -/
example : ((analyze? {} ("<!DOCTYPE html>\n<html>\n<head></head>\n<body><p id=\"out\"></p>\n" ++
      "<script>\ndocument.getElementById('out')[\"innerHTML\"] = 1;\n</script>\n</body>\n</html>\n")
    none).map fun a => (a.page.elementIds, a.diagnostics)) =
      some (["out"], [⟨6, 1, missingText .dataOutput "innerHTML", .dataOutput⟩]) := by
  decide +kernel

end PageLint
