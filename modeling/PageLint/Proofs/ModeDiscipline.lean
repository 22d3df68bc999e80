import PageLint.Proofs.Folding
import PageLint.Proofs.Regions.Loop
import PageLint.Proofs.ScriptTokens
import PageLint.Proofs.Tiling

/-!
# Modes and the tags of scripts

The tags that open and close scripts are what switches the mode of the scanner. They take turns,
they tell the tokens of scripts from those of markup, and the last of them tells the mode at the
end. No closing tag of a script is overlooked: it is a token, or it stands inside a string or a
comment.

* `ScriptTags.alternate`, `inside`, `outside`, `mode` — read off the kinds that a mode scans
* `ClosesScript` — the closing tag as a text, in capitals or small letters
* `scriptToken_tail` — only strings and comments take an angle bracket behind their first character
* `scanFrom_closing` — what becomes of a closing tag inside a script, by the scanner's recursion
* `scan_scriptTags` — all of it for a page
-/

namespace PageLint

/-! ## Kinds of token -/

/-- Whether tokens of a kind are scanned as markup, the opening tags of scripts apart. -/
def TokenKind.isMarkup : TokenKind → Bool
  | doctype | tagOpen | tagClose | text | comment => true
  | _ => false

/-- Whether tokens of a kind are scanned as code, the closing tags of scripts apart. -/
def TokenKind.isCode : TokenKind → Bool
  | keyword | identifier | string | number | boolean | null | operator | punctuation | leftParen
  | rightParen | leftBrace | rightBrace | leftBracket | rightBracket | comment => true
  | _ => false

/-- Whether tokens of a kind open or close a script. -/
def TokenKind.isScriptTag : TokenKind → Bool
  | scriptOpen | scriptClose => true
  | _ => false

theorem isMarkup_of_scans {kind : TokenKind} (h : Mode.markup.scans kind = true) :
    kind.isMarkup = true ∨ kind = .scriptOpen ∨ kind = .eof := by
  cases kind <;> simp [Mode.scans, TokenKind.isMarkup] at h ⊢

theorem isCode_of_scans {kind : TokenKind} (h : Mode.script.scans kind = true) :
    kind.isCode = true ∨ kind = .scriptClose ∨ kind = .eof := by
  cases kind <;> simp [Mode.scans, TokenKind.isCode] at h ⊢

/-! ## Tags of scripts take turns -/

/-- The kinds of the tokens that open and close scripts, in order. -/
def scriptTags (ts : List Token) : List TokenKind :=
  (ts.map Token.kind).filter TokenKind.isScriptTag

/-- The kind of the tag of a script at a place in their order: the first one opens a script. -/
def scriptTagAt (i : Nat) : TokenKind := if i % 2 = 0 then .scriptOpen else .scriptClose

/-- How many tags of scripts have come before, up to pairs, when the scanner is in a mode. -/
def Mode.turn : Mode → Nat
  | .markup => 0
  | .script => 1

/-- A mode scans one kind of tag of a script, which is the next in turn. -/
theorem scriptTagAt_turn {mode : Mode} {kind : TokenKind} (hscans : mode.scans kind = true)
    (htag : kind.isScriptTag = true) : kind = scriptTagAt mode.turn ∧
      ∀ i, scriptTagAt (mode.turn + (i + 1)) = scriptTagAt ((mode.after (some kind)).turn + i) := by
  cases mode with
  | markup =>
    obtain rfl : kind = .scriptOpen := by
      cases kind <;> simp_all [Mode.scans, TokenKind.isScriptTag]
    refine ⟨rfl, fun i => ?_⟩
    simp only [Mode.turn, Mode.after]
    rw [Nat.zero_add, Nat.add_comm]
  | script =>
    obtain rfl : kind = .scriptClose := by
      cases kind <;> simp_all [Mode.scans, TokenKind.isScriptTag]
    refine ⟨rfl, fun i => ?_⟩
    have hpair : (1 + (i + 1)) % 2 = (0 + i) % 2 := by omega
    exact congrArg (fun r => if r = 0 then TokenKind.scriptOpen else TokenKind.scriptClose) hpair

theorem InModes.head {mode : Mode} {t : Token} {ts : List Token} (h : InModes mode (t :: ts)) :
    mode.scans t.kind = true :=
  h [] t ts rfl

theorem InModes.tail {mode : Mode} {t : Token} {ts : List Token} (h : InModes mode (t :: ts)) :
    InModes (mode.after (some t.kind)) ts := by
  intro before u after hts
  exact h (t :: before) u after (by rw [hts]; rfl)

/-- Where tokens are of the kinds that their modes scan, the tags of scripts take turns. -/
theorem InModes.alternate {mode : Mode} {ts : List Token} (h : InModes mode ts) (i : Nat) :
    ∀ kind ∈ (scriptTags ts)[i]?, kind = scriptTagAt (mode.turn + i) := by
  induction ts generalizing mode i with
  | nil => simp [scriptTags]
  | cons t ts ih =>
    intro kind hkind
    by_cases htag : t.kind.isScriptTag = true
    · obtain ⟨hfirst, hturn⟩ := scriptTagAt_turn h.head htag
      rw [scriptTags, List.map_cons, List.filter_cons_of_pos htag, ← scriptTags] at hkind
      cases i with
      | zero => rw [← Option.some.inj hkind, Nat.add_zero, ← hfirst]
      | succ i =>
        rw [hturn]
        exact ih h.tail i kind hkind
    · have hafter : mode.after (some t.kind) = mode := by
        cases hk : t.kind <;> simp [hk, TokenKind.isScriptTag] at htag <;> rfl
      rw [scriptTags, List.map_cons, List.filter_cons_of_neg htag, ← scriptTags] at hkind
      have htail := h.tail
      rw [hafter] at htail
      exact ih htail i kind hkind

/-! ## The mode at the end -/

theorem scanFrom_mode (file : Option String) (mode : Mode) (place : Cursor) (input : List Char) :
    (scanFrom file mode place input).mode =
      modeAfter mode (scanFrom file mode place input).tokens := by
  fun_induction scanFrom file mode place input with
  | case1 mode place input start h => cases mode <;> rfl
  | case2 mode place input place' c cs h cut start stop next hlt tail ih =>
    show tail.mode = modeAfter mode ((cut.token? file start).toList ++ tail.tokens)
    rw [modeAfter_append, ih]
    congr 1
    simp only [next, Cut.token?]
    cases cut.kind <;> rfl

/-- Nothing follows the token for the end of the input. -/
theorem scanFrom_eof {file : Option String} {mode : Mode} {place : Cursor} {input : List Char}
    {before after : List Token} {t : Token}
    (h : (scanFrom file mode place input).tokens = before ++ t :: after) (ht : t.kind = .eof) :
    after = [] := by
  obtain ⟨others, last, hall, hothers, -⟩ := (scanFrom_tiled file mode place input).exists_ending
  rw [hall] at h
  rcases List.eq_nil_or_concat after with rfl | ⟨front, final, rfl⟩
  · rfl
  · rw [List.concat_eq_append, ← List.cons_append, ← List.append_assoc] at h
    obtain ⟨rfl, -⟩ := List.append_inj' h rfl
    exact absurd ht (hothers t (by simp))

/-! ## The closing tag as a text -/

/-- How a closing tag of a script starts, in small letters. -/
def closingName : List Char := ['<', '/', 's', 'c', 'r', 'i', 'p', 't']

/-- A text starts with the closing tag of a script: its name in capitals or small letters, blanks
and an angle bracket. -/
def ClosesScript (input : List Char) : Prop :=
  ∃ name blanks rest, input = name ++ (blanks ++ '>' :: rest) ∧
    name.map Char.toLower = closingName ∧ blanks.all Text.isBlank = true

theorem length_of_folded {name : List Char} (h : name.map Char.toLower = closingName) :
    name.length = 8 := by
  have := congrArg List.length h
  rwa [List.length_map] at this

/-- What the scanner takes as a closing tag is one. -/
theorem scriptCloseLength?_eq_some {input : List Char} {n : Nat}
    (h : scriptCloseLength? input = some n) : ∃ name blanks rest,
      input = name ++ (blanks ++ '>' :: rest) ∧ name.map Char.toLower = closingName ∧
      blanks.all Text.isBlank = true ∧ n = 8 + blanks.length + 1 := by
  rw [scriptCloseLength?] at h
  split at h
  · rename_i hname
    dsimp only at h
    split at h
    · rename_i hangle
      obtain ⟨rest, hrest⟩ : ∃ rest, (input.drop 8).dropWhile Text.isBlank = '>' :: rest := by
        rw [beq_iff_eq, List.head?_eq_some_iff] at hangle
        exact hangle
      refine ⟨input.take 8, (input.drop 8).takeWhile Text.isBlank, rest, ?_, ?_, ?_, ?_⟩
      · rw [← hrest, List.takeWhile_append_dropWhile, List.take_append_drop]
      · exact beq_iff_eq.1 hname
      · exact List.all_takeWhile
      · exact (Option.some.inj h).symm
    · simp at h
  · simp at h

/-- The scanner takes a closing tag through its angle bracket. -/
theorem scriptCloseLength?_closing {name blanks : List Char}
    (hname : name.map Char.toLower = closingName) (hblanks : blanks.all Text.isBlank = true)
    (rest : List Char) :
    scriptCloseLength? (name ++ (blanks ++ '>' :: rest)) = some (8 + blanks.length + 1) := by
  have hlength := length_of_folded hname
  have hall := List.all_eq_true.1 hblanks
  have hdrop : (name ++ (blanks ++ '>' :: rest)).drop 8 = blanks ++ '>' :: rest := by
    rw [← hlength, List.drop_left]
  have hfolded : Text.startsWithFolded ['<', '/', 's', 'c', 'r', 'i', 'p', 't']
      (name ++ (blanks ++ '>' :: rest)) = true := by
    rw [Text.startsWithFolded, beq_iff_eq]
    show (List.take 8 _).map Char.toLower = _
    rw [← hlength, List.take_left]
    exact hname
  have hangle : (blanks ++ '>' :: rest).dropWhile Text.isBlank = '>' :: rest := by
    rw [List.dropWhile_append_of_pos hall]
    rfl
  have hcount : ((blanks ++ '>' :: rest).takeWhile Text.isBlank).length = blanks.length := by
    rw [List.takeWhile_append_of_pos hall]
    exact congrArg List.length (List.append_nil blanks)
  rw [scriptCloseLength?, if_pos hfolded]
  simp only [hdrop, hangle, hcount, List.head?_cons, beq_self_eq_true, if_true]

/-- The scanner sees a closing tag exactly where there is one. -/
theorem scriptCloseLength?_isSome_iff (input : List Char) :
    (scriptCloseLength? input).isSome = true ↔ ClosesScript input := by
  constructor
  · intro h
    obtain ⟨n, hn⟩ := Option.isSome_iff_exists.1 h
    obtain ⟨name, blanks, rest, hinput, hname, hblanks, -⟩ := scriptCloseLength?_eq_some hn
    exact ⟨name, blanks, rest, hinput, hname, hblanks⟩
  · rintro ⟨name, blanks, rest, rfl, hname, hblanks⟩
    rw [scriptCloseLength?_closing hname hblanks]
    rfl

/-- The test for a closing tag is the same when the text is lowered in full. -/
theorem scriptCloseLength?_isSome_iff_lower (input : List Char) :
    (scriptCloseLength? input).isSome = true ↔ Text.lower (input.take 8) = closingName ∧
      ((input.drop 8).dropWhile Text.isBlank).head? = some '>' := by
  have hname := Text.startsWithFolded_iff_lower closingName (by decide) input
  rw [scriptCloseLength?, ← closingName]
  by_cases h : Text.startsWithFolded closingName input = true
  · have hlower : Text.lower (input.take 8) = closingName := hname.1 h
    simp only [h, if_true, hlower, true_and, ← beq_iff_eq (b := some '>')]
    split <;> simp_all
  · have hlower : Text.lower (input.take 8) ≠ closingName := fun hl => h (hname.2 hl)
    simp [h, hlower]

/-! ## Characters inside tokens -/

theorem take_length_takeWhile (p : Char → Bool) (cs : List Char) :
    cs.take (cs.takeWhile p).length = cs.takeWhile p :=
  (List.prefix_iff_eq_take.1 (List.takeWhile_prefix p)).symm

theorem not_mem_takeWhile {p : Char → Bool} {d : Char} (hp : p d = false) (cs : List Char) :
    d ∉ cs.takeWhile p := by
  intro h
  rw [List.mem_takeWhile_imp h] at hp
  exact Bool.noConfusion hp

/-- A character that is part of no number. -/
structure OutsideNumbers (d : Char) : Prop where
  digit : Text.isDigit d = false
  mark : d ∉ ['.', 'e', 'E', '+', '-']

section Numbers

variable {d : Char} (hd : OutsideNumbers d)

include hd

theorem OutsideNumbers.digits (cs : List Char) : d ∉ cs.take (digitRun cs) := by
  rw [digitRun, take_length_takeWhile]
  exact not_mem_takeWhile hd.digit cs

theorem OutsideNumbers.fraction (cs : List Char) : d ∉ cs.take (fractionLength cs) := by
  cases cs with
  | nil => simp
  | cons c cs =>
    rw [fractionLength]
    split
    · rename_i hpoint
      have hne : d ≠ '.' := fun h => hd.mark (by simp [h])
      rw [Nat.add_comm, List.take_succ_cons, beq_iff_eq.1 hpoint]
      simpa [hne] using hd.digits cs
    · simp

theorem OutsideNumbers.exponent (cs : List Char) : d ∉ cs.take (exponentLength cs) := by
  cases cs with
  | nil => simp
  | cons c cs =>
    rw [exponentLength]
    split
    · rename_i hmark
      have hc : c ≠ d := by
        rintro rfl
        exact hd.mark (by simp at hmark; rcases hmark with rfl | rfl <;> simp)
      have hsign : d ∉ cs.take (signLength cs) := by
        cases cs with
        | nil => simp
        | cons x xs =>
          rw [signLength]
          split
          · rename_i hx
            intro h
            obtain rfl : d = x := by simpa using h
            exact hd.mark (by simp at hx; rcases hx with rfl | rfl <;> simp)
          · simp
      dsimp only
      split
      · simp
      · rw [Nat.add_assoc, Nat.add_comm, List.take_succ_cons, List.take_add]
        simpa [Ne.symm hc, hsign] using hd.digits (cs.drop (signLength cs))
    · simp

theorem OutsideNumbers.number (cs : List Char) : d ∉ cs.take (numberLength cs) := by
  simp only [numberLength, List.take_add, List.mem_append, not_or]
  exact ⟨⟨hd.digits cs, hd.fraction _⟩, hd.exponent _⟩

end Numbers

/-- A character that is in no operator behind the first place stands in no operator there. -/
theorem not_mem_operator {d : Char}
    (hd : (longOperators ++ pairOperators).all (fun op => !op.tail.contains d) = true) (c : Char)
    (cs : List Char) : d ∉ cs.take (operatorLength (c :: cs) - 1) := by
  rw [operatorLength]
  split
  · rename_i hlong
    have := List.all_eq_true.1 hd _ (List.mem_append_left _ (List.contains_iff_mem.1 hlong))
    simpa using this
  split
  · rename_i hpair
    have := List.all_eq_true.1 hd _ (List.mem_append_right _ (List.contains_iff_mem.1 hpair))
    simpa using this
  · simp

/-- A closing tag of a script holds no other start of a tag. -/
theorem angle_not_mem_closing {c : Char} {cs : List Char} {n : Nat}
    (h : scriptCloseLength? (c :: cs) = some n) : '<' ∉ cs.take (n - 1) := by
  obtain ⟨name, blanks, rest, hinput, hname, hblanks, rfl⟩ := scriptCloseLength?_eq_some h
  have hlength := length_of_folded hname
  obtain ⟨d, ds, rfl⟩ : ∃ d ds, name = d :: ds := by
    cases name with
    | nil => simp at hlength
    | cons d ds => exact ⟨d, ds, rfl⟩
  rw [List.cons_append] at hinput
  obtain ⟨rfl, rfl⟩ := List.cons.inj hinput
  have htake : (ds ++ (blanks ++ '>' :: rest)).take (8 + blanks.length + 1 - 1) =
      ds ++ blanks ++ ['>'] := by
    have hds : ds.length = 7 := by simpa using hlength
    rw [show 8 + blanks.length + 1 - 1 = (ds ++ blanks ++ ['>']).length by simp; omega,
      show ds ++ (blanks ++ '>' :: rest) = ds ++ blanks ++ ['>'] ++ rest by simp, List.take_left]
  have hds : '<' ∉ ds := by
    intro hmem
    have hfold : Char.toLower '<' ∈ ds.map Char.toLower := List.mem_map_of_mem hmem
    rw [(List.cons.inj hname).2] at hfold
    exact absurd hfold (by decide)
  have hblank : '<' ∉ blanks := by
    intro hmem
    exact absurd (List.all_eq_true.1 hblanks _ hmem) (by decide)
  rw [htake]
  simp [hds, hblank]

/-- **Only strings and comments take an angle bracket** behind their first character. -/
theorem scriptToken_tail (c : Char) (cs : List Char) : (scriptToken c cs).1 = .string ∨
    (scriptToken c cs).1 = .comment ∨ '<' ∉ cs.take ((scriptToken c cs).2 - 1) := by
  unfold scriptToken
  split
  · rename_i n h
    exact Or.inr (Or.inr (angle_not_mem_closing h))
  unfold plainToken
  split
  · exact Or.inl rfl
  split
  · rename_i hdigit
    obtain ⟨n, hn⟩ := Nat.exists_eq_succ_of_ne_zero (Nat.ne_of_gt (numberLength_pos hdigit cs))
    have hangle : OutsideNumbers '<' := ⟨by decide +kernel, by decide⟩
    have hnumber := hangle.number (c :: cs)
    rw [hn, List.take_succ_cons] at hnumber
    simp only [hn]
    exact Or.inr (Or.inr fun hmem => hnumber (List.mem_cons_of_mem c hmem))
  split
  · refine Or.inr (Or.inr ?_)
    simp only [Nat.add_sub_cancel_left, take_length_takeWhile]
    exact not_mem_takeWhile (by decide +kernel) cs
  split
  · exact Or.inr (Or.inl rfl)
  split
  · exact Or.inr (Or.inr (not_mem_operator (by decide) c cs))
  · simp

/-! ## Closing tags inside scripts -/

/-- Where a token ends in the source. -/
def Token.stop (t : Token) : Int := t.offset + t.text.length

/-- An index of the source lies in a script: behind an opening tag, and not behind a closing tag
after it. -/
def InRegion (ts : List Token) (i : Int) : Prop :=
  ∃ before opening rest, ts = before ++ opening :: rest ∧ opening.kind = .scriptOpen ∧
    opening.stop ≤ i ∧ ∀ t ∈ rest, t.kind = .scriptClose → i < t.stop

/-- What becomes of a closing tag at an index: a token starts there that closes the script, or the
index lies strictly inside a string or a comment. -/
def ClosingTaken (ts : List Token) (i : Int) : Prop :=
  (∃ t ∈ ts, t.kind = .scriptClose ∧ t.offset = i) ∨
    ∃ t ∈ ts, (t.kind = .string ∨ t.kind = .comment) ∧ t.offset < i ∧ i < t.stop

theorem ClosingTaken.mono {ts us : List Token} {i : Int} (h : ClosingTaken ts i)
    (hsub : ∀ t ∈ ts, t ∈ us) : ClosingTaken us i := by
  rcases h with ⟨t, ht, h⟩ | ⟨t, ht, h⟩
  · exact Or.inl ⟨t, hsub t ht, h⟩
  · exact Or.inr ⟨t, hsub t ht, h⟩

/-- A closing tag starts with an angle bracket. -/
theorem ClosesScript.head {input : List Char} (h : ClosesScript input) :
    input.head? = some '<' := by
  obtain ⟨name, blanks, rest, rfl, hname, -⟩ := h
  cases name with
  | nil => simp [closingName] at hname
  | cons c cs =>
    have hc : c.toLower = '<' := (List.cons.inj hname).1
    have : c = '<' := Classical.byContradiction fun hne => toLower_ne (by decide) hne hc
    rw [this]
    rfl

/-- A closing tag stands behind what is skipped. -/
theorem ClosesScript.behind {front input : List Char} {i : Nat}
    (h : ClosesScript ((front ++ input).drop i)) (hfront : '<' ∉ front) :
    ∃ j, i = front.length + j ∧ ClosesScript (input.drop j) := by
  by_cases hi : i < front.length
  · have hhead := h.head
    rw [List.head?_drop, List.getElem?_append_left hi] at hhead
    exact absurd (List.mem_of_getElem? hhead) hfront
  · obtain ⟨j, rfl⟩ := Nat.exists_eq_add_of_le (Nat.le_of_not_lt hi)
    exact ⟨j, rfl, by rwa [List.drop_length_add_append] at h⟩

/-- A closing tag at the start of what is left of a script, or inside its next token. -/
theorem scriptToken_closing {c : Char} {cs : List Char} {j : Nat}
    (hclose : ClosesScript ((c :: cs).drop j)) (hj : j < (scriptToken c cs).2) :
    j = 0 ∧ (scriptToken c cs).1 = .scriptClose ∨
      0 < j ∧ ((scriptToken c cs).1 = .string ∨ (scriptToken c cs).1 = .comment) := by
  cases j with
  | zero =>
    obtain ⟨n, hn⟩ := Option.isSome_iff_exists.1 ((scriptCloseLength?_isSome_iff _).2 hclose)
    rw [List.drop_zero] at hn
    exact Or.inl ⟨rfl, by rw [scriptToken, hn]⟩
  | succ j =>
    have hhead : cs[j]? = some '<' := by
      have := hclose.head
      rwa [List.drop_succ_cons, List.head?_drop] at this
    have hmem : '<' ∈ cs.take ((scriptToken c cs).2 - 1) := by
      refine List.mem_of_getElem? (i := j) ?_
      rw [List.getElem?_take_of_lt (by omega)]
      exact hhead
    refine Or.inr ⟨Nat.succ_pos j, ?_⟩
    rcases scriptToken_tail c cs with hk | hk | hnot
    · exact Or.inl hk
    · exact Or.inr hk
    · exact absurd hmem hnot

/-- An index lies in a script when scanning starts in a mode: in the script that is open at the
start, or in a later one. -/
def InRegionFrom (mode : Mode) (ts : List Token) (i : Int) : Prop :=
  mode = .script ∧ (∀ t ∈ ts, t.kind = .scriptClose → i < t.stop) ∨ InRegion ts i

/-- An index of a script behind the first token lies in a script for the other tokens. -/
theorem InRegionFrom.tail {mode : Mode} {t : Token} {ts : List Token} {i : Int}
    (h : InRegionFrom mode (t :: ts) i) (hi : t.stop ≤ i) :
    InRegionFrom (mode.after (some t.kind)) ts i := by
  rcases h with ⟨rfl, hopen⟩ | ⟨before, opening, rest, hts, hkind, hstop, hrest⟩
  · have hk : t.kind ≠ .scriptClose := by
      intro hk
      have := hopen t List.mem_cons_self hk
      omega
    refine Or.inl ⟨?_, fun u hu => hopen u (List.mem_cons_of_mem t hu)⟩
    cases htk : t.kind <;> first | rfl | exact absurd htk hk
  · cases before with
    | nil =>
      obtain ⟨rfl, rfl⟩ := List.cons.inj hts
      exact Or.inl ⟨by rw [hkind]; rfl, hrest⟩
    | cons b before =>
      obtain ⟨rfl, rfl⟩ := List.cons.inj hts
      exact Or.inr ⟨before, opening, rest, rfl, hkind, hstop, hrest⟩

/-- An index of a script in front of the end of the first token lies in the script that is open at
the start. -/
theorem InRegionFrom.inScript {mode : Mode} {t : Token} {ts : List Token} {i : Int}
    (h : InRegionFrom mode (t :: ts) i) (hi : i < t.stop) (hts : ∀ u ∈ ts, t.stop ≤ u.offset) :
    mode = .script := by
  rcases h with ⟨hmode, -⟩ | ⟨before, opening, rest, heq, -, hstop, -⟩
  · exact hmode
  · exfalso
    cases before with
    | nil =>
      obtain ⟨rfl, -⟩ := List.cons.inj heq
      omega
    | cons b before =>
      obtain ⟨rfl, rfl⟩ := List.cons.inj heq
      have := hts opening (by simp)
      rw [Token.stop] at hstop
      omega

section Cuts

variable {file : Option String} {mode : Mode} {start : Cursor} {cut : Cut} {ts : List Token}

/-- An index of a script inside the text of a cut lies in the script that is open in front of it. -/
theorem InRegionFrom.inScript_of_cut (hframed : cut.Framed)
    (hts : ∀ u ∈ ts, (start.offset + cut.text.length : Nat) ≤ u.offset) {k : Nat}
    (hk : k < cut.text.length)
    (h : InRegionFrom mode ((cut.token? file start).toList ++ ts) (start.offset + k : Nat)) :
    mode = .script := by
  cases hkind : cut.kind with
  | none => simp [hframed.text_eq_nil hkind] at hk
  | some kind =>
    have hend : (Token.at file start kind cut.text).stop =
        (start.offset + cut.text.length : Nat) := by
      simp [Token.stop, Token.at]
    rw [Cut.token?, hkind, Option.map_some, Option.toList_some, List.singleton_append] at h
    refine h.inScript ?_ ?_
    · rw [hend]
      omega
    · rwa [hend]

/-- An index of a script behind the text of a cut lies in a script for the tokens behind it. -/
theorem InRegionFrom.behind_cut {i : Nat}
    (h : InRegionFrom mode ((cut.token? file start).toList ++ ts) i)
    (hi : start.offset + cut.text.length ≤ i) : InRegionFrom (mode.after cut.kind) ts i := by
  rw [Cut.token?] at h
  cases hkind : cut.kind with
  | none =>
    rw [hkind] at h
    exact h
  | some kind =>
    rw [hkind] at h
    refine InRegionFrom.tail h ?_
    simp only [Token.stop, Token.at, String.length_ofList]
    omega

end Cuts

theorem angle_not_mem_blanks {cs : List Char} (h : ∀ c ∈ cs, Text.isBlank c = true) : '<' ∉ cs := by
  intro hmem
  exact absurd (h _ hmem) (by decide)

/-- The token of a cut inside a script takes a closing tag that starts in its text. -/
theorem scriptCut_closing {file : Option String} {start : Cursor} {c : Char} {cs : List Char}
    {k : Nat} (hclose : ClosesScript ((c :: cs).drop k)) (hk : k < (scriptCut c cs).text.length)
    (ts : List Token) :
    ClosingTaken (((scriptCut c cs).token? file start).toList ++ ts) (start.offset + k : Nat) := by
  have hshort : k < (scriptToken c cs).2 := by
    have hle : (scriptCut c cs).text.length ≤ (scriptToken c cs).2 := List.length_take_le _ _
    omega
  have hfirst : Token.at file start (scriptToken c cs).1 (scriptCut c cs).text ∈
      ((scriptCut c cs).token? file start).toList ++ ts := List.mem_cons_self
  rcases scriptToken_closing hclose hshort with ⟨rfl, hkind⟩ | ⟨hpos, hkind⟩
  · exact Or.inl ⟨_, hfirst, hkind, rfl⟩
  · refine Or.inr ⟨_, hfirst, hkind, ?_, ?_⟩
    · simp only [Token.at]
      omega
    · simp only [Token.stop, Token.at, String.length_ofList]
      omega

/-- **No closing tag inside a script is overlooked**, wherever scanning starts. -/
theorem scanFrom_closing (file : Option String) (mode : Mode) (place : Cursor)
    (input : List Char) : ∀ i : Nat, ClosesScript (input.drop i) →
      InRegionFrom mode (scanFrom file mode place input).tokens (place.offset + i : Nat) →
      ClosingTaken (scanFrom file mode place input).tokens (place.offset + i : Nat) := by
  fun_induction scanFrom file mode place input with
  | case1 mode place input start h =>
    intro i hclose hregion
    rw [← List.takeWhile_append_dropWhile (p := isSkipped) (l := input), h] at hclose
    obtain ⟨j, -, hclose⟩ := hclose.behind (not_mem_takeWhile (by decide) input)
    have := hclose.head
    simp at this
  | case2 mode place input place' c cs h cut start stop next hlt tail ih =>
    intro i hclose hregion
    have hframed : cut.Framed := mode.cut_framed c cs
    have hparts : cut.lead ++ (cut.text ++ (cut.trail ++ cut.rest)) = c :: cs := by
      have : cut.parts = c :: cs := mode.cut_parts c cs
      rwa [Cut.parts, List.append_assoc, List.append_assoc] at this
    -- The closing tag is not in what is skipped, and not in blanks around the token.
    rw [← List.takeWhile_append_dropWhile (p := isSkipped) (l := input), h] at hclose
    obtain ⟨j, rfl, hcut⟩ := hclose.behind (not_mem_takeWhile (by decide) input)
    have hbehind := hcut
    rw [← hparts] at hbehind
    obtain ⟨k, rfl, htext⟩ := hbehind.behind (angle_not_mem_blanks hframed.lead_blank)
    have hstart : place.offset + ((input.takeWhile isSkipped).length + (cut.lead.length + k)) =
        start.offset + k := by
      simp only [start, place', Cursor.advance_offset]
      omega
    rw [hstart] at hregion ⊢
    have hstop : stop.offset = start.offset + cut.text.length + cut.trail.length := by
      simp only [stop, Cursor.advance_offset]
    by_cases hk : k < cut.text.length
    · obtain rfl : mode = .script := by
        refine InRegionFrom.inScript_of_cut hframed (fun u hu => ?_) hk hregion
        have := (scanFrom_tiled file next stop cut.rest).le_offset u hu
        omega
      have hlead : cut.lead.length + k = k := Nat.zero_add k
      rw [hlead] at hcut
      exact scriptCut_closing hcut hk tail.tokens
    · obtain ⟨k, rfl⟩ := Nat.exists_eq_add_of_le (Nat.le_of_not_lt hk)
      rw [List.drop_length_add_append] at htext
      obtain ⟨l, rfl, hrest⟩ := htext.behind (angle_not_mem_blanks hframed.trail_blank)
      have hnext : start.offset + (cut.text.length + (cut.trail.length + l)) = stop.offset + l := by
        omega
      rw [hnext] at hregion ⊢
      have htail : InRegionFrom next tail.tokens (stop.offset + l : Nat) :=
        hregion.behind_cut (by omega)
      exact (ih l hrest htail).mono fun t ht => List.mem_append_right _ ht

/-! ## Pages -/

/-- How the tags of scripts stand among the tokens of a page. -/
structure ScriptTags (source : List Char) (scanned : Scan) : Prop where
  /-- They open and close scripts in turn. -/
  alternate : ∀ i, ∀ kind ∈ (scriptTags scanned.tokens)[i]?, kind = scriptTagAt i
  /-- Where a script is open there is code, up to the tag that closes the script. -/
  inside : ∀ before t after, scanned.tokens = before ++ t :: after → InScript before →
    t.kind.isCode = true ∨ t.kind = .scriptClose ∨ t.kind = .eof ∧ after = []
  /-- Where none is open there is markup, up to the tag that opens a script. -/
  outside : ∀ before t after, scanned.tokens = before ++ t :: after → ¬ InScript before →
    t.kind.isMarkup = true ∨ t.kind = .scriptOpen ∨ t.kind = .eof ∧ after = []
  /-- The mode at the end tells whether the last script is left open. -/
  mode : scanned.mode = .script ↔ InScript scanned.tokens
  /-- A closing tag inside a script is taken as one, or stands in a string or a comment. -/
  closed : ∀ i : Nat, ClosesScript (source.drop i) → InRegion scanned.tokens i →
    ClosingTaken scanned.tokens i
  /-- The test for a closing tag finds those that there are. -/
  found : ∀ i, (scriptCloseLength? (source.drop i)).isSome = true ↔ ClosesScript (source.drop i)
  /-- It is the test that lowers the text in full. -/
  lowered : ∀ i, ClosesScript (source.drop i) ↔
    Text.lower ((source.drop i).take 8) = closingName ∧
      ((source.drop (i + 8)).dropWhile Text.isBlank).head? = some '>'

/-- **Tags of scripts switch the mode**: they take turns, they part markup from code, the last one
tells the mode at the end, and no closing tag is overlooked. -/
theorem scan_scriptTags (source : String) (file : Option String) :
    ScriptTags source.toList (scan source file) where
  alternate := by
    intro i
    have h := (scanFrom_inModes file .markup .start source.toList).alternate i
    rwa [Mode.turn, Nat.zero_add] at h
  inside := by
    intro before t after hts hopen
    have hscans := scanFrom_inModes file .markup .start source.toList before t after hts
    rw [(modeAfter_eq_script_iff before).2 hopen] at hscans
    rcases isCode_of_scans hscans with hk | hk | hk
    · exact Or.inl hk
    · exact Or.inr (Or.inl hk)
    · exact Or.inr (Or.inr ⟨hk, scanFrom_eof hts hk⟩)
  outside := by
    intro before t after hts hopen
    have hscans := scanFrom_inModes file .markup .start source.toList before t after hts
    rw [← modeAfter_eq_script_iff] at hopen
    have hmarkup : modeAfter .markup before = .markup := by
      cases h : modeAfter .markup before with
      | markup => rfl
      | script => exact absurd h hopen
    rw [hmarkup] at hscans
    rcases isMarkup_of_scans hscans with hk | hk | hk
    · exact Or.inl hk
    · exact Or.inr (Or.inl hk)
    · exact Or.inr (Or.inr ⟨hk, scanFrom_eof hts hk⟩)
  mode := by
    rw [← modeAfter_eq_script_iff]
    show (scanFrom file .markup .start source.toList).mode = .script ↔ _
    rw [scanFrom_mode]
    rfl
  closed := by
    intro i hclose hregion
    have h := scanFrom_closing file .markup .start source.toList i hclose
    rw [show Cursor.start.offset + i = i from Nat.zero_add i] at h
    exact h (Or.inr hregion)
  found := fun i => scriptCloseLength?_isSome_iff (source.toList.drop i)
  lowered := by
    intro i
    rw [← scriptCloseLength?_isSome_iff, scriptCloseLength?_isSome_iff_lower, List.drop_drop]

end PageLint
