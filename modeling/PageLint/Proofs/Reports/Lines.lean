import PageLint.Proofs.LineEnds.Respelling
import PageLint.Proofs.Positions
import PageLint.Text.Lines

/-!
# The lines of a source and the lines of its tokens

Tokens count lines character by character, and a report splits the source into lines. Both agree: in
the line that a token names, the text of the token starts at the column that it names.

* `Text.count_take_lt_length_lines` — a place in front of a character is on a line of the source
* `Text.lines_at` — the character at a position that was counted
* `tokenize_placed` — the tokens of a page
-/

namespace PageLint

namespace Text

/-! ## Splitting at newlines -/

theorem splitOnChar_newline (cs : List Char) :
    splitOnChar '\n' ('\n' :: cs) = [] :: splitOnChar '\n' cs := by
  rw [splitOnChar, if_pos (beq_self_eq_true _)]

theorem splitOnChar_ne_nil (sep : Char) (cs : List Char) : splitOnChar sep cs ≠ [] := by
  cases cs with
  | nil => simp [splitOnChar]
  | cons c cs =>
    rw [splitOnChar]
    split
    · simp
    · split <;> simp

/-- A character that is no separator goes into the first piece. -/
theorem exists_splitOnChar_cons {sep c : Char} (hc : c ≠ sep) (cs : List Char) : ∃ piece pieces,
    splitOnChar sep cs = piece :: pieces ∧ splitOnChar sep (c :: cs) = (c :: piece) :: pieces := by
  obtain ⟨piece, pieces, h⟩ := List.exists_cons_of_ne_nil (splitOnChar_ne_nil sep cs)
  refine ⟨piece, pieces, h, ?_⟩
  rw [splitOnChar, if_neg (by simpa using hc), h]

theorem length_splitOnChar (sep : Char) (cs : List Char) :
    (splitOnChar sep cs).length = cs.count sep + 1 := by
  induction cs with
  | nil => rfl
  | cons c cs ih =>
    by_cases hc : c = sep
    · rw [splitOnChar, if_pos (by simpa using hc), List.length_cons, ih, hc, List.count_cons_self]
    · obtain ⟨piece, pieces, h, hcons⟩ := exists_splitOnChar_cons hc cs
      rw [hcons, List.count_cons_of_ne hc, ← ih, h, List.length_cons, List.length_cons]

/-- Only a separator at the end leaves an empty piece at the end. -/
theorem exists_concat_of_splitOnChar {sep : Char} {cs : List Char} (hne : cs ≠ [])
    (h : (splitOnChar sep cs).getLast? = some []) : ∃ front, cs = front ++ [sep] := by
  induction cs with
  | nil => exact absurd rfl hne
  | cons c cs ih =>
    by_cases hcs : cs = []
    · rw [hcs] at h ⊢
      by_cases hc : c = sep
      · exact ⟨[], by rw [hc, List.nil_append]⟩
      · simp [splitOnChar, hc] at h
    · have hlast : (splitOnChar sep cs).getLast? = some [] := by
        by_cases hc : c = sep
        · rw [splitOnChar, if_pos (by simpa using hc)] at h
          rwa [List.getLast?_cons_of_ne_nil (splitOnChar_ne_nil sep cs)] at h
        · obtain ⟨piece, pieces, hsplit, hcons⟩ := exists_splitOnChar_cons hc cs
          rw [hcons] at h
          cases pieces with
          | nil => simp at h
          | cons next pieces =>
            rw [List.getLast?_cons_cons] at h
            rw [hsplit, List.getLast?_cons_cons, h]
      obtain ⟨front, hfront⟩ := ih hcs hlast
      exact ⟨c :: front, by rw [hfront, List.cons_append]⟩

/-- A place in front of a character is on a line of the source. -/
theorem count_take_lt_length_lines {cs : List Char} {i : Nat} (hi : i < cs.length) :
    (cs.take i).count '\n' < (lines cs).length := by
  have hne : cs ≠ [] := by
    intro h
    rw [h] at hi
    exact Nat.not_lt_zero i hi
  rw [lines, if_neg (by simpa using hne), List.length_map]
  split
  · -- A newline at the end of the text ends its last line and starts no further one.
    rename_i hlast
    obtain ⟨front, rfl⟩ := exists_concat_of_splitOnChar hne (beq_iff_eq.1 hlast)
    have hle : i ≤ front.length := by
      rw [List.length_append, List.length_singleton] at hi
      omega
    have hfront := ((List.take_sublist i front).count_le '\n')
    rw [List.length_dropLast, length_splitOnChar, List.take_append_of_le_length hle,
      List.count_append, List.count_cons_self]
    omega
  · have := (List.take_sublist i cs).count_le '\n'
    rw [length_splitOnChar]
    omega

/-! ## The character at a position -/

/-- A character stands in the piece with the number of newlines in front of it, as far behind the
last of them as the column says. -/
theorem splitOnChar_at {c : Char} (hc : c ≠ '\n') (before after : List Char) (p : Cursor) :
    ∃ piece k, (splitOnChar '\n' (before ++ c :: after))[before.count '\n']? = some piece ∧
      piece[k]? = some c ∧
      (p.advance before).column = if before.count '\n' = 0 then p.column + k else k + 1 := by
  -- On the first line the column goes on from where it is, on the others it starts anew.
  induction before generalizing p with
  | nil =>
    obtain ⟨piece, pieces, -, hcons⟩ := exists_splitOnChar_cons hc after
    exact ⟨c :: piece, 0, by rw [List.nil_append, hcons]; rfl, rfl, rfl⟩
  | cons x before ih =>
    obtain ⟨piece, k, hpiece, hk, hcolumn⟩ := ih (p.next x)
    rw [List.cons_append]
    show ∃ piece k, _ ∧ _ ∧ ((p.next x).advance before).column = _
    by_cases hx : x = '\n'
    · subst hx
      refine ⟨piece, k, ?_, hk, ?_⟩
      · rw [splitOnChar_newline, List.count_cons_self, List.getElem?_cons_succ, hpiece]
      · have hstart : (p.next '\n').column = 1 := rfl
        rw [hcolumn, hstart, List.count_cons_self, if_neg (Nat.succ_ne_zero _)]
        split <;> omega
    · have hstart : (p.next x).column = p.column + 1 := by
        rw [Cursor.next, if_neg (by simpa using hx)]
      obtain ⟨head, pieces, hsplit, hcons⟩ := exists_splitOnChar_cons hx (before ++ c :: after)
      rw [hsplit] at hpiece
      rw [hcons, List.count_cons_of_ne hx, hcolumn, hstart]
      cases hcount : before.count '\n' with
      | zero =>
        rw [hcount] at hpiece
        obtain rfl : head = piece := Option.some.inj hpiece
        refine ⟨x :: head, k + 1, rfl, hk, ?_⟩
        simp only [if_true]
        omega
      | succ n =>
        rw [hcount] at hpiece
        exact ⟨piece, k, hpiece, hk, rfl⟩

/-- Dropping a carriage return at the end of a line drops no other character. -/
theorem getElem?_dropFinal {mark c : Char} (hc : c ≠ mark) {cs : List Char} {k : Nat}
    (h : cs[k]? = some c) : (dropFinal mark cs)[k]? = some c := by
  rw [dropFinal]
  split
  · rename_i hlast
    obtain ⟨front, rfl⟩ := List.getLast?_eq_some_iff.1 (beq_iff_eq.1 hlast)
    rw [List.dropLast_concat]
    obtain ⟨hlt, hget⟩ := List.getElem?_eq_some_iff.1 h
    have hk : k ≠ front.length := by
      intro hk
      rw [hk, List.getElem?_concat_length] at h
      exact hc (Option.some.inj h).symm
    rw [List.length_append, List.length_singleton] at hlt
    rwa [List.getElem?_append_left (by omega)] at h
  · exact h

/-- **A character that is part of no line end stands at its line and column in the lines of the
source.** -/
theorem lines_at {c : Char} (hc : Plain c) (before after : List Char) : ∃ found k,
    (lines (before ++ c :: after))[before.count '\n']? = some found ∧ found[k]? = some c ∧
      (Cursor.start.advance before).column = k + 1 := by
  obtain ⟨piece, k, hpiece, hk, hcolumn⟩ := splitOnChar_at hc.ne_newline before after .start
  refine ⟨dropFinal '\r' piece, k, ?_, getElem?_dropFinal hc.ne_return hk, ?_⟩
  · rw [lines, if_neg (by simp), List.getElem?_map, Option.map_eq_some_iff]
    refine ⟨piece, ?_, rfl⟩
    split
    · -- The piece holds a character, so it is not the empty one at the end.
      rename_i hlast
      obtain ⟨front, hfront⟩ := List.getLast?_eq_some_iff.1 (beq_iff_eq.1 hlast)
      rw [hfront] at hpiece ⊢
      rw [List.dropLast_concat]
      obtain ⟨hlt, -⟩ := List.getElem?_eq_some_iff.1 hpiece
      have hne : before.count '\n' ≠ front.length := by
        intro h
        rw [h, List.getElem?_concat_length] at hpiece
        rw [← Option.some.inj hpiece] at hk
        cases hk
      rw [List.length_append, List.length_singleton] at hlt
      rwa [List.getElem?_append_left (by omega)] at hpiece
    · exact hpiece
  · rw [hcolumn]
    simp only [Cursor.start]
    split <;> omega

end Text

/-! ## Tokens -/

theorem Cut.head?_ofLength (kind : TokenKind) {n : Nat} (hn : 0 < n) (c : Char) (cs : List Char) :
    (Cut.ofLength kind n (c :: cs)).text.head? = some c := by
  obtain ⟨m, rfl⟩ := Nat.exists_eq_succ_of_ne_zero (Nat.ne_of_gt hn)
  rfl

theorem Cut.head_ofText (raw rest : List Char) :
    ∀ c ∈ (Cut.ofText raw rest).text.head?, Text.isBlank c = false := by
  intro c hc
  have hprefix : Text.trimRight (Text.trimLeft raw) <+: Text.trimLeft raw := by
    have hsuffix := List.dropWhile_suffix (l := (Text.trimLeft raw).reverse) Text.isBlank
    rwa [← List.reverse_prefix, List.reverse_reverse] at hsuffix
  have hhead : (Text.trimLeft raw).head? = some c := by
    obtain ⟨trail, htrail⟩ := hprefix
    rw [← htrail, List.head?_append, show (Text.trimRight _).head? = some c from hc]
    rfl
  have hstop := List.head?_dropWhile_not Text.isBlank raw
  rw [← Text.trimLeft, hhead] at hstop
  simpa using hstop

/-- The text of a cut does not start with a character that is skipped. -/
theorem Mode.cut_head (mode : Mode) {c : Char} (hc : isSkipped c = false) (cs : List Char) :
    ∀ d ∈ (mode.cut c cs).text.head?, isSkipped d = false := by
  intro d hd
  cases mode with
  | script =>
    rw [Mode.cut, scriptCut, Cut.head?_ofLength _ (scriptToken_pos c cs)] at hd
    rwa [← Option.some.inj hd]
  | markup =>
    rw [Mode.cut, markupCut] at hd
    split at hd
    · rw [Cut.head?_ofLength _ (angleToken_pos c cs)] at hd
      rwa [← Option.some.inj hd]
    · have hblank := Cut.head_ofText _ _ d hd
      rw [Bool.eq_false_iff]
      intro hskipped
      rw [isBlank_of_isSkipped hskipped] at hblank
      cases hblank

theorem scanFrom_head (file : Option String) (mode : Mode) (place : Cursor) (input : List Char) :
    ∀ t ∈ (scanFrom file mode place input).tokens, ∀ c ∈ t.text.toList.head?,
      isSkipped c = false := by
  fun_induction scanFrom file mode place input with
  | case1 mode place input start h =>
    intro t ht c hc
    rw [List.mem_singleton.1 ht] at hc
    cases hc
  | case2 mode place input place' c cs h cut start stop next hlt tail ih =>
    have hskip : isSkipped c = false := by
      have hstop := List.head?_dropWhile_not isSkipped input
      rw [h] at hstop
      simpa using hstop
    intro t ht d hd
    rcases List.mem_append.1 ht with hcut | htail
    · obtain ⟨kind, -, rfl⟩ := Option.map_eq_some_iff.1 (Option.mem_toList.1 hcut)
      rw [Token.at, String.toList_ofList] at hd
      exact mode.cut_head hskip cs d hd
    · exact ih t htail d hd

/-- Where a token stands in a source: behind a part of it, over which its position was counted. -/
structure Token.Behind (source before after : List Char) (t : Token) : Prop where
  source : source = before ++ (t.text.toList ++ after)
  isAt : t.IsAt (Cursor.start.advance before)
  ne_nil : t.text.toList ≠ []

theorem tokenize_behind (source : String) (file : Option String) :
    ∀ t ∈ tokenize source file, t.kind ≠ .eof → ∃ before after,
      t.Behind source.toList before after := by
  intro t ht hkind
  obtain ⟨before, ⟨rest, hrest⟩, hat⟩ := scanFrom_isAt file .markup .start source.toList t ht
  obtain ⟨hne, i, hi, hslice⟩ :=
    (scanFrom_tiled file .markup .start source.toList).exists_slice t ht hkind
  have hoffset : i = before.length := by
    have h := hat.offset
    rw [hi, Cursor.advance_offset] at h
    simp only [Cursor.start] at h
    omega
  have hdrop : source.toList.drop i = rest := by
    rw [hoffset, ← hrest, List.drop_left]
  refine ⟨before, rest.drop t.text.length, ⟨?_, hat, ?_⟩⟩
  · rw [hslice, hdrop, List.take_append_drop, hrest]
  · intro h
    exact hne (String.toList_eq_nil_iff.1 h)

namespace Token.Behind

variable {source before after : List Char} {t : Token} (h : t.Behind source before after)

include h

theorem line : t.line = 1 + (before.count '\n' : Nat) := by
  rw [h.isAt.line, Cursor.advance_line]
  simp [Cursor.start]

/-- Each character of a token is on a line of the source. -/
theorem inside_lines {n : Nat} (hn : n < t.text.toList.length) :
    1 ≤ t.line + (t.text.toList.take n).count '\n' ∧
      t.line + (t.text.toList.take n).count '\n' ≤ (Text.lines source).length := by
  have hlt : before.length + n < source.length := by
    rw [h.source, List.length_append, List.length_append]
    omega
  have hcount := Text.count_take_lt_length_lines hlt
  rw [h.source, List.take_length_add_append, List.take_append_of_le_length (Nat.le_of_lt hn),
    List.count_append, ← h.source] at hcount
  rw [h.line]
  omega

end Token.Behind

/-- A token stands in lines where it says: its text starts at its column of its line. -/
structure Token.PlacedIn (lines : List String) (t : Token) : Prop where
  line : 1 ≤ t.line ∧ t.line ≤ lines.length
  column : 1 ≤ t.column
  start : ∃ line c, lines[(t.line - 1).toNat]? = some line ∧
    line.toList[(t.column - 1).toNat]? = some c ∧ t.text.toList.head? = some c

/-- **The tokens of a page stand in the lines of its source where they say.** -/
theorem tokenize_placed (source : String) (file : Option String) :
    ∀ t ∈ tokenize source file, t.kind ≠ .eof → t.PlacedIn (Text.sourceLines source) := by
  intro t ht hkind
  obtain ⟨before, after, hbehind⟩ := tokenize_behind source file t ht hkind
  obtain ⟨c, text, htext⟩ := List.exists_cons_of_ne_nil hbehind.ne_nil
  have hskipped : isSkipped c = false :=
    scanFrom_head file .markup .start source.toList t ht c (by rw [htext]; rfl)
  have hplain : Text.Plain c := by
    refine ⟨?_, ?_⟩ <;> rintro rfl <;> cases hskipped
  obtain ⟨line, k, hline, hk, hcolumn⟩ := Text.lines_at hplain before (text ++ after)
  rw [← List.cons_append, ← htext, ← hbehind.source] at hline
  have hrange := hbehind.inside_lines (n := 0) (by rw [htext]; exact Nat.succ_pos _)
  have hlength : (Text.sourceLines source).length = (Text.lines source.toList).length :=
    List.length_map ..
  have hcount : (t.line - 1).toNat = before.count '\n' := by
    rw [hbehind.line]
    omega
  refine ⟨?_, ?_, String.ofList line, c, ?_, ?_, by rw [htext]; rfl⟩
  · rw [hlength]
    simpa using hrange
  · rw [hbehind.isAt.column, hcolumn]
    omega
  · rw [hcount, Text.sourceLines, List.getElem?_map, hline, Option.map_some]
  · have hindex : (t.column - 1).toNat = k := by
      rw [hbehind.isAt.column, hcolumn]
      omega
    rw [hindex, String.toList_ofList, hk]

end PageLint
