import PageLint.Proofs.ScriptTokens
import PageLint.Proofs.Tiling

/-!
# Lines and columns of tokens

A position moves along with the scanner, token by token and gap by gap. Here it is said once and
for all by the offset alone: the line counts the newlines in front of the offset, and the column
counts from the last of them.

* `Token.Positioned` — line and column as the offset gives them
* `scanFrom_isAt` — every token stands where the position has come to over the text in front of it
* `tokenize_positioned` — so every token of a page is positioned, the end of the input included
-/

namespace PageLint

/-! ## Positions by offsets -/

/-- The index of the last newline in front of an index of a source, or `-1` when there is none. -/
def lastNewline (source : List Char) : Nat → Int
  | 0 => -1
  | i + 1 => if source[i]? = some '\n' then i else lastNewline source i

/-- The line and column of a token are those of its offset in the source: the line is one more than
the number of newlines in front of it, and the column is the distance from the last of them. -/
structure Token.Positioned (source : List Char) (t : Token) : Prop where
  inside : 0 ≤ t.offset ∧ t.offset ≤ source.length
  line : t.line = 1 + (source.take t.offset.toNat).count '\n'
  column : t.column = t.offset - lastNewline source t.offset.toNat

/-! ## Where the position comes to -/

theorem Cursor.advance_line (p : Cursor) (cs : List Char) :
    (p.advance cs).line = p.line + cs.count '\n' := by
  induction cs generalizing p with
  | nil => rfl
  | cons c cs ih =>
    show ((p.next c).advance cs).line = _
    rw [ih, Cursor.next]
    split
    · rename_i hc
      rw [beq_iff_eq] at hc
      rw [hc, List.count_cons_self]
      show p.line + 1 + _ = _
      omega
    · rename_i hc
      rw [beq_iff_eq] at hc
      rw [List.count_cons_of_ne hc]

/-- The column after the first characters of a source counts from the last newline among them. -/
theorem Cursor.advance_column (source : List Char) {i : Nat} (hi : i ≤ source.length) :
    ((Cursor.start.advance (source.take i)).column : Int) = i - lastNewline source i := by
  induction i with
  | zero => rfl
  | succ i ih =>
    obtain ⟨c, hc⟩ : ∃ c, source[i]? = some c := ⟨_, List.getElem?_eq_getElem hi⟩
    have hnext : Cursor.start.advance (source.take (i + 1)) =
        (Cursor.start.advance (source.take i)).next c := by
      rw [List.take_add_one, hc, Cursor.advance_append]
      rfl
    have hcolumn := ih (Nat.le_of_succ_le hi)
    rw [hnext, Cursor.next, lastNewline, hc]
    by_cases hline : c = '\n'
    · simp only [hline, beq_self_eq_true, if_true]
      omega
    · simp only [beq_iff_eq, Option.some.injEq, hline, if_false]
      omega

/-! ## Tokens -/

/-- A token stands at a position. -/
structure Token.IsAt (t : Token) (p : Cursor) : Prop where
  line : t.line = p.line
  column : t.column = p.column
  offset : t.offset = p.offset

theorem Token.isAt_at (file : Option String) (p : Cursor) (kind : TokenKind) (text : List Char) :
    (Token.at file p kind text).IsAt p :=
  ⟨rfl, rfl, rfl⟩

/-- **Every token stands where the position has come to** over the input in front of it. -/
theorem scanFrom_isAt (file : Option String) (mode : Mode) (place : Cursor) (input : List Char) :
    ∀ t ∈ (scanFrom file mode place input).tokens,
      ∃ before, before <+: input ∧ t.IsAt (place.advance before) := by
  fun_induction scanFrom file mode place input with
  | case1 mode place input start h =>
    intro t ht
    rw [List.mem_singleton.1 ht]
    exact ⟨_, List.takeWhile_prefix _, Token.isAt_at file _ _ _⟩
  | case2 mode place input place' c cs h cut start stop next hlt tail ih =>
    -- The input is what is skipped, and then the parts of the cut in order.
    have hinput : input.takeWhile isSkipped ++ (cut.lead ++ (cut.text ++ (cut.trail ++ cut.rest))) =
        input := by
      have hparts : cut.parts = c :: cs := mode.cut_parts c cs
      rw [Cut.parts, List.append_assoc, List.append_assoc, ← h] at hparts
      rw [hparts, List.takeWhile_append_dropWhile]
    intro t ht
    rcases List.mem_append.1 ht with hcut | htail
    · have hat : t.IsAt start := by
        obtain ⟨kind, -, rfl⟩ := Option.map_eq_some_iff.1 (Option.mem_toList.1 hcut)
        exact Token.isAt_at file start kind cut.text
      refine ⟨input.takeWhile isSkipped ++ cut.lead, ?_, ?_⟩
      · refine ⟨cut.text ++ (cut.trail ++ cut.rest), ?_⟩
        rw [List.append_assoc, hinput]
      · rw [Cursor.advance_append]
        exact hat
    · obtain ⟨before, ⟨after, hrest⟩, hat⟩ := ih t htail
      refine ⟨input.takeWhile isSkipped ++ (cut.lead ++ (cut.text ++ (cut.trail ++ before))),
        ?_, ?_⟩
      · refine ⟨after, ?_⟩
        simp only [List.append_assoc, hrest, hinput]
      · simp only [Cursor.advance_append]
        exact hat

/-- **Lines and columns are exact**: every token of a page, the end of the input included, has the
line and column of its offset. -/
theorem tokenize_positioned (source : String) (file : Option String) :
    ∀ t ∈ tokenize source file, t.Positioned source.toList := by
  intro t ht
  obtain ⟨before, hbefore, hat⟩ := scanFrom_isAt file .markup .start source.toList t ht
  have htake : source.toList.take before.length = before := (List.prefix_iff_eq_take.1 hbefore).symm
  have hoffset : t.offset = before.length := by
    rw [hat.offset, Cursor.advance_offset]
    simp [Cursor.start]
  have htoNat : t.offset.toNat = before.length := by rw [hoffset, Int.toNat_natCast]
  refine ⟨?_, ?_, ?_⟩
  · have := hbefore.length_le
    omega
  · rw [hat.line, Cursor.advance_line, htoNat, htake]
    simp [Cursor.start]
  · have hcolumn := Cursor.advance_column source.toList hbefore.length_le
    rw [htake] at hcolumn
    rw [hat.column, hcolumn, hoffset, Int.toNat_natCast]

/-- A text behind a tag over two lines, with a skipped newline between them. -/
theorem text_positioned_behind_two_lines :
    let source := "<p\nid='a'>\n x"
    let t : Token := { kind := .text, text := "x", line := 3, column := 2, offset := 12 }
    t ∈ tokenize source none ∧ t.Positioned source.toList := by
  intro source t
  have hmem : t ∈ tokenize source none := by decide +kernel
  exact ⟨hmem, tokenize_positioned source none t hmem⟩

end PageLint
