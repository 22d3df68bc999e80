import Mathlib.Data.List.Chain
import PageLint.Proofs.LineEnds.Scanning
import PageLint.Proofs.Places.Spans

/-!
# Moving over texts

A location is moved over a text in one go, and two such moves one after the other are one move over
both texts. The scanner moves to an offset further on in its source, and takes the text up to there
in one go as well: it counts the newlines in it and goes on from the last of them. Both ways of
counting lead to the same place, and each does what moving on character by character does.

* `Location.shifted_append` — moving over two texts one after the other
* `Cursor.advanceTo`, `Cursor.advanceTo_eq` — moving on to an offset of the source
* `scanStops`, `isChain_scanStops` — the positions that a scan comes to, each move by `advanceTo`
* `moves_shift_locations` — the moves of a scan are those of locations
-/

namespace PageLint

/-! ## Moving locations -/

/-- What follows the last newline of two texts is told by the second one, if it has a newline. -/
theorem Location.sinceNewline?_append (a b : List Char) :
    Location.sinceNewline? (a ++ b) =
      ((Location.sinceNewline? b).or ((Location.sinceNewline? a).map (· + b.length))) := by
  induction b using List.reverseRecOn with
  | nil => simp [Location.sinceNewline?]
  | append_singleton b c ih =>
    rw [← List.append_assoc, Location.sinceNewline?_concat, Location.sinceNewline?_concat, ih]
    split
    · rfl
    · rw [List.length_append]
      cases Location.sinceNewline? b <;> cases Location.sinceNewline? a <;> rfl

/-- **Moving over two texts one after the other is moving over both.** -/
theorem Location.shifted_append (l : Location) (a b : List Char) :
    (l.shifted a).shifted b = l.shifted (a ++ b) := by
  have hline : l.line + a.count '\n' + b.count '\n' = l.line + (a ++ b).count '\n' := by
    rw [List.count_append]
    omega
  have hoffset : l.offset + a.length + b.length = l.offset + (a ++ b).length := by
    rw [List.length_append]
    omega
  unfold Location.shifted
  rw [Location.sinceNewline?_append, hline, hoffset]
  cases Location.sinceNewline? b with
  | some n => rfl
  | none =>
    cases Location.sinceNewline? a with
    | some n =>
      have hcolumn : (n : Int) + 1 + b.length = (n + b.length : Nat) + 1 := by omega
      simp only [hcolumn, Option.or, Option.map_some]
    | none =>
      have hcolumn : l.column + a.length + b.length = l.column + (a ++ b).length := by
        rw [List.length_append]
        omega
      simp only [hcolumn, Option.or, Option.map_none]

/-- Moving over no text changes nothing but the end of what a location covers. -/
theorem Location.shifted_nil (l : Location) :
    l.shifted [] = { l with endOffset := l.offset } := by
  simp [Location.shifted, Location.sinceNewline?]

/-! ## Moving positions to an offset -/

/-- The location at a position. -/
def Cursor.location (p : Cursor) (file : Option String) : Location :=
  { line := p.line, column := p.column, offset := p.offset, endOffset := p.offset, file }

/-- The position that moving on to an offset of the source leads to. The newlines of the text up to
there are counted, and the column goes on from the last of them. The end of the source is as far as
it goes, and where the offset is not ahead there is no move. -/
def Cursor.advanceTo (source : List Char) (p : Cursor) (stop : Nat) : Cursor :=
  let stop := min stop source.length
  if stop ≤ p.offset then p
  else
    let segment := (source.take stop).drop p.offset
    let newlines := segment.count '\n'
    if newlines = 0 then
      { line := p.line, column := p.column + segment.length, offset := stop }
    else
      { line := p.line + newlines
        column := (segment.length - lastNewline segment segment.length).toNat
        offset := stop }

theorem lastNewline_append_of_le {cs : List Char} {i : Nat} (h : i ≤ cs.length) (ds : List Char) :
    lastNewline (cs ++ ds) i = lastNewline cs i := by
  induction i with
  | zero => rfl
  | succ i ih =>
    rw [lastNewline, lastNewline, List.getElem?_append_left h, ih (Nat.le_of_succ_le h)]

/-- Behind a newline the column does not depend on where the text starts. -/
theorem Cursor.advance_column_of_mem (p : Cursor) {cs : List Char} (h : '\n' ∈ cs) :
    ((p.advance cs).column : Int) = cs.length - lastNewline cs cs.length := by
  induction cs using List.reverseRecOn with
  | nil => cases h
  | append_singleton cs c ih =>
    have hnext : p.advance (cs ++ [c]) = (p.advance cs).next c := Cursor.advance_append p cs [c]
    have hlast : (cs ++ [c])[cs.length]? = some c := by simp
    rw [hnext, Cursor.next, List.length_append, List.length_singleton, lastNewline, hlast,
      lastNewline_append_of_le (Nat.le_refl _)]
    by_cases hc : c = '\n'
    · simp only [hc, beq_self_eq_true, if_true]
      omega
    · have hmem : '\n' ∈ cs := (List.mem_append.1 h).resolve_right fun hc' =>
        hc (List.mem_singleton.1 hc').symm
      have hcolumn := ih hmem
      simp only [beq_iff_eq, Option.some.injEq, hc, if_false]
      omega

/-- **Moving on to an offset is moving over the text up to there**, character by character. -/
theorem Cursor.advanceTo_eq (source : List Char) (p : Cursor) (stop : Nat) :
    p.advanceTo source stop = p.advance ((source.take stop).drop p.offset) := by
  have htake : source.take (min stop source.length) = source.take stop := by
    rw [← List.take_take, List.take_length]
  rw [Cursor.advanceTo]
  simp only [htake]
  split
  · rename_i hle
    rw [List.drop_eq_nil_of_le (by rw [List.length_take]; exact hle)]
    rfl
  · rename_i hlt
    generalize hsegment : (source.take stop).drop p.offset = segment
    have hlength : p.offset + segment.length = min stop source.length := by
      rw [← hsegment, List.length_drop, List.length_take]
      omega
    have hoffset := Cursor.advance_offset p segment
    have hline := Cursor.advance_line p segment
    rw [hlength] at hoffset
    split
    · rename_i hnone
      have hcolumn := Cursor.advance_column_of_not_mem p (List.count_eq_zero.1 hnone)
      rw [hnone] at hline
      rw [Cursor.mk.injEq]
      exact ⟨hline.symm, hcolumn.symm, hoffset.symm⟩
    · rename_i hsome
      have hmem : '\n' ∈ segment := List.count_pos_iff.1 (Nat.pos_of_ne_zero hsome)
      have hcolumn := Cursor.advance_column_of_mem p hmem
      rw [Cursor.mk.injEq]
      exact ⟨hline.symm, by rw [← hcolumn, Int.toNat_natCast], hoffset.symm⟩

/-- **Moving a position on to an offset is moving its location over the text up to there.** -/
theorem Cursor.location_advanceTo (source : List Char) (p : Cursor) (stop : Nat)
    (file : Option String) :
    (p.advanceTo source stop).location file =
      (p.location file).shifted
        ((source.take (p.advanceTo source stop).offset).drop p.offset) := by
  have hat : (p.location file).IsAt p := ⟨rfl, rfl, rfl⟩
  -- As far as the move goes, the text up to its end is the text up to the offset.
  have hsegment : (source.take (p.advanceTo source stop).offset).drop p.offset =
      (source.take stop).drop p.offset := by
    rw [Cursor.advanceTo_eq, Cursor.advance_offset, List.length_drop, List.length_take]
    by_cases hle : min stop source.length ≤ p.offset
    · rw [List.drop_eq_nil_of_le, List.drop_eq_nil_of_le] <;> rw [List.length_take] <;> omega
    · rw [show p.offset + (min stop source.length - p.offset) = min stop source.length by omega,
        ← List.take_take, List.take_length]
  obtain ⟨hline, hcolumn, hoffset⟩ := hat.shifted ((source.take stop).drop p.offset)
  rw [hsegment, Cursor.advanceTo_eq]
  rw [Cursor.location, ← hline, ← hcolumn, ← hoffset]
  rfl

/-! ## The moves of a scan -/

/-- The positions that a scan of the input comes to: behind what is skipped, where the text of a cut
starts, and behind the cut. -/
def scanStops (mode : Mode) (place : Cursor) (input : List Char) : List Cursor :=
  let place := place.advance (input.takeWhile isSkipped)
  match h : input.dropWhile isSkipped with
  | [] => [place]
  | c :: cs =>
    let cut := mode.cut c cs
    let start := place.advance cut.lead
    let stop := (start.advance cut.text).advance cut.trail
    have : cut.rest.length < input.length :=
      Nat.lt_of_lt_of_le (mode.cut_rest_lt c cs) (h ▸ (List.dropWhile_suffix _).length_le)
    place :: start :: stop :: scanStops (mode.after cut.kind) stop cut.rest
termination_by input.length
decreasing_by exact this

/-- The tokens of a scan stand where it comes to. -/
theorem exists_stop_of_mem_scanFrom (file : Option String) (mode : Mode) (place : Cursor)
    (input : List Char) : ∀ t ∈ (scanFrom file mode place input).tokens,
      ∃ p ∈ scanStops mode place input, t.IsAt p := by
  fun_induction scanFrom file mode place input with
  | case1 mode place input start h =>
    intro t ht
    rw [List.mem_singleton.1 ht, scanStops]
    split
    · exact ⟨_, List.mem_singleton_self _, Token.isAt_at file _ _ _⟩
    · rename_i hcons
      rw [h] at hcons
      cases hcons
  | case2 mode place input place' c cs h cut start stop next hlt tail ih =>
    intro t ht
    rw [scanStops]
    split
    · rename_i hnil
      rw [h] at hnil
      cases hnil
    · rename_i d ds hcons
      obtain ⟨rfl, rfl⟩ := List.cons.inj (h.symm.trans hcons)
      rcases List.mem_append.1 ht with hcut | htail
      · obtain ⟨kind, -, rfl⟩ := Option.map_eq_some_iff.1 (Option.mem_toList.1 hcut)
        exact ⟨start, by simp [start, cut, place'], Token.isAt_at file start kind cut.text⟩
      · obtain ⟨p, hp, hat⟩ := ih t htail
        exact ⟨p, List.mem_cons_of_mem _ (List.mem_cons_of_mem _ (List.mem_cons_of_mem _ hp)), hat⟩

/-- A move over the front of what is left is a move to an offset of the source. -/
theorem Cursor.exists_advanceTo {source front rest : List Char} {p : Cursor}
    (h : source.drop p.offset = front ++ rest) :
    (∃ stop, p.advance front = p.advanceTo source stop) ∧
      source.drop (p.advance front).offset = rest := by
  constructor
  · refine ⟨p.offset + front.length, ?_⟩
    rw [Cursor.advanceTo_eq, List.drop_take, Nat.add_sub_cancel_left, h, List.take_left]
  · rw [Cursor.advance_offset, ← List.drop_drop, h, List.drop_left]

/-- **A scan moves by going on to offsets of its source.** -/
theorem isChain_scanStops {source : List Char} (mode : Mode) (place : Cursor) (input : List Char)
    (h : source.drop place.offset = input) :
    (place :: scanStops mode place input).IsChain
      fun p q => ∃ stop, q = p.advanceTo source stop := by
  fun_induction scanStops mode place input with
  | case1 mode place input place' hnil =>
    have hskipped : source.drop place.offset =
        input.takeWhile isSkipped ++ input.dropWhile isSkipped := by
      rw [h, List.takeWhile_append_dropWhile]
    exact List.isChain_pair.2 (Cursor.exists_advanceTo hskipped).1
  | case2 mode place input place' c cs hcons cut start stop hlt ih =>
    have hskipped : source.drop place.offset =
        input.takeWhile isSkipped ++ (cut.lead ++ (cut.text ++ cut.trail ++ cut.rest)) := by
      have hparts : cut.parts = c :: cs := mode.cut_parts c cs
      rw [Cut.parts] at hparts
      rw [h, ← List.append_assoc cut.lead, ← List.append_assoc cut.lead, hparts, ← hcons,
        List.takeWhile_append_dropWhile]
    obtain ⟨hplace, hlead⟩ := Cursor.exists_advanceTo hskipped
    obtain ⟨hstart, hbody⟩ := Cursor.exists_advanceTo hlead
    obtain ⟨hstop, hrest⟩ := Cursor.exists_advanceTo hbody
    rw [Cursor.advance_append] at hstop hrest
    exact List.isChain_cons_cons.2 ⟨hplace, List.isChain_cons_cons.2 ⟨hstart,
      List.isChain_cons_cons.2 ⟨hstop, ih hrest⟩⟩⟩

/-- **Moving locations over texts goes along with putting texts together and with scanning**: two
moves are one move over both texts, no text moves nothing, and the position that moving on to an
offset leads to, which is how a scan comes to its tokens, is that of the location moved over the
text up to there. -/
theorem moves_shift_locations :
    (∀ (l : Location) (a b : List Char), (l.shifted a).shifted b = l.shifted (a ++ b)) ∧
    (∀ l : Location, { l.shifted [] with endOffset := l.endOffset } = l) ∧
    (∀ (source : List Char) (p : Cursor) (stop : Nat) (file : Option String),
      let q := p.advanceTo source stop
      q.location file = (p.location file).shifted ((source.take q.offset).drop p.offset)) ∧
    ∀ (source : String) (file : Option String),
      let stops := Cursor.start :: scanStops .markup .start source.toList
      stops.IsChain (fun p q => ∃ stop, q = p.advanceTo source.toList stop) ∧
        ∀ t ∈ tokenize source file, ∃ p ∈ stops, t.IsAt p := by
  refine ⟨Location.shifted_append, fun l => ?_, Cursor.location_advanceTo, fun source file => ?_⟩
  · rw [Location.shifted_nil]
  · refine ⟨isChain_scanStops .markup .start source.toList rfl, fun t ht => ?_⟩
    obtain ⟨p, hp, hat⟩ := exists_stop_of_mem_scanFrom file .markup .start source.toList t ht
    exact ⟨p, List.mem_cons_of_mem _ hp, hat⟩

/-- Two moves that meet inside a line, over a newline each. -/
theorem twoLines_moved :
    let l : Location := { line := 4, column := 9, offset := 30, file := some "index.html" }
    (l.shifted "a\nbc".toList).shifted "d\ne".toList = l.shifted "a\nbcd\ne".toList ∧
      l.shifted "a\nbcd\ne".toList =
        { line := 6, column := 2, offset := 37, endOffset := 37, file := some "index.html" } ∧
      (∃ p ∈ Cursor.start :: scanStops .markup .start "<p>\n x".toList,
        Token.IsAt { kind := .text, text := "x", line := 2, column := 2, offset := 5 } p) := by
  intro l
  have hmem : ({ kind := .text, text := "x", line := 2, column := 2, offset := 5 } : Token) ∈
      tokenize "<p>\n x" none := by
    decide +kernel
  exact ⟨moves_shift_locations.1 l _ _, by decide +kernel,
    (moves_shift_locations.2.2.2 "<p>\n x" none).2 _ hmem⟩

end PageLint
