/-!
# Quote marks

Texts wrapped in a pair of equal quote marks, single or double, and what is between the marks.
-/

namespace PageLint.Text

/-- Whether a character is a single or double quote mark. -/
def isQuoteMark (c : Char) : Bool := c == '"' || c == '\''

/-- Whether a text of at least two characters starts and ends with the same quote mark. -/
def isQuoted : List Char → Bool
  | c :: d :: rest => isQuoteMark c && (d :: rest).getLast? == some c
  | _ => false

/-- The text between the quote marks; a text that is not quoted stays as it is. -/
def unquoted (cs : List Char) : List Char :=
  if isQuoted cs then cs.tail.dropLast else cs

/-- A quoted text is a text between two equal quote marks. -/
theorem isQuoted_iff (cs : List Char) : isQuoted cs = true ↔
    ∃ mark body, isQuoteMark mark = true ∧ cs = mark :: (body ++ [mark]) := by
  constructor
  · intro h
    match cs, h with
    | c :: d :: rest, h =>
      rw [isQuoted, Bool.and_eq_true, beq_iff_eq, List.getLast?_eq_some_iff] at h
      obtain ⟨hmark, body, hbody⟩ := h
      exact ⟨c, body, hmark, by rw [hbody]⟩
  · rintro ⟨mark, body, hmark, rfl⟩
    have hlast : (body ++ [mark]).getLast? = some mark := List.getLast?_concat
    cases body with
    | nil => simp [isQuoted, hmark]
    | cons b body =>
      rw [List.cons_append] at hlast ⊢
      rw [isQuoted, hmark, hlast]
      simp

/-- A text between quote marks is read back. -/
theorem unquoted_of_quoted {mark : Char} (hmark : isQuoteMark mark = true) (body : List Char) :
    unquoted (mark :: (body ++ [mark])) = body := by
  rw [unquoted, if_pos ((isQuoted_iff _).2 ⟨mark, body, hmark, rfl⟩), List.tail_cons,
    List.dropLast_concat]

end PageLint.Text
