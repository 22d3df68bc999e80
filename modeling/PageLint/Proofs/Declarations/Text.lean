import PageLint.Proofs.ScriptTokens

/-!
# Written declarations

Declarations with `let`, `var` and `const`, each of a name and perhaps with a literal and perhaps
with a semicolon. Any skipped characters may stand between their tokens.

* `Declaration` — a declaration as it is written, with `Declaration.chars` its text and
  `Declaration.shapes` its tokens
* `Scans.declarations` — a script of declarations is scanned as their tokens
-/

namespace PageLint

/-! ## Written declarations -/

/-- Skipped characters between two tokens. -/
structure Gap where
  chars : List Char
  all_skipped : chars.all isSkipped = true

/-- The words that declare a name. -/
inductive DeclaringWord where
  | letWord
  | varWord
  | constWord
  deriving DecidableEq, Repr

def DeclaringWord.text : DeclaringWord → String
  | letWord => "let"
  | varWord => "var"
  | constWord => "const"

/-- A name that is not reserved. -/
structure NameText where
  first : Char
  others : List Char
  first_start : Text.isWordStart first = true
  others_parts : others.all Text.isWordPart = true
  not_reserved : isReserved (String.ofList (first :: others)) = false

def NameText.text (n : NameText) : String := String.ofList (n.first :: n.others)

/-- A literal: a number or a closed string. -/
inductive LiteralText where
  | number (n : NumberText)
  | string (s : StringText)

namespace LiteralText

def chars : LiteralText → List Char
  | number n => n.text
  | string s => s.text

def kind : LiteralText → TokenKind
  | number _ => .number
  | string _ => .string

def text (l : LiteralText) : String := String.ofList l.chars

end LiteralText

/-- An equals sign and a literal. -/
structure InitializerText where
  beforeSign : Gap
  afterSign : Gap
  literal : LiteralText

def InitializerText.chars (i : InitializerText) : List Char :=
  i.beforeSign.chars ++ '=' :: (i.afterSign.chars ++ i.literal.chars)

/-- A written declaration. The gap of the semicolon stands in front of it. -/
structure Declaration where
  lead : Gap
  word : DeclaringWord
  space : Gap
  space_ne : space.chars ≠ []
  name : NameText
  initializer : Option InitializerText
  semicolon : Option Gap
  trail : Gap

namespace Declaration

def initializerChars (d : Declaration) : List Char := d.initializer.elim [] InitializerText.chars

def semicolonChars (d : Declaration) : List Char := d.semicolon.elim [] fun g => g.chars ++ [';']

/-- The text of a declaration. -/
def chars (d : Declaration) : List Char :=
  d.lead.chars ++ (d.word.text.toList ++ (d.space.chars ++ (d.name.text.toList ++
    (d.initializerChars ++ (d.semicolonChars ++ d.trail.chars)))))

def initializerShapes (d : Declaration) : List (TokenKind × String) :=
  d.initializer.elim [] fun i => [(.operator, "="), (i.literal.kind, i.literal.text)]

def semicolonShapes (d : Declaration) : List (TokenKind × String) :=
  d.semicolon.elim [] fun _ => [(.punctuation, ";")]

/-- The kinds and texts of the tokens of a declaration. -/
def shapes (d : Declaration) : List (TokenKind × String) :=
  (.keyword, d.word.text) :: (.identifier, d.name.text) ::
    (d.initializerShapes ++ d.semicolonShapes)

/-- Whether a declaration ends with a literal that nothing closes. -/
def endsOpen (d : Declaration) : Bool := d.initializer.isSome && d.semicolon.isNone

end Declaration

/-- The text of declarations, separated by newlines. -/
def declarationChars (ds : List Declaration) : List Char :=
  List.intercalate ['\n'] (ds.map Declaration.chars)

/-! ## Scanning declarations -/

theorem breaks_of_skipped {gap : List Char} (h : gap.all isSkipped = true) {rest : List Char}
    (hrest : breaks rest = true) : breaks (gap ++ rest) = true := by
  cases gap with
  | nil => exact hrest
  | cons c gap =>
    rw [List.all_cons, Bool.and_eq_true] at h
    simp [breaks, isBreak, h.1]

theorem breaks_of_skipped_ne {gap : List Char} (h : gap.all isSkipped = true) (hne : gap ≠ [])
    (rest : List Char) : breaks (gap ++ rest) = true := by
  cases gap with
  | nil => exact absurd rfl hne
  | cons c gap =>
    rw [List.all_cons, Bool.and_eq_true] at h
    simp [breaks, isBreak, h.1]

theorem Scans.declaringWord (file : Option String) (w : DeclaringWord) {rest : List Char}
    (h : breaks rest = true) :
    Scans file .script (w.text.toList ++ rest) [(.keyword, w.text)] .script rest := by
  cases w with
  | letWord =>
    have hparts : ['e', 't'].all Text.isWordPart = true := by decide +kernel
    exact Scans.word file (by decide +kernel) hparts (endsWord_of_breaks h)
  | varWord =>
    have hparts : ['a', 'r'].all Text.isWordPart = true := by decide +kernel
    exact Scans.word file (by decide +kernel) hparts (endsWord_of_breaks h)
  | constWord =>
    have hparts : ['o', 'n', 's', 't'].all Text.isWordPart = true := by decide +kernel
    exact Scans.word file (by decide +kernel) hparts (endsWord_of_breaks h)

theorem wordKind_of_not_reserved {word : String} (h : isReserved word = false) :
    wordKind word = .identifier := by
  have hne : ∀ r ∈ reservedWords, word ≠ r := by
    rintro r hr rfl
    rw [isReserved, List.contains_iff_mem.2 hr] at h
    exact absurd h Bool.noConfusion
  have htrue := hne "true" (by decide)
  have hfalse := hne "false" (by decide)
  have hnull := hne "null" (by decide)
  simp [wordKind, isBooleanWord, isNullWord, htrue, hfalse, hnull, h]

theorem Scans.name (file : Option String) (n : NameText) {rest : List Char}
    (h : breaks rest = true) :
    Scans file .script (n.text.toList ++ rest) [(.identifier, n.text)] .script rest := by
  have hword := Scans.word file n.first_start n.others_parts (endsWord_of_breaks h)
  rw [wordKind_of_not_reserved n.not_reserved] at hword
  rwa [NameText.text, String.toList_ofList]

theorem Scans.literal (file : Option String) (l : LiteralText) {rest : List Char}
    (h : breaks rest = true) :
    Scans file .script (l.chars ++ rest) [(l.kind, l.text)] .script rest := by
  cases l with
  | number n => exact Scans.number file n (endsNumber_of_breaks h)
  | string s => exact Scans.string file s rest

/-- A literal does not go on an equals sign. -/
theorem LiteralText.head?_ne_equals (l : LiteralText) (rest : List Char) :
    (l.chars ++ rest).head? ≠ some '=' := by
  cases l with
  | number n =>
    obtain ⟨-, -, -, hne⟩ := not_special_of_isDigit n.first_digit
    simpa [chars, NumberText.text] using hne
  | string s =>
    have hmark : s.mark ≠ '=' := by
      intro heq
      have hquote := s.mark_quote
      rw [heq] at hquote
      exact absurd hquote (by decide)
    simpa [chars, StringText.text] using hmark

theorem Scans.initializer (file : Option String) (i : InitializerText) {rest : List Char}
    (h : breaks rest = true) :
    Scans file .script (i.chars ++ rest) [(.operator, "="), (i.literal.kind, i.literal.text)]
      .script rest := by
  have hsign : (i.afterSign.chars ++ (i.literal.chars ++ rest)).head? ≠ some '=' := by
    have hskip := i.afterSign.all_skipped
    cases hg : i.afterSign.chars with
    | nil => exact i.literal.head?_ne_equals rest
    | cons c gap =>
      rw [hg, List.all_cons, Bool.and_eq_true] at hskip
      rintro heq
      rw [Option.some.inj heq] at hskip
      exact absurd hskip.1 (by decide)
  rw [InitializerText.chars, List.append_assoc, List.cons_append, List.append_assoc]
  exact (Scans.gap file .script i.beforeSign.all_skipped _).trans
    ((Scans.equals file hsign).trans
      ((Scans.gap file .script i.afterSign.all_skipped _).trans (Scans.literal file i.literal h)))

namespace Declaration

variable (d : Declaration) {rest : List Char}

theorem breaks_semicolonChars (h : breaks rest = true) :
    breaks (d.semicolonChars ++ rest) = true := by
  unfold semicolonChars
  cases d.semicolon with
  | none => exact h
  | some g =>
    show breaks (g.chars ++ [';'] ++ rest) = true
    rw [List.append_assoc]
    exact breaks_of_skipped g.all_skipped rfl

theorem breaks_initializerChars (h : breaks rest = true) :
    breaks (d.initializerChars ++ rest) = true := by
  unfold initializerChars
  cases d.initializer with
  | none => exact h
  | some i =>
    show breaks (i.beforeSign.chars ++ _ ++ rest) = true
    rw [List.append_assoc]
    exact breaks_of_skipped i.beforeSign.all_skipped rfl

theorem scans_semicolonChars (file : Option String) (rest : List Char) :
    Scans file .script (d.semicolonChars ++ rest) d.semicolonShapes .script rest := by
  unfold semicolonChars semicolonShapes
  cases d.semicolon with
  | none => exact Scans.gap file .script rfl rest
  | some g =>
    show Scans file .script (g.chars ++ [';'] ++ rest) _ .script rest
    rw [List.append_assoc]
    exact (Scans.gap file .script g.all_skipped _).trans (Scans.semicolon file rest)

theorem scans_initializerChars (file : Option String) (h : breaks rest = true) :
    Scans file .script (d.initializerChars ++ rest) d.initializerShapes .script rest := by
  unfold initializerChars initializerShapes
  cases d.initializer with
  | none => exact Scans.gap file .script rfl rest
  | some i => exact Scans.initializer file i h

end Declaration

/-- **A declaration is scanned as its tokens.** -/
theorem Scans.declaration (file : Option String) (d : Declaration) {rest : List Char}
    (h : breaks rest = true) : Scans file .script (d.chars ++ rest) d.shapes .script rest := by
  have htrail : breaks (d.trail.chars ++ rest) = true := breaks_of_skipped d.trail.all_skipped h
  have hsemicolon := d.breaks_semicolonChars htrail
  have hinitializer := d.breaks_initializerChars hsemicolon
  have hspace := breaks_of_skipped_ne d.space.all_skipped d.space_ne
    (d.name.text.toList ++ (d.initializerChars ++ (d.semicolonChars ++ (d.trail.chars ++ rest))))
  have hall := (Scans.gap file .script d.lead.all_skipped _).trans <|
    (Scans.declaringWord file d.word hspace).trans <|
    (Scans.gap file .script d.space.all_skipped _).trans <|
    (Scans.name file d.name hinitializer).trans <|
    (d.scans_initializerChars file hsemicolon).trans <|
    (d.scans_semicolonChars file _).trans (Scans.gap file .script d.trail.all_skipped rest)
  simpa [Declaration.chars, Declaration.shapes] using hall

/-- **A script of declarations is scanned as their tokens.** -/
theorem Scans.declarations (file : Option String) (ds : List Declaration) {rest : List Char}
    (h : breaks rest = true) :
    Scans file .script (declarationChars ds ++ rest) (ds.flatMap Declaration.shapes)
      .script rest := by
  induction ds with
  | nil => exact Scans.gap file .script rfl rest
  | cons d ds ih =>
    cases ds with
    | nil => simpa [declarationChars] using Scans.declaration file d h
    | cons e ds =>
      have hnewline : breaks ('\n' :: (declarationChars (e :: ds) ++ rest)) = true := rfl
      have hall := (Scans.declaration file d hnewline).trans
        ((Scans.gap file .script (rfl : ['\n'].all isSkipped = true) _).trans ih)
      simpa [declarationChars, List.intercalate_cons_cons] using hall

end PageLint
