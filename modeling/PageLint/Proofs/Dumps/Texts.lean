import Mathlib.Algebra.Group.Nat.Defs
import PageLint.Json
import PageLint.Proofs.Tables

/-!
# The text of a value

No two values are written alike, on one line or indented, once the keys of their objects are in
ascending order.

A text of a value is told from what stands behind it: a string ends at its first quote mark that is
not escaped, an array and an object at their brackets. So the lemmas are about texts with anything
behind them, and say that the values agree and what is behind agrees too. Only behind a number no
digit may stand, and in the text of a value none ever does.

* `Text.decimal_append_cancel`, `Text.hexDigits_append_cancel` — numbers
* `Json.charText_append_cancel`, `Json.stringText_append_cancel` — strings
* `Json.write_cancel` — values, arrays and objects
* `Json.render_eq_iff` — equal texts are texts of equal values
-/

namespace PageLint

/-! ## Numbers -/

namespace Text

theorem digitChar_injOn : ∀ m < 16, ∀ n < 16, digitChar m = digitChar n → m = n := by decide

theorem isDigit_digitChar : ∀ n < 10, (digitChar n).isDigit = true := by decide

/-- The number that decimal digits stand for. -/
def valueOf (cs : List Char) : Nat := cs.foldl (fun n c => 10 * n + (c.toNat - '0'.toNat)) 0

theorem valueOf_concat (cs : List Char) (c : Char) :
    valueOf (cs ++ [c]) = 10 * valueOf cs + (c.toNat - '0'.toNat) := by
  rw [valueOf, List.foldl_append]
  rfl

/-- The digits of a number stand for it. -/
theorem valueOf_decimal (n : Nat) : valueOf (decimal n) = n := by
  have hdigit : ∀ d < 10, (digitChar d).toNat - '0'.toNat = d := by decide
  fun_induction decimal n with
  | case1 n h =>
    rw [← List.nil_append [digitChar n], valueOf_concat, hdigit n h]
    exact Nat.zero_add n
  | case2 n h ih =>
    rw [valueOf_concat, ih, hdigit _ (Nat.mod_lt n (by omega))]
    omega

theorem decimal_ne_nil (n : Nat) : decimal n ≠ [] := by
  rw [decimal]
  split <;> simp

theorem isDigit_of_mem_decimal (n : Nat) : ∀ c ∈ decimal n, c.isDigit = true := by
  fun_induction decimal n with
  | case1 n h => simpa using isDigit_digitChar n h
  | case2 n h ih =>
    intro c hc
    rcases List.mem_append.1 hc with hc | hc
    · exact ih c hc
    · rw [List.mem_singleton.1 hc]
      exact isDigit_digitChar _ (Nat.mod_lt n (by omega))

/-- A text that does not go on with a digit. -/
def EndsDigits (rest : List Char) : Prop := ∀ c ∈ rest.head?, c.isDigit = false

/-- Digits end where a text does not go on with one. -/
theorem digits_append_cancel {cs ds r s : List Char} (hcs : ∀ c ∈ cs, c.isDigit = true)
    (hds : ∀ c ∈ ds, c.isDigit = true) (hr : EndsDigits r) (hs : EndsDigits s)
    (h : cs ++ r = ds ++ s) : cs = ds ∧ r = s := by
  have hend {cs r : List Char} (hcs : ∀ c ∈ cs, c.isDigit = true) (hr : EndsDigits r) :
      (cs ++ r).takeWhile Char.isDigit = cs := by
    rw [List.takeWhile_append_of_pos hcs]
    cases r with
    | nil => simp
    | cons c r => simp [hr c rfl]
  have heq : cs = ds := by rw [← hend hcs hr, h, hend hds hs]
  exact ⟨heq, List.append_cancel_left (heq ▸ h)⟩

/-- **A number in decimal digits** is told from what stands behind it. -/
theorem decimal_append_cancel {m n : Nat} {r s : List Char} (hr : EndsDigits r)
    (hs : EndsDigits s) (h : decimal m ++ r = decimal n ++ s) : m = n ∧ r = s := by
  obtain ⟨hdigits, hrest⟩ :=
    digits_append_cancel (isDigit_of_mem_decimal m) (isDigit_of_mem_decimal n) hr hs h
  exact ⟨by rw [← valueOf_decimal m, hdigits, valueOf_decimal], hrest⟩

/-- A text of an integer starts with a minus sign or a digit. -/
theorem signedDecimal_eq_cons (n : Int) :
    ∃ c cs, signedDecimal n = c :: cs ∧ (c = '-' ∨ c.isDigit = true) := by
  cases n with
  | negSucc n => exact ⟨'-', _, rfl, Or.inl rfl⟩
  | ofNat n =>
    obtain ⟨c, cs, hcs⟩ := List.exists_cons_of_ne_nil (decimal_ne_nil n)
    exact ⟨c, cs, hcs, Or.inr (isDigit_of_mem_decimal n c (hcs ▸ List.mem_cons_self))⟩

/-- Digits are no text that starts with a minus sign. -/
theorem decimal_append_ne_minus (n : Nat) (r s : List Char) : decimal n ++ r ≠ '-' :: s := by
  obtain ⟨c, cs, hcs⟩ := List.exists_cons_of_ne_nil (decimal_ne_nil n)
  have hdigit : c.isDigit = true := isDigit_of_mem_decimal n c (hcs ▸ List.mem_cons_self)
  rw [hcs]
  intro h
  rw [(List.cons.inj h).1] at hdigit
  revert hdigit
  decide

/-- **An integer** is told from what stands behind it. -/
theorem signedDecimal_append_cancel {m n : Int} {r s : List Char} (hr : EndsDigits r)
    (hs : EndsDigits s) (h : signedDecimal m ++ r = signedDecimal n ++ s) : m = n ∧ r = s := by
  cases m with
  | ofNat m =>
    cases n with
    | ofNat n =>
      obtain ⟨rfl, hrest⟩ := decimal_append_cancel hr hs h
      exact ⟨rfl, hrest⟩
    | negSucc n => exact absurd h (decimal_append_ne_minus m r _)
  | negSucc m =>
    cases n with
    | ofNat n => exact absurd h.symm (decimal_append_ne_minus n s _)
    | negSucc n =>
      obtain ⟨heq, hrest⟩ := decimal_append_cancel hr hs (List.cons.inj h).2
      exact ⟨by rw [Nat.succ.inj heq], hrest⟩

@[simp] theorem length_hexDigits (width n : Nat) : (hexDigits width n).length = width := by
  induction width generalizing n with
  | zero => rfl
  | succ width ih => rw [hexDigits, List.length_append, ih]; rfl

theorem hexDigits_injOn {width m n : Nat} (hm : m < 16 ^ width) (hn : n < 16 ^ width)
    (h : hexDigits width m = hexDigits width n) : m = n := by
  induction width generalizing m n with
  | zero => rw [Nat.lt_one_iff.1 hm, Nat.lt_one_iff.1 hn]
  | succ width ih =>
    obtain ⟨hfront, hlast⟩ := List.append_inj' h rfl
    have hdiv : m / 16 = n / 16 :=
      ih (Nat.div_lt_of_lt_mul (by rwa [Nat.pow_succ'] at hm))
        (Nat.div_lt_of_lt_mul (by rwa [Nat.pow_succ'] at hn)) hfront
    have hmod : m % 16 = n % 16 :=
      digitChar_injOn _ (Nat.mod_lt m (by omega)) _ (Nat.mod_lt n (by omega))
        (List.cons.inj hlast).1
    omega

/-- **A number in hexadecimal digits of a fixed width** is told from what stands behind it. -/
theorem hexDigits_append_cancel {width m n : Nat} {r s : List Char} (hm : m < 16 ^ width)
    (hn : n < 16 ^ width) (h : hexDigits width m ++ r = hexDigits width n ++ s) :
    m = n ∧ r = s := by
  obtain ⟨hdigits, hrest⟩ := List.append_inj h (by simp)
  exact ⟨hexDigits_injOn hm hn hdigits, hrest⟩

end Text

namespace Json

/-! ## Strings -/

/-- The code units of a character. -/
def codeUnits (c : Char) : List Nat :=
  if c.toNat < 0x10000 then [c.toNat]
  else [0xD800 + (c.toNat - 0x10000) / 0x400, 0xDC00 + (c.toNat - 0x10000) % 0x400]

/-- A character by its code units. -/
def escaped (c : Char) : List Char := (codeUnits c).flatMap unitEscape

theorem unitEscape_append_cancel {m n : Nat} {r s : List Char} (hm : m < 0x10000)
    (hn : n < 0x10000) (h : unitEscape m ++ r = unitEscape n ++ s) : m = n ∧ r = s :=
  Text.hexDigits_append_cancel hm hn (List.cons.inj (List.cons.inj h).2).2

/-- The code units of a character tell it, because no character is half of a pair. -/
theorem escaped_append_cancel {c d : Char} {r s : List Char}
    (h : escaped c ++ r = escaped d ++ s) : c = d ∧ r = s := by
  have hc : c.toNat < 0xD800 ∨ 0xDFFF < c.toNat ∧ c.toNat < 0x110000 := c.valid
  have hd : d.toNat < 0xD800 ∨ 0xDFFF < d.toNat ∧ d.toNat < 0x110000 := d.valid
  simp only [escaped, codeUnits] at h
  split_ifs at h with hunit hunit' hunit' <;>
    simp only [List.flatMap_cons, List.flatMap_nil, List.append_nil, List.append_assoc] at h
  · obtain ⟨heq, hrest⟩ := unitEscape_append_cancel hunit hunit' h
    exact ⟨Char.toNat_inj.1 heq, hrest⟩
  · have heq := (unitEscape_append_cancel hunit (by omega) h).1
    omega
  · have heq := (unitEscape_append_cancel (by omega) hunit' h).1
    omega
  · obtain ⟨hhigh, hlows⟩ := unitEscape_append_cancel (by omega) (by omega) h
    obtain ⟨hlow, hrest⟩ := unitEscape_append_cancel (by omega) (by omega) hlows
    exact ⟨Char.toNat_inj.1 (by omega), hrest⟩

/-- The characters that a letter behind a backslash stands for. -/
def shortEscapes : List (Char × Char) :=
  [('"', '"'), ('\\', '\\'), ('\n', 'n'), ('\r', 'r'), ('\t', 't'), ('\x08', 'b'), ('\x0c', 'f')]

/-- The ways in which a character is written: by itself, by a letter behind a backslash, or by its
code units. -/
inductive WrittenAs (c : Char) : List Char → Prop where
  | plain (hquote : c ≠ '"') (hslash : c ≠ '\\') : WrittenAs c [c]
  | short {letter : Char} (h : (c, letter) ∈ shortEscapes) : WrittenAs c ['\\', letter]
  | units {cs : List Char} (h : escaped c = '\\' :: 'u' :: cs) : WrittenAs c ('\\' :: 'u' :: cs)

theorem writtenAs_charText (c : Char) : WrittenAs c (charText c) := by
  simp only [charText, beq_iff_eq]
  split_ifs with hquote hslash hn hr ht hb hf hplain hunit
  any_goals
    subst c
    exact .short (by decide)
  · exact .plain hquote hslash
  · exact .units (by simp [escaped, codeUnits, hunit, unitEscape])
  · exact .units (by simp [escaped, codeUnits, hunit, unitEscape])

/-- **A character** in a string is told from what stands behind it. -/
theorem WrittenAs.append_cancel {c d : Char} {cs ds r s : List Char} (hc : WrittenAs c cs)
    (hd : WrittenAs d ds) (h : cs ++ r = ds ++ s) : c = d ∧ r = s := by
  have hletter : ∀ e ∈ shortEscapes, e.2 ≠ 'u' := by decide
  have hstands : ∀ e ∈ shortEscapes, ∀ f ∈ shortEscapes, e.2 = f.2 → e.1 = f.1 := by decide
  cases hc with
  | plain _ hslash =>
    cases hd with
    | plain => exact List.cons.inj h
    | _ => exact absurd (List.cons.inj h).1 hslash
  | short hshort =>
    cases hd with
    | plain _ hslash => exact absurd (List.cons.inj h).1.symm hslash
    | short hshort' =>
      obtain ⟨heq, hrest⟩ := List.cons.inj (List.cons.inj h).2
      exact ⟨hstands _ hshort _ hshort' heq, hrest⟩
    | units => exact absurd (List.cons.inj (List.cons.inj h).2).1 (hletter _ hshort)
  | units hunits =>
    cases hd with
    | plain _ hslash => exact absurd (List.cons.inj h).1.symm hslash
    | short hshort => exact absurd (List.cons.inj (List.cons.inj h).2).1.symm (hletter _ hshort)
    | units hunits' => exact escaped_append_cancel (by rwa [hunits, hunits'])

/-- No character in a string is written with a quote mark in front. -/
theorem WrittenAs.append_ne_quote {c : Char} {cs : List Char} (h : WrittenAs c cs)
    (r s : List Char) : cs ++ r ≠ '"' :: s := by
  cases h with
  | plain hquote => exact fun h => hquote (List.cons.inj h).1
  | _ => exact fun h => absurd (List.cons.inj h).1 (by decide)

theorem charTexts_append_cancel {cs ds r s : List Char}
    (h : cs.flatMap charText ++ '"' :: r = ds.flatMap charText ++ '"' :: s) :
    cs = ds ∧ r = s := by
  induction cs generalizing ds with
  | nil =>
    cases ds with
    | nil => exact ⟨rfl, (List.cons.inj h).2⟩
    | cons d ds =>
      rw [List.flatMap_cons, List.append_assoc] at h
      exact absurd h.symm ((writtenAs_charText d).append_ne_quote _ _)
  | cons c cs ih =>
    rw [List.flatMap_cons, List.append_assoc] at h
    cases ds with
    | nil => exact absurd h ((writtenAs_charText c).append_ne_quote _ _)
    | cons d ds =>
      rw [List.flatMap_cons, List.append_assoc] at h
      obtain ⟨rfl, h'⟩ := (writtenAs_charText c).append_cancel (writtenAs_charText d) h
      obtain ⟨rfl, hrest⟩ := ih h'
      exact ⟨rfl, hrest⟩

/-- **A string** is told from what stands behind it. -/
theorem stringText_append_cancel {a b : String} {r s : List Char}
    (h : stringText a ++ r = stringText b ++ s) : a = b ∧ r = s := by
  simp only [stringText, List.cons_append, List.append_assoc, List.nil_append] at h
  obtain ⟨hchars, hrest⟩ := charTexts_append_cancel (List.cons.inj h).2
  exact ⟨String.toList_inj.1 hchars, hrest⟩

/-! ## Values -/

/-- The forms of a value. -/
inductive Form where
  | null
  | bool
  | int
  | string
  | array
  | object
  deriving DecidableEq

/-- The form of a value. -/
def form : Json → Form
  | null => .null
  | bool _ => .bool
  | int _ => .int
  | string _ => .string
  | array _ => .array
  | object _ => .object

/-- The form of the values whose text starts with a character. -/
def Form.ofChar? (c : Char) : Option Form :=
  if c = 'n' then some .null
  else if c = 't' ∨ c = 'f' then some .bool
  else if c = '-' ∨ c.isDigit then some .int
  else if c = '"' then some .string
  else if c = '[' then some .array
  else if c = '\x7b' then some .object
  else none

variable {layout : Layout} {depth : Nat} {r s : List Char}

theorem Form.ofChar?_eq_int {c : Char} (h : c = '-' ∨ c.isDigit = true) :
    Form.ofChar? c = some .int := by
  have hletter : c ≠ 'n' ∧ c ≠ 't' ∧ c ≠ 'f' := by
    refine ⟨?_, ?_, ?_⟩ <;> rintro rfl <;> exact absurd h (by decide)
  simp [Form.ofChar?, h, hletter]

/-- **The first character** of the text of a value tells its form. -/
theorem write_eq_cons (layout : Layout) (depth : Nat) (j : Json) (r : List Char) :
    ∃ c cs, write layout depth j r = c :: cs ∧ Form.ofChar? c = some j.form := by
  match j with
  | null => exact ⟨'n', _, rfl, rfl⟩
  | bool true => exact ⟨'t', _, rfl, rfl⟩
  | bool false => exact ⟨'f', _, rfl, rfl⟩
  | int n =>
    obtain ⟨c, cs, hcs, hc⟩ := Text.signedDecimal_eq_cons n
    exact ⟨c, cs ++ r, by rw [write, hcs]; rfl, Form.ofChar?_eq_int hc⟩
  | string a => exact ⟨'"', _, rfl, rfl⟩
  | array [] => exact ⟨'[', _, rfl, rfl⟩
  | array (_ :: _) => exact ⟨'[', _, rfl, rfl⟩
  | object [] => exact ⟨'\x7b', _, rfl, rfl⟩
  | object ((_, _) :: _) => exact ⟨'\x7b', _, rfl, rfl⟩

/-- Texts of values that go on alike are texts of values of one form. -/
theorem form_eq_of_write {j k : Json} (h : write layout depth j r = write layout depth k s) :
    j.form = k.form := by
  obtain ⟨c, cs, hcs, hc⟩ := write_eq_cons layout depth j r
  obtain ⟨d, ds, hds, hd⟩ := write_eq_cons layout depth k s
  rw [hcs, hds] at h
  rw [(List.cons.inj h).1, hd] at hc
  exact (Option.some.inj hc).symm

/-- No value is written with a closing bracket in front. -/
theorem write_ne_bracket (j : Json) : write layout depth j r ≠ ']' :: s := by
  obtain ⟨c, cs, hcs, hc⟩ := write_eq_cons layout depth j r
  rw [hcs]
  intro h
  rw [(List.cons.inj h).1] at hc
  cases hc

/-- A line break does not start with the character that closes an array or an object. -/
theorem lineBreak_append_ne {c : Char} {cs : List Char} (hbreak : c ≠ '\n')
    (hcs : ∀ s, cs ≠ c :: s) : layout.lineBreak depth ++ cs ≠ c :: s := by
  cases layout with
  | oneLine => exact hcs s
  | indented width => exact fun h => hbreak (List.cons.inj h).1.symm

/-- Where an array or an object ends no separator stands. -/
theorem lineBreak_append_ne_separator {c : Char} {d : Nat} (hc : c ≠ ',') :
    layout.lineBreak depth ++ c :: r ≠ layout.separator d ++ s := by
  cases layout with
  | oneLine => exact fun h => hc (List.cons.inj h).1
  | indented width => exact fun h => absurd (List.cons.inj h).1 (by decide)

theorem endsDigits_lineBreak {c : Char} (hc : c.isDigit = false) :
    Text.EndsDigits (layout.lineBreak depth ++ c :: r) := by
  cases layout with
  | oneLine => rintro d ⟨⟩; exact hc
  | indented width => rintro d ⟨⟩; decide

theorem endsDigits_separator : Text.EndsDigits (layout.separator depth ++ r) := by
  cases layout <;> rintro d ⟨⟩ <;> decide

/-- Behind an item of an array no digit stands. -/
theorem endsDigits_writeItems (js : List Json) :
    Text.EndsDigits (writeItems layout depth js r) := by
  cases js with
  | nil => exact endsDigits_lineBreak (by decide)
  | cons j js => exact endsDigits_separator

/-- Behind a field of an object no digit stands. -/
theorem endsDigits_writeFields (fields : List (String × Json)) :
    Text.EndsDigits (writeFields layout depth fields r) := by
  match fields with
  | [] => exact endsDigits_lineBreak (by decide)
  | (_, _) :: _ => exact endsDigits_separator

mutual

/-- **A value** is told from what stands behind it. -/
theorem write_cancel {layout : Layout} {depth : Nat} {r s : List Char} (j k : Json)
    (hr : Text.EndsDigits r) (hs : Text.EndsDigits s)
    (h : write layout depth j r = write layout depth k s) : j = k ∧ r = s := by
  have hform := form_eq_of_write h
  match j, k with
  | null, null => simpa [write] using h
  | bool true, bool true | bool false, bool false => simpa [write] using h
  | bool true, bool false | bool false, bool true => simp [write] at h
  | int m, int n =>
    obtain ⟨rfl, hrest⟩ := Text.signedDecimal_append_cancel hr hs h
    exact ⟨rfl, hrest⟩
  | string a, string b =>
    obtain ⟨rfl, hrest⟩ := stringText_append_cancel h
    exact ⟨rfl, hrest⟩
  | array [], array [] => simpa [write] using h
  | array [], array (k :: ks) =>
    exact absurd (List.cons.inj h).2.symm
      (lineBreak_append_ne (by decide) fun _ => write_ne_bracket k)
  | array (j :: js), array [] =>
    exact absurd (List.cons.inj h).2
      (lineBreak_append_ne (by decide) fun _ => write_ne_bracket j)
  | array (j :: js), array (k :: ks) =>
    have h' := List.append_cancel_left (List.cons.inj h).2
    obtain ⟨rfl, hitems⟩ :=
      write_cancel j k (endsDigits_writeItems js) (endsDigits_writeItems ks) h'
    obtain ⟨rfl, hrest⟩ := writeItems_cancel js ks hitems
    exact ⟨rfl, hrest⟩
  | object [], object [] => simpa [write] using h
  | object [], object ((key, k) :: ks) =>
    exact absurd (List.cons.inj h).2.symm
      (lineBreak_append_ne (by decide) fun _ h => absurd (List.cons.inj h).1 (by decide))
  | object ((key, j) :: js), object [] =>
    exact absurd (List.cons.inj h).2
      (lineBreak_append_ne (by decide) fun _ h => absurd (List.cons.inj h).1 (by decide))
  | object ((key, j) :: js), object ((key', k) :: ks) =>
    have h' := List.append_cancel_left (List.cons.inj h).2
    obtain ⟨rfl, hvalue⟩ := stringText_append_cancel h'
    obtain ⟨rfl, hfields⟩ :=
      write_cancel j k (endsDigits_writeFields js) (endsDigits_writeFields ks)
        (List.cons.inj (List.cons.inj hvalue).2).2
    obtain ⟨rfl, hrest⟩ := writeFields_cancel js ks hfields
    exact ⟨rfl, hrest⟩

/-- **Further items** and the end of their array are told from what stands behind. -/
theorem writeItems_cancel {layout : Layout} {depth : Nat} {r s : List Char} (js ks : List Json)
    (h : writeItems layout depth js r = writeItems layout depth ks s) : js = ks ∧ r = s := by
  match js, ks with
  | [], [] => exact ⟨rfl, (List.cons.inj (List.append_cancel_left h)).2⟩
  | [], k :: ks => exact absurd h (lineBreak_append_ne_separator (by decide))
  | j :: js, [] => exact absurd h.symm (lineBreak_append_ne_separator (by decide))
  | j :: js, k :: ks =>
    obtain ⟨rfl, hitems⟩ := write_cancel j k (endsDigits_writeItems js) (endsDigits_writeItems ks)
      (List.append_cancel_left h)
    obtain ⟨rfl, hrest⟩ := writeItems_cancel js ks hitems
    exact ⟨rfl, hrest⟩

/-- **Further fields** and the end of their object are told from what stands behind. -/
theorem writeFields_cancel {layout : Layout} {depth : Nat} {r s : List Char}
    (js ks : List (String × Json))
    (h : writeFields layout depth js r = writeFields layout depth ks s) : js = ks ∧ r = s := by
  match js, ks with
  | [], [] => exact ⟨rfl, (List.cons.inj (List.append_cancel_left h)).2⟩
  | [], (_, _) :: _ => exact absurd h (lineBreak_append_ne_separator (by decide))
  | (_, _) :: _, [] => exact absurd h.symm (lineBreak_append_ne_separator (by decide))
  | (key, j) :: js, (key', k) :: ks =>
    obtain ⟨rfl, hvalue⟩ := stringText_append_cancel (List.append_cancel_left h)
    obtain ⟨rfl, hfields⟩ :=
      write_cancel j k (endsDigits_writeFields js) (endsDigits_writeFields ks)
        (List.cons.inj (List.cons.inj hvalue).2).2
    obtain ⟨rfl, hrest⟩ := writeFields_cancel js ks hfields
    exact ⟨rfl, hrest⟩

end

/-- **Equal texts are texts of equal values**, up to the order of the keys. -/
theorem render_eq_iff {j k : Json} :
    render layout j = render layout k ↔ j.sortKeys = k.sortKeys := by
  constructor
  · intro h
    have hempty : Text.EndsDigits [] := by rintro c ⟨⟩
    exact (write_cancel _ _ hempty hempty (String.ofList_injective h)).1
  · intro h
    rw [render, render, h]

/-! ## Key order -/

theorem sortKeysItems_eq_map (js : List Json) : sortKeysItems js = js.map sortKeys := by
  induction js with
  | nil => rfl
  | cons j js ih => rw [sortKeysItems, ih, List.map_cons]

theorem sortKeysFields_eq_map (fields : List (String × Json)) :
    sortKeysFields fields = fields.map fun f => (f.1, f.2.sortKeys) := by
  induction fields with
  | nil => rfl
  | cons f fields ih => rw [sortKeysFields, ih, List.map_cons]

/-- Objects that agree once their keys are in order have the same fields in some order. -/
theorem perm_of_sortKeys {as bs : List (String × Json)}
    (h : (object as).sortKeys = (object bs).sortKeys) :
    (as.map fun f => (f.1, f.2.sortKeys)).Perm (bs.map fun f => (f.1, f.2.sortKeys)) := by
  simp only [sortKeys, sortKeysFields_eq_map] at h
  exact (List.mergeSort_perm _ _).symm.trans
    ((List.Perm.of_eq (Json.object.inj h)).trans (List.mergeSort_perm _ _))

/-- Objects with the same keys in the same order agree field by field once their keys are sorted
alike. -/
theorem fields_eq_of_sortKeys {as bs : List (String × Json)}
    (h : (object as).sortKeys = (object bs).sortKeys)
    (hkeys : as.map Prod.fst = bs.map Prod.fst) (hnd : (bs.map Prod.fst).Nodup) :
    (as.map fun f => (f.1, f.2.sortKeys)) = bs.map fun f => (f.1, f.2.sortKeys) := by
  have hfst (cs : List (String × Json)) :
      (cs.map fun f => (f.1, f.2.sortKeys)).map Prod.fst = cs.map Prod.fst := List.map_map
  exact eq_of_perm_of_keys (perm_of_sortKeys h) (by rw [hfst, hfst, hkeys]) (by rwa [hfst])

end Json

end PageLint
