import PageLint.Proofs.Folding
import PageLint.Proofs.RoundTrip.Tags
import PageLint.Proofs.ScriptTokens
import PageLint.Proofs.Tiling

/-!
# Scanning written elements

Trees of elements are written as markup: an element as its opening tag, its contents and its
closing tag, or as one tag that closes itself. Scanning the markup gives one token for each tag and
each text.

* `Element` — a tree of elements and texts
* `Element.Writable` — names, values and texts that markup can hold
* `Element.write` — a tree as markup
* `scan_write` — the tokens of written trees
-/

namespace PageLint

/-! ## Trees -/

/-- An element with its attributes and contents, or a text. -/
inductive Element where
  | tag (name : String) (attributes : List (String × String)) (selfClosing : Bool)
      (children : List Element)
  | text (content : String)

/-- Whether a tree is a text. -/
def Element.isText : Element → Bool
  | .tag .. => false
  | .text _ => true

/-- The name of an element that can be written. -/
structure IsTagName (name : String) : Prop where
  ne_empty : name ≠ ""
  lowered_eq : lowered name = name
  plain : ∀ c ∈ name.toList, isDelimiter c = false
  not_bang : name.toList.head? ≠ some '!'
  not_script : name ≠ "script"

/-- The name and value of an attribute that can be written. -/
structure IsAttribute (a : String × String) : Prop where
  ne_empty : a.1 ≠ ""
  plain : ∀ c ∈ a.1.toList, isDelimiter c = false ∧ c ≠ '='
  value : '"' ∉ a.2.toList

/-- A text that can be written. -/
structure IsContent (content : String) : Prop where
  ne_empty : content ≠ ""
  trimmed : Text.trim content.toList = content.toList
  no_angle : '<' ∉ content.toList

instance (name : String) : Decidable (IsTagName name) :=
  decidable_of_iff (name ≠ "" ∧ lowered name = name ∧
      name.toList.all (fun c => isDelimiter c == false) = true ∧
      name.toList.head? ≠ some '!' ∧ name ≠ "script")
    ⟨fun ⟨hne, hlower, hplain, hbang, hscript⟩ =>
      ⟨hne, hlower, fun c hc => by simpa using List.all_eq_true.1 hplain c hc, hbang, hscript⟩,
    fun h => ⟨h.ne_empty, h.lowered_eq,
      List.all_eq_true.2 fun c hc => by simpa using h.plain c hc, h.not_bang, h.not_script⟩⟩

instance (a : String × String) : Decidable (IsAttribute a) :=
  decidable_of_iff (a.1 ≠ "" ∧
      a.1.toList.all (fun c => isDelimiter c == false && c != '=') = true ∧ '"' ∉ a.2.toList)
    ⟨fun ⟨hne, hplain, hvalue⟩ =>
      ⟨hne, fun c hc => by simpa using List.all_eq_true.1 hplain c hc, hvalue⟩,
    fun h => ⟨h.ne_empty, List.all_eq_true.2 fun c hc => by simpa using h.plain c hc, h.value⟩⟩

instance (content : String) : Decidable (IsContent content) :=
  decidable_of_iff (content ≠ "" ∧ Text.trim content.toList = content.toList ∧
      '<' ∉ content.toList)
    ⟨fun ⟨hne, htrim, hangle⟩ => ⟨hne, htrim, hangle⟩,
    fun h => ⟨h.ne_empty, h.trimmed, h.no_angle⟩⟩

mutual

/-- A tree that can be written: its names, values and texts can, and an element that closes itself
has no contents. -/
def Element.Writable : Element → Prop
  | .tag name attributes selfClosing children =>
    IsTagName name ∧ (∀ a ∈ attributes, IsAttribute a) ∧ (selfClosing = true → children = []) ∧
      Element.AllWritable children
  | .text content => IsContent content

/-- Trees that can be written next to each other: no text follows a text. -/
def Element.AllWritable : List Element → Prop
  | [] => True
  | e :: es =>
    e.Writable ∧ (e.isText = true → ∀ f ∈ es.head?, f.isText = false) ∧ Element.AllWritable es

end

/-! ## Markup -/

/-- The opening tag of an element. -/
def openingText (name : String) (attributes : List (String × String)) (selfClosing : Bool) :
    List Char :=
  '<' :: (name.toList ++ (attributes.flatMap fun a => ' ' :: attributeText (a.1.toList, a.2.toList))
    ++ TagHead.ending selfClosing)

mutual

/-- A tree as markup. -/
def Element.write : Element → List Char
  | .tag name attributes selfClosing children =>
    openingText name attributes selfClosing ++
      if selfClosing then [] else Element.writeAll children ++ closingText name.toList
  | .text content => content.toList

def Element.writeAll : List Element → List Char
  | [] => []
  | e :: es => e.write ++ Element.writeAll es

end

mutual

/-- The kinds and texts of the tokens of a tree. -/
def Element.shapes : Element → List (TokenKind × String)
  | .tag name attributes selfClosing children =>
    (.tagOpen, String.ofList (openingText name attributes selfClosing)) ::
      if selfClosing then []
      else Element.allShapes children ++ [(.tagClose, String.ofList (closingText name.toList))]
  | .text content => [(.text, content)]

def Element.allShapes : List Element → List (TokenKind × String)
  | [] => []
  | e :: es => e.shapes ++ Element.allShapes es

end

/-- The name and attributes of an element that can be written. -/
def IsTagName.head {name : String} (h : IsTagName name) {attributes : List (String × String)}
    (ha : ∀ a ∈ attributes, IsAttribute a) : TagHead where
  name := name.toList
  attributes := attributes.map fun a => (a.1.toList, a.2.toList)
  name_ne := by simpa using h.ne_empty
  name_plain := h.plain
  attribute_ne := by
    intro a hmem
    obtain ⟨b, hb, rfl⟩ := List.mem_map.1 hmem
    simpa using (ha b hb).ne_empty
  attribute_plain := by
    intro a hmem
    obtain ⟨b, hb, rfl⟩ := List.mem_map.1 hmem
    exact (ha b hb).plain
  value_plain := by
    intro a hmem
    obtain ⟨b, hb, rfl⟩ := List.mem_map.1 hmem
    exact (ha b hb).value

theorem IsTagName.text_head {name : String} (h : IsTagName name)
    {attributes : List (String × String)} (ha : ∀ a ∈ attributes, IsAttribute a)
    (selfClosing : Bool) :
    (h.head ha).text selfClosing = openingText name attributes selfClosing := by
  simp [TagHead.text, TagHead.inner, IsTagName.head, openingText, List.flatMap_map]

/-! ## Names in lower case -/

namespace Text

/-- A text that is its own lower case holds no capital letter. -/
theorem toLower_of_lowerAfter {before cs : List Char} (h : lowerAfter before cs = cs) :
    ∀ c ∈ cs, c.toLower = c := by
  induction cs generalizing before with
  | nil => simp
  | cons c cs ih =>
    rw [lowerAfter] at h
    rcases lowerChar_cases before c cs with ⟨rfl, hchar⟩ | ⟨d, hchar, hlower⟩
    · rw [hchar] at h
      exact absurd (List.cons.inj h).1 (by decide)
    · rw [hchar] at h
      obtain ⟨rfl, hrest⟩ := List.cons.inj h
      exact List.forall_mem_cons.2 ⟨hlower rfl, ih hrest⟩

/-- A folded word in front of a text without capitals stands there as it is. -/
theorem prefix_of_folded {word name : List Char} (tail : List Char)
    (hname : ∀ c ∈ name, c.toLower = c)
    (htail : ∀ c ∈ tail.head?, c.toLower ∉ word)
    (h : ((name ++ tail).take word.length).map Char.toLower = word) : word <+: name := by
  induction word generalizing name with
  | nil => exact List.nil_prefix
  | cons w word ih =>
    cases name with
    | nil =>
      cases tail with
      | nil => simp at h
      | cons c tail =>
        have hw : c.toLower = w := (List.cons.inj h).1
        exact absurd (hw ▸ List.mem_cons_self) (htail c rfl)
    | cons c name =>
      obtain ⟨hw, hrest⟩ := List.cons.inj h
      rw [hname c List.mem_cons_self] at hw
      subst hw
      refine List.cons_prefix_cons.2
        ⟨rfl, ih (fun d hd => hname d (List.mem_cons_of_mem _ hd)) ?_ hrest⟩
      exact fun d hd hmem => htail d hd (List.mem_cons_of_mem _ hmem)

end Text

/-! ## Tags -/

theorem IsTagName.toLower {name : String} (h : IsTagName name) :
    ∀ c ∈ name.toList, c.toLower = c := by
  have hlower := congrArg String.toList h.lowered_eq
  rw [lowered, String.toList_ofList] at hlower
  exact Text.toLower_of_lowerAfter hlower

/-- A piece of markup in angle brackets that is cut off as a token. -/
theorem Scans.angle (file : Option String) {piece rest : List Char} {kind : TokenKind}
    (hk : Mode.after .markup (some kind) = .markup)
    (h : angleToken ('<' :: (piece ++ rest)) = (kind, piece.length + 1)) :
    Scans file .markup ('<' :: (piece ++ rest)) [(kind, String.ofList ('<' :: piece))] .markup
      rest := by
  have hcut : Mode.cut .markup '<' (piece ++ rest) =
      Cut.ofLength kind (piece.length + 1) ('<' :: (piece ++ rest)) := by
    show markupCut ('<' :: (piece ++ rest)) = _
    rw [markupCut, if_pos (by simp), h]
  have := Scans.cut file piece (by decide) hcut
  rwa [hk] at this

/-- What stands behind the name of an element in its opening tag. -/
theorem openingText_eq (name : String) (attributes : List (String × String)) (selfClosing : Bool)
    (rest : List Char) : ∃ tail, openingText name attributes selfClosing ++ rest =
      '<' :: (name.toList ++ tail) ∧ ∀ c ∈ tail.head?, c = ' ' ∨ c = '/' ∨ c = '>' := by
  refine ⟨(attributes.flatMap fun a => ' ' :: attributeText (a.1.toList, a.2.toList))
    ++ (TagHead.ending selfClosing ++ rest), by simp [openingText], ?_⟩
  cases attributes with
  | cons a as =>
    rintro _ ⟨⟩
    exact Or.inl rfl
  | nil =>
    cases selfClosing
    · rintro _ ⟨⟩
      exact Or.inr (Or.inr rfl)
    · rintro _ ⟨⟩
      exact Or.inr (Or.inl rfl)

/-- The name of an element that can be written opens no script. -/
theorem IsTagName.opensScript_eq_false {name : String} (h : IsTagName name) {tail : List Char}
    (htail : ∀ c ∈ tail.head?, c = ' ' ∨ c = '/' ∨ c = '>') :
    opensScript ('<' :: (name.toList ++ tail)) = false := by
  refine Bool.eq_false_iff.2 fun hopens => ?_
  obtain ⟨hfolded, hends⟩ := Bool.and_eq_true_iff.1 hopens
  have hprefix : ['s', 'c', 'r', 'i', 'p', 't'] <+: name.toList := by
    refine Text.prefix_of_folded tail h.toLower (fun c hc => ?_) ?_
    · rcases htail c hc with rfl | rfl | rfl <;> decide
    · rw [Text.startsWithFolded, beq_iff_eq] at hfolded
      exact (List.cons.inj hfolded).2
  obtain ⟨more, hmore⟩ := hprefix
  -- Behind the word the name goes on, and no character of it ends the name of a script.
  cases more with
  | nil =>
    refine h.not_script ?_
    rw [← String.ofList_toList (s := name), ← hmore]
    rfl
  | cons c more =>
    have hplain : isDelimiter c = false := h.plain c (by simp [← hmore])
    obtain ⟨hblank, -, -, hangle, hslash⟩ := not_of_isDelimiter hplain
    have hdrop : ('<' :: (name.toList ++ tail)).drop 7 = c :: (more ++ tail) := by
      rw [← hmore]
      rfl
    have hspaces : ∀ d ∈ [' ', '\t', '\r', '\n', '\x0c'], c ≠ d := by
      rintro d hd rfl
      have hblanks : [' ', '\t', '\r', '\n', '\x0c'].all Text.isBlank = true := by decide
      rw [List.all_eq_true.1 hblanks c hd] at hblank
      exact absurd hblank (by decide)
    rw [hdrop, endsScriptName] at hends
    simp [hangle, hslash] at hends hspaces
    simp [hspaces] at hends

/-- **An opening tag is scanned as one token.** -/
theorem IsTagName.scans_opening {name : String} (h : IsTagName name)
    {attributes : List (String × String)} (ha : ∀ a ∈ attributes, IsAttribute a)
    (selfClosing : Bool) (file : Option String) (rest : List Char) :
    Scans file .markup (openingText name attributes selfClosing ++ rest)
      [(.tagOpen, String.ofList (openingText name attributes selfClosing))] .markup rest := by
  obtain ⟨tail, htext, htail⟩ := openingText_eq name attributes selfClosing rest
  obtain ⟨c, cs, hname⟩ := List.exists_cons_of_ne_nil (h.head ha).name_ne
  replace hname : name.toList = c :: cs := hname
  have hbang : c ≠ '!' := by simpa [hname] using h.not_bang
  have hslash : c ≠ '/' := (not_of_isDelimiter (h.plain c (by simp [hname]))).2.2.2.2
  have hlower : c.toLower = c := h.toLower c (by simp [hname])
  have hlength : tagLength none (openingText name attributes selfClosing ++ rest) =
      (openingText name attributes selfClosing).length := by
    rw [← h.text_head ha, TagHead.tagLength_text]
  have hkind : angleToken (openingText name attributes selfClosing ++ rest) =
      (.tagOpen, (openingText name attributes selfClosing).length) := by
    rw [angleToken, hlength, htext, h.opensScript_eq_false htail, hname]
    simp [opensDoctype, Text.startsWithFolded, List.isPrefixOf, hlower, hbang, hbang.symm,
      hslash.symm]
  exact Scans.angle file rfl hkind

/-- **A closing tag is scanned as one token.** -/
theorem IsTagName.scans_closing {name : String} (h : IsTagName name) (file : Option String)
    (rest : List Char) :
    Scans file .markup (closingText name.toList ++ rest)
      [(.tagClose, String.ofList (closingText name.toList))] .markup rest := by
  have hkind : angleToken (closingText name.toList ++ rest) =
      (.tagClose, (closingText name.toList).length) := by
    rw [angleToken, lengthThrough_closingText h.plain]
    simp [closingText, opensScript, opensDoctype, Text.startsWithFolded, List.isPrefixOf]
  exact Scans.angle file rfl hkind

/-! ## Texts -/

theorem Text.trimLeft_of_trim {cs : List Char} (h : Text.trim cs = cs) : Text.trimLeft cs = cs := by
  have hsuffix : Text.trimLeft cs <:+ cs := List.dropWhile_suffix _
  refine hsuffix.eq_of_length (Nat.le_antisymm hsuffix.length_le ?_)
  have hle : (Text.trim cs).length ≤ (Text.trimLeft cs).length := by
    rw [Text.trim, Text.trimRight, List.length_reverse]
    exact (List.dropWhile_suffix _).length_le.trans_eq List.length_reverse
  rwa [h] at hle

theorem takeWhile_eq_nil_of_dropWhile {p : Char → Bool} {cs : List Char}
    (h : cs.dropWhile p = cs) : cs.takeWhile p = [] := by
  have := List.takeWhile_append_dropWhile (p := p) (l := cs)
  rw [h] at this
  simpa using this

/-- **A text in front of a tag is scanned as one token.** -/
theorem IsContent.scans {content : String} (h : IsContent content) (file : Option String)
    {rest : List Char} (hrest : ∀ c ∈ rest.head?, c = '<') :
    Scans file .markup (content.toList ++ rest) [(.text, content)] .markup rest := by
  intro place
  have hleft := Text.trimLeft_of_trim h.trimmed
  have hright : Text.trimRight content.toList = content.toList := by
    have := h.trimmed
    rwa [Text.trim, hleft] at this
  obtain ⟨c, cs, hcs⟩ := List.exists_cons_of_ne_nil
    (show content.toList ≠ [] by simpa using h.ne_empty)
  have hpass : ∀ d ∈ content.toList, (d != '<') = true := by
    intro d hd
    simpa using fun he : d = '<' => h.no_angle (he ▸ hd)
  have hstop : rest.takeWhile (· != '<') = [] ∧ rest.dropWhile (· != '<') = rest := by
    cases rest with
    | nil => exact ⟨rfl, rfl⟩
    | cons d rest => simp [hrest d rfl]
  have hcut : markupCut (content.toList ++ rest) =
      { lead := [], kind := some .text, text := content.toList, trail := [], rest } := by
    have hangle : c ≠ '<' := by simpa using hpass c (by simp [hcs])
    have htrail : (content.toList.reverse.takeWhile Text.isBlank).reverse = [] := by
      rw [List.reverse_eq_nil_iff]
      refine takeWhile_eq_nil_of_dropWhile ?_
      rw [← List.reverse_inj, List.reverse_reverse]
      exact hright
    rw [markupCut, if_neg (by simp [hcs, hangle]), List.takeWhile_append_of_pos hpass,
      List.dropWhile_append_of_pos hpass, hstop.1, hstop.2, List.append_nil, Cut.ofText, hleft,
      hright, htrail, takeWhile_eq_nil_of_dropWhile hleft]
    simp [hcs]
  have hskip : isSkipped c = false := by
    refine Bool.eq_false_iff.2 fun hc => ?_
    have hblank := isBlank_of_isSkipped hc
    rw [hcs, Text.trimLeft, List.dropWhile_cons_of_pos hblank] at hleft
    have := (List.dropWhile_suffix Text.isBlank (l := cs)).length_le
    rw [hleft, List.length_cons] at this
    omega
  have hdrop : (content.toList ++ rest).dropWhile isSkipped = c :: (cs ++ rest) := by
    rw [hcs, List.cons_append, List.dropWhile_cons_of_neg (by simp [hskip])]
  have hmode : Mode.cut .markup c (cs ++ rest) = markupCut (content.toList ++ rest) := by
    rw [hcs]
    rfl
  rw [scanFrom_cons hdrop, hmode, hcut]
  refine ⟨[_], _, rfl, ?_⟩
  simp [Token.shape, Token.at]

/-! ## Trees -/

/-- Markup of a tree that is no text starts with a tag. -/
theorem Element.write_head {e : Element} (h : e.isText = false) (rest : List Char) :
    (e.write ++ rest).head? = some '<' := by
  cases e with
  | tag name attributes selfClosing children =>
    rw [Element.write]
    rfl
  | text content => simp [Element.isText] at h

mutual

/-- **A tree is scanned as its tokens**, where a text is followed by a tag. -/
theorem Element.Writable.scans {e : Element} (h : e.Writable) (file : Option String)
    {rest : List Char} (hrest : e.isText = true → ∀ c ∈ rest.head?, c = '<') :
    Scans file .markup (e.write ++ rest) e.shapes .markup rest := by
  match e with
  | .text content =>
    rw [Element.Writable] at h
    rw [Element.write, Element.shapes]
    exact h.scans file (hrest rfl)
  | .tag name attributes selfClosing children =>
    rw [Element.Writable] at h
    obtain ⟨hname, hattributes, -, hchildren⟩ := h
    rw [Element.write, Element.shapes, List.append_assoc]
    have hopening := hname.scans_opening hattributes selfClosing file
    cases selfClosing with
    | true => exact hopening rest
    | false =>
      simp only [Bool.false_eq_true, if_false, List.append_assoc]
      refine (hopening _).trans ((Element.AllWritable.scans hchildren file ?_).trans
        (hname.scans_closing file rest))
      rintro _ ⟨⟩
      rfl

theorem Element.AllWritable.scans {es : List Element} (h : Element.AllWritable es)
    (file : Option String) {rest : List Char} (hrest : ∀ c ∈ rest.head?, c = '<') :
    Scans file .markup (Element.writeAll es ++ rest) (Element.allShapes es) .markup rest := by
  match es with
  | [] =>
    rw [Element.writeAll, Element.allShapes]
    exact Scans.gap file .markup rfl rest
  | e :: es =>
    rw [Element.AllWritable] at h
    obtain ⟨he, hapart, hes⟩ := h
    rw [Element.writeAll, Element.allShapes, List.append_assoc]
    refine (Element.Writable.scans he file ?_).trans (Element.AllWritable.scans hes file hrest)
    intro htext
    cases es with
    | nil => exact hrest
    | cons f es =>
      rw [Element.writeAll, List.append_assoc, Element.write_head (hapart htext f rfl)]
      rintro _ ⟨⟩
      rfl

end

/-- **The tokens of written trees are those of their tags and texts**, and the end of the input. -/
theorem scan_write {es : List Element} (h : Element.AllWritable es) (file : Option String) :
    (tokenize (String.ofList (Element.writeAll es)) file).map Token.shape =
      Element.allShapes es ++ [(.eof, "")] := by
  have hscans := Element.AllWritable.scans h file
    (show ∀ c ∈ ([] : List Char).head?, c = '<' by simp)
  obtain ⟨tokens, place, htokens, hshapes⟩ := hscans Cursor.start
  have hend : ([] : List Char).dropWhile isSkipped = [] := rfl
  rw [List.append_nil] at htokens
  rw [tokenize, scan, String.toList_ofList, htokens, scanFrom_nil hend, List.map_append, hshapes]
  rfl

end PageLint
