import PageLint.Token.Stream

/-!
# Kinds of token in each mode

Outside scripts only markup and comments are scanned, and the opening tag of a script goes over to
the mode of scripts. Inside, only code and comments are scanned, and the closing tag goes back. So
the mode of a token can be told from the tokens in front of it.

* `Mode.scans` — the kinds of token of a mode
* `modeAfter` — the mode behind a list of tokens
* `scanFrom_inModes` — every token is of a kind that its mode scans
-/

namespace PageLint

/-- Whether tokens of a kind are scanned in a mode. -/
def Mode.scans : Mode → TokenKind → Bool
  | .markup, kind =>
    match kind with
    | .doctype | .tagOpen | .tagClose | .text | .scriptOpen | .comment | .eof => true
    | _ => false
  | .script, kind =>
    match kind with
    | .doctype | .tagOpen | .tagClose | .text | .scriptOpen => false
    | _ => true

/-- The mode behind a list of tokens. -/
def modeAfter (mode : Mode) (ts : List Token) : Mode :=
  ts.foldl (fun mode t => mode.after (some t.kind)) mode

/-- Every token is of a kind that is scanned in its mode. -/
def InModes (mode : Mode) (ts : List Token) : Prop :=
  ∀ before t after, ts = before ++ t :: after → (modeAfter mode before).scans t.kind = true

theorem inModes_cons {mode : Mode} {t : Token} {ts : List Token}
    (ht : mode.scans t.kind = true) (hts : InModes (mode.after (some t.kind)) ts) :
    InModes mode (t :: ts) := by
  intro before u after h
  cases before with
  | nil =>
    obtain ⟨rfl, -⟩ := List.cons.inj h
    exact ht
  | cons b before =>
    obtain ⟨rfl, rfl⟩ := List.cons.inj h
    exact hts before u after rfl

/-! ## Kinds of cuts -/

theorem scans_angleToken (input : List Char) : Mode.markup.scans (angleToken input).1 = true := by
  unfold angleToken
  repeat' split
  all_goals rfl

theorem scans_wordKind (word : String) : Mode.script.scans (wordKind word) = true := by
  unfold wordKind
  repeat' split
  all_goals rfl

theorem scans_markKind (c : Char) : Mode.script.scans (markKind c) = true := by
  unfold markKind
  repeat' split
  all_goals rfl

theorem scans_plainToken (c : Char) (cs : List Char) :
    Mode.script.scans (plainToken c cs).1 = true := by
  unfold plainToken
  split
  · rfl
  split
  · rfl
  split
  · exact scans_wordKind _
  split
  · rfl
  split
  · rfl
  · exact scans_markKind c

theorem scans_scriptToken (c : Char) (cs : List Char) :
    Mode.script.scans (scriptToken c cs).1 = true := by
  unfold scriptToken
  split
  · rfl
  · exact scans_plainToken c cs

/-- A cut of a mode is of a kind that the mode scans. -/
theorem Mode.scans_cut (mode : Mode) (c : Char) (cs : List Char) :
    ∀ kind ∈ (mode.cut c cs).kind, mode.scans kind = true := by
  intro kind hkind
  cases mode with
  | script =>
    obtain rfl := Option.some.inj hkind
    exact scans_scriptToken c cs
  | markup =>
    simp only [Mode.cut, markupCut] at hkind
    split at hkind
    · obtain rfl := Option.some.inj hkind
      exact scans_angleToken _
    · simp only [Cut.ofText] at hkind
      split at hkind
      · simp at hkind
      · obtain rfl := Option.some.inj hkind
        rfl

/-- **Every token of a page is of a kind that its mode scans.** -/
theorem scanFrom_inModes (file : Option String) (mode : Mode) (place : Cursor)
    (input : List Char) : InModes mode (scanFrom file mode place input).tokens := by
  fun_induction scanFrom file mode place input with
  | case1 mode place input start h =>
    refine inModes_cons ?_ ?_
    · cases mode <;> rfl
    · intro before t after h
      simp at h
  | case2 mode place input place' c cs h cut start stop next hlt tail ih =>
    have hscans : ∀ kind ∈ cut.kind, mode.scans kind = true := mode.scans_cut c cs
    cases hkind : cut.kind with
    | none =>
      have hnext : next = mode := by
        simp only [next, hkind]
        rfl
      simp only [Cut.token?, hkind, Option.map_none, Option.toList_none, List.nil_append]
      exact hnext ▸ ih
    | some kind =>
      have hnext : next = mode.after (some kind) := by simp only [next, hkind]
      simp only [Cut.token?, hkind, Option.map_some, Option.toList_some, List.singleton_append]
      exact inModes_cons (hscans kind hkind) (hnext ▸ ih)

theorem tokenize_inModes (source : String) (file : Option String) :
    InModes .markup (tokenize source file) :=
  scanFrom_inModes file .markup .start source.toList

end PageLint
