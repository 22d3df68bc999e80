import PageLint.Proofs.Reports.Layout
import PageLint.Proofs.Reports.Lines
import PageLint.Proofs.Views.Pages

/-!
# Where a report shows the diagnostics of a page

Every diagnostic of a page that is not empty names a line of its source, so a report shows each one
beneath its line and none behind the last line.

That the lines stay inside the source is seen from a view that moves all lines outside of it: the
tokens of a page are shown as they are, so its findings are, and no finding is on a line that moves.

* `Report.entries_eq`, `Report.format_eq` — a report when all diagnostics are on lines of the source
* `findings_onLines` — the lines of what is found in a page
* `report_shows_all` — tokens and diagnostics in the lines of a source
-/

namespace PageLint

/-! ## Entries of a report -/

namespace Report

/-- Whether diagnostics name lines among the first so many. -/
def OnLines (count : Nat) (ds : List Diagnostic) : Prop :=
  ∀ d ∈ ds, 1 ≤ d.line ∧ d.line ≤ count

theorem otherEntries_eq_nil {count : Nat} {ds : List Diagnostic} (h : OnLines count ds) :
    otherEntries (groupByLine ds) count = [] := by
  have hnone : (ds.filter fun d => !isWithin 1 count d.line) = [] := by
    rw [List.filter_eq_nil_iff]
    intro d hd
    rw [isWithin_iff.2 (h d hd)]
    decide
  rw [otherEntries_eq, hnone, sortByLine, List.mergeSort_nil, List.map_nil]

/-- A report shows diagnostics on lines of the source beneath their lines, and that is all of it. -/
theorem entries_eq {source : String} {ds : List Diagnostic}
    (h : OnLines (Text.sourceLines source).length ds) :
    entries source ds = beneath ds ((Text.sourceLines source).zipIdx 1) := by
  rw [entries, otherEntries_eq_nil h, List.append_nil, lineEntries_eq]

/-- The text of a report that shows every diagnostic beneath its line. -/
theorem format_eq {source : String} {ds : List Diagnostic}
    (h : OnLines (Text.sourceLines source).length ds) :
    format source ds = String.join
      ((beneath ds ((Text.sourceLines source).zipIdx 1)).map fun entry => entry ++ "\n") := by
  rw [format, entries_eq h]

end Report

/-! ## The lines of what is found -/

/-- The view that moves every line that is not among the first so many. -/
def View.stayingOn (count : Nat) : View where
  line := fun n => if 1 ≤ n ∧ n ≤ count then n else n + 1
  returns := 0

theorem View.stayingOn_line {count : Nat} {n : Int} :
    (View.stayingOn count).line n = n ↔ 1 ≤ n ∧ n ≤ count := by
  rw [View.stayingOn]
  constructor
  · intro h
    by_contra hout
    simp only [hout, if_false] at h
    omega
  · intro h
    simp only [h, and_self, if_true]

/-- The tokens of a page are on lines of its source, and so are the tags inside them. -/
theorem shown_stayingOn {source : String} {file : Option String} {t : Token}
    (ht : t ∈ tokenize source file) (hkind : t.kind ≠ .eof) :
    t.ShownAs (View.stayingOn (Text.sourceLines source).length) t := by
  obtain ⟨before, after, hbehind⟩ := tokenize_behind source file t ht hkind
  have hlength : (Text.sourceLines source).length = (Text.lines source.toList).length :=
    List.length_map ..
  have hstays : ∀ n < t.text.toList.length,
      (View.stayingOn (Text.sourceLines source).length).line
          (t.line + (t.text.toList.take n).count '\n') =
        t.line + (t.text.toList.take n).count '\n' := by
    intro n hn
    rw [View.stayingOn_line, hlength]
    exact hbehind.inside_lines hn
  have hline : (View.stayingOn (Text.sourceLines source).length).line t.line = t.line := by
    have := hstays 0 (List.length_pos_iff.2 hbehind.ne_nil)
    simpa using this
  exact {
    kind := rfl
    line := hline.symm
    text := fun _ => (View.text_of_returns_eq_zero rfl _).symm
    spelled := fun _ => View.text_of_returns_eq_zero rfl _
    within := fun _ n hn => by rw [hstays n hn, hline] }

/-- **What is found in a page is on lines of its source**, when there is a line at all. -/
theorem findings_onLines (config : Config) {source : String} (hsource : source ≠ "")
    {file : Option String} {page : Page}
    (hpage : page.Shows file (progressOf config (tokenize source file))) :
    ∀ f ∈ findingsOf config page.elementIds page.document Pass.all,
      1 ≤ f.line ∧ f.line ≤ (Text.sourceLines source).length := by
  let v := View.stayingOn (Text.sourceLines source).length
  have hfirst : v.line 1 = 1 := by
    have hlt : 0 < source.toList.length := by
      rw [List.length_pos_iff]
      exact fun h => hsource (String.toList_eq_nil_iff.1 h)
    have hlines := Text.count_take_lt_length_lines hlt
    have hlength : (Text.sourceLines source).length = (Text.lines source.toList).length :=
      List.length_map ..
    rw [View.stayingOn_line]
    omega
  obtain ⟨others, last, htokens, hothers, hlast, -⟩ :=
    (scanFrom_tiled file .markup .start source.toList).exists_ending
  have hmem : ∀ t ∈ others, t ∈ tokenize source file := by
    intro t ht
    rw [tokenize, scan, htokens]
    exact List.mem_append_left _ ht
  have hshown : TokensShown v others others :=
    List.forall₂_same.2 fun t ht => shown_stayingOn (hmem t ht) (hothers t ht)
  rw [tokenize, scan, htokens, progressOf_concat_eof config hlast] at hpage
  -- The page shows itself in the view, so all it gives is on lines that stay.
  have hkeeps : v.Keeps config := fun name _ => View.text_of_returns_eq_zero rfl name
  obtain ⟨hview, hids⟩ := hpage.view hkeeps hfirst hshown hpage
  have hdoctype : ∀ n ∈ page.document.doctype, v.line n.line = n.line := by
    intro n hn
    have h := congrArg Document.doctype hview
    rw [Document.view, Document.view, Option.mem_def.1 hn] at h
    have hnode := congrArg Node.line (Option.some.inj h)
    rw [Node.view_line, Node.view_line] at hnode
    exact hnode.symm
  have hsigns := signs_findingsOf v hfirst config hids hdoctype hview Pass.all
  intro f hf
  have hsign := List.map_inj_left.1 hsigns f hf
  rw [← View.stayingOn_line]
  exact (congrArg Prod.fst hsign).symm

/-- **A report shows everything where it is.** In the lines of a source each token starts at its
line and column. When the source is not empty, its analysis gives diagnostics on its lines, so that the
text of a report is the numbered lines with the diagnostics of each line beneath it, and nothing
stands behind the last line. -/
theorem report_shows_all (source : String) (file : Option String) :
    (∀ t ∈ tokenize source file, t.kind ≠ .eof → t.PlacedIn (Text.sourceLines source)) ∧
    ∀ config : Config, 1 ≤ config.maxExpressionTokens → source ≠ "" →
      ∃ a, analyze? config source file = some a ∧
        Report.OnLines (Text.sourceLines source).length a.diagnostics ∧
        Report.entries source a.diagnostics =
          Report.beneath a.diagnostics ((Text.sourceLines source).zipIdx 1) ∧
        Report.otherEntries (groupByLine a.diagnostics) (Text.sourceLines source).length = [] ∧
        Report.format source a.diagnostics = String.join
          ((Report.beneath a.diagnostics ((Text.sourceLines source).zipIdx 1)).map
            fun entry => entry ++ "\n") := by
  refine ⟨tokenize_placed source file, ?_⟩
  intro config hlimit hsource
  obtain ⟨page, a, hpage, ha, hfound⟩ := analyze?_eq hlimit source file
  have hlines : Report.OnLines (Text.sourceLines source).length a.diagnostics := by
    intro d hd
    have hfinding : d.finding ∈ findingsOf config page.elementIds page.document Pass.all := by
      rw [← map_finding_numberFrom 1 (findingsOf config page.elementIds page.document Pass.all),
        ← hfound]
      exact List.mem_map_of_mem hd
    exact findings_onLines config hsource hpage d.finding hfinding
  exact ⟨a, ha, hlines, Report.entries_eq hlines, Report.otherEntries_eq_nil hlines,
    Report.format_eq hlines⟩

/-- A doctype over two lines that comes too late, with both ways to end a line. -/
theorem lateDoctype_shown :
    let source := "\r\n\n\n<!DOCTYPE\r\nhtml>\n"
    let report :=
      "0001 \n     Error 2: Missing <html> tag. Required structure: <!DOCTYPE html> -> <html> " ++
        "-> <head> -> <body> at line 1\n0002 \n0003 \n0004 <!DOCTYPE\n     Error 1: DOCTYPE " ++
        "declaration must be at the very beginning of the document at line 4\n0005 html>\n"
    let t : Token :=
      { kind := .doctype, text := "<!DOCTYPE\r\nhtml>", line := 4, column := 1, offset := 4 }
    t ∈ tokenize source none ∧ t.PlacedIn (Text.sourceLines source) ∧
      (1 : Int) ≤ ({} : Config).maxExpressionTokens ∧ source ≠ "" ∧
      ∃ a, analyze? {} source none = some a ∧
        a.diagnostics.map Diagnostic.line = [4, 1] ∧
        Report.format source a.diagnostics = report ∧
        Report.OnLines (Text.sourceLines source).length a.diagnostics ∧
        Report.entries source a.diagnostics =
          Report.beneath a.diagnostics ((Text.sourceLines source).zipIdx 1) ∧
        Report.otherEntries (groupByLine a.diagnostics) (Text.sourceLines source).length = [] ∧
        Report.format source a.diagnostics = String.join
          ((Report.beneath a.diagnostics ((Text.sourceLines source).zipIdx 1)).map
            fun entry => entry ++ "\n") := by
  intro source report t
  have hmem : t ∈ tokenize source none := by decide +kernel
  have hlimit : (1 : Int) ≤ ({} : Config).maxExpressionTokens := by decide
  have hsource : source ≠ "" := by decide
  have hlines : (analyze? {} source none).map (fun a => a.diagnostics.map Diagnostic.line) =
      some [4, 1] := by decide +kernel
  have htext : (analyze? {} source none).map (fun a => Report.format source a.diagnostics) =
      some report := by decide +kernel
  obtain ⟨hplaced, hreport⟩ := report_shows_all source none
  obtain ⟨a, ha, hrest⟩ := hreport {} hlimit hsource
  rw [ha, Option.map_some] at hlines htext
  exact ⟨hmem, hplaced t hmem (by decide), hlimit, hsource, a, ha, Option.some.inj hlines,
    Option.some.inj htext, hrest⟩

end PageLint
