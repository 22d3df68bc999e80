import PageLint.Command.Run
import PageLint.Proofs.Batch.Storage
import PageLint.Proofs.Ids.Missing

/-!
# The reports of a batch

Checking a document whose source can be read and whose report can be written changes the storage in
one place, that of the report, and no document stands there. So the documents of a directory can be
checked in any number, and each is read as it was at the start. Where documents share the name of
their report, the one that is checked last keeps it.

* `Ready.checkFile?_eq` — checking one document puts its report
* `runDocuments?_ready` — checking several puts their reports one after the other
* `runBatch?_reports` — what a batch leaves behind, and when every document has its own report
-/

namespace PageLint.Command

/-- The report of a document as it is written: on the source that a storage holds. -/
def reportData? (s : Storage) (p : Path) : Option (List UInt8) :=
  match readSource s p p.text with
  | .error _ => none
  | .ok source =>
    (analyze? {} source (some p.text)).map fun a =>
      Text.Utf8.encode (Report.format source a.diagnostics)

/-- The name of the report of a document in a directory. -/
def reportOf (directory : Path) (name : String) : String := (directory.child name).reportName {}

/-- A file of a directory is a document that can be read, and no directory stands where its report
goes. -/
structure Ready (s : Storage) (directory : Path) (place : List String) (name : String) : Prop where
  leads : s.LeadsTo directory place
  isFileName : Storage.IsFileName name
  isDocument : ∃ stem, Path.IsDocumentName name stem
  readable : ∃ source,
    readSource s (directory.child name) (directory.child name).text = .ok source
  free : s.entryAt? (place ++ [reportOf directory name]) ≠ some .directory

/-! ## One document -/

theorem readSource_eq_ok {s : Storage} {p : Path} {shown source : String}
    (h : readSource s p shown = .ok source) : p.hasNull = false ∧ ∃ data, s.read p = .ok data := by
  unfold readSource at h
  cases hnull : p.hasNull with
  | true => simp [hnull] at h
  | false =>
    cases hread : s.read p with
    | error failure => simp [hnull, hread] at h
    | ok data => exact ⟨rfl, data, rfl⟩

theorem readSource_of_decode {s : Storage} {p : Path} {data : List UInt8} {chars : List Char}
    (hnull : p.hasNull = false) (hread : s.read p = .ok data)
    (hdecode : Text.Utf8.decode data = .ok chars) (shown : String) :
    readSource s p shown = .ok (String.ofList (Text.unifyLineEnds chars)) := by
  simp only [readSource, hnull, hread, hdecode]
  rfl

theorem readSource_congr {s s' : Storage} {p : Path} (h : s.read p = s'.read p) (shown : String) :
    readSource s p shown = readSource s' p shown := by
  rw [readSource, readSource, h]

section ReportNames

variable {directory : Path} {name : String} {stem : List Char}
  (h : Path.IsDocumentName name stem)
include h

theorem toList_reportOf : (reportOf directory name).toList = stem ++ ".txt".toList := by
  rw [← Path.name_child directory name] at h
  exact h.toList_reportName

theorem utf8ByteSize_reportOf : (reportOf directory name).utf8ByteSize ≤ name.utf8ByteSize := by
  rw [← Path.name_child directory name] at h
  have hsize := h.utf8ByteSize_reportName
  rwa [Path.name_child] at hsize

theorem reportOf_ne {other : String} {stem' : List Char}
    (hother : Path.IsDocumentName other stem') : reportOf directory name ≠ other := by
  rw [← Path.name_child directory name] at h
  exact h.reportName_ne hother

theorem reportOf_eq_iff {other : String} {stem' : List Char}
    (hother : Path.IsDocumentName other stem') :
    reportOf directory name = reportOf directory other ↔ Path.SameButEnding name other := by
  have hnames := @Path.reportName_eq_iff (directory.child name) (directory.child other) stem stem'
  rw [Path.name_child, Path.name_child] at hnames
  exact hnames h hother

theorem isFileName_reportOf (hname : Storage.IsFileName name) :
    Storage.IsFileName (reportOf directory name) := by
  have htext : (reportOf directory name).toList = stem ++ ".txt".toList := toList_reportOf h
  rw [← Path.name_child directory name] at h hname
  refine ⟨h.isPart_reportName hname.1, ?_⟩
  intro heq
  have hlength := congrArg List.length htext
  simp [heq] at hlength

end ReportNames

namespace Ready

variable {s : Storage} {directory : Path} {place : List String} {name : String}
  (h : Ready s directory place name)
include h

theorem isFileName_report : Storage.IsFileName (reportOf directory name) := by
  obtain ⟨stem, hstem⟩ := h.isDocument
  exact isFileName_reportOf hstem h.isFileName

/-- The report of the document, one step down from the directory. -/
theorem report_eq :
    (directory.child name).report {} = .ok (directory.child (reportOf directory name)) :=
  Path.withName_child h.isFileName.1 h.isFileName_report.1

/-- The document is found at its name. -/
theorem resolve_eq : s.resolve (directory.child name) = .ok (place ++ [name]) := by
  obtain ⟨source, hsource⟩ := h.readable
  obtain ⟨-, data, hdata⟩ := readSource_eq_ok hsource
  obtain ⟨reached, hreached, -⟩ := Storage.read_eq_ok_iff.1 hdata
  rw [h.leads.resolve_child h.isFileName] at hreached ⊢
  split at hreached
  · exact absurd hreached (by simp)
  · rename_i hlengths
    rw [if_neg hlengths]

/-- The report goes beside it: its name is no longer, and neither is its path. -/
theorem resolve_report :
    s.resolve (directory.child (reportOf directory name))
      = .ok (place ++ [reportOf directory name]) := by
  obtain ⟨stem, hstem⟩ := h.isDocument
  have hsize : (reportOf directory name).utf8ByteSize ≤ name.utf8ByteSize :=
    utf8ByteSize_reportOf hstem
  obtain ⟨lead, hlead⟩ := Path.exists_text_child h.leads.plain
  have hpath : (directory.child (reportOf directory name)).text.utf8ByteSize
      ≤ (directory.child name).text.utf8ByteSize := by
    rw [← String.utf8Len_toList, ← String.utf8Len_toList, hlead _ h.isFileName.1,
      hlead _ h.isFileName_report.1, String.utf8Len_append, String.utf8Len_append,
      String.utf8Len_toList, String.utf8Len_toList]
    omega
  have hresolve := h.resolve_eq
  rw [h.leads.resolve_child h.isFileName] at hresolve
  rw [h.leads.resolve_child h.isFileName_report]
  split at hresolve
  · exact absurd hresolve (by simp)
  · rw [if_neg (by omega)]

theorem hasNull_report : (directory.child (reportOf directory name)).hasNull = false := by
  obtain ⟨source, hsource⟩ := h.readable
  obtain ⟨hnull, -⟩ := readSource_eq_ok hsource
  obtain ⟨stem, hstem⟩ := h.isDocument
  obtain ⟨lead, hlead⟩ := Path.exists_text_child h.leads.plain
  rw [Path.hasNull, hlead _ h.isFileName_report.1, toList_reportOf hstem]
  obtain ⟨ending, hname, -⟩ := hstem
  rw [Path.hasNull, hlead _ h.isFileName.1, hname] at hnull
  simp only [List.contains_eq_mem, List.mem_append, decide_eq_false_iff_not, not_or] at hnull ⊢
  exact ⟨hnull.1, hnull.2.1, by decide⟩

/-- **Checking a document puts its report, and nothing else.** -/
theorem checkFile?_eq {data : List UInt8}
    (hdata : reportData? s (directory.child name) = some data) :
    ∃ check a, checkFile? {} s (directory.child name) = some check ∧
      check.storage = s.put (place ++ [reportOf directory name]) (.file data) ∧
      check.result = .ok (a, directory.child (reportOf directory name)) := by
  obtain ⟨source, hsource⟩ := h.readable
  unfold reportData? at hdata
  rw [hsource] at hdata
  obtain ⟨a, ha, rfl⟩ := Option.map_eq_some_iff.1 hdata
  have hreread := (h.leads.plain.child h.isFileName_report.1).reread_eq
  have hwrite := Storage.write_eq_ok h.resolve_report h.free
    (Text.Utf8.encode (Report.format source a.diagnostics))
  have hreport : writeReport s source a.diagnostics (directory.child (reportOf directory name))
      = .ok
          { path := directory.child (reportOf directory name)
            storage := s.put (place ++ [reportOf directory name])
              (.file (Text.Utf8.encode (Report.format source a.diagnostics)))
            event := .reportWritten (directory.child (reportOf directory name)).text
              (Report.format source a.diagnostics).length } := by
    simp only [writeReport, hreread, h.hasNull_report, hwrite, Bool.false_eq_true, if_false]
  refine ⟨reportOn {} s (directory.child name) source a, a, ?_, ?_, ?_⟩
  · simp only [checkFile?, hsource, ha, Option.map_some]
  · simp only [reportOn, h.report_eq, hreport]
  · simp only [reportOn, h.report_eq, hreport]

/-- A document has a report. -/
theorem exists_reportData : ∃ data, reportData? s (directory.child name) = some data := by
  obtain ⟨source, hsource⟩ := h.readable
  obtain ⟨page, hpage, -⟩ := @readPage?_shows {} (by decide) source
    (some (directory.child name).text)
  obtain ⟨a, ha, -, -⟩ := exists_analysis hpage
  refine ⟨Text.Utf8.encode (Report.format source a.diagnostics), ?_⟩
  simp only [reportData?, hsource, ha, Option.map_some]

/-- No document stands where a report goes. -/
theorem ne_reportOf {other : String} (hother : Ready s directory place other) :
    place ++ [name] ≠ place ++ [reportOf directory other] := by
  obtain ⟨stem, hstem⟩ := h.isDocument
  obtain ⟨stem', hstem'⟩ := hother.isDocument
  intro heq
  exact reportOf_ne hstem' hstem (by simpa using heq.symm)

/-- A report changes nothing for a document. -/
theorem read_put {other : String} (hother : Ready s directory place other) (data : List UInt8) :
    (s.put (place ++ [reportOf directory other]) (.file data)).read (directory.child name)
      = s.read (directory.child name) := by
  obtain ⟨source, hsource⟩ := h.readable
  obtain ⟨-, own, hown⟩ := readSource_eq_ok hsource
  rw [hown, Storage.read_eq_ok_iff]
  refine ⟨place ++ [name], Storage.resolve_put hother.free data h.resolve_eq, ?_⟩
  rw [Storage.entryAt?_put_of_ne s (h.ne_reportOf hother)]
  obtain ⟨reached, hreached, hentry⟩ := Storage.read_eq_ok_iff.1 hown
  rw [h.resolve_eq, Except.ok.injEq] at hreached
  rwa [hreached]

theorem put {other : String} (hother : Ready s directory place other) (data : List UInt8) :
    Ready (s.put (place ++ [reportOf directory other]) (.file data)) directory place name where
  leads := h.leads.put hother.free data
  isFileName := h.isFileName
  isDocument := h.isDocument
  readable := by
    obtain ⟨source, hsource⟩ := h.readable
    exact ⟨source, by rw [readSource_congr (h.read_put hother data), hsource]⟩
  free := by
    by_cases hsame : place ++ [reportOf directory name] = place ++ [reportOf directory other]
    · rw [hsame, Storage.entryAt?_put_self]
      simp
    · rw [Storage.entryAt?_put_of_ne s hsame]
      exact h.free

theorem reportData?_put {other : String} (hother : Ready s directory place other)
    (data : List UInt8) :
    reportData? (s.put (place ++ [reportOf directory other]) (.file data)) (directory.child name)
      = reportData? s (directory.child name) := by
  rw [reportData?, reportData?, readSource_congr (h.read_put hother data)]

end Ready

/-! ## Several documents -/

/-- A storage after the reports of documents were put, in order. -/
def withReports (directory : Path) (place : List String) (data : String → List UInt8)
    (s : Storage) (names : List String) : Storage :=
  names.foldl (fun s name => s.put (place ++ [reportOf directory name]) (.file (data name))) s

theorem printAll_storage (s : Session) (lines : List String) :
    (s.printAll lines).storage = s.storage := by
  induction lines generalizing s with
  | nil => rfl
  | cons line lines ih => exact ih (s.print line)

theorem log_storage (verbosity : Nat) (s : Session) (events : List Event) :
    (s.log verbosity events).storage = s.storage := by
  unfold Session.log
  induction events.filter (Session.isTold verbosity) generalizing s with
  | nil => rfl
  | cons e events ih => exact ih (s.complain e.logLine)

/-- **Checking documents one after the other puts their reports in this order.** All of them are
ready at the start, and each report leaves the others so. -/
theorem runDocuments?_ready {directory : Path} {place names : List String}
    {data : String → List UInt8} (verbosity : Nat) {todo : List String} (hsub : todo ⊆ names)
    (tally : Tally) (session : Session)
    (hready : ∀ name ∈ names, Ready session.storage directory place name)
    (hdata : ∀ name ∈ names,
      reportData? session.storage (directory.child name) = some (data name)) :
    ∃ session', runDocuments? {} verbosity (todo.map directory.child) tally session
        = some (.ok ({ tally with passed := tally.passed + todo.length }, session')) ∧
      session'.storage = withReports directory place data session.storage todo ∧
      ∀ name ∈ names, Ready session'.storage directory place name := by
  induction todo generalizing tally session with
  | nil => exact ⟨session, rfl, rfl, hready⟩
  | cons name todo ih =>
    obtain ⟨hname, hrest⟩ := List.cons_subset.1 hsub
    obtain ⟨check, a, hcheck, hstorage, hresult⟩ :=
      (hready name hname).checkFile?_eq (hdata name hname)
    -- The session behind the first document, whose storage holds one more report.
    let next : Session :=
      (Session.log verbosity { session.print ("\nFile: " ++ name) with storage := check.storage }
        check.events).printAll (batchLines a (directory.child (reportOf directory name)))
    have hnext : next.storage
        = session.storage.put (place ++ [reportOf directory name]) (.file (data name)) := by
      rw [← hstorage]
      exact (printAll_storage _ _).trans (log_storage verbosity _ check.events)
    obtain ⟨session', hrun, hwritten, hleft⟩ := ih hrest
      { tally with passed := tally.passed + 1 } next
      (by
        intro other hother
        rw [hnext]
        exact (hready other hother).put (hready name hname) (data name))
      (by
        intro other hother
        rw [hnext, (hready other hother).reportData?_put (hready name hname), hdata other hother])
    refine ⟨session', ?_, ?_, hleft⟩
    · rw [List.map_cons, runDocuments?, hcheck]
      simp only [hresult, Path.name_child]
      refine hrun.trans ?_
      rw [List.length_cons, Nat.add_assoc, Nat.add_comm 1]
    · rw [hwritten, hnext]
      rfl

/-! ## The documents of a directory -/

/-- A directory whose documents can be checked: it is there, its files have proper names, its
documents can be read, and no directory stands where a report goes. -/
structure Checkable (s : Storage) (directory : Path) (place : List String) : Prop where
  found : s.directory? directory = .ok (some place)
  hasNull : directory.hasNull = false
  isFileName : ∀ name ∈ s.fileNames place, Storage.IsFileName name
  readable : ∀ p ∈ documentsIn {} s directory place, ∃ source, readSource s p p.text = .ok source
  free : ∀ p ∈ documentsIn {} s directory place,
    s.entryAt? (place ++ [p.reportName {}]) ≠ some .directory

/-- The report that stands at the path of a document's report is the document's own. -/
def HasOwnReport (before after : Storage) (p : Path) : Prop :=
  ∃ target data, p.report {} = .ok target ∧ reportData? before p = some data ∧
    after.read target = .ok data

/-- What a batch leaves behind for documents. -/
structure Reported (before after : Storage) (documents : List Path) : Prop where
  /-- No document is changed. -/
  kept : ∀ p ∈ documents, after.read p = before.read p
  /-- The last document that shares a report has its own there. -/
  last : ∀ p ∈ documents, ∃ q target data,
    (documents.filter fun q => q.reportName {} == p.reportName {}).getLast? = some q ∧
      p.report {} = .ok target ∧ reportData? before q = some data ∧ after.read target = .ok data
  /-- Only names that differ in the case of their endings alone share a report. -/
  shared : ∀ p ∈ documents, ∀ q ∈ documents,
    (p.reportName {} = q.reportName {} ↔ Path.SameButEnding p.name q.name)
  /-- All have their own exactly when those that share one have equal ones. -/
  own : (∀ p ∈ documents, HasOwnReport before after p) ↔
    ∀ p ∈ documents, ∀ q ∈ documents, Path.SameButEnding p.name q.name →
      reportData? before p = reportData? before q

/-- The names of the documents of a directory, in order. -/
def documentNames (s : Storage) (directory : Path) (place : List String) : List String :=
  ((s.fileNames place).mergeSort fun a b => decide (a ≤ b)).filter fun name =>
    (directory.child name).hasExtension ".html"

theorem documentsIn_eq (s : Storage) (directory : Path) (place : List String) :
    documentsIn {} s directory place = (documentNames s directory place).map directory.child := by
  rw [documentsIn, List.filter_map]
  rfl

theorem Checkable.ready {s : Storage} {directory : Path} {place : List String}
    (hplain : directory.Plain) (h : Checkable s directory place) :
    ∀ name ∈ documentNames s directory place, Ready s directory place name := by
  intro name hname
  have hmem : directory.child name ∈ documentsIn {} s directory place := by
    rw [documentsIn_eq]
    exact List.mem_map_of_mem hname
  obtain ⟨hfile, hextension⟩ := List.mem_filter.1 hname
  exact
    { leads := Storage.LeadsTo.of_directory? hplain h.found
      isFileName := h.isFileName name (List.mem_mergeSort.1 hfile)
      isDocument := by
        rw [← Path.name_child directory name]
        exact Path.hasExtension_iff.1 hextension
      readable := h.readable _ hmem
      free := h.free _ hmem }

section Reported

variable {before : Storage} {directory : Path} {place names : List String}
  {data : String → List UInt8}
  (hready : ∀ name ∈ names, Ready before directory place name)
  (hleft : ∀ name ∈ names,
    Ready (withReports directory place data before names) directory place name)
include hready hleft

/-- A document holds what it held: no report was put in its place. -/
theorem read_withReports_document {name : String} (hname : name ∈ names) :
    (withReports directory place data before names).read (directory.child name)
      = before.read (directory.child name) := by
  obtain ⟨source, hsource⟩ := (hready name hname).readable
  obtain ⟨-, own, hown⟩ := readSource_eq_ok hsource
  obtain ⟨reached, hreached, hentry⟩ := Storage.read_eq_ok_iff.1 hown
  rw [(hready name hname).resolve_eq, Except.ok.injEq] at hreached
  rw [hown, Storage.read_eq_ok_iff]
  refine ⟨place ++ [name], (hleft name hname).resolve_eq, ?_⟩
  have hnone : names.filter
      (fun other => place ++ [reportOf directory other] == place ++ [name]) = [] := by
    rw [List.filter_eq_nil_iff]
    intro other hother heq
    exact (hready name hname).ne_reportOf (hready other hother) (beq_iff_eq.1 heq).symm
  rw [withReports, Storage.entryAt?_foldl_put, hnone, hreached]
  exact hentry

omit hready in
/-- The last of the documents that share a report has its own there. -/
theorem exists_last_withReports {name : String} (hname : name ∈ names) : ∃ last ∈ names,
    (names.filter fun other => reportOf directory other == reportOf directory name).getLast?
        = some last ∧
      (withReports directory place data before names).read
        (directory.child (reportOf directory name)) = .ok (data last) := by
  have hplaces : (fun other => place ++ [reportOf directory other]
        == place ++ [reportOf directory name])
      = fun other => reportOf directory other == reportOf directory name := by
    funext other
    rw [Bool.eq_iff_iff, beq_iff_eq, beq_iff_eq]
    simp
  have hmem : name ∈ names.filter fun other =>
      reportOf directory other == reportOf directory name :=
    List.mem_filter.2 ⟨hname, beq_self_eq_true _⟩
  obtain ⟨last, hlast⟩ := Option.isSome_iff_exists.1
    (List.getLast?_isSome.2 (List.ne_nil_of_mem hmem))
  refine ⟨last, (List.mem_filter.1 (List.mem_of_getLast? hlast)).1, hlast, ?_⟩
  rw [Storage.read_eq_ok_iff]
  refine ⟨_, (hleft name hname).resolve_report, ?_⟩
  rw [withReports, Storage.entryAt?_foldl_put, hplaces, hlast]

/-- What reports leave behind, for documents that were ready for them. -/
theorem reported_withReports
    (hdata : ∀ name ∈ names, reportData? before (directory.child name) = some (data name)) :
    Reported before (withReports directory place data before names)
      (names.map directory.child) := by
  have hshared : ∀ name ∈ names, ∀ other ∈ names,
      (reportOf directory name = reportOf directory other ↔ Path.SameButEnding name other) := by
    intro name hname other hother
    obtain ⟨stem, hstem⟩ := (hready name hname).isDocument
    obtain ⟨stem', hstem'⟩ := (hready other hother).isDocument
    exact reportOf_eq_iff hstem hstem'
  constructor
  case kept =>
    rw [List.forall_mem_map]
    intro name hname
    exact read_withReports_document hready hleft hname
  case last =>
    rw [List.forall_mem_map]
    intro name hname
    obtain ⟨last, hmem, hlast, hread⟩ := exists_last_withReports hleft hname
    refine ⟨directory.child last, directory.child (reportOf directory name), data last, ?_,
      (hready name hname).report_eq, hdata last hmem, hread⟩
    rw [List.filter_map, List.getLast?_map]
    exact congrArg (Option.map directory.child) hlast
  case shared =>
    simp only [List.forall_mem_map, Path.name_child]
    exact hshared
  case own =>
    simp only [List.forall_mem_map, Path.name_child]
    constructor
    · intro hown name hname other hother hsame
      obtain ⟨target, found, htarget, hfound, hread⟩ := hown name hname
      obtain ⟨target', found', htarget', hfound', hread'⟩ := hown other hother
      rw [(hready name hname).report_eq, Except.ok.injEq] at htarget
      rw [(hready other hother).report_eq, Except.ok.injEq,
        ← (hshared name hname other hother).2 hsame, htarget] at htarget'
      rw [← htarget', hread, Except.ok.injEq] at hread'
      rw [hfound, hfound', hread']
    · intro hequal name hname
      obtain ⟨last, hmem, hlast, hread⟩ := exists_last_withReports hleft hname
      have hsame : reportOf directory last = reportOf directory name := by
        simpa using (List.mem_filter.1 (List.mem_of_getLast? hlast)).2
      refine ⟨_, data last, (hready name hname).report_eq, ?_, hread⟩
      rw [← hdata last hmem]
      exact hequal name hname last hmem ((hshared name hname last hmem).1 hsame.symm)

end Reported

/-- **What a batch leaves behind.** A batch on a directory that can be checked ends well. The
documents are what they were, and each report is that of the last document that shares its name. -/
theorem runBatch?_reports {text : String} {session : Session} {place : List String}
    (h : Checkable session.storage (Path.ofText text) place) (verbosity : Nat) :
    ∃ outcome, runBatch? {} verbosity (Path.ofText text) session = some (.ok outcome) ∧
      outcome.exit = .ok ∧
      Reported session.storage outcome.session.storage
        (documentsIn {} session.storage (Path.ofText text) place) := by
  have hready := h.ready (Path.plain_ofText text)
  let data (name : String) : List UInt8 :=
    (reportData? session.storage ((Path.ofText text).child name)).getD []
  have hdata : ∀ name ∈ documentNames session.storage (Path.ofText text) place,
      reportData? session.storage ((Path.ofText text).child name) = some (data name) := by
    intro name hname
    obtain ⟨found, hfound⟩ := (hready name hname).exists_reportData
    simp only [data, hfound, Option.getD_some]
  rw [runBatch?, h.hasNull, h.found]
  simp only [Bool.false_eq_true, if_false, documentsIn_eq]
  cases hnames : documentNames session.storage (Path.ofText text) place with
  | nil => exact ⟨_, rfl, rfl, by simp, by simp, by simp, by simp⟩
  | cons first names =>
    rw [hnames] at hready hdata
    obtain ⟨session', hrun, hstorage, hleft⟩ := runDocuments?_ready verbosity
      (List.Subset.refl (first :: names)) {}
      (session.print ("Running validation on "
        ++ Text.natText ((first :: names).map (Path.ofText text).child).length ++ " files..."))
      hready hdata
    simp only [List.map_cons] at hrun ⊢
    rw [hrun]
    refine ⟨_, rfl, rfl, ?_⟩
    rw [printAll_storage, hstorage]
    refine reported_withReports hready ?_ hdata
    intro name hname
    have hname' := hleft name hname
    rwa [hstorage] at hname'

/-- A directory with two documents whose names differ in the case of their endings alone. -/
def twoCases : Storage where
  home := ["work"]
  entries :=
    [(["work", "d"], .directory),
      (["work", "d", "a.html"], .file [0x3C, 0x70, 0x3E, 0x31]),
      (["work", "d", "a.HTML"], .file [0x3C, 0x70, 0x3E, 0x32])]

theorem eq_of_mem_twoCases {p : Path}
    (h : p ∈ documentsIn {} twoCases (Path.ofText "d") ["work", "d"]) :
    p = { parts := ["d", "a.html"] } ∨ p = { parts := ["d", "a.HTML"] } := by
  rw [documentsIn_eq] at h
  obtain ⟨name, hname, rfl⟩ := List.mem_map.1 h
  have hfile : name ∈ twoCases.fileNames ["work", "d"] :=
    List.mem_mergeSort.1 (List.mem_filter.1 hname).1
  have hnames : twoCases.fileNames ["work", "d"] = ["a.html", "a.HTML"] := by decide +kernel
  rw [hnames, List.mem_pair] at hfile
  rcases hfile with rfl | rfl
  · exact Or.inl (by decide +kernel)
  · exact Or.inr (by decide +kernel)

theorem decode_one : Text.Utf8.decode [0x3C, 0x70, 0x3E, 0x31] = .ok "<p>1".toList := by
  decide +kernel

theorem decode_two : Text.Utf8.decode [0x3C, 0x70, 0x3E, 0x32] = .ok "<p>2".toList := by
  decide +kernel

theorem checkable_twoCases : Checkable twoCases (Path.ofText "d") ["work", "d"] where
  found := by decide +kernel
  hasNull := by decide +kernel
  isFileName := by
    unfold Storage.IsFileName Path.IsPart
    decide +kernel
  readable := by
    intro p hp
    rcases eq_of_mem_twoCases hp with rfl | rfl
    · exact ⟨_, readSource_of_decode (by decide +kernel) (by decide +kernel) decode_one _⟩
    · exact ⟨_, readSource_of_decode (by decide +kernel) (by decide +kernel) decode_two _⟩
  free := by
    intro p hp
    rcases eq_of_mem_twoCases hp with rfl | rfl <;> decide +kernel

theorem twoCases_reports : Checkable twoCases (Path.ofText "d") ["work", "d"] ∧
    ∃ outcome, runBatch? {} 0 (Path.ofText "d") { storage := twoCases } = some (.ok outcome) ∧
      outcome.exit = .ok ∧
      Reported twoCases outcome.session.storage
        (documentsIn {} twoCases (Path.ofText "d") ["work", "d"]) :=
  ⟨checkable_twoCases,
    @runBatch?_reports "d" { storage := twoCases } ["work", "d"] checkable_twoCases 0⟩

end PageLint.Command
