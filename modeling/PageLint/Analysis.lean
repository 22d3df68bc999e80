import PageLint.Reading.Page
import PageLint.Rule.Pass

/-!
# Analysis

Reads a page and runs all passes over it. There is no result when the page cannot be read to its
end.
-/

namespace PageLint

/-- Everything that one analysis gives. -/
structure Analysis where
  page : Page
  collector : Collector
  events : List Event
  deriving Inhabited

namespace Analysis

/-- The diagnostics in the order in which they were found. -/
def diagnostics (a : Analysis) : List Diagnostic := a.collector.diagnostics

/-- Whether nothing was found. -/
def ok (a : Analysis) : Bool := a.diagnostics.isEmpty

end Analysis

/-- Analyses the source of a page into a collector. -/
def analyzeInto? (config : Config) (source : String) (file : Option String)
    (collector : Collector) : Option Analysis :=
  (readPage? config source file).map fun page =>
    let read : Event :=
      .pageRead file page.document.children.length page.elementIds.length
    let (collector, events) := validate config page.elementIds page.document collector
    { page, collector, events := page.events ++ read :: events }

/-- Analyses the source of a page. -/
def analyze? (config : Config) (source : String) (file : Option String) : Option Analysis :=
  analyzeInto? config source file {}

end PageLint
