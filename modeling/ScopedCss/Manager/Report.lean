/-
# Reports

The registered styles of a manager as a table for reading.  A column is as wide as its longest entry
in bytes, and shorter entries are filled up by their number of characters.
-/

import ScopedCss.Manager.Basic
import ScopedCss.Text.Units

namespace ScopedCss

/-- A style in a report. -/
structure ReportRow where
  id : String
  className : String
  preview : String
  css : String
deriving DecidableEq, Repr

/-- The styles of a manager, in order of registration. -/
structure Report where
  rows : List ReportRow
deriving DecidableEq, Repr

namespace Report

/-- The row of a registered style. -/
def row (style : CompiledStyle) : ReportRow :=
  ⟨style.id, Digest.className style.id, Text.preview style.css, style.css⟩

/-- Fill a text up to a width. -/
def pad (width : Nat) (text : String) : String :=
  String.ofList (text.toList ++ List.replicate (width - text.toList.length) ' ')

/-- The width of a column. -/
def width (least : Nat) (entries : List String) : Nat :=
  entries.foldl (fun w entry => max w (Text.byteLength entry.toList)) least

/-- One line of the table. -/
def line (idWidth classWidth : Nat) (id className css : String) : String :=
  pad idWidth id ++ "   " ++ pad classWidth className ++ "   " ++ css ++ "\n"

/-- The table as text. -/
def text (report : Report) : String :=
  if report.rows = [] then "No styles found\n"
  else
    let idWidth := width 2 (report.rows.map ReportRow.id)
    let classWidth := width 5 (report.rows.map ReportRow.className)
    String.join (line idWidth classWidth "ID" "CLASS" "CSS" ::
      report.rows.map fun r => line idWidth classWidth r.id r.className r.preview)

end Report

/-- The report on the registered styles. -/
def Manager.report {τ : Type} (m : Manager τ) : Report :=
  ⟨m.styles.values.map Report.row⟩

end ScopedCss
