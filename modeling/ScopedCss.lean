import ScopedCss.Text.Blank
import ScopedCss.Text.Lowercase
import ScopedCss.Text.Printable
import ScopedCss.Digest
import ScopedCss.Css.Rules
import ScopedCss.Number.Layout
import ScopedCss.Number.Literal
import ScopedCss.Json.Reader
import ScopedCss.Number.Basic
import ScopedCss.Json.Basic
import ScopedCss.Json.Numeral
import ScopedCss.Json.Printer
import ScopedCss.Style.Basic
import ScopedCss.Style.Json
import ScopedCss.Style.Reader
import ScopedCss.Text.Quoted
import ScopedCss.Style.Rules
import ScopedCss.Error
import ScopedCss.Input
import ScopedCss.Head
import ScopedCss.Options
import ScopedCss.Target.Basic
import ScopedCss.Manager.Report
import ScopedCss.Manager.Run
import ScopedCss.Workspace
import ScopedCss.Workspace.Run
import ScopedCss.Proofs.Table
import ScopedCss.Proofs.Text.Trim
import ScopedCss.Proofs.Manager.Replay
import ScopedCss.Proofs.Target.Sheet
import ScopedCss.Proofs.Manager.Mirror
import ScopedCss.Proofs.Style.Identity
import ScopedCss.Proofs.Css.Stop
import ScopedCss.Proofs.Css.Forward
import ScopedCss.Proofs.Css.Overlap
import ScopedCss.Proofs.Css.Brace
import ScopedCss.Proofs.Css.Grammar
import ScopedCss.Proofs.Css.WellFormed
import ScopedCss.Proofs.Css.Trailing
import ScopedCss.Proofs.Css.Select
import ScopedCss.Proofs.Css.Complete
import ScopedCss.Proofs.Css.Tame
import ScopedCss.Proofs.Css.Closing
import ScopedCss.Proofs.Style.Plain
import ScopedCss.Proofs.Style.Split
import ScopedCss.Proofs.Style.Outline
import ScopedCss.Proofs.Style.Order
import ScopedCss.Proofs.Style.Keys
import ScopedCss.Proofs.Style.PropertyName
import ScopedCss.Proofs.Manager.History
import ScopedCss.Proofs.Manager.Extract
import ScopedCss.Proofs.Manager.Response
import ScopedCss.Proofs.Manager.Kinds
import ScopedCss.Proofs.Style.Readers
import ScopedCss.Proofs.Style.RoundTrip
import ScopedCss.Proofs.Head.Splice
import ScopedCss.Proofs.Head.Chunks
import ScopedCss.Proofs.Head.Tag
import ScopedCss.Proofs.Manager.Paired
import ScopedCss.Proofs.Workspace.Run
import ScopedCss.Proofs.Workspace.Isolation
import ScopedCss.Proofs.Workspace.Sharing
import ScopedCss.Proofs.Template.Placeholders
import ScopedCss.Proofs.Template.FlatRule
import ScopedCss.Proofs.Target.Accept
import ScopedCss.Proofs.Target.Rule
import ScopedCss.Proofs.Workspace.Sheets
import ScopedCss.Proofs.Workspace.Delivery
import ScopedCss.Proofs.Text.Numeral
import ScopedCss.Proofs.Number.Exact
import ScopedCss.Proofs.Style.NumberText
import ScopedCss.Proofs.Digest
