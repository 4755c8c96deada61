import XQuerySyntax.Main
import XQuerySyntax.Terminals.Table
import XQuerySyntax.Proofs.Rollback
import XQuerySyntax.Proofs.LexicalState.Discipline
import XQuerySyntax.Proofs.RoundTrip.Printed
import XQuerySyntax.Proofs.RoundTrip.MarkupTree
import XQuerySyntax.Proofs.RoundTrip.MarkupScan
import XQuerySyntax.Proofs.RoundTrip.MarkupValue
import XQuerySyntax.Proofs.RoundTrip.MarkupElement
import XQuerySyntax.Proofs.RoundTrip.Serialized
import XQuerySyntax.Proofs.RoundTrip.Query
import XQuerySyntax.Proofs.Static.Prolog
import XQuerySyntax.Proofs.Tree.Parse
import XQuerySyntax.Proofs.Comparison.Parse
import XQuerySyntax.Proofs.Entry.MainModule
import XQuerySyntax.Proofs.Names.Module
import XQuerySyntax.Proofs.Names.AttributeOrder
import XQuerySyntax.Proofs.Order.Module
import XQuerySyntax.Proofs.Library.Resolution
import XQuerySyntax.Proofs.Library.Repeated
import XQuerySyntax.Proofs.Library.Visible
import XQuerySyntax.Proofs.Progress.Module
import XQuerySyntax.Proofs.Library.Cycle
import XQuerySyntax.Proofs.Library.Uncached
import XQuerySyntax.Proofs.Static.Frames
import XQuerySyntax.Proofs.Lexing.Keyword
import XQuerySyntax.Proofs.Tree.BoundarySpace
import XQuerySyntax.Proofs.RoundTrip.Selection
import XQuerySyntax.Proofs.Path.Agreement
import XQuerySyntax.Proofs.Repetition.Account
import XQuerySyntax.Proofs.Literal.Quoted
import XQuerySyntax.Proofs.Literal.Numeral
import XQuerySyntax.Proofs.Library.Canonical
import XQuerySyntax.Proofs.Text.Location
import XQuerySyntax.Proofs.Text.Scanner
import XQuerySyntax.Proofs.MatchOption.Account
import XQuerySyntax.Proofs.Lexing.Comment
import XQuerySyntax.Proofs.Captures.Module
