import Schematron.Assertion
import Schematron.Config.Kind
import Schematron.Config.Number
import Schematron.Config.OutputOptions
import Schematron.Config.Record
import Schematron.Decimal.Basic
import Schematron.Decimal.Binary64
import Schematron.Decimal.Layout
import Schematron.Decimal.Reader
import Schematron.Decimal.Rounding
import Schematron.Decimal.Shortest
import Schematron.Document
import Schematron.File.Disk
import Schematron.File.Path
import Schematron.File.Write
import Schematron.Json.Basic
import Schematron.Json.Printer
import Schematron.Json.Reader
import Schematron.Kind
import Schematron.Markup.Basic
import Schematron.Markup.Buffer
import Schematron.Markup.Escape
import Schematron.Markup.Layout
import Schematron.Markup.Recorder
import Schematron.Markup.Sink
import Schematron.Markup.Token
import Schematron.Markup.XmlSink
import Schematron.Message
import Schematron.Number
import Schematron.OutputError
import Schematron.OutputOptions
import Schematron.Sentence
import Schematron.Text.Blank
import Schematron.Text.Quoted
import Schematron.Text.Visible
import Schematron.Tree.Basic
import Schematron.Tree.Children
import Schematron.Tree.Forest
import Schematron.Tree.Handle
import Schematron.Tree.Path
import Schematron.Tree.Rules
import Schematron.Proofs.Tree.Arena
import Schematron.Proofs.Tree.Children
import Schematron.Proofs.Tree.History
import Schematron.Proofs.Tree.Path
import Schematron.Proofs.Tree.Rules
import Schematron.Proofs.Tree.Listing
import Schematron.Proofs.Tree.Alike
import Schematron.Proofs.Tree.Declaration
import Schematron.Proofs.Document.Reachable
import Schematron.Proofs.Tree.Iteration
import Schematron.Proofs.Tree.Links
import Schematron.Proofs.Tree.Session
import Schematron.Proofs.Document.Draft
import Schematron.Proofs.Assertion.SetLiteral
import Schematron.Proofs.Assertion.SetTest
import Schematron.Proofs.Markup.Printing
import Schematron.Proofs.Markup.Reader
import Schematron.Proofs.Markup.Xml
import Schematron.Proofs.Document.Shown
import Schematron.Proofs.Document.Decode
import Schematron.Proofs.Document.ReadBack
import Schematron.Proofs.Document.Outcome
import Schematron.Proofs.Document.Elements
import Schematron.Proofs.Markup.Place
import Schematron.Proofs.Document.Inline
import Schematron.Proofs.Tree.Identity
import Schematron.Proofs.Markup.Grammar
import Schematron.Proofs.Markup.WellFormed
import Schematron.Proofs.Markup.Legal
import Schematron.Proofs.Markup.Calls
import Schematron.Proofs.Tree.SharedPath
import Schematron.Proofs.Assertion.Legal
import Schematron.Proofs.Document.Strings
import Schematron.Proofs.Document.WellFormed
import Schematron.Proofs.Document.Contents
import Schematron.Proofs.Markup.Conforming
import Schematron.Proofs.Document.Conforming
import Schematron.Proofs.Decimal.Rounding
import Schematron.Proofs.Decimal.Shortest
import Schematron.Proofs.Json.Numbers
import Schematron.Proofs.Json.Printing
import Schematron.Proofs.Config.Record
import Schematron.Proofs.Config.ReadBack
import Schematron.Proofs.Tree.InPlace
import Schematron.Proofs.Document.InPlace
import Schematron.Proofs.Tree.Placed
import Schematron.Proofs.Tree.NewChild
import Schematron.Proofs.Tree.Editing
import Schematron.Proofs.Assertion.XPath
import Schematron.Proofs.Assertion.NumericTest
import Schematron.Proofs.Markup.Unwinding
import Schematron.Proofs.Config.Shapes
import Schematron.Proofs.Config.Builders
import Schematron.Proofs.Assertion.SetCall
import Schematron.Proofs.Tree.PathLaw
import Schematron.Proofs.Assertion.Settings
import Schematron.Proofs.Assertion.Alternatives
