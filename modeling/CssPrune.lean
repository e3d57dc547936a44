import CssPrune.CommandLine.Arguments
import CssPrune.CommandLine.Discovery
import CssPrune.CommandLine.Glob
import CssPrune.CommandLine.Run
import CssPrune.Css.Comments
import CssPrune.Css.MediaText
import CssPrune.Css.Minifier
import CssPrune.Css.PlacedChar
import CssPrune.Css.Printer
import CssPrune.Css.Reading
import CssPrune.Css.RuleText
import CssPrune.Css.Sheets
import CssPrune.Css.Stylesheet
import CssPrune.Event
import CssPrune.Files.Access
import CssPrune.Files.Directory
import CssPrune.Files.Failure
import CssPrune.Files.Memory
import CssPrune.Files.Tree
import CssPrune.Html.Pattern
import CssPrune.Html.References
import CssPrune.Html.Scan
import CssPrune.Main
import CssPrune.OrderedMap
import CssPrune.Output
import CssPrune.Prune
import CssPrune.Selector.Candidates
import CssPrune.Selector.LiveSet
import CssPrune.Session
import CssPrune.Settings
import CssPrune.Source
import CssPrune.Text.Basic
import CssPrune.Text.Blank
import CssPrune.Text.Ranges
import CssPrune.Text.Utf8
import CssPrune.Text.WordChar
import CssPrune.Proofs.Maps
import CssPrune.Proofs.PlainReading
import CssPrune.Proofs.Words
import CssPrune.Proofs.Respacing
import CssPrune.Proofs.RuleScan
import CssPrune.Proofs.Outline
import CssPrune.Proofs.Listing
import CssPrune.Proofs.Runs
import CssPrune.Proofs.Layout
import CssPrune.Proofs.Printed
import CssPrune.Proofs.CommentScan
import CssPrune.Proofs.RoundTrip
import CssPrune.Proofs.Spending
import CssPrune.Proofs.Repeated
import CssPrune.Proofs.Spacing
import CssPrune.Proofs.SpacedSheets
import CssPrune.Proofs.LiveSelectors
import CssPrune.Proofs.RunState
import CssPrune.Proofs.Reports
import CssPrune.Proofs.Balance
import CssPrune.Proofs.StoredSheets
import CssPrune.Proofs.PrintedBalance
import CssPrune.Proofs.Concatenation
import CssPrune.Proofs.Formatting
import CssPrune.Proofs.EarlyPruning
import CssPrune.Proofs.LiveSets
import CssPrune.Proofs.SpacedLists
import CssPrune.Proofs.Checked.Access
import CssPrune.Proofs.Checked.SourceMap
import CssPrune.Proofs.Checked.Tokens
import CssPrune.Proofs.Checked.RuleWalk
import CssPrune.Proofs.Checked.BlockWalk
import CssPrune.Proofs.Checked.Segments
import CssPrune.Proofs.Checked.Bytes
import CssPrune.Proofs.Checked.Store
import CssPrune.Proofs.Checked.Pruning
import CssPrune.Proofs.Checked.Writer
import CssPrune.Proofs.Checked.Engine
import CssPrune.Proofs.Independence
import CssPrune.Proofs.Utf8
import CssPrune.Proofs.FileReads
import CssPrune.Proofs.Writes
import CssPrune.Proofs.CommandRuns
import CssPrune.Proofs.Captures
import CssPrune.Proofs.DataAttributes
import CssPrune.Proofs.ClassValues
import CssPrune.Proofs.Tags
import CssPrune.Proofs.Expressions
import CssPrune.Proofs.RuleMatches
import CssPrune.Proofs.CommentMatches
import CssPrune.Proofs.MediaWalk
import CssPrune.Proofs.Atoms
import CssPrune.Proofs.Minified
import CssPrune.Proofs.Insertions
import CssPrune.Proofs.Removals
import CssPrune.Proofs.Collected
import CssPrune.Proofs.Combinators
import CssPrune.Proofs.Literals
import CssPrune.Proofs.TargetPaths
