import NodeMarkup.Main
import NodeMarkup.Match.Script
import NodeMarkup.Proofs.Match.Structured
import NodeMarkup.Proofs.Match.Transaction
import NodeMarkup.Proofs.Grammar.Structured
import NodeMarkup.Proofs.Match.Reading
import NodeMarkup.Proofs.Grammar.Reading
import NodeMarkup.Proofs.Grammar.Bounds
import NodeMarkup.Proofs.Token.Order
import NodeMarkup.Proofs.Draft.Splice
import NodeMarkup.Proofs.Node.Forest
import NodeMarkup.Proofs.Transpile.Acceptance
import NodeMarkup.Proofs.Transpile.PassThrough
import NodeMarkup.Proofs.Match.Parallel
import NodeMarkup.Proofs.Match.Unread
import NodeMarkup.Proofs.Lexeme.Extent
import NodeMarkup.Proofs.Match.Running
import NodeMarkup.Proofs.Grammar.RoundTrip
import NodeMarkup.Proofs.Source.Shift
import NodeMarkup.Proofs.Grammar.Shift
import NodeMarkup.Proofs.Token.Shift
import NodeMarkup.Proofs.Node.Shift
import NodeMarkup.Proofs.Transpile.Inert
import NodeMarkup.Proofs.Match.Watched
import NodeMarkup.Proofs.Grammar.Watched
import NodeMarkup.Proofs.Grammar.Flat
import NodeMarkup.Proofs.Node.Lines
import NodeMarkup.Proofs.Transpile.Lines
import NodeMarkup.Proofs.Node.Trees
import NodeMarkup.Proofs.Transpile.Tags
import NodeMarkup.Proofs.Match.Blame
import NodeMarkup.Proofs.Grammar.Blame
import NodeMarkup.Proofs.Transpile.Positions
import NodeMarkup.Proofs.Source.Checked
import NodeMarkup.Proofs.Source.Moves
import NodeMarkup.Proofs.Match.Guarded
import NodeMarkup.Proofs.Grammar.Guarded
import NodeMarkup.Proofs.Token.Guarded
import NodeMarkup.Proofs.Token.Rescan
import NodeMarkup.Proofs.Node.Guarded
import NodeMarkup.Proofs.Transpile.Guarded
import NodeMarkup.Proofs.Node.Layout
import NodeMarkup.Proofs.Text.Pieces
import NodeMarkup.Proofs.Disk.Path
import NodeMarkup.Proofs.Disk.Tree
import NodeMarkup.Proofs.Command.Work
import NodeMarkup.Proofs.Command.Sources
import NodeMarkup.Proofs.Command.Build
import NodeMarkup.Proofs.Command.Agreement
import NodeMarkup.Proofs.Command.Overwrite
import NodeMarkup.Proofs.Token.Passing
import NodeMarkup.Proofs.Text.LineBreak
import NodeMarkup.Proofs.Transpile.Plain
import NodeMarkup.Proofs.Token.Pair
import NodeMarkup.Proofs.Text.Quoted
import NodeMarkup.Proofs.Transpile.OneNode
import NodeMarkup.Proofs.Transpile.BodyText
import NodeMarkup.Proofs.Grammar.Strings
import NodeMarkup.Proofs.Transpile.Strings
import NodeMarkup.Proofs.Match.Twins
import NodeMarkup.Proofs.Grammar.Twins
import NodeMarkup.Proofs.Transpile.EmptyPair
import NodeMarkup.Proofs.Token.Words
import NodeMarkup.Proofs.Lexeme.Nesting
import NodeMarkup.Proofs.Grammar.Header
import NodeMarkup.Proofs.Lexeme.Closed
import NodeMarkup.Proofs.Grammar.SelfContained
import NodeMarkup.Proofs.Node.Listing
import NodeMarkup.Proofs.Transpile.Properties
import NodeMarkup.Proofs.Match.GivenUp
import NodeMarkup.Proofs.Match.Delimited
import NodeMarkup.Proofs.Grammar.LineLiterals
import NodeMarkup.Proofs.Text.Search
import NodeMarkup.Proofs.Resource.Canonical
import NodeMarkup.Proofs.Resource.Resolve
import NodeMarkup.Proofs.Disk.Components
import NodeMarkup.Proofs.Command.Project
import NodeMarkup.Proofs.Text.Difference
import NodeMarkup.Proofs.Command.Fixture
import NodeMarkup.Proofs.Grammar.Returns
import NodeMarkup.Proofs.Transpile.Returns
import NodeMarkup.Proofs.Transpile.OpenTags
import NodeMarkup.Proofs.Match.Ordered
import NodeMarkup.Proofs.Match.Recorded
import NodeMarkup.Proofs.Match.Scripted
