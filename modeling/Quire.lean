import Quire.CommandLine.Arguments
import Quire.CommandLine.Command
import Quire.Config.Basic
import Quire.Config.Expansion
import Quire.Config.Store
import Quire.Config.Text
import Quire.Document.Block
import Quire.Document.Cursor
import Quire.Document.Emphasis
import Quire.Document.Line
import Quire.Document.Link
import Quire.Document.Outline
import Quire.Document.Reading
import Quire.Document.WellFormed
import Quire.Glob.Basic
import Quire.Glob.Reader
import Quire.Glob.Walk
import Quire.Highlight.Grammar
import Quire.Highlight.Grammar.CSharp
import Quire.Highlight.Grammar.Css
import Quire.Highlight.Grammar.Html
import Quire.Highlight.Grammar.JavaScript
import Quire.Highlight.Grammar.TypeScript
import Quire.Highlight.Language
import Quire.Highlight.Markup
import Quire.Highlight.Scan
import Quire.Highlight.Token
import Quire.Html.Escape
import Quire.Main
import Quire.Notice
import Quire.Page.Assets
import Quire.Page.Block
import Quire.Page.Context
import Quire.Page.Layout
import Quire.Path.Basic
import Quire.Path.Name
import Quire.Proofs.Alike
import Quire.Proofs.CommandLine.Refusal
import Quire.Proofs.CommandLine.Spelling
import Quire.Proofs.Config.Layers
import Quire.Proofs.Config.Store
import Quire.Proofs.Config.Text
import Quire.Proofs.Document.Anchors
import Quire.Proofs.Document.Emphasis
import Quire.Proofs.Document.Flat
import Quire.Proofs.Document.Form
import Quire.Proofs.Document.Images
import Quire.Proofs.Document.Item
import Quire.Proofs.Document.Kind
import Quire.Proofs.Document.Labels
import Quire.Proofs.Document.Line
import Quire.Proofs.Document.Links
import Quire.Proofs.Document.Locality
import Quire.Proofs.Document.Nested
import Quire.Proofs.Document.Nesting
import Quire.Proofs.Document.Outline
import Quire.Proofs.Document.Printing
import Quire.Proofs.Document.Recoded
import Quire.Proofs.Document.Table
import Quire.Proofs.Document.Targets
import Quire.Proofs.Document.Writing
import Quire.Proofs.Glob.Order
import Quire.Proofs.Glob.Paths
import Quire.Proofs.Glob.Reader
import Quire.Proofs.Glob.Shared
import Quire.Proofs.Glob.Sorted
import Quire.Proofs.Glob.Walk
import Quire.Proofs.Highlight.Decoding
import Quire.Proofs.Highlight.Dimensions
import Quire.Proofs.Highlight.Expressions
import Quire.Proofs.Highlight.FirstMatch
import Quire.Proofs.Highlight.Languages
import Quire.Proofs.Highlight.Literals
import Quire.Proofs.Highlight.LookAhead
import Quire.Proofs.Highlight.Overlap
import Quire.Proofs.Highlight.Rescan
import Quire.Proofs.Highlight.Search
import Quire.Proofs.Highlight.Segments
import Quire.Proofs.Highlight.Words
import Quire.Proofs.Html.Escape
import Quire.Proofs.Html.Tags
import Quire.Proofs.Page.Assets
import Quire.Proofs.Page.Code
import Quire.Proofs.Page.Navigation
import Quire.Proofs.Page.Reading
import Quire.Proofs.Path.Components
import Quire.Proofs.Path.Parent
import Quire.Proofs.Path.Tail
import Quire.Proofs.Regex.Ends
import Quire.Proofs.Regex.Entering
import Quire.Proofs.Regex.Followed
import Quire.Proofs.Regex.Grouped
import Quire.Proofs.Regex.Held
import Quire.Proofs.Regex.Laying
import Quire.Proofs.Regex.Leftmost
import Quire.Proofs.Regex.Offset
import Quire.Proofs.Regex.Preferred
import Quire.Proofs.Regex.Reading
import Quire.Proofs.Regex.Running
import Quire.Proofs.Regex.Settling
import Quire.Proofs.Regex.Taking
import Quire.Proofs.Regex.Way
import Quire.Proofs.Site.Build
import Quire.Proofs.Site.Contents
import Quire.Proofs.Site.Documents
import Quire.Proofs.Site.Exclusion
import Quire.Proofs.Site.FirstCome
import Quire.Proofs.Site.Navigation
import Quire.Proofs.Site.Output
import Quire.Proofs.Site.Ownership
import Quire.Proofs.Site.Pages
import Quire.Proofs.Site.Rebuild
import Quire.Proofs.Site.References
import Quire.Proofs.Site.Renaming
import Quire.Proofs.Site.Report
import Quire.Proofs.Site.Scan
import Quire.Proofs.Site.Source
import Quire.Proofs.Site.Staging
import Quire.Proofs.Site.Toc
import Quire.Proofs.Text.Chars
import Quire.Proofs.Text.Cut
import Quire.Proofs.Text.Lines
import Quire.Proofs.Text.Mark
import Quire.Proofs.Text.Order
import Quire.Proofs.Text.Quoted
import Quire.Proofs.Text.Split
import Quire.Proofs.Text.Trim
import Quire.Proofs.Toml.Quoted
import Quire.Proofs.Toml.Reader
import Quire.Proofs.Tree.Files
import Quire.Proofs.Tree.Following
import Quire.Proofs.Tree.Growth
import Quire.Proofs.Tree.Listing
import Quire.Proofs.Tree.Place
import Quire.Proofs.Tree.Shared
import Quire.Proofs.Workspace
import Quire.Regex.Automaton
import Quire.Regex.Basic
import Quire.Regex.CharSet
import Quire.Regex.Place
import Quire.Regex.Reader
import Quire.Regex.Size
import Quire.Site.Build
import Quire.Site.MarkdownFile
import Quire.Site.Options
import Quire.Site.Scan
import Quire.Site.Source
import Quire.Site.Staging
import Quire.Site.Toc
import Quire.Text.Alphanumeric
import Quire.Text.Band
import Quire.Text.Blank
import Quire.Text.Bytes
import Quire.Text.Lines
import Quire.Text.Lowercase
import Quire.Text.Mark
import Quire.Text.Quoted
import Quire.Text.Split
import Quire.Text.Word
import Quire.Toml.Document
import Quire.Toml.Quoted
import Quire.Toml.Reader
import Quire.Toml.Scalar
import Quire.Tree.Access
import Quire.Tree.Basic
import Quire.Tree.Changes
import Quire.Tree.Directory
import Quire.Workspace
