import Marginalia.Invocation.Parse
import Marginalia.Go.Import
import Marginalia.Go.Comment
import Marginalia.Go.Lexeme
import Marginalia.Go.Tree
import Marginalia.Go.Grammar.Reading
import Marginalia.Go.Grammar.Type
import Marginalia.Go.Grammar.Expression
import Marginalia.Go.Grammar.Statement
import Marginalia.Go.Grammar.SourceFile
import Marginalia.Go.Build
import Marginalia.Go.Member
import Marginalia.Layout
import Marginalia.Annotated.Entity
import Marginalia.Resolve.Qualify
import Marginalia.Error
import Marginalia.Cache.Versioned
import Marginalia.Cache.Strings
import Marginalia.Cache.Snapshot
import Marginalia.Workspace.Scan
import Marginalia.Resolve.Lookup
import Marginalia.Edit.FileEdit
import Marginalia.Config
import Marginalia.Workspace.Listing
import Marginalia.Workspace.State
import Marginalia.Resolve.OutputPath
import Marginalia.Plugin.Basic
import Marginalia.Plugin.Dump
import Marginalia.Command.Args
import Marginalia.Command.Report
import Marginalia.Command.Run
import Marginalia.Main
import Marginalia.Proofs.Edit.Twice
import Marginalia.Proofs.Go.BoundName
import Marginalia.Proofs.Resolve.Requalify
import Marginalia.Proofs.Invocation.RoundTrip
import Marginalia.Proofs.Workspace.ContentCache
import Marginalia.Proofs.Resolve.History
import Marginalia.Proofs.Layout.Runs
import Marginalia.Proofs.Layout.Stable
import Marginalia.Proofs.Cache.File
import Marginalia.Proofs.Edit.Calls
import Marginalia.Proofs.Invocation.Scan
import Marginalia.Proofs.Resolve.Chain
import Marginalia.Proofs.Go.CommentOwner
import Marginalia.Proofs.Go.CommentText
import Marginalia.Proofs.Annotated.CommentLines
import Marginalia.Proofs.Edit.SpanEdit
import Marginalia.Proofs.Edit.Filler
import Marginalia.Proofs.Go.ImportOrder
import Marginalia.Proofs.Edit.Block
import Marginalia.Proofs.Edit.SortedBlock
import Marginalia.Proofs.Go.Grammar.SourceFile
import Marginalia.Proofs.Go.TreeOrder
import Marginalia.Proofs.Go.TidyText
import Marginalia.Proofs.Workspace.MarkerFilter
import Marginalia.Proofs.Workspace.DirectoryScan
import Marginalia.Proofs.Resolve.PackageHome
import Marginalia.Proofs.Cache.LoadHistory
import Marginalia.Proofs.Go.ObjectIndex
import Marginalia.Proofs.Go.Numbering
import Marginalia.Proofs.Go.Qualifier
import Marginalia.Proofs.Edit.Declares
