import IdeExport.BuildCommand
import IdeExport.CommandLine.Command
import IdeExport.CommandLine.Options
import IdeExport.CommandLine.Places
import IdeExport.CommandLine.Run
import IdeExport.Data.Codec
import IdeExport.Data.Format
import IdeExport.Data.Value
import IdeExport.Descriptor.Basic
import IdeExport.Descriptor.Target
import IdeExport.Descriptor.Tree
import IdeExport.Diagnostic
import IdeExport.Export
import IdeExport.FileTree
import IdeExport.Folder
import IdeExport.Graph.Language
import IdeExport.Graph.Policy
import IdeExport.Graph.Project
import IdeExport.Graph.Settings
import IdeExport.Graph.Target
import IdeExport.Json.Printer
import IdeExport.Json.Reader
import IdeExport.Json.Token
import IdeExport.ListFiles
import IdeExport.ListValue
import IdeExport.Main
import IdeExport.Markup.Builder
import IdeExport.Markup.Element
import IdeExport.Markup.Entity
import IdeExport.Path.Lexical
import IdeExport.Path.Native
import IdeExport.Pipeline.Basic
import IdeExport.Pipeline.Phases
import IdeExport.Pipeline.Validation
import IdeExport.Proofs.Data.Shape
import IdeExport.Proofs.Data.Spelling
import IdeExport.Proofs.Descriptor.OwnSettings
import IdeExport.Proofs.Descriptor.Owners
import IdeExport.Proofs.Descriptor.ReadBack
import IdeExport.Proofs.Descriptor.Rows
import IdeExport.Proofs.Descriptor.Switches
import IdeExport.Proofs.Descriptor.Titles
import IdeExport.Proofs.Descriptor.Units
import IdeExport.Proofs.Descriptor.View
import IdeExport.Proofs.Export.DryRun
import IdeExport.Proofs.Export.Frame
import IdeExport.Proofs.Export.Order
import IdeExport.Proofs.Export.Siblings
import IdeExport.Proofs.Export.Verdict
import IdeExport.Proofs.FileTree.AllOrNothing
import IdeExport.Proofs.FileTree.Creating
import IdeExport.Proofs.FileTree.Effects
import IdeExport.Proofs.FileTree.Extends
import IdeExport.Proofs.FileTree.Parents
import IdeExport.Proofs.FileTree.Ways
import IdeExport.Proofs.FileTree.Writing
import IdeExport.Proofs.FirstOccurrences
import IdeExport.Proofs.Folder.Arrangement
import IdeExport.Proofs.Folder.Declared
import IdeExport.Proofs.Folder.Entries
import IdeExport.Proofs.Folder.Growth
import IdeExport.Proofs.ListFiles.Entries
import IdeExport.Proofs.ListFiles.HomeFiles
import IdeExport.Proofs.ListFiles.Kept
import IdeExport.Proofs.ListFiles.Placement
import IdeExport.Proofs.ListValue.Encoding
import IdeExport.Proofs.ListValue.Joining
import IdeExport.Proofs.Markup.Levels
import IdeExport.Proofs.Markup.Lines
import IdeExport.Proofs.Markup.Normalization
import IdeExport.Proofs.Markup.ReadBack
import IdeExport.Proofs.Markup.Reader
import IdeExport.Proofs.Markup.Scanning
import IdeExport.Proofs.Markup.Unescaping
import IdeExport.Proofs.Path.Below
import IdeExport.Proofs.Path.Parts
import IdeExport.Proofs.Path.Pieces
import IdeExport.Proofs.Path.Relative
import IdeExport.Proofs.Path.Resolution
import IdeExport.Proofs.Pipeline.Findings
import IdeExport.Proofs.Pipeline.Prepared
import IdeExport.Proofs.Pipeline.Recorded
import IdeExport.Proofs.Report.Check
import IdeExport.Proofs.Snapshot.Declarations
import IdeExport.Proofs.Snapshot.DescriptorPaths
import IdeExport.Proofs.Snapshot.FirstFault
import IdeExport.Proofs.Snapshot.NameFields
import IdeExport.Proofs.Snapshot.NameSpans
import IdeExport.Proofs.Snapshot.Positions
import IdeExport.Proofs.Snapshot.RoundTrip
import IdeExport.Proofs.Snapshot.WellFormed
import IdeExport.Proofs.Sources.Classification
import IdeExport.Proofs.Sources.Discovery
import IdeExport.Proofs.Sources.Generated
import IdeExport.Proofs.Sources.Headers
import IdeExport.Proofs.Sources.Partition
import IdeExport.Proofs.TargetSettings.FirstGiven
import IdeExport.Proofs.TargetSettings.Grouping
import IdeExport.Proofs.Text.Bytes
import IdeExport.Proofs.Text.Occurrences
import IdeExport.Proofs.Toml.Strings
import IdeExport.Report.Basic
import IdeExport.Report.Check
import IdeExport.Report.Export
import IdeExport.Report.Targets
import IdeExport.Snapshot.Basic
import IdeExport.Snapshot.Reading
import IdeExport.Snapshot.Records
import IdeExport.Snapshot.Span
import IdeExport.Snapshot.Validation
import IdeExport.SortedList
import IdeExport.Sources
import IdeExport.TargetSettings
import IdeExport.Text.Basic
import IdeExport.Text.Blank
import IdeExport.Text.Digits
import IdeExport.Text.LineDiff
import IdeExport.Text.Map
import IdeExport.Toml.Document
import IdeExport.Toml.Reader
import IdeExport.Toml.Scalar
import IdeExport.Toml.Token
