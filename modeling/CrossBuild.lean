import CrossBuild.Archive.Bytes
import CrossBuild.Archive.Checksum
import CrossBuild.Archive.Digest
import CrossBuild.Archive.Entry
import CrossBuild.Archive.Error
import CrossBuild.Archive.Gzip
import CrossBuild.Archive.Header
import CrossBuild.Archive.Inflate
import CrossBuild.Archive.Pack
import CrossBuild.Archive.Reader
import CrossBuild.Archive.Unpack
import CrossBuild.Archive.Writer
import CrossBuild.Bundle.Filter
import CrossBuild.Bundle.Key
import CrossBuild.Calendar.Date
import CrossBuild.Calendar.MailDate
import CrossBuild.Calendar.Stamp
import CrossBuild.Command.Basic
import CrossBuild.Command.Scripted
import CrossBuild.CommandLine.Failure
import CrossBuild.CommandLine.Generate
import CrossBuild.CommandLine.Handoff
import CrossBuild.CommandLine.Invocation
import CrossBuild.CommandLine.Parameter
import CrossBuild.CommandLine.Perform
import CrossBuild.CommandLine.Reading
import CrossBuild.Directive.Basic
import CrossBuild.Directive.CommitTag
import CrossBuild.Exchange.Handoff
import CrossBuild.Exchange.Inventory
import CrossBuild.Exchange.Pipeline
import CrossBuild.Exchange.Retention
import CrossBuild.FileTree.Basic
import CrossBuild.FileTree.Change
import CrossBuild.FileTree.Resolve
import CrossBuild.Handoff.Download
import CrossBuild.Handoff.Error
import CrossBuild.Handoff.Selection
import CrossBuild.Handoff.Upload
import CrossBuild.Inventory.Basic
import CrossBuild.Inventory.Platform
import CrossBuild.Inventory.Project
import CrossBuild.Inventory.Survey
import CrossBuild.JobScript
import CrossBuild.Json.Basic
import CrossBuild.Json.Reader
import CrossBuild.Json.Writer
import CrossBuild.Machine
import CrossBuild.Main
import CrossBuild.Path
import CrossBuild.Pipeline.Basic
import CrossBuild.Pipeline.Descriptor
import CrossBuild.Pipeline.Job
import CrossBuild.Plan.Child
import CrossBuild.Plan.Jobs
import CrossBuild.Plan.Selection
import CrossBuild.Plan.TopLevel
import CrossBuild.Proofs.ArchiveEntries
import CrossBuild.Proofs.BundleChoice
import CrossBuild.Proofs.ByteLists
import CrossBuild.Proofs.CatalogStages
import CrossBuild.Proofs.DirectiveMeaning
import CrossBuild.Proofs.DownloadRun
import CrossBuild.Proofs.DownstreamRequests
import CrossBuild.Proofs.FanOut
import CrossBuild.Proofs.GeneratedJobs
import CrossBuild.Proofs.Glob
import CrossBuild.Proofs.HeaderFields
import CrossBuild.Proofs.HeaderNumbers
import CrossBuild.Proofs.JobNames
import CrossBuild.Proofs.KeyGlobs
import CrossBuild.Proofs.KeyOrder
import CrossBuild.Proofs.MapLookup
import CrossBuild.Proofs.OpenPaths
import CrossBuild.Proofs.OpeningDownload
import CrossBuild.Proofs.Overlay
import CrossBuild.Proofs.PackedFiles
import CrossBuild.Proofs.PlacedFiles
import CrossBuild.Proofs.Placement
import CrossBuild.Proofs.SelectionMeaning
import CrossBuild.Proofs.SelectedPaths
import CrossBuild.Proofs.Sequencing
import CrossBuild.Proofs.ShellWords
import CrossBuild.Proofs.StepsUp
import CrossBuild.Proofs.StoredData
import CrossBuild.Proofs.StoredNames
import CrossBuild.Proofs.TextPieces
import CrossBuild.Proofs.TreeChanges
import CrossBuild.Proofs.TreeWalk
import CrossBuild.Repository
import CrossBuild.Retention
import CrossBuild.Run
import CrossBuild.Settings.Basic
import CrossBuild.Settings.File
import CrossBuild.Settings.Reader
import CrossBuild.Shell.Program
import CrossBuild.Shell.Quote
import CrossBuild.Shell.Run
import CrossBuild.Shell.Script
import CrossBuild.Shell.Session
import CrossBuild.Shell.Token
import CrossBuild.SortedMap
import CrossBuild.Stages
import CrossBuild.Store.Basic
import CrossBuild.Store.Bucket
import CrossBuild.Store.Directory
import CrossBuild.Store.Memory
import CrossBuild.Store.Rehearsal
import CrossBuild.Text.Basic
import CrossBuild.Text.Numeral
import CrossBuild.Text.Pattern
import CrossBuild.Text.Utf8
import CrossBuild.Text.Wildcard
import CrossBuild.Yaml.Block
import CrossBuild.Yaml.Cursor
import CrossBuild.Yaml.Decode
import CrossBuild.Yaml.Flow
import CrossBuild.Yaml.Node
import CrossBuild.Yaml.Scalar
import CrossBuild.Yaml.Token
import CrossBuild.Yaml.Value
import CrossBuild.Yaml.Writer
import CrossBuild.Proofs.TopLevelSucceeds
import CrossBuild.Proofs.PipelineRuns
import CrossBuild.Proofs.RenderedCommands
import CrossBuild.Proofs.ChildCall
import CrossBuild.Proofs.ChildLine
import CrossBuild.Proofs.WrittenFiles
import CrossBuild.Proofs.DescriptorContent
import CrossBuild.Proofs.PathLeads
import CrossBuild.Proofs.PathParents
import CrossBuild.Proofs.TreeEdits
import CrossBuild.Proofs.Unpacking
import CrossBuild.Proofs.Pruning
import CrossBuild.Proofs.DownloadEffect
import CrossBuild.Proofs.ArchivePaths
import CrossBuild.Proofs.HostileArchives
import CrossBuild.Proofs.WorkspacePaths
import CrossBuild.Proofs.SoundTrees
import CrossBuild.Proofs.UploadedFiles
import CrossBuild.Proofs.SharedStores
import CrossBuild.Proofs.JobRuns
import CrossBuild.Proofs.CalendarDays
import CrossBuild.Proofs.MomentTexts
import CrossBuild.Proofs.RecordTexts
import CrossBuild.Proofs.WrittenNumbers
import CrossBuild.Proofs.StoredKeys
import CrossBuild.Proofs.KeptBundles
import CrossBuild.Proofs.StoreAnswers
import CrossBuild.Proofs.AlikeTrees
import CrossBuild.Proofs.AlikeDownloads
import CrossBuild.Proofs.AlikeStores
import CrossBuild.Proofs.ArrivalOrder
import CrossBuild.Proofs.HardwareTasks
import CrossBuild.Proofs.KeyTexts
import CrossBuild.Proofs.RepeatedHosts
import CrossBuild.Proofs.UploadLine
import CrossBuild.Proofs.StorableJobs
import CrossBuild.Proofs.CommitTags
import CrossBuild.Proofs.ByteOrder
import CrossBuild.Proofs.SurveyMeaning
import CrossBuild.Proofs.WalkedFiles
import CrossBuild.Proofs.UnnamedUploads
import CrossBuild.Proofs.NamedUploads
import CrossBuild.Proofs.EmbeddedDirectives
import CrossBuild.Proofs.DirectiveOrigin
import CrossBuild.Proofs.ListedBranches
import CrossBuild.Proofs.FailedPuts
import CrossBuild.Proofs.HollowDirectories
import CrossBuild.Proofs.Expirations
import CrossBuild.Proofs.ClientComplaints
