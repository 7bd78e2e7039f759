import NamespaceAtlas.Command
import NamespaceAtlas.Command.Line
import NamespaceAtlas.Container
import NamespaceAtlas.Diagnostics
import NamespaceAtlas.Discovery
import NamespaceAtlas.Discovery.Ascent
import NamespaceAtlas.Discovery.Held
import NamespaceAtlas.Discovery.Joined
import NamespaceAtlas.Discovery.Mounted
import NamespaceAtlas.Discovery.Phase
import NamespaceAtlas.Document
import NamespaceAtlas.Document.Forms
import NamespaceAtlas.Document.Printer
import NamespaceAtlas.Document.Reader
import NamespaceAtlas.Document.Readings
import NamespaceAtlas.Errno
import NamespaceAtlas.Error
import NamespaceAtlas.Gateway
import NamespaceAtlas.Gateway.Confined
import NamespaceAtlas.Graph
import NamespaceAtlas.Graph.Lookup
import NamespaceAtlas.Host
import NamespaceAtlas.Host.Answers
import NamespaceAtlas.Host.Description
import NamespaceAtlas.Host.FileTree
import NamespaceAtlas.Identity
import NamespaceAtlas.Kernel
import NamespaceAtlas.Leadership
import NamespaceAtlas.Main
import NamespaceAtlas.MountTable
import NamespaceAtlas.Namespace
import NamespaceAtlas.Number.Decimal
import NamespaceAtlas.Options
import NamespaceAtlas.Path
import NamespaceAtlas.PidMap
import NamespaceAtlas.Process
import NamespaceAtlas.ProcessTable
import NamespaceAtlas.Procfs
import NamespaceAtlas.Program
import NamespaceAtlas.Reference
import NamespaceAtlas.Registry
import NamespaceAtlas.Registry.Lookup
import NamespaceAtlas.Report
import NamespaceAtlas.Span
import NamespaceAtlas.Species
import NamespaceAtlas.Species.Selection
import NamespaceAtlas.Survey
import NamespaceAtlas.Text.Blank
import NamespaceAtlas.Text.Bytes
import NamespaceAtlas.Text.Pieces
import NamespaceAtlas.Text.Printable
import NamespaceAtlas.Text.Quoted
import NamespaceAtlas.UserDatabase
import NamespaceAtlas.UserNames
import NamespaceAtlas.Proofs.Way
import NamespaceAtlas.Proofs.Graph.Ancestors
import NamespaceAtlas.Proofs.Identity
import NamespaceAtlas.Proofs.Graph.Forest
import NamespaceAtlas.Proofs.Outcome
import NamespaceAtlas.Proofs.Discovery.Climbed
import NamespaceAtlas.Proofs.Discovery.Ascent
import NamespaceAtlas.Proofs.Gateway
import NamespaceAtlas.Proofs.ProcessTable
import NamespaceAtlas.Proofs.Leadership
import NamespaceAtlas.Proofs.Discovery.Survivors
import NamespaceAtlas.Proofs.Discovery.Scan
import NamespaceAtlas.Proofs.Discovery.Joined
import NamespaceAtlas.Proofs.PidMap
import NamespaceAtlas.Proofs.Discovery.Numbers
import NamespaceAtlas.Proofs.Translation
import NamespaceAtlas.Proofs.Kept
import NamespaceAtlas.Proofs.Path
import NamespaceAtlas.Proofs.Quiet
import NamespaceAtlas.Proofs.Sandboxes
import NamespaceAtlas.Proofs.Discovery.Plan
import NamespaceAtlas.Proofs.Discovery.Sandboxes
import NamespaceAtlas.Proofs.Graph.Owners
import NamespaceAtlas.Proofs.Discovery.Coherent
import NamespaceAtlas.Proofs.Discovery.Integrity
import NamespaceAtlas.Proofs.Discovery.MountWorld
import NamespaceAtlas.Proofs.Discovery.Mounted
import NamespaceAtlas.Proofs.Discovery.Circles
import NamespaceAtlas.Proofs.Resolution
import NamespaceAtlas.Proofs.NodeTree
import NamespaceAtlas.Proofs.Walk
import NamespaceAtlas.Proofs.Number.Decimal
import NamespaceAtlas.Proofs.View
import NamespaceAtlas.Proofs.StillWorld
import NamespaceAtlas.Proofs.Discovery.Addressed
import NamespaceAtlas.Proofs.Discovery.Recalled
import NamespaceAtlas.Proofs.Discovery.Reopened
import NamespaceAtlas.Proofs.Topmost
import NamespaceAtlas.Proofs.Graph.Links
import NamespaceAtlas.Proofs.Discovery.Steady
import NamespaceAtlas.Proofs.Discovery.Account
import NamespaceAtlas.Proofs.Discovery.Turns
import NamespaceAtlas.Proofs.Discovery.Ownership
import NamespaceAtlas.Proofs.Text.Pieces
import NamespaceAtlas.Proofs.Text.Utf8
import NamespaceAtlas.Proofs.MountTable
import NamespaceAtlas.Proofs.Discovery.Repeated
import NamespaceAtlas.Proofs.Discovery.Later
import NamespaceAtlas.Proofs.Graph.Hidden
import NamespaceAtlas.Proofs.Discovery.Hidden
import NamespaceAtlas.Proofs.Started
import NamespaceAtlas.Proofs.Discovery.Shown
import NamespaceAtlas.Proofs.Discovery.Counted
import NamespaceAtlas.Proofs.Graph.NewEdge
import NamespaceAtlas.Proofs.Graph.EdgeOrder
import NamespaceAtlas.Proofs.Election
import NamespaceAtlas.Proofs.Containers
import NamespaceAtlas.Proofs.Charted
import NamespaceAtlas.Proofs.Kinship
import NamespaceAtlas.Proofs.Refused
import NamespaceAtlas.Proofs.Discovery.Ended
import NamespaceAtlas.Proofs.UserTree
import NamespaceAtlas.Proofs.StatLine
import NamespaceAtlas.Proofs.UserNames
import NamespaceAtlas.Proofs.KernelText
import NamespaceAtlas.Proofs.Resolution.Repeated
import NamespaceAtlas.Proofs.Resolution.Ended
import NamespaceAtlas.Proofs.Discovery.Held
import NamespaceAtlas.Proofs.StoredOptions
import NamespaceAtlas.Proofs.Selection
