import PetriCcs.Arena
import PetriCcs.Ccs.Encoding
import PetriCcs.Ccs.Name
import PetriCcs.Ccs.Printer
import PetriCcs.Ccs.Term
import PetriCcs.Classification.Basic
import PetriCcs.Classification.Choice
import PetriCcs.Classification.Search
import PetriCcs.Classification.Workflow
import PetriCcs.Config
import PetriCcs.Datum
import PetriCcs.Document.Basic
import PetriCcs.Document.Error
import PetriCcs.Document.Format
import PetriCcs.Document.Import
import PetriCcs.Error
import PetriCcs.Files.Access
import PetriCcs.Files.Directory
import PetriCcs.Files.Path
import PetriCcs.Handle
import PetriCcs.Json.Reader
import PetriCcs.Json.Writer
import PetriCcs.Main
import PetriCcs.Net.Basic
import PetriCcs.Net.Consistency
import PetriCcs.Net.Dot
import PetriCcs.Net.Edit
import PetriCcs.Net.Inspect
import PetriCcs.Net.Label
import PetriCcs.Net.NameTable
import PetriCcs.Options.Basic
import PetriCcs.Options.Words
import PetriCcs.Program
import PetriCcs.Proofs.Actions
import PetriCcs.Proofs.Allocation
import PetriCcs.Proofs.Arcs
import PetriCcs.Proofs.Arena
import PetriCcs.Proofs.Atomicity
import PetriCcs.Proofs.Bags
import PetriCcs.Proofs.Bisimulation
import PetriCcs.Proofs.Blocks
import PetriCcs.Proofs.Calls
import PetriCcs.Proofs.CheckContract
import PetriCcs.Proofs.ChoiceClasses
import PetriCcs.Proofs.Clone
import PetriCcs.Proofs.Consistent
import PetriCcs.Proofs.Copy
import PetriCcs.Proofs.Data
import PetriCcs.Proofs.Digits
import PetriCcs.Proofs.DocumentText
import PetriCcs.Proofs.DotReading
import PetriCcs.Proofs.Drawings
import PetriCcs.Proofs.EdgeRemoval
import PetriCcs.Proofs.Encoding
import PetriCcs.Proofs.EncodingBisimulation
import PetriCcs.Proofs.EncodingEquivariance
import PetriCcs.Proofs.EquationSystem
import PetriCcs.Proofs.Equations
import PetriCcs.Proofs.Equivariance
import PetriCcs.Proofs.Evolution
import PetriCcs.Proofs.FlowGraph
import PetriCcs.Proofs.Frame
import PetriCcs.Proofs.Gains
import PetriCcs.Proofs.GraphContract
import PetriCcs.Proofs.GroupChoice
import PetriCcs.Proofs.GroupFlow
import PetriCcs.Proofs.GroupSplit
import PetriCcs.Proofs.Growth
import PetriCcs.Proofs.HistoryIndependence
import PetriCcs.Proofs.Hygiene
import PetriCcs.Proofs.Import
import PetriCcs.Proofs.ImportContract
import PetriCcs.Proofs.JsonRoundTrip
import PetriCcs.Proofs.LabelHistory
import PetriCcs.Proofs.Labels
import PetriCcs.Proofs.Links
import PetriCcs.Proofs.MergeOrders
import PetriCcs.Proofs.NameHistory
import PetriCcs.Proofs.NameTable
import PetriCcs.Proofs.NamedEdits
import PetriCcs.Proofs.NamedGraph
import PetriCcs.Proofs.Names
import PetriCcs.Proofs.NetGame
import PetriCcs.Proofs.NodeRemoval
import PetriCcs.Proofs.Outputs
import PetriCcs.Proofs.Pairing
import PetriCcs.Proofs.Processes
import PetriCcs.Proofs.ProgramContract
import PetriCcs.Proofs.Provenance
import PetriCcs.Proofs.Reachable
import PetriCcs.Proofs.Rebuild
import PetriCcs.Proofs.References
import PetriCcs.Proofs.Related
import PetriCcs.Proofs.RichSpelling
import PetriCcs.Proofs.RonLexical
import PetriCcs.Proofs.RonRoundTrip
import PetriCcs.Proofs.SameGraph
import PetriCcs.Proofs.Search
import PetriCcs.Proofs.Shape
import PetriCcs.Proofs.Spelling
import PetriCcs.Proofs.Splicing
import PetriCcs.Proofs.Splitting
import PetriCcs.Proofs.SyncBisimulation
import PetriCcs.Proofs.SyncEquivariance
import PetriCcs.Proofs.Synchronise
import PetriCcs.Proofs.SynchroniseClasses
import PetriCcs.Proofs.SynchroniseContract
import PetriCcs.Proofs.SynchroniseFrame
import PetriCcs.Proofs.SynchroniseTrace
import PetriCcs.Proofs.Takeover
import PetriCcs.Proofs.TokenGame
import PetriCcs.Proofs.TokenReading
import PetriCcs.Proofs.Tokens
import PetriCcs.Proofs.Workflow
import PetriCcs.Proofs.World
import PetriCcs.Proofs.WrittenFiles
import PetriCcs.Random.ChaCha
import PetriCcs.Random.Source
import PetriCcs.Ron.Lexical
import PetriCcs.Ron.Reader
import PetriCcs.Ron.Writer
import PetriCcs.Sync.Basic
import PetriCcs.Sync.Pairing
import PetriCcs.Text.Digits
import PetriCcs.Text.Escape
import PetriCcs.Text.Front
import PetriCcs.Text.Identifier
import PetriCcs.Text.Printable
import PetriCcs.Text.Ranges
import PetriCcs.Toml.Reader
import PetriCcs.Toml.Scalar
import PetriCcs.Workspace
