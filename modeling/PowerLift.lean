import PowerLift.Code.Symbol
import PowerLift.Code.UseBits
import PowerLift.Config.Basic
import PowerLift.Config.Reader
import PowerLift.Config.Report
import PowerLift.Discovery.Marks
import PowerLift.Emit.Draft
import PowerLift.Emit.Function
import PowerLift.Error
import PowerLift.Graph.Json
import PowerLift.Image.Fetch
import PowerLift.Image.File
import PowerLift.Image.LocatorSearch
import PowerLift.Image.VTable
import PowerLift.Isa.Effects
import PowerLift.Isa.Mask
import PowerLift.Isa.Operand
import PowerLift.Layout
import PowerLift.Project.Run
import PowerLift.Proofs.AddressParsing
import PowerLift.Proofs.AddressSet
import PowerLift.Proofs.AddressText
import PowerLift.Proofs.Alignment
import PowerLift.Proofs.AnyOrder
import PowerLift.Proofs.Architecture
import PowerLift.Proofs.Arms
import PowerLift.Proofs.Assembler
import PowerLift.Proofs.Assembly
import PowerLift.Proofs.BlockCover
import PowerLift.Proofs.BlockQueries
import PowerLift.Proofs.Blocks
import PowerLift.Proofs.BranchForms
import PowerLift.Proofs.BranchTargets
import PowerLift.Proofs.Callees
import PowerLift.Proofs.ComputedBranches
import PowerLift.Proofs.Constants
import PowerLift.Proofs.Contributions
import PowerLift.Proofs.ControlFlow
import PowerLift.Proofs.Coverage
import PowerLift.Proofs.DeclaredOverlaps
import PowerLift.Proofs.DeviceBases
import PowerLift.Proofs.Dispatch
import PowerLift.Proofs.DolFile
import PowerLift.Proofs.EffectsCover
import PowerLift.Proofs.Emitted
import PowerLift.Proofs.Entries
import PowerLift.Proofs.EntryBlock
import PowerLift.Proofs.Evaluation
import PowerLift.Proofs.Exits
import PowerLift.Proofs.Exploration
import PowerLift.Proofs.Extents
import PowerLift.Proofs.FixedPoint
import PowerLift.Proofs.FlushModes
import PowerLift.Proofs.Following
import PowerLift.Proofs.GraphBuild
import PowerLift.Proofs.GraphChanges
import PowerLift.Proofs.Implemented
import PowerLift.Proofs.Inline
import PowerLift.Proofs.Landing
import PowerLift.Proofs.Layout
import PowerLift.Proofs.Locals
import PowerLift.Proofs.LocatorSearch
import PowerLift.Proofs.Lookup
import PowerLift.Proofs.MarkRange
import PowerLift.Proofs.MergedRanges
import PowerLift.Proofs.Naming
import PowerLift.Proofs.Nodes
import PowerLift.Proofs.Origins
import PowerLift.Proofs.Overlap
import PowerLift.Proofs.OverlapPairs
import PowerLift.Proofs.Partition
import PowerLift.Proofs.Positions
import PowerLift.Proofs.Reachability
import PowerLift.Proofs.Recognition
import PowerLift.Proofs.Recorded
import PowerLift.Proofs.RegisterRange
import PowerLift.Proofs.RegisterUse
import PowerLift.Proofs.Rotations
import PowerLift.Proofs.Routines
import PowerLift.Proofs.Runs
import PowerLift.Proofs.SavedContext
import PowerLift.Proofs.Scanned
import PowerLift.Proofs.Search
import PowerLift.Proofs.SourceFiles
import PowerLift.Proofs.SourceTable
import PowerLift.Proofs.SpecialForms
import PowerLift.Proofs.StoredBytes
import PowerLift.Proofs.Successors
import PowerLift.Proofs.Sweep
import PowerLift.Proofs.TableIndex
import PowerLift.Proofs.Transfers
import PowerLift.Proofs.Translation
import PowerLift.Proofs.UseBits
import PowerLift.Proofs.Validity
import PowerLift.Proofs.VirtualTables
import PowerLift.Proofs.Walk
import PowerLift.Proofs.Worklist
import PowerLift.Search
