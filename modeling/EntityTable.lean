import EntityTable.Compilation
import EntityTable.CurveReport
import EntityTable.Main
import EntityTable.Proofs.Artifact.Attributes
import EntityTable.Proofs.Artifact.Centerline
import EntityTable.Proofs.Artifact.Integers
import EntityTable.Proofs.Artifact.Log
import EntityTable.Proofs.Authored.Precedence
import EntityTable.Proofs.Binary64.Spacing
import EntityTable.Proofs.CommandLine.Precedence
import EntityTable.Proofs.CommandLine.Status
import EntityTable.Proofs.CommandLine.Uses
import EntityTable.Proofs.Copies
import EntityTable.Proofs.CurveReport
import EntityTable.Proofs.Finiteness
import EntityTable.Proofs.Inheritance.Completion
import EntityTable.Proofs.Inheritance.Defects
import EntityTable.Proofs.Inheritance.Paths
import EntityTable.Proofs.Inheritance.Termination
import EntityTable.Proofs.Interpolation
import EntityTable.Proofs.Json.Pieces
import EntityTable.Proofs.Locality
import EntityTable.Proofs.Recompilation
import EntityTable.Proofs.Reordering
import EntityTable.Proofs.Reports
import EntityTable.Proofs.Settings
import EntityTable.Proofs.Storage.AllOrNothing
import EntityTable.Proofs.Storage.Artifact
import EntityTable.Proofs.Storage.Compiling
import EntityTable.Proofs.Storage.Loading
import EntityTable.Proofs.Storage.ReadBack
import EntityTable.Proofs.Storage.Writing
import EntityTable.Storage.Artifact
