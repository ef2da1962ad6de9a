import MeshFlow.Block.Basic
import MeshFlow.Block.Gathering
import MeshFlow.Block.Motions
import MeshFlow.Block.Numbers
import MeshFlow.Block.PerVertex
import MeshFlow.Block.Plans
import MeshFlow.Block.Properties
import MeshFlow.Block.Registry
import MeshFlow.Block.Scatter
import MeshFlow.Block.Shapes
import MeshFlow.Block.Sockets
import MeshFlow.Build.Config
import MeshFlow.Build.Context
import MeshFlow.Build.Diagnostic
import MeshFlow.Build.Evaluation
import MeshFlow.Build.Outcome
import MeshFlow.Build.Program
import MeshFlow.Build.Session
import MeshFlow.Document.Basic
import MeshFlow.Document.Load
import MeshFlow.Document.Save
import MeshFlow.Graph.Ancestry
import MeshFlow.Graph.Basic
import MeshFlow.Graph.Kinds
import MeshFlow.Graph.Wiring
import MeshFlow.Json.Basic
import MeshFlow.Json.Decode
import MeshFlow.Json.Reader
import MeshFlow.Json.Shape
import MeshFlow.Json.Token
import MeshFlow.Json.Writer
import MeshFlow.Mesh.Attribute
import MeshFlow.Mesh.Basic
import MeshFlow.Mesh.Builder
import MeshFlow.Mesh.Indexed
import MeshFlow.Mesh.Inside
import MeshFlow.Mesh.Merge
import MeshFlow.Mesh.Motion
import MeshFlow.Mesh.Normals
import MeshFlow.Mesh.Record
import MeshFlow.Mesh.Shape.Cuboid
import MeshFlow.Mesh.Shape.Cylinder
import MeshFlow.Mesh.Shape.Plane
import MeshFlow.Mesh.Shape.Sphere
import MeshFlow.Mesh.Validity
import MeshFlow.Number.Binary
import MeshFlow.Number.Convert
import MeshFlow.Number.Shortest
import MeshFlow.Number.Text
import MeshFlow.Proofs.Acyclic
import MeshFlow.Proofs.Admitting
import MeshFlow.Proofs.Always
import MeshFlow.Proofs.Arithmetic
import MeshFlow.Proofs.Changes
import MeshFlow.Proofs.Climbing
import MeshFlow.Proofs.Converting
import MeshFlow.Proofs.Covering
import MeshFlow.Proofs.Crossing
import MeshFlow.Proofs.Depending
import MeshFlow.Proofs.Documents
import MeshFlow.Proofs.Drawing
import MeshFlow.Proofs.Edits
import MeshFlow.Proofs.Effort
import MeshFlow.Proofs.Enclosing
import MeshFlow.Proofs.Entries
import MeshFlow.Proofs.Excluding
import MeshFlow.Proofs.Finding
import MeshFlow.Proofs.Fitting
import MeshFlow.Proofs.Flags
import MeshFlow.Proofs.Heedless
import MeshFlow.Proofs.Integers
import MeshFlow.Proofs.Kinds
import MeshFlow.Proofs.Lengths
import MeshFlow.Proofs.Literals
import MeshFlow.Proofs.Loaded
import MeshFlow.Proofs.Locks
import MeshFlow.Proofs.Lookup
import MeshFlow.Proofs.Looping
import MeshFlow.Proofs.Members
import MeshFlow.Proofs.Naming
import MeshFlow.Proofs.Nearest
import MeshFlow.Proofs.Nesting
import MeshFlow.Proofs.Normals
import MeshFlow.Proofs.Numbering
import MeshFlow.Proofs.Ordered
import MeshFlow.Proofs.Orderly
import MeshFlow.Proofs.Outcome
import MeshFlow.Proofs.Outlines
import MeshFlow.Proofs.Painting
import MeshFlow.Proofs.Parts
import MeshFlow.Proofs.Pass
import MeshFlow.Proofs.Patterns
import MeshFlow.Proofs.Placing
import MeshFlow.Proofs.Plain
import MeshFlow.Proofs.Ragged
import MeshFlow.Proofs.Refining
import MeshFlow.Proofs.Reload
import MeshFlow.Proofs.Reopening
import MeshFlow.Proofs.Replay
import MeshFlow.Proofs.Reporting
import MeshFlow.Proofs.Rereading
import MeshFlow.Proofs.Resolution
import MeshFlow.Proofs.Restoring
import MeshFlow.Proofs.Rims
import MeshFlow.Proofs.Rounded
import MeshFlow.Proofs.Rounding
import MeshFlow.Proofs.Running
import MeshFlow.Proofs.Sameness
import MeshFlow.Proofs.Seams
import MeshFlow.Proofs.Settings
import MeshFlow.Proofs.Silence
import MeshFlow.Proofs.Spreading
import MeshFlow.Proofs.Standard
import MeshFlow.Proofs.Steady
import MeshFlow.Proofs.Storing
import MeshFlow.Proofs.Strict
import MeshFlow.Proofs.Suiting
import MeshFlow.Proofs.Surviving
import MeshFlow.Proofs.Terminating
import MeshFlow.Proofs.Tracing
import MeshFlow.Proofs.Typing
import MeshFlow.Proofs.Underway
import MeshFlow.Proofs.Undoing
import MeshFlow.Proofs.Unwired
import MeshFlow.Proofs.ValidPasses
import MeshFlow.Proofs.Validity
import MeshFlow.Proofs.Versions
import MeshFlow.Proofs.Winding
import MeshFlow.Proofs.Wired
import MeshFlow.Proofs.Yielding
import MeshFlow.Random.ChaCha
import MeshFlow.Random.Generator
import MeshFlow.Socket.Id
import MeshFlow.Socket.Spec
import MeshFlow.Space.Matrix
import MeshFlow.Space.Placement
import MeshFlow.Space.Triangle
import MeshFlow.Space.Vector
import MeshFlow.Value.Basic
import MeshFlow.Value.Kind
import MeshFlow.Value.Literal
