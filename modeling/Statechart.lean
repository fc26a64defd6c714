import Statechart.Cache
import Statechart.Definition.Builder
import Statechart.FileStore
import Statechart.Json.Reader
import Statechart.Proofs.Graph.Located
import Statechart.Proofs.Outcome
import Statechart.Report
import Statechart.Proofs.Graph.Ids
import Statechart.Proofs.Dotted
import Statechart.Proofs.Graph.Resolution
import Statechart.Proofs.Graph.Transitions
import Statechart.Proofs.Graph.Targets
import Statechart.Proofs.Shape.Fits
import Statechart.Proofs.Value.Fits
import Statechart.Proofs.Value.Misfit
import Statechart.Proofs.Extraction
import Statechart.Proofs.Fields
import Statechart.Proofs.Literal.Basic
import Statechart.Proofs.Literal.Value
import Statechart.Proofs.Shape.Levels
import Statechart.Proofs.Literal.Read
import Statechart.Proofs.Literal.State
import Statechart.Proofs.InOrder
import Statechart.Proofs.Graph.Preorder
import Statechart.Proofs.Graph.Arrows
import Statechart.Proofs.Facts.States
import Statechart.Proofs.Facts.Sites
import Statechart.Proofs.Facts.Tables
import Statechart.Proofs.FilePath
import Statechart.Proofs.Cache.Entries
import Statechart.Proofs.Cache.History
import Statechart.Proofs.Shape.Accepted
import Statechart.Proofs.Shape.Forms
import Statechart.Proofs.Shape.Stable
import Statechart.Proofs.Shape.Unambiguous
import Statechart.Proofs.Leniency
import Statechart.Proofs.Entries
import Statechart.Proofs.Shape.Objects
import Statechart.Proofs.Kept
import Statechart.Proofs.Shape.Induction
import Statechart.Proofs.Obstacle
import Statechart.Proofs.Scope
import Statechart.Proofs.Naming
import Statechart.Proofs.Endless
import Statechart.Proofs.Graph.Kinds
import Statechart.Proofs.Leaves
import Statechart.Proofs.Facts.Provided
import Statechart.Proofs.Graph.Offered
import Statechart.Proofs.Graph.References
import Statechart.Proofs.Graph.Unresolved
import Statechart.Proofs.Graph.Duplicates
import Statechart.Proofs.Nesting
import Statechart.Proofs.Shape.Parts
import Statechart.Proofs.Literal.Obstacle
import Statechart.Proofs.Source.Findings
import Statechart.Proofs.Source.Calls
import Statechart.Proofs.Value.Loops
import Statechart.Proofs.Value.Offender
import Statechart.Proofs.Implementations
import Statechart.Proofs.Cache.Listing
import Statechart.Proofs.Reordering
import Statechart.Proofs.Shape.Reordered
import Statechart.Proofs.Value.OwnFields
import Statechart.Proofs.Value.Reordered
import Statechart.Proofs.Number.Digits
import Statechart.Proofs.Number.Zero
import Statechart.Proofs.Number.Literal
import Statechart.Proofs.Source.Operators
import Statechart.Proofs.Number.Key
import Statechart.Proofs.Graph.Delays
import Statechart.Proofs.Json.Written
import Statechart.Proofs.Settings
import Statechart.Proofs.Delays
import Statechart.Proofs.Source.StringLiteral
import Statechart.Proofs.Chains
import Statechart.Proofs.Shape.Refused
import Statechart.Proofs.Creators
import Statechart.Proofs.Facts.Collector
import Statechart.Proofs.Source.Walk
import Statechart.Proofs.Value.Tracked
