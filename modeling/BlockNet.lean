import BlockNet.Catalog.Reading
import BlockNet.Graph.Canvas
import BlockNet.Graph.Order
import BlockNet.Graph.RuleMemo
import BlockNet.Proofs.Compilation.Account
import BlockNet.Proofs.Compilation.Bystander
import BlockNet.Proofs.Compilation.Exchange
import BlockNet.Proofs.Graph.Editor
import BlockNet.Proofs.Model.Recording
import BlockNet.Proofs.Session.Dataset
import BlockNet.Proofs.Session.Lifecycle
import BlockNet.Proofs.Training.Frame
import BlockNet.Session.Command
import BlockNet.Template
import BlockNet.Value.Json
import BlockNet.Proofs.Compilation.Listed
import BlockNet.Proofs.Catalog.Coercion
import BlockNet.Proofs.Graph.Verdicts
import BlockNet.Proofs.Layer.Unmade
import BlockNet.Proofs.Compilation.Clean
import BlockNet.Proofs.Layer.Sum
import BlockNet.Proofs.Model.Types
import BlockNet.Proofs.Compilation.Stream
import BlockNet.Proofs.Model.Binding
import BlockNet.Proofs.Model.Flat
import BlockNet.Proofs.Model.Producer
import BlockNet.Proofs.Compilation.Ports
import BlockNet.Proofs.Layer.Steady
import BlockNet.Proofs.Model.Steady
import BlockNet.Proofs.Layer.Entries
import BlockNet.Proofs.Layer.Correlation
import BlockNet.Proofs.Layer.Heads
import BlockNet.Proofs.Layer.Recurrence
import BlockNet.Proofs.Graph.Assignment
import BlockNet.Proofs.Graph.Consistent
import BlockNet.Proofs.Graph.Numbering
import BlockNet.Proofs.Layer.Inferred
import BlockNet.Proofs.Shape.Verdict
import BlockNet.Proofs.Shape.Written
import BlockNet.Proofs.Graph.RuleMemo
import BlockNet.Proofs.Dataset.Batches
import BlockNet.Proofs.Training.Spelling
import BlockNet.Proofs.Objective.CrossEntropy
import BlockNet.Proofs.Watch.Norm
import BlockNet.Proofs.Schedule.Laps
import BlockNet.Proofs.Schedule.Renaming
import BlockNet.Proofs.Catalog.Extended
import BlockNet.Proofs.Layer.View
