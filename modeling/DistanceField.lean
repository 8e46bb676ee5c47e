import DistanceField.Config.Action
import DistanceField.Expr.Equality
import DistanceField.Main
import DistanceField.Proofs.Accumulation
import DistanceField.Proofs.Braces
import DistanceField.Proofs.Completion
import DistanceField.Proofs.Configuration
import DistanceField.Proofs.Cycle
import DistanceField.Proofs.Directives
import DistanceField.Proofs.DoubleRounding
import DistanceField.Proofs.Emission
import DistanceField.Proofs.History
import DistanceField.Proofs.Indentation
import DistanceField.Proofs.JsonNumber
import DistanceField.Proofs.Layers
import DistanceField.Proofs.Legibility
import DistanceField.Proofs.Lifecycle
import DistanceField.Proofs.Locality
import DistanceField.Proofs.Location
import DistanceField.Proofs.Macros
import DistanceField.Proofs.Margin
import DistanceField.Proofs.Normalization
import DistanceField.Proofs.NumberAgreement
import DistanceField.Proofs.Placement
import DistanceField.Proofs.Reentry
import DistanceField.Proofs.Registration
import DistanceField.Proofs.Resolution
import DistanceField.Proofs.Rounding
import DistanceField.Proofs.Shortest
import DistanceField.Proofs.Simulation
import DistanceField.Proofs.Spelling
import DistanceField.Proofs.Splicing
import DistanceField.Proofs.Stability
import DistanceField.Proofs.Supply
import DistanceField.Proofs.Transform
import DistanceField.Proofs.Traversal
import DistanceField.Session
