import TensorDiffusion.Basis.Lagrange
import TensorDiffusion.Basis.Tables
import TensorDiffusion.Basis.TablesText
import TensorDiffusion.Buffer
import TensorDiffusion.Coefficient
import TensorDiffusion.Decimal.Layout
import TensorDiffusion.Decimal.Shortest
import TensorDiffusion.Description
import TensorDiffusion.Diffusion.Action
import TensorDiffusion.Diffusion.Diagonal
import TensorDiffusion.Diffusion.Form
import TensorDiffusion.Diffusion.OperatorData
import TensorDiffusion.Diffusion.Selection
import TensorDiffusion.Diffusion.Shape
import TensorDiffusion.Elements
import TensorDiffusion.Execution
import TensorDiffusion.Execution.Text
import TensorDiffusion.Fault
import TensorDiffusion.Geometry.Factors
import TensorDiffusion.Geometry.Interpolation
import TensorDiffusion.Integrator
import TensorDiffusion.Journal
import TensorDiffusion.Json.Reader
import TensorDiffusion.Json.Value
import TensorDiffusion.Matrix
import TensorDiffusion.Operator.Backend
import TensorDiffusion.Operator.Context
import TensorDiffusion.Operator.Dense
import TensorDiffusion.Operator.Factorized
import TensorDiffusion.Quadrature.Interval
import TensorDiffusion.Quadrature.Legendre
import TensorDiffusion.Quadrature.Rule
import TensorDiffusion.Quadrature.TensorRule
import TensorDiffusion.Scalar
import TensorDiffusion.Size
import TensorDiffusion.Space.Basic
import TensorDiffusion.Space.Grid
import TensorDiffusion.View
import TensorDiffusion.Proofs.Loops
import TensorDiffusion.Proofs.Views
import TensorDiffusion.Proofs.Contraction
import TensorDiffusion.Proofs.Elements
import TensorDiffusion.Proofs.FaceAction
import TensorDiffusion.Proofs.CellAction
import TensorDiffusion.Proofs.ActionStiffness
import TensorDiffusion.Proofs.Action
import TensorDiffusion.Proofs.FaceDiagonal
import TensorDiffusion.Proofs.CellDiagonal
import TensorDiffusion.Proofs.Selection
import TensorDiffusion.Proofs.Diagonal
import TensorDiffusion.Proofs.Setup
import TensorDiffusion.Proofs.Jacobian
import TensorDiffusion.Proofs.PointForms
import TensorDiffusion.Proofs.Matrices
import TensorDiffusion.Proofs.DensePoints
import TensorDiffusion.Proofs.DenseElements
import TensorDiffusion.Proofs.Operators
import TensorDiffusion.Proofs.PointData
import TensorDiffusion.Proofs.Assembly
import TensorDiffusion.Proofs.Equivalence
import TensorDiffusion.Proofs.Geometry
import TensorDiffusion.Proofs.Sampling
import TensorDiffusion.Proofs.Interleaving
import TensorDiffusion.Proofs.Schedules
import TensorDiffusion.Proofs.Rules
import TensorDiffusion.Proofs.PointSizes
import TensorDiffusion.Proofs.Integration
import TensorDiffusion.Proofs.Symmetry
import TensorDiffusion.Proofs.Semidefinite
import TensorDiffusion.Proofs.Lifecycle
import TensorDiffusion.Proofs.Bases
import TensorDiffusion.Proofs.Decision
import TensorDiffusion.Proofs.Preconditions
import TensorDiffusion.Proofs.Instances
import TensorDiffusion.Proofs.Backends
import TensorDiffusion.Proofs.Conservation
import TensorDiffusion.Proofs.Factors
import TensorDiffusion.Proofs.PatchTest
import TensorDiffusion.Proofs.Representation
import TensorDiffusion.Proofs.NodeMaps
import TensorDiffusion.Proofs.Similarity
import TensorDiffusion.Proofs.Reproduction
import TensorDiffusion.Proofs.RuleIndependence
import TensorDiffusion.Proofs.Isolation
import TensorDiffusion.Proofs.NodalSums
import TensorDiffusion.Proofs.NodalBasis
import TensorDiffusion.Proofs.Embedding
import TensorDiffusion.Proofs.OnePass
import TensorDiffusion.Proofs.TensorPoints
import TensorDiffusion.Proofs.IteratedSums
import TensorDiffusion.Proofs.LegendrePolynomials
import TensorDiffusion.Proofs.GaussRules
import TensorDiffusion.Proofs.MirroredRules
import TensorDiffusion.Proofs.LobattoRules
import TensorDiffusion.Proofs.LegendreDerivatives
import TensorDiffusion.Proofs.Grids
import TensorDiffusion.Proofs.GridCells
import TensorDiffusion.Proofs.Requests
import TensorDiffusion.Proofs.Addresses
import TensorDiffusion.Proofs.ReadingNumbers
import TensorDiffusion.Proofs.ReadingValues
import TensorDiffusion.Proofs.ReadingRecords
import TensorDiffusion.Proofs.SettingsText
import TensorDiffusion.Proofs.StoredJacobians
import TensorDiffusion.Proofs.TableTransposes
