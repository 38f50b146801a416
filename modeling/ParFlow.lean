import ParFlow.Lib.Cover
import ParFlow.Lib.Sorting
import ParFlow.Lib.IntLoop
import ParFlow.Lib.FuelRun
import ParFlow.Lib.AvlTree
import ParFlow.Lib.TreeWalk
import ParFlow.Lib.Strided
import ParFlow.Lib.BlockSplit
import ParFlow.Lib.ByteStream
import ParFlow.Lib.NdArray
import ParFlow.Lib.ExceptLoop
import ParFlow.Lib.PointLoop
import ParFlow.Lib.GhostExchange
import ParFlow.Lib.TreeBroadcast
import ParFlow.Lib.OrderedDict
import ParFlow.Lib.TextScan
import ParFlow.Grid.SubgridDefs
import ParFlow.Grid.SubgridCells
import ParFlow.Grid.GridDefs
import ParFlow.Grid.UnionJoin
import ParFlow.Grid.UnionExact
import ParFlow.Grid.BoxLoop
import ParFlow.Grid.Distribute
import ParFlow.Comm.ComputeDefs
import ParFlow.Comm.RegionCells
import ParFlow.Comm.Agreement
import ParFlow.Comm.PackDefs
import ParFlow.Comm.PackAddress
import ParFlow.Comm.VectorCells
import ParFlow.Comm.ComputeCells
import ParFlow.Comm.HaloSpec
import ParFlow.Comm.ProjectCells
import ParFlow.Comm.ExchangeDefs
import ParFlow.Comm.Exchange
import ParFlow.Amps.AmpsDefs
import ParFlow.Amps.Bcast
import ParFlow.Hbt.HbtDefs
import ParFlow.Hbt.HbtStore
import ParFlow.Hbt.HbtRotate
import ParFlow.Hbt.HbtInsert
import ParFlow.Hbt.HbtDictionary
import ParFlow.Hbt.HbtMemory
import ParFlow.Hbt.HbtRebalance
import ParFlow.Hbt.HbtDelete
import ParFlow.Hbt.HbtSuccessor
import ParFlow.Cluster.ClusterDefs
import ParFlow.Cluster.ClusterSplit
import ParFlow.Cluster.ClusterExact
import ParFlow.Cluster.ClusterShift
import ParFlow.Geom.OctreeDefs
import ParFlow.Geom.OctreeVisits
import ParFlow.Geom.SolidDefs
import ParFlow.Geom.TagExchange
import ParFlow.Geom.ClusterBoxes
import ParFlow.Geom.CellDefs
import ParFlow.Geom.BranchFlags
import ParFlow.Geom.OctreeSplit
import ParFlow.Geom.MaskDefs
import ParFlow.Geom.MaskFiles
import ParFlow.Geom.MaskFaces
import ParFlow.Pfb.SubgridInfoDefs
import ParFlow.Pfb.SubgridInfo
import ParFlow.Pfb.FileDefs
import ParFlow.Pfb.WriteSpec
import ParFlow.Pfb.WrittenFile
import ParFlow.Pfb.RoundTrip
import ParFlow.Pfb.Subarray
import ParFlow.Pfb.ReadPaths
import ParFlow.Pfb.DistDefs
import ParFlow.Pfb.DistFile
import ParFlow.Pfb.DistRead
import ParFlow.Solver.MatrixDefs
import ParFlow.Solver.Matvec
import ParFlow.Solver.RedBlackSweep
import ParFlow.Solver.RedBlack
import ParFlow.Solver.MatrixStorage
import ParFlow.Solver.RichardsDefs
import ParFlow.Solver.RichardsStep
import ParFlow.Solver.RichardsTime
import ParFlow.Solver.RichardsFailures
import ParFlow.Overland.FluxDefs
import ParFlow.Overland.Fluxes
import ParFlow.Lib.TruncDiv
import ParFlow.Grid.Refinement
import ParFlow.Grid.Background
import ParFlow.Comm.ProjectLaw
import ParFlow.Keys.DatabaseDefs
import ParFlow.Keys.YamlEntries
import ParFlow.Keys.Yaml
import ParFlow.Keys.Pfidb
import ParFlow.Output.MetadataDefs
import ParFlow.Output.Metadata
import ParFlow.Hbt.HbtText
import ParFlow.Grid.Layout
import ParFlow.Lib.TextTable
import ParFlow.Keys.InputDatabase
import ParFlow.Lib.NumberText
import ParFlow.Lib.DefaultStore
import ParFlow.Geom.OctreeLoops
import ParFlow.Geom.OctreeCells
import ParFlow.Geom.IndicatorSweeps
import ParFlow.Geom.OctreeFill
import ParFlow.Geom.IndicatorColumns
import ParFlow.Geom.Indicator
import ParFlow.Lib.PeriodicIntervals
import ParFlow.Time.TimeCycleDefs
import ParFlow.Time.IntervalNumber
import ParFlow.Time.NextTransition
import ParFlow.Time.SelectTimeStep
import ParFlow.Lib.LinkedChain
import ParFlow.Geom.TriangleList
import ParFlow.Lib.DepthFirst
import ParFlow.Topo.UpstreamDefs
import ParFlow.Topo.UpstreamArea
import ParFlow.Solver.MGSemiDefs
import ParFlow.Solver.MGSemiCoarsen
import ParFlow.Solver.MGSemiLevels
import ParFlow.Pfb.ReadBinaryDefs
import ParFlow.Pfb.ReadBinary
import ParFlow.Pfb.Scattered
import ParFlow.Topo.GridCells
import ParFlow.Topo.SlopeDefs
import ParFlow.Topo.UpwindSlopes
import ParFlow.Topo.SteepestSlopes
import ParFlow.Topo.LowestCell
import ParFlow.Topo.SegmentD8
import ParFlow.Lib.ForestWalk
import ParFlow.Topo.FlintsLaw
import ParFlow.Topo.FillFlats
import ParFlow.Topo.MovingAvg
import ParFlow.Topo.ColumnDefs
import ParFlow.Topo.Columns
import ParFlow.Geom.QuickSortDefs
import ParFlow.Geom.QuickSort
import ParFlow.Overland.OutflowScan
import ParFlow.Overland.Outflow
import ParFlow.Lib.FirstGreatest
import ParFlow.Tools.ToolDefs
import ParFlow.Tools.Diff
import ParFlow.Overland.Runoff
import ParFlow.Lib.TriangleSurface
import ParFlow.Geom.MaskSurface
import ParFlow.Lib.BucketSlots
import ParFlow.Geom.PatchySolidDefs
import ParFlow.Geom.PatchTally
import ParFlow.Geom.PatchTables
import ParFlow.Geom.PatchPoints
import ParFlow.Geom.PatchFaces
import ParFlow.Geom.PatchCounts
import ParFlow.Geom.PatchSurface
import ParFlow.Geom.PatchFile
import ParFlow.Overland.TotalFlow
import ParFlow.Tools.Domain
import ParFlow.Lib.WriteLog
import ParFlow.Overland.DiffusiveDefs
import ParFlow.Overland.DiffusiveCells
import ParFlow.Overland.DiffusiveColumns
import ParFlow.Overland.DiffusiveSymmetry
import ParFlow.Lib.LinearPower
import ParFlow.Overland.DiffusiveDerivative
import ParFlow.Overland.DiffusiveJacobian
import ParFlow.Amps.VectorSize
import ParFlow.Lib.PyText
import ParFlow.Lib.WordStream
import ParFlow.Geom.AscFiles
import ParFlow.Grid.BoxLoopIndex
import ParFlow.Keys.ClmInputDefs
import ParFlow.Keys.ClmInput
import ParFlow.Keys.LocationDefs
import ParFlow.Keys.Location
import ParFlow.Keys.TableDefs
import ParFlow.Keys.TableLoaders
import ParFlow.Tools.ReadDefs
import ParFlow.Tools.AvsHeader
import ParFlow.Tools.RealSA
import ParFlow.Lib.ChebyshevIteration
import ParFlow.Lib.ConjugateGradient
import ParFlow.Solver.KrylovDefs
import ParFlow.Solver.Krylov
import ParFlow.Solver.ChebyshevErrors
import ParFlow.Solver.DistVectors
import ParFlow.Solver.GridSolvers
import ParFlow.Transport.AdvectDefs
import ParFlow.Transport.Advect
import ParFlow.Transport.AdvectMass
import ParFlow.Curves.CurveDefs
import ParFlow.Lib.HermiteSpline
import ParFlow.Curves.TableSpline
import ParFlow.Curves.CurveSlopes
import ParFlow.Lib.CholeskyFactor
import ParFlow.Lib.Unrolled
import ParFlow.Solver.LinpackDefs
import ParFlow.Solver.Linpack
