import Potter.Lib.PriorityQueue
import Potter.Lib.BackLists
import Potter.Lib.BestFirst
import Potter.Lib.Exploration
import Potter.Lib.LabelCorrecting
import Potter.Lib.SearchFootprint
import Potter.Lib.Tally
import Potter.Lib.Counting
import Potter.Lib.Interleaving
import Potter.Lib.Folds
import Potter.Lib.Footprint
import Potter.Lib.Worklist
import Potter.Lib.BackPointers
import Potter.Lib.VisitOrder
import Potter.Lib.Scheduling
import Potter.Lib.Packing
import Potter.Lib.RoseTree
import Potter.Lib.Arborescence
import Potter.Lib.Paths
import Potter.Lib.Peeling
import Potter.Lib.SharedCounter
import Potter.Utils.Arith
import Potter.Utils.Geo
import Potter.Utils.MTStat
import Potter.Db.RouteNode
import Potter.Db.Connection
import Potter.Db.Database
import Potter.Db.BBox
import Potter.Db.Device
import Potter.Db.Pruning
import Potter.Db.PinProjection
import Potter.Db.PhysNetlist
import Potter.Db.ParseNetlist
import Potter.Db.ReadBack
import Potter.Db.ReadNets
import Potter.Db.WriteBack
import Potter.Db.WrittenNet
import Potter.Db.StringList
import Potter.Route.State
import Potter.Route.Search
import Potter.Route.ChildExpansion
import Potter.Route.StableFirst
import Potter.Route.Accounting
import Potter.Route.Completeness
import Potter.Route.BatchAccounting
import Potter.Route.FailedAttempt
import Potter.Route.Stamps
import Potter.Route.Locality
import Potter.Route.Commutation
import Potter.Route.Cutline
import Potter.Route.PartitionTree
import Potter.Route.NetBatches
import Potter.Route.RegionPartition
import Potter.Route.RegionTree
import Potter.Route.SaveSolutions
import Potter.Route.FixNetRoutes
import Potter.Route.SavedTypes
import Potter.Route.SavedPaths
import Potter.Route.SavedTrees
import Potter.Route.MainLoop
import Potter.Route.Preserved
import Potter.Route.TotalPaths
import Potter.Route.TreeLevels
import Potter.Route.StableRun
import Potter.Route.Kmeans
import Potter.Route.Clustering
import Potter.Route.Legality
import Potter.Route.OccChange
import Potter.Route.DirectConnections
import Potter.Route.SavedDesign
import Potter.Route.PresentCost
import Potter.Route.CostFloor
import Potter.Route.CostAssertions
import Potter.Route.CountsWithFailures
import Potter.Route.NegativeOccupancy
import Potter.Route.TreeTermination
import Potter.Route.BoxExtents
import Potter.Route.SavedFile
