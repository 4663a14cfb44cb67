import MeshSim.Rq.HeaderStream
import MeshSim.Rq.DecodeMoment
import MeshSim.Rq.Credits
import MeshSim.Rq.InOrder
import MeshSim.Rq.Redelivery
import MeshSim.Rq.SymbolIdentity
import MeshSim.LossMonitor.SortedScan
import MeshSim.LossMonitor.Reordering
import MeshSim.ResultsDb.Accounting
import MeshSim.Streaming.SequenceNumbers
import MeshSim.Rq.HeaderWire
import MeshSim.Apps.Wiring
import MeshSim.Apps.Connections
import MeshSim.Apps.StreamIdentity
import MeshSim.ResultsDb.TraceHeaders
import MeshSim.Rq.DecodeTrace
import MeshSim.Proxy.SliceSharing
import MeshSim.Proxy.Pacing
import MeshSim.Proxy.Stopping
import MeshSim.Proxy.SearchSafety
import MeshSim.Rq.RoundRobin
import MeshSim.Rq.EarlyRelease
import MeshSim.Rq.Conservation
import MeshSim.Rq.SlotCounts
import MeshSim.Apps.ByteTotals
import MeshSim.Scripts.Enumerators
import MeshSim.Foundation.Forwarding
import MeshSim.Routing.IoUtils
import MeshSim.Routing.RoutingConfig
import MeshSim.Routing.GenRoutingTables
import MeshSim.Routing.Network
import MeshSim.Routing.Delivery
import MeshSim.ResultsDb.ParamsColumns
import MeshSim.ResultsDb.ParamsTable
import MeshSim.ResultsDb.LetterDatabase
import MeshSim.ResultsDb.ParamsSurvival
import MeshSim.Scripts.ProductLaws
import MeshSim.ResultsDb.RateBins
import MeshSim.Rq.CounterInvariant
import MeshSim.Apps.AppsConfig
import MeshSim.Routing.AddressGrammar
import MeshSim.Routing.RoutingGrammar
import MeshSim.Apps.ConnectErrors
import MeshSim.ResultsDb.TraceTables
import MeshSim.Streaming.OnOffRefinement
import MeshSim.Streaming.BulkTransfer
import MeshSim.Rq.CodedChain
import MeshSim.Routing.ChainRoutes
