import HomeEnergyManager.Lib.StepSystem
import HomeEnergyManager.Lib.Mix
import HomeEnergyManager.Lib.Civil
import HomeEnergyManager.Lib.LastWrite
import HomeEnergyManager.Lib.Tally
import HomeEnergyManager.Lib.Accumulate
import HomeEnergyManager.Lib.Checked
import HomeEnergyManager.Lib.FirstSeen
import HomeEnergyManager.Time.LocalTime
import HomeEnergyManager.Time.MkTime
import HomeEnergyManager.Time.DateOrder
import HomeEnergyManager.Time.LocalHours
import HomeEnergyManager.PowerLogger.Ledger
import HomeEnergyManager.PowerLogger.Split
import HomeEnergyManager.PowerLogger.LedgerInvariant
import HomeEnergyManager.PowerLogger.LedgerMix
import HomeEnergyManager.PowerLogger.LedgerMidnight
import HomeEnergyManager.Tariff.Day
import HomeEnergyManager.Tariff.Resolve
import HomeEnergyManager.Tariff.Recorder
import HomeEnergyManager.Price.Stamp
import HomeEnergyManager.Price.Order
import HomeEnergyManager.Price.Recorder
import HomeEnergyManager.Price.History
import HomeEnergyManager.PowerLogger.Files
import HomeEnergyManager.PowerLogger.Cost
import HomeEnergyManager.PowerLogger.CostConserved
import HomeEnergyManager.PowerLogger.SplitConserved
import HomeEnergyManager.PowerLogger.Caches
import HomeEnergyManager.PowerLogger.Queries
import HomeEnergyManager.PowerLogger.StartLedger
import HomeEnergyManager.PowerLogger.QueryOrder
import HomeEnergyManager.PowerLogger.Recompute
import HomeEnergyManager.PowerLogger.LedgerWalk
import HomeEnergyManager.PowerLogger.RecomputeConsistent
import HomeEnergyManager.PowerLogger.Rollup
import HomeEnergyManager.PowerLogger.Sampling
import HomeEnergyManager.DayFiles.Jobs
import HomeEnergyManager.DayFiles.System
import HomeEnergyManager.DayFiles.Derived
import HomeEnergyManager.DayFiles.Stores
import HomeEnergyManager.DayFiles.Waiting
import HomeEnergyManager.DayFiles.Undisturbed
import HomeEnergyManager.DayFiles.Final
import HomeEnergyManager.Subscription.Model
import HomeEnergyManager.Subscription.Branches
import HomeEnergyManager.Subscription.Effects
import HomeEnergyManager.Subscription.NoDuplicate
import HomeEnergyManager.Subscription.Worker
import HomeEnergyManager.Subscription.NeverStuck
import HomeEnergyManager.Subscription.Attempts
import HomeEnergyManager.Subscription.InFlightCap
import HomeEnergyManager.Subscription.Known
import HomeEnergyManager.Subscription.Live
import HomeEnergyManager.Subscription.TariffPaths
import HomeEnergyManager.Controller.CommissioningWindow
import HomeEnergyManager.Controller.WindowRequests
import HomeEnergyManager.Controller.WindowResults
import HomeEnergyManager.Controller.Commissioning
import HomeEnergyManager.Controller.RemoveNode
import HomeEnergyManager.Topology.Graph
import HomeEnergyManager.Topology.LoadSets
import HomeEnergyManager.Forecast.Model
import HomeEnergyManager.Forecast.HourAlignment
import HomeEnergyManager.Lib.Json
import HomeEnergyManager.NodeManager.Graph
import HomeEnergyManager.NodeManager.Delete
import HomeEnergyManager.Canvas.Graph
import HomeEnergyManager.Canvas.Delete
import HomeEnergyManager.Lib.SavedFile
import HomeEnergyManager.NodeManager.Persist
import HomeEnergyManager.Lib.Double
import HomeEnergyManager.DeviceManager.Store
import HomeEnergyManager.DeviceManager.Persist
import HomeEnergyManager.Tariff.Sources
import HomeEnergyManager.PowerLogger.SampleRecords
import HomeEnergyManager.Subscription.DeviceFlags
import HomeEnergyManager.Canvas.Flows
import HomeEnergyManager.Lib.OrderedMap
import HomeEnergyManager.Lib.Acyclic
import HomeEnergyManager.Canvas.Totals
import HomeEnergyManager.Canvas.Balance
import HomeEnergyManager.Canvas.Reads
import HomeEnergyManager.Canvas.Derived
import HomeEnergyManager.Canvas.Conserve
import HomeEnergyManager.Canvas.Passes
import HomeEnergyManager.Canvas.Live
import HomeEnergyManager.Canvas.Reload
import HomeEnergyManager.Tariff.Overlay
import HomeEnergyManager.Price.StampExact
import HomeEnergyManager.PowerLogger.RollupEnergy
import HomeEnergyManager.Lib.BreadthFirst
import HomeEnergyManager.Lib.FirstMax
import HomeEnergyManager.DeviceManager.Parents
import HomeEnergyManager.DeviceManager.FamilyTree
import HomeEnergyManager.WebServer.LabelWalk
import HomeEnergyManager.WebServer.OfferedEndpoints
import HomeEnergyManager.Lib.ExchangeSort
import HomeEnergyManager.Scheduler.Model
import HomeEnergyManager.Scheduler.Placement
import HomeEnergyManager.Scheduler.Ties
import HomeEnergyManager.Time.ClockChange
import HomeEnergyManager.DayFiles.Midnight
import HomeEnergyManager.DeviceManager.Interrogation
import HomeEnergyManager.DeviceManager.ReportOrder
import HomeEnergyManager.PowerLogger.RecomputeRefused
import HomeEnergyManager.PowerLogger.LedgerUnits
import HomeEnergyManager.PowerLogger.SplitRoundTrip
import HomeEnergyManager.Lib.Best
import HomeEnergyManager.Tariff.PriceInForce
import HomeEnergyManager.Subscription.WantedNodes
import HomeEnergyManager.Subscription.NodeTable
import HomeEnergyManager.Controller.ValueCache
import HomeEnergyManager.Lib.Slots
import HomeEnergyManager.Home.ApplianceSlots
import HomeEnergyManager.Home.EveryLoad
import HomeEnergyManager.Lib.LeastSquares
import HomeEnergyManager.Forecast.SurplusModel
import HomeEnergyManager.Forecast.SurplusFit
import HomeEnergyManager.Lib.Segments
import HomeEnergyManager.ApplianceProfile.Model
import HomeEnergyManager.ApplianceProfile.Training
import HomeEnergyManager.Canvas.Readings
import HomeEnergyManager.Canvas.Session
import HomeEnergyManager.Canvas.LikeReload
import HomeEnergyManager.Canvas.Runs
import HomeEnergyManager.Lib.Words
import HomeEnergyManager.WebServer.UriMatch
import HomeEnergyManager.PowerLogger.RollupExact
import HomeEnergyManager.Forecast.DailySchedule
import HomeEnergyManager.Forecast.JobTask
import HomeEnergyManager.Web.FetchQueue
import HomeEnergyManager.Lib.OneByOne
import HomeEnergyManager.Web.WebSocket
import HomeEnergyManager.WebServer.Routes
import HomeEnergyManager.WebServer.TopologySetup
import HomeEnergyManager.Forecast.Predict
import HomeEnergyManager.WebServer.McpServer
import HomeEnergyManager.Forecast.Download
import HomeEnergyManager.WebServer.TopologyRequests
import HomeEnergyManager.Topology.Document
import HomeEnergyManager.Scheduler.Learned
import HomeEnergyManager.Lib.Breaks
import HomeEnergyManager.Lib.LongestRun
import HomeEnergyManager.PowerLogger.Health
import HomeEnergyManager.Web.PowerChart
import HomeEnergyManager.Web.UsageHistory
