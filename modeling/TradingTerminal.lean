import TradingTerminal.Lib.Run
import TradingTerminal.Lib.UMap
import TradingTerminal.Lib.Bytes
import TradingTerminal.Lib.Base64
import TradingTerminal.Lib.RecvLoop
import TradingTerminal.Lib.Tickets
import TradingTerminal.Lib.ListErase
import TradingTerminal.Lib.Recency
import TradingTerminal.Lib.CyclicIndex
import TradingTerminal.Lib.Keyed
import TradingTerminal.Lib.Text
import TradingTerminal.Lib.Numeral
import TradingTerminal.Lib.GeneralFormat
import TradingTerminal.Lib.Double
import TradingTerminal.Lib.Json
import TradingTerminal.Lib.Throwing
import TradingTerminal.Lib.FirstSeen
import TradingTerminal.Lib.BoundedHistory
import TradingTerminal.Lib.Consecutive
import TradingTerminal.Lib.Samples
import TradingTerminal.Lib.Calendar
import TradingTerminal.Lib.WhileLoop
import TradingTerminal.Lib.CheckedDiv
import TradingTerminal.Core.Types
import TradingTerminal.Core.Config
import TradingTerminal.Core.ConfigDocument
import TradingTerminal.Core.ConfigLines
import TradingTerminal.Core.ConfigParse
import TradingTerminal.Core.ConfigRoundTrip
import TradingTerminal.Core.ConfigValues
import TradingTerminal.Live.RiskManager
import TradingTerminal.Live.RiskBooks
import TradingTerminal.Live.CircuitBreaker
import TradingTerminal.Live.OrderManager
import TradingTerminal.Live.OrderPath
import TradingTerminal.Live.AsyncLimits
import TradingTerminal.Live.FifoLots
import TradingTerminal.Live.LossGate
import TradingTerminal.Live.BreakerLatch
import TradingTerminal.Live.BreakerDays
import TradingTerminal.Live.RiskGate
import TradingTerminal.Live.Exposure
import TradingTerminal.Live.OrderThreads
import TradingTerminal.Live.LatencyStats
import TradingTerminal.Live.PnLTracker
import TradingTerminal.Live.PositionManager
import TradingTerminal.Live.Ledgers
import TradingTerminal.Live.PnLConservation
import TradingTerminal.Live.LotBook
import TradingTerminal.Live.FrontCost
import TradingTerminal.Live.PartialFills
import TradingTerminal.Live.FifoProfit
import TradingTerminal.Live.LockFreeQueue
import TradingTerminal.Data.Cache
import TradingTerminal.Data.HistoricalData
import TradingTerminal.Data.AvailableSymbols
import TradingTerminal.Data.MarketData
import TradingTerminal.PaperTrading.PaperEngine
import TradingTerminal.PaperTrading.OrderLifecycle
import TradingTerminal.Strategies.Strategy
import TradingTerminal.Strategies.AverageCost
import TradingTerminal.Strategies.Indicators
import TradingTerminal.Strategies.MomentumStrategy
import TradingTerminal.Strategies.WeightedStrategy
import TradingTerminal.Strategies.LiveStrategy
import TradingTerminal.Strategies.Confirmations
import TradingTerminal.Strategies.SymbolIndependence
import TradingTerminal.Strategies.PriceScale
import TradingTerminal.Strategies.OneSlot
import TradingTerminal.Strategies.VWAPStrategy
import TradingTerminal.Strategies.EnhancedIntraday
import TradingTerminal.Strategies.SellsHeld
import TradingTerminal.Strategies.Windows
import TradingTerminal.Strategies.LiveTicks
import TradingTerminal.Strategies.RoundTrips
import TradingTerminal.Strategies.Holding
import TradingTerminal.Strategies.WeightedRuns
import TradingTerminal.Strategies.WeightedScore
import TradingTerminal.Strategies.WeightedIndicators
import TradingTerminal.Strategies.ExitSize
import TradingTerminal.Risk.KellyFraction
import TradingTerminal.Strategies.CheckedDivision
import TradingTerminal.Strategies.CheckedIntraday
import TradingTerminal.Strategies.Divisions
import TradingTerminal.Strategies.MomentumReturns
import TradingTerminal.Live.Terminal
import TradingTerminal.Live.StartUp
import TradingTerminal.Live.MarketHours
import TradingTerminal.Live.ConfiguredLimits
import TradingTerminal.Exchange.CurlEasy
import TradingTerminal.Exchange.AlpacaRequests
import TradingTerminal.Exchange.AlpacaResponses
import TradingTerminal.Exchange.OrderPoller
import TradingTerminal.Exchange.OrderBody
import TradingTerminal.Live.TransmittedQuantity
import TradingTerminal.Exchange.WebSocketFrame
import TradingTerminal.Exchange.WebSocketStream
import TradingTerminal.Exchange.WebSocketHandshake
import TradingTerminal.Exchange.Base64Encode
import TradingTerminal.Live.OrderProgress
import TradingTerminal.Live.LatencyCounters
import TradingTerminal.Live.OneTrade
import TradingTerminal.Live.MockSession
import TradingTerminal.Exchange.StreamMessages
import TradingTerminal.PaperTrading.PortfolioValue
import TradingTerminal.Live.MarkToMarket
import TradingTerminal.Strategies.IntradaySizes
import TradingTerminal.Live.OpeningWait
import TradingTerminal.Exchange.AdapterLifecycle
import TradingTerminal.Data.SharedMarketData
import TradingTerminal.Core.TradingCore
import TradingTerminal.Live.ConfiguredStrategies
import TradingTerminal.Data.TickArchive
import TradingTerminal.Utils.Profiler
import TradingTerminal.Strategies.RegimeWindow
import TradingTerminal.Strategies.SessionVwap
import TradingTerminal.Web.WebSocketServer
import TradingTerminal.Live.CommandLine
import TradingTerminal.Exchange.Bars
