import QuantAgent.Domain.LedgerRecovery
import QuantAgent.Domain.FailedAppend
import QuantAgent.Domain.ChainOrder
import QuantAgent.Paper.CorporateActions
import QuantAgent.Streaming.Replay
import QuantAgent.Streaming.Resume
import QuantAgent.Paper.AtMostOnce
import QuantAgent.Execution.QmtReordering
import QuantAgent.Execution.QmtIdentity
import QuantAgent.Backtest.Signal
import QuantAgent.Backtest.ReplayCausality
import QuantAgent.Execution.LegalSizes
import QuantAgent.Execution.DailyLimit
import QuantAgent.Services.DeliveryIdentity
import QuantAgent.Paper.LatchedSwitches
import QuantAgent.Domain.SettledSales
import QuantAgent.Services.PolledLog
import QuantAgent.Services.JobInterleaving
import QuantAgent.Training.FoldContract
import QuantAgent.Simulator.TargetIntents
import QuantAgent.Simulator.LotsMirror
import QuantAgent.Simulator.Reconciliation
import QuantAgent.Data.LimitWorlds
import QuantAgent.Data.ExRights
import QuantAgent.Services.StrategyRecords
import QuantAgent.Execution.Participation
import QuantAgent.Streaming.Ambiguity
import QuantAgent.Streaming.LimitOrders
import QuantAgent.Execution.BoardFill
import QuantAgent.Execution.IntradayFill
import QuantAgent.Execution.IntradayRefusals
import QuantAgent.Portfolio.PositionAge
import QuantAgent.Portfolio.HoldBandRows
import QuantAgent.Portfolio.DecisionBatch
import QuantAgent.Portfolio.LongOnlyProjection
import QuantAgent.Reconciliation.Differences
import QuantAgent.Data.GapFilling
import QuantAgent.Fusion.StaggeredNav
import QuantAgent.Fusion.GeneticScheme
import QuantAgent.Paper.TornEvents
import QuantAgent.Execution.ChildLifecycle
import QuantAgent.Simulator.NextSession
