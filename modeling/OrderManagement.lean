import OrderManagement.KeyedTable
import OrderManagement.TransactionProgram
import OrderManagement.TransactionProtocol
import OrderManagement.ReadCommitted
import OrderManagement.DecimalRounding
import OrderManagement.OrderDomain
import OrderManagement.PositionRules
import OrderManagement.AverageEntryPrice
import OrderManagement.OrderSchemas
import OrderManagement.OrderTables
import OrderManagement.OrderStore
import OrderManagement.OrderServices
import OrderManagement.SlicedFills
import OrderManagement.StatementLocks
import OrderManagement.LockDiscipline
import OrderManagement.SessionRules
import OrderManagement.FillOutcomes
import OrderManagement.EventProcessing
import OrderManagement.SubmissionOutcomes
import OrderManagement.MarketTicks
import OrderManagement.TransitionRuns
import OrderManagement.OrderRuns
import OrderManagement.TextColumns
import OrderManagement.EncodedRuns
import OrderManagement.SerializableCalls
import OrderManagement.CancellationNotice
import OrderManagement.CashReservation
import OrderManagement.RoutingCompensation
import OrderManagement.IdempotentSubmission
import OrderManagement.FillLedger
import OrderManagement.ProfitAndLoss
import OrderManagement.OrderShape
import OrderManagement.AuditTrail
import OrderManagement.ExactlyOnce
import OrderManagement.FillAdmission
import OrderManagement.DrainableOrders
import OrderManagement.FillGuards
import OrderManagement.EventAccounting
import OrderManagement.AccountStatements
import OrderManagement.AccountIsolation
import OrderManagement.IsolatedRuns
import OrderManagement.LockedKnowledge
import OrderManagement.TickDeadlocks
import OrderManagement.MarketKnowledge
import OrderManagement.FillPriceDrift
import OrderManagement.MarkedRuns
import OrderManagement.ExpiryScan
import OrderManagement.TickOrder
import OrderManagement.PayloadStorage
import OrderManagement.ExecutionAgreement
import OrderManagement.SystemSettlement
import OrderManagement.ExecutionBounds
import OrderManagement.BinaryFloats
import OrderManagement.DecimalNumerals
import OrderManagement.MalformedRecords
import OrderManagement.OrderHistory
import OrderManagement.RestartRecovery
import OrderManagement.FillRecords
import OrderManagement.OrderListing
import OrderManagement.FixedPointTexts
import OrderManagement.OrderResponses
import OrderManagement.AccountOpening
import OrderManagement.SessionEnd
import OrderManagement.MarketFeed
import OrderManagement.BrokerageBook
import OrderManagement.BookRefinement
