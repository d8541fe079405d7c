import OpenBooks.Allocations.EntryPlan
import OpenBooks.Allocations.ExplodeSigns
import OpenBooks.Allocations.Stepped
import OpenBooks.Amortization.Plan
import OpenBooks.Assets.DepreciationSchedule
import OpenBooks.Assets.PartialDisposal
import OpenBooks.Assets.UnitsOfProduction
import OpenBooks.Banking.Bai2
import OpenBooks.Banking.CsvRows
import OpenBooks.Banking.Mt940
import OpenBooks.Banking.OpenProposals
import OpenBooks.Banking.PairAssignment
import OpenBooks.Billing.AnchoredMonths
import OpenBooks.Billing.ArrearsLines
import OpenBooks.Billing.EffectiveDating
import OpenBooks.Billing.MergedCharges
import OpenBooks.Billing.PeriodInvoices
import OpenBooks.Billing.PrepaidBalances
import OpenBooks.Billing.Retainage
import OpenBooks.Billing.ServiceTiling
import OpenBooks.Close.FxConvergence
import OpenBooks.Equity.Capitalization
import OpenBooks.Equity.HoldingSafety
import OpenBooks.Equity.Installments
import OpenBooks.Expression.Loops
import OpenBooks.Expression.Scaling
import OpenBooks.Flows.Gates
import OpenBooks.Flows.Lint
import OpenBooks.Flows.Scheduled
import OpenBooks.Intercompany.CarryingRate
import OpenBooks.Intercompany.NettingResult
import OpenBooks.Inventory.DemandForecast
import OpenBooks.Inventory.PartialDraws
import OpenBooks.Inventory.Subledger
import OpenBooks.Inventory.UnitConversion
import OpenBooks.Journal.BookTranslation
import OpenBooks.Journal.SegmentCompleteness
import OpenBooks.Ledger.CashDocuments
import OpenBooks.Ledger.CorrectionLoads
import OpenBooks.Networking.AddressCheck
import OpenBooks.Organization.IntercompanyBalance
import OpenBooks.Payments.Zengin
import OpenBooks.Payroll.AggregateTotals
import OpenBooks.Payroll.BasisCaps
import OpenBooks.Payroll.DerivedCalendar
import OpenBooks.Payroll.GbNic
import OpenBooks.Payroll.ProtectionPool
import OpenBooks.Payroll.RunProtection
import OpenBooks.Platform.CanonicalJsonIdentity
import OpenBooks.Platform.TimeZone
import OpenBooks.Revenue.ContractModification
import OpenBooks.Revenue.Leases
import OpenBooks.Sftp.Pipeline
import OpenBooks.Sftp.Published
import OpenBooks.Sftp.Spelling
import OpenBooks.StoredValue.History
import OpenBooks.Tax.CreditSymmetry
