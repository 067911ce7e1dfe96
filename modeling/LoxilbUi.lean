import LoxilbUi.Library.Run
import LoxilbUi.Connector.Theorems.FullproxyReplace
import LoxilbUi.Hooks.Theorems.LbRuleHolds
import LoxilbUi.Hooks.Theorems.ReconcileReads
import LoxilbUi.Session.Theorems.SessionExpiry
import LoxilbUi.Session.Theorems.SessionStorage
import LoxilbUi.Hooks.Theorems.LbRuleRows
import LoxilbUi.Hooks.Theorems.TenantQuota
import LoxilbUi.Hooks.Theorems.ApiKeyPatch
import LoxilbUi.Hooks.Theorems.JwtProfile
import LoxilbUi.Snapshot.Theorems.RestoreWizard
import LoxilbUi.Pages.Theorems.LBRulePage
import LoxilbUi.Pages.Theorems.LbPatch
import LoxilbUi.Pages.Theorems.RowSelection
import LoxilbUi.Hooks.Theorems.InstanceLogPaging
import LoxilbUi.Snapshot.Theorems.WizardLogic
import LoxilbUi.Connector.Theorems.FetcherBase
import LoxilbUi.Connector.Theorems.IpFilter
import LoxilbUi.Connector.Theorems.OpResultAdapter
import LoxilbUi.Session.Theorems.DeferredWrites
import LoxilbUi.Hooks.Theorems.TimeSeries
import LoxilbUi.Hooks.Theorems.InputForm
import LoxilbUi.Types.Theorems.SerializeValid
import LoxilbUi.Types.Theorems.AIPriority
import LoxilbUi.Types.Theorems.LbDelete
import LoxilbUi.Components.Theorems.InstanceEndpoint
import LoxilbUi.Hooks.Theorems.PrefixIdentity
import LoxilbUi.Hooks.Theorems.FullproxyIdentity
import LoxilbUi.Connector.Theorems.CreateBody
import LoxilbUi.Observability.PDTiers
import LoxilbUi.Observability.Theorems.AuditWriter
import LoxilbUi.Observability.Theorems.PDJoin
import LoxilbUi.Observability.Theorems.TokenQuota
import LoxilbUi.Observability.Theorems.Shares
import LoxilbUi.Observability.Theorems.PolicerAttachment
import LoxilbUi.Library.RecentHistory
import LoxilbUi.Recovery.SnapshotDbPackage
import LoxilbUi.Recovery.Theorems.SnapshotDbPackage
import LoxilbUi.Types.Qos
import LoxilbUi.Types.Theorems.Qos
import LoxilbUi.Library.FirstByKey
import LoxilbUi.Pages.DashboardLayout
import LoxilbUi.Pages.Theorems.DashboardLayout
import LoxilbUi.Observability.Theorems.Retention
import LoxilbUi.Library.PlainObject
import LoxilbUi.Observability.Theorems.JwksHealth
import LoxilbUi.Observability.Theorems.BearerAdmission
import LoxilbUi.Library.Pattern
import LoxilbUi.Connector.Metrics
import LoxilbUi.Observability.Theorems.FlatSums
import LoxilbUi.Connector.Theorems.Metrics
import LoxilbUi.Library.SafeInteger
import LoxilbUi.Types.AuditConfig
import LoxilbUi.Types.Theorems.AuditConfig
import LoxilbUi.Session.Theorems.JwtExp
import LoxilbUi.Common.LogLine
import LoxilbUi.Common.Theorems.LogLine
import LoxilbUi.Hooks.Theorems.MergeDefaults
import LoxilbUi.Library.JsSort
import LoxilbUi.Observability.Exposition
import LoxilbUi.Observability.Theorems.LabelKey
import LoxilbUi.Observability.Theorems.DamagedLines
import LoxilbUi.Observability.Theorems.ExpositionLines
import LoxilbUi.Observability.Theorems.ExpositionText
import LoxilbUi.Hooks.MetricsSnapshot
import LoxilbUi.Hooks.Theorems.MetricsSnapshot
import LoxilbUi.Connector.Theorems.LiveMetrics
import LoxilbUi.Hooks.LocalStorage
import LoxilbUi.Hooks.Theorems.LocalStorage
import LoxilbUi.Library.Script
import LoxilbUi.Recovery.Restore
import LoxilbUi.Recovery.Theorems.Restore
import LoxilbUi.Recovery.Theorems.Export
import LoxilbUi.Library.Traversal
import LoxilbUi.Api.CapabilityMap
import LoxilbUi.Api.Theorems.Schemas
import LoxilbUi.Api.Theorems.References
import LoxilbUi.Api.Theorems.CapabilityMap
