import UniLLM.Lib.Transition
import UniLLM.Lib.SlidingWindow
import UniLLM.Lib.Cyclic
import UniLLM.Go.Strings
import UniLLM.Go.Utf8
import UniLLM.Go.Number
import UniLLM.Go.Json
import UniLLM.Go.JsonRoundTrip
import UniLLM.Go.JsonDecode
import UniLLM.Go.Scanner
import UniLLM.Go.JsonText
import UniLLM.Go.JsonLiteral
import UniLLM.Go.JsonVerbatim
import UniLLM.Go.JsonTokens
import UniLLM.Go.JsonGrammar
import UniLLM.Provider.AnthropicConvert
import UniLLM.Provider.StreamAdapter
import UniLLM.Provider.StreamDelivery
import UniLLM.Provider.StreamMessage
import UniLLM.Provider.ChunkLines
import UniLLM.Inference.Helpers
import UniLLM.Inference.Service
import UniLLM.Inference.Embedding
import UniLLM.Inference.Accounting
import UniLLM.Inference.StreamUsage
import UniLLM.Inference.MissingUsage
import UniLLM.Inference.AnthropicBilling
import UniLLM.Inference.StreamComplete
import UniLLM.Inference.ModelRewrite
import UniLLM.Inference.Spelling
import UniLLM.Catalog.Service
import UniLLM.Catalog.KeyAddition
import UniLLM.Catalog.RoundRobin
import UniLLM.Billing.Admission
import UniLLM.Billing.Store
import UniLLM.Billing.Conservation
import UniLLM.Billing.Shutdown
import UniLLM.Billing.Dashboard
import UniLLM.Billing.DailyTotals
import UniLLM.Middleware.RedisRateLimit
import UniLLM.Middleware.OverAdmission
import UniLLM.Middleware.SimpleRateLimit
import UniLLM.Middleware.LimiterAgreement
import UniLLM.Middleware.Gates
import UniLLM.Provider.Upstream
import UniLLM.Provider.Register
import UniLLM.Catalog.DisabledProviders
import UniLLM.Catalog.Encryption
import UniLLM.Catalog.HandedOutKeys
import UniLLM.Provider.UpstreamCalls
import UniLLM.Provider.BreakerTrace
import UniLLM.Provider.BreakerRuns
import UniLLM.Provider.ResilientRuns
import UniLLM.Provider.OpenCircuit
import UniLLM.Provider.CallerFailure
import UniLLM.Provider.Concurrency
import UniLLM.Inference.Credentials
import UniLLM.Inference.Refunds
import UniLLM.Web.Playground
import UniLLM.Lib.ForLoop
import UniLLM.Lib.Fragments
import UniLLM.Lib.Occurrences
import UniLLM.Lib.Rotation
import UniLLM.Provider.ToolConversation
import UniLLM.Provider.EmptyOutput
import UniLLM.Provider.GeminiConvert
import UniLLM.Provider.RequestLoss
import UniLLM.Provider.Retries
import UniLLM.Provider.FallbackChain
import UniLLM.Provider.HttpCourses
import UniLLM.Inference.PromptForms
import UniLLM.Inference.OutputCap
import UniLLM.Catalog.FailedReload
import UniLLM.Billing.PartialRecord
import UniLLM.Billing.QueueProgress
import UniLLM.Go.Calendar
import UniLLM.Catalog.StoredKeys
import UniLLM.Billing.RedisKeys
import UniLLM.Provider.GeminiConversation
import UniLLM.Status.HealthChecks
import UniLLM.Inference.TextCut
import UniLLM.Lib.Answers
import UniLLM.Accounts.Service
import UniLLM.Accounts.Steps
import UniLLM.Accounts.Sessions
import UniLLM.Accounts.Keys
import UniLLM.Billing.UsageStats
import UniLLM.Lib.Purge
import UniLLM.Accounts.Isolation
import UniLLM.Accounts.Tenants
import UniLLM.Go.Float
import UniLLM.Go.FloatText
import UniLLM.Go.JsonValues
import UniLLM.Go.JsonTypes
import UniLLM.OpenAI.Wire
import UniLLM.Inference.Wire
import UniLLM.Provider.WireBodies
import UniLLM.Api.Proxy
import UniLLM.Api.Charges
import UniLLM.Api.PassThrough
import UniLLM.Billing.LogEntries
import UniLLM.Api.PriceList
import UniLLM.Billing.ShownCharges
