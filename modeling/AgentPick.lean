import AgentPick.Backend.ActivityLog
import AgentPick.Backend.Chat
import AgentPick.Backend.Embed
import AgentPick.Backend.LogLines
import AgentPick.Backend.Messages
import AgentPick.Backend.OpenaiIo
import AgentPick.Backend.RequestLog
import AgentPick.Backend.Tools
import AgentPick.Catalog.Connections
import AgentPick.Catalog.Details
import AgentPick.Catalog.FamilyKey
import AgentPick.Catalog.FilterCall
import AgentPick.Catalog.FilterModels
import AgentPick.Catalog.Flags
import AgentPick.Catalog.Ids
import AgentPick.Catalog.NameContains
import AgentPick.Catalog.Provenance
import AgentPick.Catalog.Select
import AgentPick.Catalog.SemanticSearch
import AgentPick.Catalog.SparseTag
import AgentPick.Catalog.TopChunks
import AgentPick.Core.Bisect
import AgentPick.Core.Dict
import AgentPick.Core.Discount
import AgentPick.Core.Gather
import AgentPick.Core.Json
import AgentPick.Core.Lru
import AgentPick.Core.Once
import AgentPick.Core.Overfetch
import AgentPick.Core.Prune
import AgentPick.Core.PyJson
import AgentPick.Core.Raise
import AgentPick.Core.Randomisation
import AgentPick.Core.Rank
import AgentPick.Core.Regex
import AgentPick.Core.Repr
import AgentPick.Core.Resampling
import AgentPick.Core.Retry
import AgentPick.Core.Rounding
import AgentPick.Core.Scan
import AgentPick.Core.Separate
import AgentPick.Core.Splice
import AgentPick.Core.Sql
import AgentPick.Core.Sse
import AgentPick.Core.StepDown
import AgentPick.Core.Text
import AgentPick.Core.Threads
import AgentPick.Core.Tokens
import AgentPick.Core.Unicode
import AgentPick.Core.WordSearch
import AgentPick.Evaluation.Alias
import AgentPick.Evaluation.Baselines
import AgentPick.Evaluation.Compare
import AgentPick.Evaluation.Credit
import AgentPick.Evaluation.Excused
import AgentPick.Evaluation.Extract
import AgentPick.Evaluation.FirstMention
import AgentPick.Evaluation.GoldSpelling
import AgentPick.Evaluation.Holm
import AgentPick.Evaluation.Inside
import AgentPick.Evaluation.Mentions
import AgentPick.Evaluation.Metrics
import AgentPick.Evaluation.Ndcg
import AgentPick.Evaluation.OrderFree
import AgentPick.Evaluation.Overtaking
import AgentPick.Evaluation.Plan
import AgentPick.Evaluation.Pooled
import AgentPick.Evaluation.PooledSymmetry
import AgentPick.Evaluation.Reports
import AgentPick.Evaluation.ReportsTotal
import AgentPick.Evaluation.Rescore
import AgentPick.Evaluation.Respelled
import AgentPick.Evaluation.ResultFiles
import AgentPick.Evaluation.SignFlip
import AgentPick.Evaluation.TextSpelling
import AgentPick.Pipeline.Backfill
import AgentPick.Pipeline.CatchUp
import AgentPick.Pipeline.Chunking
import AgentPick.Pipeline.Enrich
import AgentPick.Pipeline.Failures
import AgentPick.Pipeline.HubClient
import AgentPick.Pipeline.Loaders
import AgentPick.Pipeline.Models
import AgentPick.Pipeline.Nominal
import AgentPick.Pipeline.Overlap
import AgentPick.Pipeline.Readme
import AgentPick.Pipeline.Records
import AgentPick.Pipeline.Resume
import AgentPick.Pipeline.Rounds
import AgentPick.Pipeline.SchemaFit
import AgentPick.Pipeline.Storage
import AgentPick.Pipeline.Vectorizer
import AgentPick.Pipeline.WriteOnce
import AgentPick.Query.Parquet
import AgentPick.Query.Qdrant
import AgentPick.Query.Semantic
