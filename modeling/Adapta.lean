import Adapta.Lib.System
import Adapta.Inference.Engine
import Adapta.Inference.Exclusion
import Adapta.Jobs.Queue
import Adapta.Jobs.Worker
import Adapta.Jobs.Moves
import Adapta.Jobs.Serial
import Adapta.Jobs.Queued
import Adapta.Lib.UnitOfWork
import Adapta.Models.Manager
import Adapta.Models.Loading
import Adapta.Models.Locks
import Adapta.Adapters.Gate
import Adapta.Adapters.Life
import Adapta.Adapters.Safety
import Adapta.Adapters.Status
import Adapta.Files.Stores
import Adapta.Files.Index
import Adapta.Files.Extract
import Adapta.Files.Delete
import Adapta.Jobs.Calm
import Adapta.Lib.Delivery
import Adapta.Jobs.Shutdown
import Adapta.Files.Vectors
import Adapta.Files.Rows
import Adapta.Maintenance.Sweep
import Adapta.Maintenance.Orphans
import Adapta.Lib.Text
import Adapta.Lib.Json
import Adapta.Lib.RoundTrip
import Adapta.Datasets.Rows
import Adapta.Datasets.Synthesis
import Adapta.Datasets.EvalSets
import Adapta.Golden.Runs
import Adapta.Jobs.Redelivery
import Adapta.Adapters.Interrupt
import Adapta.Files.Attempt
import Adapta.Files.Deadline
import Adapta.Lib.Recency
import Adapta.Models.Eviction
import Adapta.Lib.Fallible
import Adapta.Lib.Rounding
import Adapta.Rag.Filters
import Adapta.Rag.Retrieve
import Adapta.Rag.Sound
import Adapta.Api.Errors
import Adapta.Keys.Routes
import Adapta.Keys.Rows
import Adapta.Chat.Request
import Adapta.Chat.Router
import Adapta.Keys.Scoping
import Adapta.Chat.Backend
import Adapta.Chat.Prompt
import Adapta.Chat.Service
import Adapta.Lib.Generator
import Adapta.Chat.Agree
import Adapta.Chat.Meter
import Adapta.Datasets.Readers
import Adapta.Lib.Margin
import Adapta.Auth.RateLimit
import Adapta.Lib.Counters
import Adapta.Models.Flags
import Adapta.Models.Room
import Adapta.AppSettings.Cache
import Adapta.Files.Duplicates
import Adapta.Auth.Justified
import Adapta.Auth.Members
import Adapta.Auth.Tables
import Adapta.Endpoints.Audit
import Adapta.Auth.Tenancy
import Adapta.Golden.Coverage
import Adapta.Projects.Removal
import Adapta.Datasets.Questions
import Adapta.Datasets.Selection
import Adapta.Lib.Greedy
import Adapta.Lib.Settled
import Adapta.Lib.SplitLines
import Adapta.Datasets.Behavior
import Adapta.Chat.Templates
import Adapta.Lib.Marks
import Adapta.Lib.Slices
import Adapta.Reembed.Stores
import Adapta.AppSettings.Whitelist
import Adapta.Documents.Chunking
import Adapta.Models.Catalog
import Adapta.Reembed.Main
import Adapta.Reembed.Rebuild
import Adapta.Reembed.Survives
import Adapta.Reembed.Writers
import Adapta.Datasets.Teacher
import Adapta.Adapters.Scores
import Adapta.Chat.Fit
import Adapta.Lib.Means
import Adapta.Lib.Tally
import Adapta.Documents.Parse
import Adapta.Documents.Structured
import Adapta.Documents.Windows
import Adapta.Extraction.Aligned
import Adapta.Extraction.Failures
import Adapta.Extraction.Pages
import Adapta.Lib.KeySort
import Adapta.Lib.Mirror
import Adapta.Lib.Window
import Adapta.Rag.Fusion
import Adapta.Rag.Merge
import Adapta.Chat.Vision
import Adapta.Chat.Cited
import Adapta.Chat.Condense
import Adapta.Rag.Corpus
import Adapta.Rag.Relabel
import Adapta.Rag.Twins
import Adapta.Rag.Leading
import Adapta.Datasets.Context
import Adapta.Golden.Flips
import Adapta.Lib.Double
import Adapta.Metrics.Histogram
import Adapta.Lib.Csv
import Adapta.Extraction.Export
import Adapta.Extraction.Fences
import Adapta.Extraction.Fields
import Adapta.Extraction.Schema
import Adapta.Lib.Surrogates
import Adapta.Api.Upload
import Adapta.Files.Saving
import Adapta.Lib.Effect
import Adapta.Adapters.Expansion
import Adapta.Adapters.Import
import Adapta.Adapters.Upload
import Adapta.Models.Accounts
import Adapta.Lib.Binds
import Adapta.Rag.Statements
import Adapta.Lib.GroupBy
import Adapta.Usage.Rollup
import Adapta.Projects.Summary
import Adapta.Auth.Passwords
import Adapta.Lib.Base64
import Adapta.Lib.Reload
import Adapta.AppSettings.Page
import Adapta.Chat.Ollama
import Adapta.Api.Methods
import Adapta.Extraction.Listing
import Adapta.Lib.Best
import Adapta.Chat.Wire
import Adapta.Lib.EventStream
