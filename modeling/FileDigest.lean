import FileDigest.KeyTable
import FileDigest.Logging.Setup
import FileDigest.Proofs.Aggregate.Parts
import FileDigest.Proofs.Aggregate.Spelling
import FileDigest.Proofs.Bytes.Grouping
import FileDigest.Proofs.Bytes.Parity
import FileDigest.Proofs.Cache.Accesses
import FileDigest.Proofs.Cache.Accounts
import FileDigest.Proofs.Cache.Generations
import FileDigest.Proofs.Cache.Identity
import FileDigest.Proofs.Cache.Inclusion
import FileDigest.Proofs.Cache.Work
import FileDigest.Proofs.Cache.Misses
import FileDigest.Proofs.Cache.Room
import FileDigest.Proofs.Cache.Staleness
import FileDigest.Proofs.Cache.Transparency
import FileDigest.Proofs.Logging.Installation
import FileDigest.Proofs.Logging.Priority
import FileDigest.Proofs.Process.Calls
import FileDigest.Proofs.Process.Exclusion
import FileDigest.Proofs.Recency
import FileDigest.Proofs.Resolver.Spelling
import FileDigest.Proofs.Settings.OneNumber
import FileDigest.Proofs.Settings.Stops
import FileDigest.Proofs.Tree.Failures
import FileDigest.Proofs.Tree.Warm
import FileDigest.Scenario.Basic
import FileDigest.Scenario.Concurrent
import FileDigest.Settings.Json
import FileDigest.Settings.Load
import FileDigest.StatsText
import FileDigest.Proofs.Json.Reading
import FileDigest.Proofs.Json.Words
import FileDigest.Proofs.Json.Acceptance
import FileDigest.Proofs.Json.Writing
import FileDigest.Proofs.Json.Counters
