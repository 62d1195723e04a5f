import ReadingBench.Cli.Program
import ReadingBench.Main
import ReadingBench.Document.Yaml
import ReadingBench.Rollup
import ReadingBench.Ranking
import ReadingBench.Seeding.Seed
import ReadingBench.Config.Document
import ReadingBench.Seeding.Batch
import ReadingBench.Record.PopularRank
import ReadingBench.Record.BeRead
import ReadingBench.Record.Read
import ReadingBench.Record.Article
import ReadingBench.Record.User
import ReadingBench.Population.Attribute
import ReadingBench.Store.Server
import ReadingBench.Random.Weighted
import ReadingBench.Sql.Error
import ReadingBench.Sql.Literal
import ReadingBench.Sql.Reading
import ReadingBench.Text.StringList
import ReadingBench.Proofs.Store.Failure
import ReadingBench.Proofs.Store.Refinement
import ReadingBench.Proofs.Sql.RawInsert
import ReadingBench.Proofs.Store.Written
import ReadingBench.Proofs.Seeding.Stored
import ReadingBench.Proofs.Calendar.Date
import ReadingBench.Proofs.Calendar.Bucket
import ReadingBench.Proofs.Ranking.Compute
import ReadingBench.Proofs.Population.Index
import ReadingBench.Proofs.Population.Reading
import ReadingBench.Proofs.Seeding.Accepted
import ReadingBench.Proofs.Seeding.Referential
import ReadingBench.Proofs.Store.Calm
import ReadingBench.Proofs.Seeding.Resumed
import ReadingBench.Proofs.Decimal.Arithmetic
import ReadingBench.Proofs.Calendar.DateTime
import ReadingBench.Proofs.Population.Spread
import ReadingBench.Proofs.Seeding.Window
import ReadingBench.Proofs.Seeding.Afresh
import ReadingBench.Proofs.Rollup.Again
import ReadingBench.Proofs.Rollup.Counts
import ReadingBench.Proofs.Ranking.Rebuilt
import ReadingBench.Proofs.Seeding.Predicted
import ReadingBench.Proofs.Seeding.Rebatched
import ReadingBench.Proofs.Rollup.Tallied
import ReadingBench.Proofs.Seeding.Linked
import ReadingBench.Proofs.Ranking.Conserved
import ReadingBench.Proofs.Seeding.Calls
import ReadingBench.Proofs.Sessions
import ReadingBench.Proofs.Cli.ExitCode
import ReadingBench.Proofs.Calendar.Tiling
import ReadingBench.Proofs.Seeding.Truncated
import ReadingBench.Proofs.Sql.Grammar
import ReadingBench.Proofs.Store.Grouped
import ReadingBench.Proofs.Sql.Placeholders
import ReadingBench.Proofs.Store.Change
import ReadingBench.Proofs.Rollup.Gathered
import ReadingBench.Proofs.Seeding.Repeated
import ReadingBench.Proofs.Sql.Unambiguous
import ReadingBench.Proofs.Store.Dates
import ReadingBench.Proofs.Store.Unknown
import ReadingBench.Proofs.Store.Closing
import ReadingBench.Proofs.Ranking.Reordered
import ReadingBench.Proofs.Store.Encoding
import ReadingBench.Proofs.Store.Aliasing
import ReadingBench.Proofs.Sql.Offsets
import ReadingBench.Proofs.Random.Period
