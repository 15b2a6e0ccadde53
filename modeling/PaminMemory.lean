import PaminMemory.Foundation.Runs
import PaminMemory.Foundation.Binary32
import PaminMemory.Foundation.Crash
import PaminMemory.Identifiers
import PaminMemory.Jobs.Queue
import PaminMemory.Jobs.Outbox
import PaminMemory.Jobs.Failing
import PaminMemory.Jobs.Exhausted
import PaminMemory.Graph.Ledger
import PaminMemory.Graph.Chain
import PaminMemory.Graph.Rounds
import PaminMemory.Graph.Batch
import PaminMemory.Graph.Transactions
import PaminMemory.Graph.Serial
import PaminMemory.Graph.Interleaving
import PaminMemory.Graph.Versions
import PaminMemory.Topics.Store
import PaminMemory.Topics.Writes
import PaminMemory.Topics.History
import PaminMemory.Jobs.Holding
import PaminMemory.Graph.Explicit
import PaminMemory.Cascade.Restate
import PaminMemory.Cascade.Derive
import PaminMemory.Cascade.Settling
import PaminMemory.Cascade.Linking
import PaminMemory.Cascade.Meeting
import PaminMemory.Cascade.HandMade
import PaminMemory.Index.Collection
import PaminMemory.Index.Replacing
import PaminMemory.Index.Encoding
import PaminMemory.Index.Reshape
import PaminMemory.Index.Copying
import PaminMemory.Index.Exchange
import PaminMemory.Index.Documents
import PaminMemory.Index.Rebuild
import PaminMemory.Index.Converging
import PaminMemory.Index.Syncing
import PaminMemory.Index.Durability
import PaminMemory.Foundation.Programs
import PaminMemory.Topics.Filter
import PaminMemory.Ingest.Names
import PaminMemory.Ingest.Records
import PaminMemory.Ingest.Sections
import PaminMemory.Ingest.Ledger
import PaminMemory.Ingest.Looking
import PaminMemory.Ingest.Ingest
import PaminMemory.Ingest.Alone
import PaminMemory.Ingest.Recording
import PaminMemory.Ingest.Histories
import PaminMemory.Ingest.Mirror
import PaminMemory.Settings.Paths
import PaminMemory.Settings.Server
import PaminMemory.Settings.Forwarding
import PaminMemory.Foundation.Tiling
import PaminMemory.Spans.Text
import PaminMemory.Spans.Blocks
import PaminMemory.Spans.Cutting
import PaminMemory.Spans.Packing
import PaminMemory.Spans.Gathering
import PaminMemory.Spans.Conserved
import PaminMemory.Spans.Capped
import PaminMemory.Projects.Rows
import PaminMemory.Projects.Purge
import PaminMemory.Topics.Saying
import PaminMemory.Topics.Remember
import PaminMemory.Topics.Naming
import PaminMemory.Opening.Slots
import PaminMemory.Opening.Orderly
import PaminMemory.Opening.Safe
import PaminMemory.Opening.Once
import PaminMemory.Opening.Bound
import PaminMemory.Foundation.Bytes
import PaminMemory.Reranking.Keys
import PaminMemory.Reranking.Planning
import PaminMemory.Reranking.Scores
import PaminMemory.Reranking.Fifo
import PaminMemory.Reranking.Scoring
import PaminMemory.Reranking.Rank
import PaminMemory.Reranking.Sound
import PaminMemory.Reranking.Attempting
import PaminMemory.Reranking.Turning
import PaminMemory.Reranking.Invisible
import PaminMemory.Search.Trace
import PaminMemory.Search.Placing
import PaminMemory.Search.Placed
import PaminMemory.Foundation.Windows
import PaminMemory.Cascade.Names
import PaminMemory.Foundation.Gathering
import PaminMemory.Search.Fusion
import PaminMemory.Search.Fused
import PaminMemory.Foundation.Firsts
import PaminMemory.Foundation.Levels
import PaminMemory.Walking.Crossing
import PaminMemory.Walking.Walk
import PaminMemory.Walking.Hops
import PaminMemory.Walking.Breadth
import PaminMemory.Walking.Reading
import PaminMemory.Walking.Bounded
import PaminMemory.Walking.Arrivals
import PaminMemory.Walking.Predecessors
import PaminMemory.Foundation.Latest
import PaminMemory.Topics.Holders
import PaminMemory.Foundation.Matching
import PaminMemory.Foundation.Doubles
import PaminMemory.Sections.Naming
import PaminMemory.Sections.Numbers
import PaminMemory.Sections.Claims
import PaminMemory.Sections.Named
import PaminMemory.Sections.Headed
import PaminMemory.Sections.Lines
import PaminMemory.Sections.Conserved
import PaminMemory.Ingest.Retirable
import PaminMemory.Foundation.Joined
import PaminMemory.Ingest.Parsing
import PaminMemory.Ingest.Places
import PaminMemory.Foundation.Leading
import PaminMemory.Walking.Certificate
import PaminMemory.Serving.Socket
import PaminMemory.Serving.Kept
import PaminMemory.Foundation.Looks
import PaminMemory.Foundation.Splits
import PaminMemory.Sections.Parents
import PaminMemory.Foundation.Extremes
import PaminMemory.Search.Banded
import PaminMemory.Recalling.Deepening
import PaminMemory.Recalling.Keys
import PaminMemory.Foundation.Highest
import PaminMemory.Recalling.Lexical
import PaminMemory.Foundation.Memo
import PaminMemory.Watching.Sorting
import PaminMemory.Foundation.Handing
import PaminMemory.Index.Lending
import PaminMemory.Spans.Headings
import PaminMemory.Spans.Travelling
import PaminMemory.Walking.Keeping
import PaminMemory.Ingest.Trusting
import PaminMemory.Foundation.Fallible
import PaminMemory.Watching.Flushing
import PaminMemory.Watching.Dropping
import PaminMemory.Foundation.Filling
import PaminMemory.Reranking.Greedy
import PaminMemory.Spans.Growing
import PaminMemory.Foundation.Generations
import PaminMemory.Spans.Cuts
import PaminMemory.Migrations.Adopting
import PaminMemory.Foundation.Pool
import PaminMemory.Encoder.Passes
import PaminMemory.Hub.Pinning
import PaminMemory.Foundation.Listing
import PaminMemory.Hub.Removal
import PaminMemory.Foundation.Utf8
import PaminMemory.Foundation.Cutting
import PaminMemory.Foundation.Keyed
import PaminMemory.Tokenizer.Vocabulary
import PaminMemory.Tokenizer.Segmenting
import PaminMemory.Tokenizer.Fusing
import PaminMemory.Reindexing.Opening
import PaminMemory.Reindexing.Rebuild
import PaminMemory.Reindexing.Stopping
import PaminMemory.Reindexing.Guarding
import PaminMemory.Handwritten.Writing
import PaminMemory.Handwritten.Backing
import PaminMemory.Handwritten.Calling
import PaminMemory.Handwritten.Following
import PaminMemory.Handwritten.Storing
import PaminMemory.Handwritten.Interleaved
import PaminMemory.Foundation.Apart
import PaminMemory.Topics.Filing
import PaminMemory.Importing.Import
import PaminMemory.Importing.OneByOne
import PaminMemory.Importing.Together
import PaminMemory.Foundation.Counts
import PaminMemory.Watching.Book
import PaminMemory.Watching.Counting
import PaminMemory.Watching.Routines
import PaminMemory.Watching.Counted
import PaminMemory.Searching.Resolving
import PaminMemory.Searching.Gathering
import PaminMemory.Searching.Ranking
import PaminMemory.Searching.Showing
import PaminMemory.Searching.Limits
import PaminMemory.Foundation.Disk
import PaminMemory.Tokenizer.Describing
import PaminMemory.Tokenizer.Loading
import PaminMemory.Tokenizer.Loads
import PaminMemory.Topics.Reading
import PaminMemory.Topics.Pages
import PaminMemory.Embedding.Embedder
import PaminMemory.Embedding.Remembering
import PaminMemory.Embedding.Answering
