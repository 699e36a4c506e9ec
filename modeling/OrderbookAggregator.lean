import OrderbookAggregator.Library.KWayMerge
import OrderbookAggregator.Library.LabelledRun
import OrderbookAggregator.Library.Register
import OrderbookAggregator.Library.Rounding
import OrderbookAggregator.Library.Search
import OrderbookAggregator.Library.Tally
import OrderbookAggregator.Library.TextFormat
import OrderbookAggregator.Library.Views
import OrderbookAggregator.Proof.Accounting
import OrderbookAggregator.Proof.AnyComparator
import OrderbookAggregator.Proof.Attribution
import OrderbookAggregator.Proof.Binance
import OrderbookAggregator.Proof.Client
import OrderbookAggregator.Proof.Connection
import OrderbookAggregator.Proof.Contribution
import OrderbookAggregator.Proof.Depth
import OrderbookAggregator.Proof.Event
import OrderbookAggregator.Proof.Exit
import OrderbookAggregator.Proof.FieldOrder
import OrderbookAggregator.Proof.Health
import OrderbookAggregator.Proof.HistogramCounts
import OrderbookAggregator.Proof.LevelArrays
import OrderbookAggregator.Proof.MergerRun
import OrderbookAggregator.Proof.Message
import OrderbookAggregator.Proof.Ownership
import OrderbookAggregator.Proof.Pacing
import OrderbookAggregator.Proof.Pages
import OrderbookAggregator.Proof.Pipeline
import OrderbookAggregator.Proof.Provenance
import OrderbookAggregator.Proof.Rejected
import OrderbookAggregator.Proof.Scrape
import OrderbookAggregator.Proof.Sequence
import OrderbookAggregator.Proof.Shutdown
import OrderbookAggregator.Proof.Spread
import OrderbookAggregator.Proof.Staleness
import OrderbookAggregator.Proof.Subscription
import OrderbookAggregator.Proof.Views
