import LolCrawler.Broker.Leases
import LolCrawler.Broker.Overtaking
import LolCrawler.Broker.Holders
import LolCrawler.Broker.Shutdown
import LolCrawler.Broker.TopUp
import LolCrawler.Broker.Wakeups
import LolCrawler.Columnar.RoundTrip
import LolCrawler.Columnar.SelfCheck
import LolCrawler.Node.Adopted
import LolCrawler.Node.Headers
import LolCrawler.Node.Keys
import LolCrawler.Node.Sends
import LolCrawler.Segment.Interrupted
import LolCrawler.Segment.Crashes
import LolCrawler.Server.Recompaction
import LolCrawler.Server.Restarts
import LolCrawler.Server.Members
import LolCrawler.Server.Drain
import LolCrawler.Server.Leaderboard
import LolCrawler.Server.Tokens
import LolCrawler.Server.Fetch
import LolCrawler.Server.Paging
import LolCrawler.Server.Invites
import LolCrawler.Store.Blocks
import LolCrawler.Store.Durability
import LolCrawler.Store.Retries
import LolCrawler.Store.Cohort
import LolCrawler.Store.Faults
import LolCrawler.Store.Queue
import LolCrawler.Store.Orders
import LolCrawler.Record.Reorder
import LolCrawler.Foundation.Streams
import LolCrawler.Foundation.Panics
import LolCrawler.Foundation.Costs
import LolCrawler.Columnar.Canonical
import LolCrawler.Raw.Stable
import LolCrawler.Node.Outcomes
import LolCrawler.Node.Turns
import LolCrawler.Fleet.Room
import LolCrawler.Fleet.Delivery
import LolCrawler.Fleet.Bodies
