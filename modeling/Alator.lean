import Alator.Clock
import Alator.Uist.Types
import Alator.Uist.OrderBook
import Alator.Uist.Sort
import Alator.Uist.Exchange
import Alator.Uist.Execution
import Alator.Uist.Ids
import Alator.Uist.Tracked
import Alator.Uist.Lookahead
import Alator.Uist.Fills
import Alator.Uist.Exhaustion
import Alator.Uist.BufferOrder
import Alator.Http.Jura
import Alator.Http.Isolation
import Alator.Broker.Cost
import Alator.Broker.Rules
import Alator.Input.PriceSource
import Alator.Exchange.Single
import Alator.Series.TimeSeries
import Alator.Series.Drawdown
import Alator.Trading.Calendar
import Alator.Trading.Schedule
