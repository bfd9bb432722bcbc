import Plc4go.Framework.Run
import Plc4go.Net.IP
import Plc4go.Net.IPNet
import Plc4go.Net.Expand
import Plc4go.Discovery.State
import Plc4go.Discovery.WaitGroup
import Plc4go.Discovery.Delivery
import Plc4go.Discovery.Shutdown
import Plc4go.Discovery.Scan
import Plc4go.Bacnetip.Address
import Plc4go.Bacnetip.Driver
import Plc4go.Bacnetip.Cache
import Plc4go.Bacnetip.Key
import Plc4go.Bacnetip.Linearize
import Plc4go.Bacnetip.Resolve
import Plc4go.Utils.StopWarn
import Plc4go.Utils.Errors
import Plc4go.Bacnetip.Close
