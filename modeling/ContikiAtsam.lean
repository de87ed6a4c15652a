import ContikiAtsam.Base.Memory
import ContikiAtsam.Base.Loop
import ContikiAtsam.Base.Run
import ContikiAtsam.Ringmem.Layout
import ContikiAtsam.Ringmem.Fifo
import ContikiAtsam.Base.Ring
import ContikiAtsam.Ringbuf32.Code
import ContikiAtsam.Ringbuf32.Fifo
import ContikiAtsam.Net.Framer
import ContikiAtsam.Net.Input
import ContikiAtsam.Gmac.Read
import ContikiAtsam.Driver.Receive
import ContikiAtsam.Driver.Segments
import ContikiAtsam.Driver.ReceiveFrames
import ContikiAtsam.Driver.Pending
import ContikiAtsam.Driver.System
import ContikiAtsam.Driver.Frame
import ContikiAtsam.Driver.Receiver
import ContikiAtsam.Driver.Coherent
import ContikiAtsam.Driver.Wakeup
import ContikiAtsam.Driver.Assertions
import ContikiAtsam.Driver.Accounting
import ContikiAtsam.Driver.Tracking
import ContikiAtsam.Driver.Completion
import ContikiAtsam.Driver.Status
import ContikiAtsam.Rtimer.Clock
import ContikiAtsam.Flash.Efc
import ContikiAtsam.Flash.Coffee
import ContikiAtsam.Gmac.Checked
import ContikiAtsam.Driver.ReceiveSafe
import ContikiAtsam.NetMonitor.Print
import ContikiAtsam.NetMonitor.Resources
import ContikiAtsam.NetMonitor.Bounds
import ContikiAtsam.NetMonitor.Periodic
import ContikiAtsam.Ringmem.Admission
import ContikiAtsam.Driver.Overrun
import ContikiAtsam.Base.Chain
import ContikiAtsam.Driver.Elements
import ContikiAtsam.Driver.Drain
import ContikiAtsam.Net.Filter
import ContikiAtsam.Net.Output
import ContikiAtsam.Driver.Agreement
import ContikiAtsam.Rtimer.Order
import ContikiAtsam.Systick.Code
import ContikiAtsam.Systick.Expiration
import ContikiAtsam.Base.Ipv6Text
import ContikiAtsam.NetMonitor.Address
import ContikiAtsam.NetMonitor.Command
import ContikiAtsam.Base.Writer
import ContikiAtsam.NetMonitor.Overflow
import ContikiAtsam.Net.RouteInfo
import ContikiAtsam.Base.Hamming
import ContikiAtsam.Nand.Buffer
import ContikiAtsam.Nand.Distance
import ContikiAtsam.Nbr.Add
import ContikiAtsam.Nbr.FirstFit
import ContikiAtsam.Nbr.Iterate
import ContikiAtsam.Nbr.Lasting
import ContikiAtsam.Base.Scatter
import ContikiAtsam.Flash.Locks
import ContikiAtsam.Nand.Bus
import ContikiAtsam.Nand.EccPage
import ContikiAtsam.Net.Queuebuf
import ContikiAtsam.Gmac.Arrival
import ContikiAtsam.Gmac.RxFifo
import ContikiAtsam.Net.Parts
import ContikiAtsam.Net.Stations
import ContikiAtsam.Base.OnesSum
import ContikiAtsam.Gmac.TxFifo
import ContikiAtsam.GmacExample.Answer
import ContikiAtsam.GmacExample.Ping
