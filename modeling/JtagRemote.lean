import JtagRemote.Code.Mpsse
import JtagRemote.Code.UsbBlaster
import JtagRemote.Code.Xvc
import JtagRemote.Code.Jtagd
import JtagRemote.Hardware.MpsseEngine
import JtagRemote.Ftdi
import JtagRemote.Mpsse.Stream
import JtagRemote.Mpsse.Encode
import JtagRemote.Mpsse.Calls
import JtagRemote.Mpsse.Recv
import JtagRemote.Mpsse.Runs
import JtagRemote.Hardware.BlasterEngine
import JtagRemote.Blaster.Calls
import JtagRemote.Tap
import JtagRemote.Adapter
import JtagRemote.Mpsse.Adapter
import JtagRemote.Blaster.Adapter
import JtagRemote.Drivers
import JtagRemote.Regions
import JtagRemote.Sock
import JtagRemote.Lib.Framer
import JtagRemote.Xvc.Command
import JtagRemote.Xvc.Send
import JtagRemote.Xvc.Shift
import JtagRemote.Xvc.Parse
import JtagRemote.Xvc.ReadBack
import JtagRemote.Xvc.Tick
import JtagRemote.Xvc.Exact
import JtagRemote.Xvc.Pipeline
import JtagRemote.Xvc.Order
import JtagRemote.Stream
import JtagRemote.Jtagd.Packets
import JtagRemote.Jtagd.Fifo
import JtagRemote.Jtagd.SendBuffer
import JtagRemote.Jtagd.Responses
import JtagRemote.Jtagd.Messages
import JtagRemote.Jtagd.Framing
import JtagRemote.Jtagd.Handlers
import JtagRemote.Jtagd.Moves
import JtagRemote.Jtagd.Turns
import JtagRemote.Code.Rbb
import JtagRemote.Rbb.Commands
import JtagRemote.Rbb.Scans
import JtagRemote.Rbb.Tick
import JtagRemote.Rbb.Marks
import JtagRemote.Rbb.Checks
import JtagRemote.Rbb.Steady
import JtagRemote.Rbb.Split
import JtagRemote.Rbb.Levels
import JtagRemote.Jtagd.Window
import JtagRemote.Xvc.Window
import JtagRemote.Jtagd.Full
import JtagRemote.Xvc.Full
import JtagRemote.Units
import JtagRemote.Jtagd.Queue
import JtagRemote.Code.Vpi
import JtagRemote.Vpi.Stream
import JtagRemote.Vpi.Records
import JtagRemote.Vpi.Tick
import JtagRemote.Mpsse.Mode
import JtagRemote.Vpi.Execute
import JtagRemote.Vpi.Sessions
import JtagRemote.Vpi.Mode
import JtagRemote.Partition
import JtagRemote.Probe.Walk
import JtagRemote.Probe.Reset
import JtagRemote.Hardware.Chain
import JtagRemote.Probe.Count
import JtagRemote.Bounds
import JtagRemote.Mpsse.Bounds
import JtagRemote.Blaster.Bounds
import JtagRemote.Vpi.Bounds
import JtagRemote.Hardware.Direct
import JtagRemote.Xvc.Bounds
import JtagRemote.Jtagd.Bounds
import JtagRemote.Jtagd.Blocks
import JtagRemote.Xvc.Resync
import JtagRemote.Origin
import JtagRemote.Mpsse.Failing
import JtagRemote.Blaster.Failing
import JtagRemote.Failing
import JtagRemote.Xvc.Period
import JtagRemote.Jtagd.Access
import JtagRemote.Jtagd.Announced
import JtagRemote.Mpsse.Legal
import JtagRemote.Blaster.Clock
import JtagRemote.Ports
import JtagRemote.Alike
import JtagRemote.Mpsse.Lockstep
import JtagRemote.Mpsse.Places
import JtagRemote.Blaster.Exchanges
import JtagRemote.Blaster.Lockstep
import JtagRemote.Blaster.Places
import JtagRemote.Jtagd.Peers
import JtagRemote.Jtagd.Isolation
import JtagRemote.Jtagd.Sessions
import JtagRemote.Blaster.Leftover
import JtagRemote.Overwrite
import JtagRemote.Lib.Moments
import JtagRemote.Mpsse.Errors
import JtagRemote.Mpsse.Ledger
import JtagRemote.Hardware.Target
import JtagRemote.Xvc.Refine
import JtagRemote.Rbb.Refine
import JtagRemote.Servers
import JtagRemote.Vpi.Refine
import JtagRemote.Xvc.Idcodes
import JtagRemote.Blaster.Init
import JtagRemote.Jtagd.Replies
import JtagRemote.Jtagd.Registers
import JtagRemote.Vpi.Visits
import JtagRemote.Code.Main
import JtagRemote.Program
