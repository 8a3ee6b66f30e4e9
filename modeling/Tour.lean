import Tour.Lib.Machine
import Tour.Lib.Progress
import Tour.Lib.Bytes
import Tour.Lib.OnesComplement
import Tour.Lib.LinkedHeap
import Tour.Lib.Logged
import Tour.Lib.Ledger
import Tour.Lib.Scripts
import Tour.Cache.Basic
import Tour.Cache.Pointers
import Tour.Cache.Calls
import Tour.Cache.Update
import Tour.Arp.Packet
import Tour.Arp.Handlers
import Tour.Arp.Daemon
import Tour.Arp.Codec
import Tour.Arp.Consistency
import Tour.Arp.Sweep
import Tour.Arp.Descriptors
import Tour.Arp.Accept
import Tour.Arp.Answers
import Tour.Arp.Ether
import Tour.Arp.Bindings
import Tour.Arp.Copies
import Tour.Arp.Interfaces
import Tour.Arp.Learning
import Tour.Arp.Network
import Tour.Arp.Questions
import Tour.Arp.Fates
import Tour.Arp.Progress
import Tour.Arp.Service
import Tour.Arp.Lifecycle
import Tour.Arp.SocketFile
import Tour.Api.Areq
import Tour.Api.System
import Tour.Api.Resolve
import Tour.Route.Message
import Tour.Route.Node
import Tour.Route.Walk
import Tour.Route.Group
import Tour.Route.Lengths
import Tour.Route.Hops
import Tour.Ping.Checksum
import Tour.Ping.Sender
import Tour.Ping.Thread
import Tour.Ping.Addressed
import Tour.Ping.Receiver
import Tour.Ping.Reads
import Tour.Ping.Threads
import Tour.Route.Process
import Tour.Route.System
import Tour.Route.Itineraries
import Tour.Route.Tours
import Tour.Route.Members
import Tour.Route.Endings
import Tour.Route.Resources
import Tour.Devices.HwAddrs
import Tour.Devices.Runs
import Tour.Devices.Table
import Tour.Devices.Release
import Tour.Arp.Resolution
import Tour.Api.Completion
