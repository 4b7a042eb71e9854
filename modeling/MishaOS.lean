import MishaOS.ForStd.LinkedList
import MishaOS.ForStd.Run
import MishaOS.ForStd.InsertAfter
import MishaOS.ForStd.Serial
import MishaOS.Native.Word
import MishaOS.Native.Addr
import MishaOS.Native.Buf
import MishaOS.Native.Arp
import MishaOS.Native.Checksum
import MishaOS.Native.Tcp
import MishaOS.Native.TcpRecv
import MishaOS.Native.Heap
import MishaOS.Native.Route
import MishaOS.Spec.HeapLayout
import MishaOS.Spec.HeapInvariant
import MishaOS.Spec.HeapAlloc
import MishaOS.Spec.HeapRun
import MishaOS.Spec.RouteCorrect
import MishaOS.Spec.BufPool
import MishaOS.Spec.ArpOwnership
import MishaOS.Spec.ArpResolve
import MishaOS.Spec.TcpFrame
import MishaOS.Spec.TcpLists
import MishaOS.Spec.TcpQueue
import MishaOS.Spec.TcpStream
import MishaOS.Spec.TcpReassembly
import MishaOS.Spec.TcpAck
import MishaOS.Spec.TcpAnswer
import MishaOS.ForStd.Fifo
import MishaOS.Native.Paging
import MishaOS.Native.Process
import MishaOS.Native.Exec
import MishaOS.ForStd.Ownership
import MishaOS.Spec.ProcessHeap
import MishaOS.Spec.ProcessTree
import MishaOS.Spec.FrameAlloc
import MishaOS.Spec.PagingFrame
import MishaOS.Native.Sched
import MishaOS.Spec.SchedQueue
import MishaOS.Spec.Scheduler
import MishaOS.Spec.SchedRun
import MishaOS.ForStd.Ring
import MishaOS.Native.Stdin
import MishaOS.Spec.StdinStream
import MishaOS.Spec.TcpLocal
import MishaOS.Spec.TcpTalk
import MishaOS.Spec.TcpUna
import MishaOS.Spec.TcpRelease
import MishaOS.ForStd.Bytes
import MishaOS.Native.Mkvfs
import MishaOS.Spec.VfsLayout
import MishaOS.Spec.VfsChain
import MishaOS.Spec.VfsRoundTrip
import MishaOS.Spec.Typing
import MishaOS.Spec.EfiMap
import MishaOS.Spec.BootMap
import MishaOS.Spec.DetectMemory
import MishaOS.Spec.Iso9660
import MishaOS.Spec.Madt
import MishaOS.Spec.FuncInfo
import MishaOS.Spec.McFields
import MishaOS.Spec.McLookup
import MishaOS.Native.Ipv4
import MishaOS.Native.Send
import MishaOS.Spec.SendPlaces
import MishaOS.Spec.TcpShift
import MishaOS.Spec.TcpShiftRecv
import MishaOS.Spec.TcpShiftRun
import MishaOS.Spec.FrameOwner
import MishaOS.Native.FrameMap
import MishaOS.Spec.FrameMapRun
import MishaOS.Spec.DirRun
import MishaOS.Spec.DirPresent
import MishaOS.Spec.DirViews
import MishaOS.ForStd.OnesSum
import MishaOS.Spec.ProcessFds
import MishaOS.Spec.ByteOrder
import MishaOS.Spec.Checksum
import MishaOS.Spec.TcpWire
import MishaOS.Spec.TcpPeers
import MishaOS.Native.TcpReenter
import MishaOS.Spec.TcpRefuse
import MishaOS.Spec.TcpReenter
import MishaOS.Spec.TcpCrossing
import MishaOS.Spec.ExecPages
import MishaOS.Spec.SharedFds
import MishaOS.Spec.FrameCalls
import MishaOS.Spec.ReapOwner
import MishaOS.Spec.ReapRun
import MishaOS.Spec.FrameReserve
import MishaOS.Spec.FrameSearch
import MishaOS.Spec.HeapMerge
import MishaOS.Spec.HeapGrow
import MishaOS.ForStd.FifoTable
import MishaOS.Spec.ArpCache
import MishaOS.Native.Rtc
import MishaOS.ForStd.Calendar
import MishaOS.Spec.CivilTime
import MishaOS.Spec.ClockSet
import MishaOS.Native.McProtocol
import MishaOS.Spec.McVarint
import MishaOS.Spec.McChunks
import MishaOS.ForStd.Grid
import MishaOS.Native.Display
import MishaOS.Spec.CursorDraw
import MishaOS.Spec.HeapSegment
import MishaOS.Spec.PageMap
import MishaOS.ForStd.Checked
import MishaOS.Native.Dns
import MishaOS.Spec.DnsParse
import MishaOS.Spec.DnsMessage
import MishaOS.Spec.DnsQuery
import MishaOS.Native.Dhcp
import MishaOS.Spec.DhcpParse
import MishaOS.Native.Icmp
import MishaOS.Spec.IcmpEcho
import MishaOS.Spec.TcpUnsent
import MishaOS.Spec.TcpFlow
import MishaOS.Spec.TcpInsert
import MishaOS.Spec.TcpPayload
import MishaOS.Spec.TcpInside
import MishaOS.Spec.ProcessQueues
import MishaOS.Spec.StdinBounds
import MishaOS.Spec.TreeShape
import MishaOS.Spec.RecvWindow
import MishaOS.Spec.RxPoll
import MishaOS.Native.ExecMem
import MishaOS.Spec.NewPages
import MishaOS.Spec.LoadBytes
import MishaOS.Spec.LoadLayout
import MishaOS.Spec.ArgMemory
import MishaOS.Spec.ArgBlock
import MishaOS.ForStd.CInt
import MishaOS.ForStd.Numeral
import MishaOS.ForStd.RunLength
import MishaOS.Native.Stdlib
import MishaOS.Native.Mount
import MishaOS.Native.Tga
import MishaOS.Spec.NumberText
import MishaOS.Spec.TimeText
import MishaOS.Spec.MouseMove
import MishaOS.Spec.OpenPath
import MishaOS.Spec.TgaLoops
import MishaOS.Spec.TgaImage
import MishaOS.Spec.TgaBounds
import MishaOS.Native.Kprintf
import MishaOS.Spec.IntText
import MishaOS.Native.AddrText
import MishaOS.Spec.AddrText
import MishaOS.Native.Strstr
import MishaOS.Spec.Strstr
import MishaOS.Spec.ConversionText
import MishaOS.Spec.FormatRead
import MishaOS.Spec.FormatRun
import MishaOS.Spec.FormatText
import MishaOS.Spec.FormatC99
import MishaOS.Spec.DhcpRoutes
import MishaOS.Spec.IntelRings
import MishaOS.Spec.ArpLan
import MishaOS.Spec.BootImage
import MishaOS.Spec.VideoMode
import MishaOS.Native.KernelPaging
import MishaOS.Spec.KernelPaging
