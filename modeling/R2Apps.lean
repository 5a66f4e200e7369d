import R2Apps.ByteMemory
import R2Apps.DoublyLinked
import R2Apps.HeapArena
import R2Apps.HeapLayout
import R2Apps.HeapBlocks
import R2Apps.HeapOperations
import R2Apps.HeapCalls
import R2Apps.HeapGrowth
import R2Apps.HeapContracts
import R2Apps.HeapRuns
import R2Apps.TcpHistory
import R2Apps.TcpDelivery
import R2Apps.SerialNumbers
import R2Apps.StreamDelivery
import R2Apps.BlockImages
import R2Apps.BoundedBytes
import R2Apps.RntpProtocol
import R2Apps.RntpExport
import R2Apps.RntpTransactions
import R2Apps.MetricsHistory
import R2Apps.MetricsAverages
import R2Apps.Rescanning
import R2Apps.SlipReceivers
import R2Apps.SlipResync
import R2Apps.BufferPrefixes
import R2Apps.EthernetReceive
import R2Apps.TcpSending
import R2Apps.SlotTables
import R2Apps.TcpPassiveOpens
import R2Apps.AnimationThinning
import R2Apps.TcpReceiveBounds
import R2Apps.BlockStreams
import R2Apps.Sha256
import R2Apps.JugLists
import R2Apps.JugStore
import R2Apps.JugInstall
import R2Apps.JugModel
import R2Apps.JugTrust
import R2Apps.JugRegistry
import R2Apps.TntAuth
import R2Apps.TntServer
import R2Apps.StackDemux
import R2Apps.InternetChecksums
import R2Apps.PrefixRoutes
import R2Apps.KernelTunnel
import R2Apps.WgdSettings
import R2Apps.WireGuardPeer
import R2Apps.WireGuardWindows
import R2Apps.WgdEngine
import R2Apps.WgdSafety
import R2Apps.WgdAgreement
import R2Apps.StackTransmit
import R2Apps.FifoRings
import R2Apps.Ledgers
import R2Apps.FrameMux
import R2Apps.FrameRouting
import R2Apps.ByteFiles
import R2Apps.TccStreams
import R2Apps.TccStrtol
import R2Apps.StreamRefinement
import R2Apps.WebTcp
import R2Apps.WebTcpSending
import R2Apps.WebTcpReceiving
import R2Apps.WebDnsRuns
import R2Apps.WebTcpDelivery
import R2Apps.Crc32
import R2Apps.TntXfer
import R2Apps.TntXferReading
import R2Apps.TntXferDelivery
import R2Apps.TelegramApp
import R2Apps.TelegramSession
import R2Apps.TelegramQueues
import R2Apps.TelegramSending
import R2Apps.TelegramUpdates
import R2Apps.WireHttp
import R2Apps.TelegramClient
import R2Apps.TelegramPosts
import R2Apps.BearSha256
import R2Apps.MementoSession
import R2Apps.SessionCredentials
import R2Apps.GoSlices
import R2Apps.Ipv4Intake
import R2Apps.DnsMessages
import R2Apps.StreamSockets
import R2Apps.StreamClosing
import R2Apps.StreamWriting
import R2Apps.StreamWindow
import R2Apps.HttpReading
import R2Apps.MementoBlock
import R2Apps.MementoSnapshots
import R2Apps.MementoQueue
import R2Apps.MementoDrains
import R2Apps.RntpServing
import R2Apps.RntpIsolation
import R2Apps.KeyedTables
import R2Apps.WireBytes
import R2Apps.MdnsMessages
import R2Apps.MdnsResponder
import R2Apps.MdnsBrowser
import R2Apps.MdnsFrames
import R2Apps.MdnsAnswers
import R2Apps.MdnsCache
import R2Apps.MdnsQuestions
import R2Apps.MdnsListing
import R2Apps.MdnsAgreement
import R2Apps.JugElf
import R2Apps.Sha256Standard
import R2Apps.NumberFormatting
import R2Apps.HoarePartition
import R2Apps.JugRegistryText
import R2Apps.JugCatalog
import R2Apps.VectorCapacity
import R2Apps.HeapFrees
import R2Apps.HeapCompleteness
import R2Apps.MdnsListFile
import R2Apps.MdnsCacheBounds
import R2Apps.MdnsReading
import R2Apps.MdnsReplies
import R2Apps.BrowserUrl
import R2Apps.BrowserRequestHeads
import R2Apps.FatVolume
import R2Apps.RntpFreeSpace
import R2Apps.RntpBounds
import R2Apps.RntpTransport
import R2Apps.RntpFraming
import R2Apps.Mp4Animation
import R2Apps.ChecksumCopies
import R2Apps.FatEntries
import R2Apps.Varints
import R2Apps.SpotifyMessages
import R2Apps.SpotifyIds
import R2Apps.DhcpFrames
import R2Apps.EthDriver
import R2Apps.EthLeases
import R2Apps.EthLeaseRuns
import R2Apps.MdnsAsking
import R2Apps.MdnsRepeats
import R2Apps.TntSessions
import R2Apps.TntGate
import R2Apps.WebTcpConnects
import R2Apps.WebTcpConnectRuns
import R2Apps.WebTcpPorts
import R2Apps.WebTcpPortRuns
import R2Apps.ForwardChains
import R2Apps.FatChains
import R2Apps.FatFiles
