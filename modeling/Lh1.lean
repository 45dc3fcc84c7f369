import Lh1.Lib.Bytes
import Lh1.Lib.Run
import Lh1.Lib.Store
import Lh1.Lib.Fallible
import Lh1.Lib.Pipe
import Lh1.Lib.Weight
import Lh1.Lib.Image
import Lh1.Lib.Order
import Lh1.Lib.Walk
import Lh1.Lib.Descent
import Lh1.Lib.Path
import Lh1.Dmsg.Header
import Lh1.Dmsg.Ioq
import Lh1.Dmsg.Crypto
import Lh1.Lib.Trapdoor
import Lh1.Dmsg.Handshake
import Lh1.Dmsg.Frame
import Lh1.Dmsg.IoqSpec
import Lh1.Dmsg.Flush
import Lh1.Dmsg.Framing
import Lh1.Dmsg.AuxBound
import Lh1.Dmsg.Receive
import Lh1.Dmsg.Trans
import Lh1.Dmsg.Machine
import Lh1.Dmsg.Session
import Lh1.Dmsg.SpanRelay
import Lh1.Dmsg.RefInv
import Lh1.Dmsg.Refs
import Lh1.Dmsg.RefRun
import Lh1.Dmsg.Discard
import Lh1.Lib.Bitmap
import Lh1.Hammer.Layout
import Lh1.Hammer.Freemap
import Lh1.Hammer.Newfs
import Lh1.Hammer.FreemapInit
import Lh1.Hammer.Softprune
import Lh1.Hammer.Strip
import Lh1.Hammer.Blkdevs
import Lh1.Hammer.PruneLinks
import Lh1.Hammer.Remote
import Lh1.Hammer.Mrecord
import Lh1.Hammer.MrecordFailure
import Lh1.Hammer.Histogram
import Lh1.Hammer.HistogramSound
import Lh1.Hammer.SliceEnds
import Lh1.Hammer.TwoWay
import Lh1.Hammer.Dedup
import Lh1.Hammer.DedupPasses
import Lh1.Hammer.DedupBooks
import Lh1.Hammer.Recover
import Lh1.Hammer.RecoverData
import Lh1.Hammer.RecoverPath
import Lh1.Hammer.RecoverSurvive
import Lh1.Hammer.UndoScan
import Lh1.Hammer.ZoneStat
import Lh1.Hammer.Show
import Lh1.Hammer.ShowRobust
import Lh1.Hammer.ShowSound
import Lh1.Hammer.ShowSearch
import Lh1.Hammer.Cache
import Lh1.Hammer.CacheOps
import Lh1.Hammer.CacheFlush
import Lh1.Hammer2.Device
import Lh1.Hammer2.Volumes
import Lh1.Hammer2.VersionOne
import Lh1.Hammer2.BestZone
import Lh1.Hammer2.Media
import Lh1.Hammer2.BlockIo
import Lh1.Hammer2.Fsck
import Lh1.Hammer2.FsckCache
import Lh1.Hammer2.FsckTotal
import Lh1.Hammer2.Newfs
import Lh1.Hammer2.NewfsImage
import Lh1.Hammer2.NewfsAccept
import Lh1.Hammer2.NewfsAreas
import Lh1.Fstyp.Counters
import Lh1.Fstyp.Volumes
import Lh1.Fstyp.Label
import Lh1.Fstyp.Recognise
import Lh1.Hammer.Snapshot
import Lh1.Hammer.History
import Lh1.Hammer.SnapBatch
import Lh1.Hammer.Pfs
import Lh1.Undo
