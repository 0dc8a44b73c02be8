import UltraGrid.Rtp.Seq
import UltraGrid.Rtp.Heap
import UltraGrid.Rtp.Pbuf.Defs
import UltraGrid.Rtp.Pbuf.Abstract
import UltraGrid.Rtp.Pbuf.Layout
import UltraGrid.Rtp.Pbuf.Scheduler
import UltraGrid.Rtp.Pbuf.CodedUnit
import UltraGrid.Rtp.Pbuf.Insert
import UltraGrid.Rtp.Pbuf.Stats
import UltraGrid.Rtp.Pbuf.Gap
import UltraGrid.Rtp.Pbuf.Runs
import UltraGrid.Rtp.Pbuf.Lifecycle
import UltraGrid.Rtp.Pbuf.Loss
import UltraGrid.Rtp.Pbuf.Cursor
import UltraGrid.Rtp.Pbuf.Delivery
import UltraGrid.Rtp.Pbuf.Flags
import UltraGrid.Transmit
import UltraGrid.Transmit.Payload
import UltraGrid.VideoCompress.Libavcodec
import UltraGrid.VideoCompress.Convert
import UltraGrid.VideoCompress.InFrame
import UltraGrid.VideoCompress.Options
import UltraGrid.VideoCompress.Configure
import UltraGrid.VideoCompress.Compressor
import UltraGrid.VideoCompress.Setparam
import UltraGrid.Quad.DvbmTxu
