import Phy6212.App.MessageLoop
import Phy6212.AtParser.Lines
import Phy6212.AtParser.Prefixes
import Phy6212.AtServer.Scanf
import Phy6212.AtServer.Splitting
import Phy6212.AtSocket.ConnParser
import Phy6212.Ble.AdData
import Phy6212.Ble.UartClient
import Phy6212.Ble.UartServer
import Phy6212.ButtonSrv.Armed
import Phy6212.ButtonSrv.Presses
import Phy6212.Device.OpenCount
import Phy6212.EventList.Subscriptions
import Phy6212.EventLoop.Actions
import Phy6212.EventSvr.Delayed
import Phy6212.Fota.Answers
import Phy6212.Fota.Delivery
import Phy6212.Fota.Sequential
import Phy6212.Gap.Agreement
import Phy6212.Http.Response
import Phy6212.IrNec.Busy
import Phy6212.IrNec.Decode
import Phy6212.Keyboard.Queue
import Phy6212.Keyscan.Elapsed
import Phy6212.Keyscan.Reports
import Phy6212.Kv.CacheOut
import Phy6212.Kv.Conserve
import Phy6212.Kv.PowerLoss
import Phy6212.Kv.ReadOnly
import Phy6212.Kv.SearchBounds
import Phy6212.Misc.Hexstr
import Phy6212.Misc.Ringbuffer
import Phy6212.Ota.Bounds
import Phy6212.Ota.Erased
import Phy6212.Ota.Requests
import Phy6212.Ota.Undelivered
import Phy6212.Partition.Containment
import Phy6212.Partition.Handles
import Phy6212.Partition.ReadExact
import Phy6212.Partition.Refinement
import Phy6212.Pm.Resume
import Phy6212.Rtc.Alarm
import Phy6212.UService.Marshal
import Phy6212.UService.Quiescence
import Phy6212.Uart.Notice
import Phy6212.Voice.Cobs
import Phy6212.Voice.Fifo
import Phy6212.Voice.Quantization
