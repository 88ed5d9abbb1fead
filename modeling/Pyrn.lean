import Pyrn.Device.NewDynSensorsExact
import Pyrn.Can.DiagCalculator
import Pyrn.Upload.UploadStream
import Pyrn.Can.ReceivePathRefinement
import Pyrn.Can.CallBackTableExact
import Pyrn.Storage.RamCircBuffRefinement
import Pyrn.Memory.HeapInvariant
import Pyrn.Framework.Tiling
import Pyrn.Server.UdpDataServer
import Pyrn.Canonair.CaptureLoop
import Pyrn.Canonair.CaptureRoundTrip
import Pyrn.Canonair.ConfigRoundTrip
import Pyrn.Can.ReportedLength
import Pyrn.Device.StopDynSensors
import Pyrn.Can.Dispatch
import Pyrn.Can.KeepAlive
import Pyrn.Can.DiagAddressing
import Pyrn.Device.SensorCapture
import Pyrn.Memory.FullReclaim
import Pyrn.Memory.Allocation
import Pyrn.Storage.SdFifo
import Pyrn.LockBalance
import Pyrn.Storage.SdLocks
import Pyrn.Upload.StorageError
import Pyrn.Server.ParseFrameEnds
import Pyrn.Console.CanPrint
import Pyrn.Console.CanParser
import Pyrn.Device.ConfigReload
import Pyrn.Device.WellFormedRecords
import Pyrn.Canonair.RecorderListens
import Pyrn.Canonair.CaptureBound
import Pyrn.Can.CorrelatorRegistry
import Pyrn.Can.FilterRuns
import Pyrn.Gps.Integrity
import Pyrn.Can.RecorderSafety
import Pyrn.Can.LearnedPeriod
import Pyrn.Can.CommandSearch
import Pyrn.Can.ReplyBounds
import Pyrn.Can.VariationDetector
import Pyrn.Canonair.RecordedChunks
import Pyrn.Canonair.ConfigSafety
import Pyrn.Device.CommandEnumeration
import Pyrn.Device.KeepAliveCommands
import Pyrn.Device.ReplyStore
import Pyrn.Storage.SdAtomic
import Pyrn.Storage.SdExact
import Pyrn.Storage.RamShortGet
import Pyrn.Can.TrackedRuns
import Pyrn.Console.BracketedLine
import Pyrn.Console.StoreResults
import Pyrn.Modem.SimCheck
import Pyrn.Gps.TimeEncoding
import Pyrn.Modem.LineStream
import Pyrn.Modem.Transaction
import Pyrn.Modem.ExecuteProtocol
import Pyrn.Modem.SerialWaits
import Pyrn.Modem.SerialStalls
import Pyrn.Storage.CsdRegister
import Pyrn.Framework.SpiBus
