import UBootV210.Environment.HashTableMatch
import UBootV210.Library.LmbAllocRun
import UBootV210.Nand.Erase
import UBootV210.Nand.PageStatus
import UBootV210.Nand.PageFormat
import UBootV210.Environment.FwEnvShared
import UBootV210.Environment.EnvNandErrors
import UBootV210.Environment.EnvAttrEnds
import UBootV210.Environment.EnvFlagsRun
import UBootV210.Environment.GetenvAgree
import UBootV210.Net.ReceiveClip
import UBootV210.Net.DefragmentBounds
import UBootV210.Net.DefragmentArrival
import UBootV210.Net.TftpExact
import UBootV210.Net.NfsExact
import UBootV210.Net.NfsPath
import UBootV210.Load.KermitExact
import UBootV210.Signature.PowModExact
import UBootV210.Signature.FindRegions
import UBootV210.Signature.HashedNodes
import UBootV210.Spl.DownloadErase
import UBootV210.Spl.XmodemControl
import UBootV210.Spl.EccCorrection
import UBootV210.DriverModel.DeviceRun
import UBootV210.MtdParts.RoundTrip
import UBootV210.Environment.EnvFlagsType
import UBootV210.Net.TftpNegotiation
import UBootV210.Net.TftpUpload
import UBootV210.Console.CommandList
import UBootV210.Console.History
import UBootV210.Disk.PartDos
import UBootV210.Fs.Fat
import UBootV210.Board.Timer
import UBootV210.Spl.ReceivedImage
