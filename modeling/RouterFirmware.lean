import RouterFirmware.Ar8216
import RouterFirmware.EadCommand
import RouterFirmware.EadRejected
import RouterFirmware.EadReply
import RouterFirmware.FisRegion
import RouterFirmware.Ipcalc
import RouterFirmware.Jffs2NewEntries
import RouterFirmware.Kconfig
import RouterFirmware.LcdDoze
import RouterFirmware.LcdLanguage
import RouterFirmware.LcdPress
import RouterFirmware.LcdReset
import RouterFirmware.LcdWps
import RouterFirmware.MtdDeviceList
import RouterFirmware.MtdReadErrors
import RouterFirmware.Mx2fb
import RouterFirmware.MyloFlash
import RouterFirmware.NandEcc
import RouterFirmware.NvramPointers
import RouterFirmware.NvramWellFormed
import RouterFirmware.OledDraw
import RouterFirmware.PackageOrder
import RouterFirmware.Pc1Crypt
import RouterFirmware.Ptgen
import RouterFirmware.Rtl8366s
import RouterFirmware.SiitFragment
import RouterFirmware.SiitTotalLength
import RouterFirmware.SiitUdpChecksum
import RouterFirmware.SrecRecords
import RouterFirmware.SwconfigPorts
import RouterFirmware.SwitchReadBack
import RouterFirmware.TrxImage
import RouterFirmware.WprobeDumpLinks
import RouterFirmware.WprobeDumps
import RouterFirmware.WprobeFrames
import RouterFirmware.WprobeLocks
import RouterFirmware.WprobeRemote
import RouterFirmware.WprobeSnapshot
import RouterFirmware.WprobeSwapContained
import RouterFirmware.WprobeUpdateLinks
import RouterFirmware.WprobeVariance
import RouterFirmware.ZynImage
