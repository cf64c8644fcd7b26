import VDK.FileSystem
import VDK.PortSafety
import VDK.RangeGate
import VDK.WriteReport
import VDK.AtaDrive
import VDK.Contract
import VDK.FileCalls
import VDK.FileIsolation
import VDK.FileMap
import VDK.LastWrite
import VDK.MissingFile
import VDK.TerminalLog
import VDK.InterruptReturn
import VDK.KeyModifiers
import VDK.KeySlot
import VDK.MouseCursor
import VDK.Boot
import VDK.PrintfOutput
import VDK.ShellArguments
import VDK.MouseFraming
import VDK.FatDirectory
import VDK.FatLinks
import VDK.FatBuffer
import VDK.ReadBlocks
import VDK.CommandRange
import VDK.ChsAddress
import VDK.DeviceTable
import VDK.IdentifyWait
import VDK.ModelName
import VDK.SectorCopies
import VDK.NameLookup
import VDK.TextGrammar
import VDK.NumberText
import VDK.CommandBuffer
import VDK.InterruptedRead
import VDK.InterruptGates
import VDK.KeyboardWait
import VDK.InfoNumbers
import VDK.CommandHistory
import VDK.SegmentTable
import VDK.StringMemory
import VDK.CrashScreen
import VDK.IrqDelivery
import VDK.LineShell
import VDK.Console
import VDK.TornWrites
import VDK.Typing
import VDK.FatTool
import VDK.ScreenColours
import VDK.InputRuns
