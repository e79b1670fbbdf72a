import ThreeTermOS.Kernel
import ThreeTermOS.Rtc
import ThreeTermOS.Interrupts
import ThreeTermOS.Syscalls
import ThreeTermOS.Preemption
import ThreeTermOS.Linkage
import ThreeTermOS.ConsoleEvents
import ThreeTermOS.CommandLine
import ThreeTermOS.RtcCalls
import ThreeTermOS.Printf
import ThreeTermOS.ConvBuf
import ThreeTermOS.MemcpyAsm
import ThreeTermOS.EntryCode
import ThreeTermOS.Paging
import ThreeTermOS.Pit
import ThreeTermOS.I8259
import ThreeTermOS.Idt
import ThreeTermOS.Lemmas.Volume
import ThreeTermOS.Theorems.DescriptorTable
import ThreeTermOS.Theorems.SequentialRead
import ThreeTermOS.Theorems.FileSlice
import ThreeTermOS.Theorems.DirectoryListing
import ThreeTermOS.Theorems.UserBuffers
import ThreeTermOS.Theorems.RtcRates
import ThreeTermOS.Theorems.InterruptFlag
import ThreeTermOS.Theorems.ProcessAccounting
import ThreeTermOS.Theorems.ContextCoherence
import ThreeTermOS.Theorems.VideoMapping
import ThreeTermOS.Theorems.AlwaysRunning
import ThreeTermOS.Theorems.LogicalScreens
import ThreeTermOS.Theorems.KeystrokeIsolation
import ThreeTermOS.Theorems.EnteredLine
import ThreeTermOS.Theorems.PreemptedLoad
import ThreeTermOS.Theorems.ProgramLimit
import ThreeTermOS.Theorems.ArgumentPassing
import ThreeTermOS.Theorems.CallResults
import ThreeTermOS.Theorems.ExitStatus
import ThreeTermOS.Theorems.ImageBounds
import ThreeTermOS.Theorems.NameLookup
import ThreeTermOS.Theorems.DirectoryReads
import ThreeTermOS.Theorems.ExecuteAccepts
import ThreeTermOS.Theorems.LineEditing
import ThreeTermOS.Theorems.LineBounds
import ThreeTermOS.Theorems.TypedText
import ThreeTermOS.Theorems.CommandBounds
import ThreeTermOS.Theorems.RtcOpening
import ThreeTermOS.Theorems.BootLayout
import ThreeTermOS.Theorems.NumberPrinting
import ThreeTermOS.Theorems.ForwardCopy
import ThreeTermOS.Theorems.FormatReads
import ThreeTermOS.Theorems.KernelEntry
import ThreeTermOS.Theorems.AddressSpaces
import ThreeTermOS.Theorems.FileModel
import ThreeTermOS.Theorems.PrivateFiles
import ThreeTermOS.Theorems.RoundRobin
import ThreeTermOS.Theorems.InterruptController
import ThreeTermOS.Theorems.InterruptGates
