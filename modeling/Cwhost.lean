import Cwhost.Memory.Partition
import Cwhost.Session.Ownership
import Cwhost.Session.Request
import Cwhost.Pef.RelocRefines
import Cwhost.Pef.SectionImage
import Cwhost.Vfs.Fsref
import Cwhost.Vfs.Coherence
import Cwhost.Vfs.Addresses
import Cwhost.Vfs.Forks
import Cwhost.Vfs.Entries
import Cwhost.Vfs.HfsCompose
import Cwhost.Session.FindFile
import Cwhost.Carbon.System
import Cwhost.Resources.Chain
import Cwhost.Resources.ForkLayout
import Cwhost.Pef.ContainerLayout
import Cwhost.Pef.RelocAdditive
import Cwhost.Abi.RoundTrip
import Cwhost.Guest.Call
import Cwhost.Guest.Trace
import Cwhost.Session.Locking
import Cwhost.Session.Leaks
import Cwhost.Session.Cleanup
import Cwhost.Pef.PidataGrammar
import Cwhost.Pef.LoaderImages
import Cwhost.Session.HostRequest
import Cwhost.Session.Closing
import Cwhost.Session.TextBuffers
import Cwhost.Session.Compile
import Cwhost.Session.IncludeNames
import Cwhost.Session.IncludeRoots
import Cwhost.Session.FileSpecs
import Cwhost.Pef.ExportTable
import Cwhost.Pef.RelocSafety
import Cwhost.Carbon.CatalogInfo
import Cwhost.Vfs.Sidecars
import Cwhost.Resources.ForkReads
import Cwhost.Resources.ChainClose
import Cwhost.Guest.Args
import Cwhost.Carbon.Text
import Cwhost.Cli.Warnings
import Cwhost.Cli.Separation
import Cwhost.Panels
import Cwhost.Pef.LoaderRefusal
import Cwhost.Abi.WriteField
import Cwhost.Vfs.NameIndex
import Cwhost.Session.AddressSpace
import Cwhost.Carbon.MemoryManager
import Cwhost.Session.Linking
import Cwhost.Session.CStrings
import Cwhost.Session.LoadFile
import Cwhost.Session.HandOuts
import Cwhost.Session.Messages
import Cwhost.Session.Preferences
import Cwhost.Vfs.DataForks
import Cwhost.Cli.Output
import Cwhost.Carbon.RefWalk
import Cwhost.Cli.Toolchain
import Cwhost.Cli.Driver
