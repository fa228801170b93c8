import Noxis.Lib.Run
import Noxis.Fixes.Transparent
import Noxis.Fixes.Reclaim
import Noxis.Fixes.Share
import Noxis.Fixes.Current
import Noxis.Fixes.Shell
import Noxis.Fixes.Sleep
import Noxis.Fixes.Ip
import Noxis.Fixes.Heap
import Noxis.Fixes.Ping
import Noxis.Fixes.ArpCache
import Noxis.Fixes.Inside
import Noxis.Fixes.Line
import Noxis.Fixes.TextMode
import Noxis.Fixes.FbGrid
import Noxis.Fixes.FbPixels
import Noxis.Net.Ip
import Noxis.Net.Task
import Noxis.Net.Frame
import Noxis.Net.Dns
import Noxis.Net.Poll
import Noxis.Net.Strand
import Noxis.Net.Ping
import Noxis.Net.Resolve
import Noxis.Net.PortIo
import Noxis.Ipc.Action
import Noxis.Ipc.DiskLog
import Noxis.Ipc.ForkQueue
import Noxis.Ipc.ForkAtomic
import Noxis.Ipc.Wait
import Noxis.Ipc.Childless
import Noxis.Ipc.Access
import Noxis.Ipc.Schedule
import Noxis.Mm.Names
import Noxis.Mm.Segments
import Noxis.Hd.Rdwt
import Noxis.Hd.Partition
import Noxis.Fs.ReadWrite
import Noxis.Fs.Counts
import Noxis.Fs.RootDir
import Noxis.Fs.Unlink
import Noxis.Fs.LogText
import Noxis.Fs.Descriptors
import Noxis.Wm.ZOrder
import Noxis.Wm.Selection
import Noxis.Wm.OnScreen
import Noxis.Wm.Grid
import Noxis.Wm.Drag
import Noxis.Wm.OpenView
import Noxis.Wm.Listing
import Noxis.Wm.Editor
import Noxis.Wm.Write
import Noxis.Wm.Mouse
import Noxis.Wm.Quad
import Noxis.Image.BootFiles
import Noxis.Image.Kernel
import Noxis.Tty.Batches
import Noxis.Tty.Gui
import Noxis.Tty.Modifiers
import Noxis.Tty.Console
import Noxis.Tty.Read
import Noxis.Tar.Install
import Noxis.Hd.Delay
import Noxis.Gfx.Circle
import Noxis.Fixes.Format
import Noxis.Tty.Vsprintf
import Noxis.Trap.Virtual
import Noxis.Fs.Lifetime
import Noxis.Boot.Start
import Noxis.Boot.Mounted
