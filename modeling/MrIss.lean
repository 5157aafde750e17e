import MrIss.Bus.Lookup
import MrIss.Dev.SdFrame
import MrIss.Interp.Branches
import MrIss.Interp.Dcbz
import MrIss.Interp.Multiple
import MrIss.Interp.Products
import MrIss.Interp.Rotates
import MrIss.Interp.Sums
import MrIss.Mmu.Bytes
import MrIss.Mmu.Dirty
import MrIss.Mmu.Interchange
import MrIss.Mmu.Direct
import MrIss.Mmu.Reference
import MrIss.Mmu.Rewalk
import MrIss.Machine.Agree
import MrIss.Machine.Last
import MrIss.Machine.Counted
import MrIss.Machine.Assertions
import MrIss.Machine.Precise
import MrIss.Machine.ByteCount
import MrIss.Machine.Privilege
import MrIss.Machine.Return
import MrIss.Machine.Survival
import MrIss.Machine.Fetch
import MrIss.Machine.Ticks
import MrIss.State.Reload
import MrIss.Dev.Sbd
import MrIss.Dev.Intc
import MrIss.Dev.Lcdc
import MrIss.Dev.Rxne
import MrIss.Dev.Uart16550
import MrIss.Dev.Spi
import MrIss.Jit.Whole
import MrIss.Jit.Block
import MrIss.Jit.Exec
import MrIss.Jit.Linked
import MrIss.Jit.Runloop
import MrIss.Mgmt.Render
import MrIss.Tools.Dispatch
import MrIss.Tools.Generated
import MrIss.Dev.SdCommands
import MrIss.Dev.SdHandshake
import MrIss.Dev.SdReceive
import MrIss.Tools.Generated
