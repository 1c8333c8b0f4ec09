import LoliOS.Lib
import LoliOS.Terminal.State
import LoliOS.Terminal.Cursor
import LoliOS.Terminal.Layout
import LoliOS.Terminal.Input
import LoliOS.Terminal.KbdInput
import LoliOS.Terminal.ReadProtocol
import LoliOS.Terminal.Read
import LoliOS.Terminal.Linearize
import LoliOS.Keyboard.Decoder
import LoliOS.Keyboard.Modifiers
import LoliOS.Keyboard.Swap
import LoliOS.Idt.Dispatch
import LoliOS.Idt.Registry
import LoliOS.Idt.Init
import LoliOS.File.Table
