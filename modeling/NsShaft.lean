import NsShaft.Hdl.Machine
import NsShaft.Hdl.Arms
import NsShaft.Hdl.Window
import NsShaft.Hdl.Counter
import NsShaft.Hdl.Sprite
import NsShaft.Hdl.MemoryFile
import NsShaft.Hdl.Codebook
import NsShaft.Hdl.TwoWire
import NsShaft.Hdl.BitClock
import NsShaft.Prog.Monitor
import NsShaft.Prog.Command
import NsShaft.Prog.Memory
import NsShaft.Prog.Progress
import NsShaft.Game.Floor
import NsShaft.Game.Ball
import NsShaft.Game.Frame
import NsShaft.Game.Contact
import NsShaft.Game.Draw
import NsShaft.Game.Spacing
import NsShaft.Game.Vertical
import NsShaft.Game.Horizontal
import NsShaft.Game.Reachable
import NsShaft.Game.Standing
import NsShaft.Game.Tunnelling
import NsShaft.Game.Bounce
import NsShaft.Game.SpikeDrop
import NsShaft.Game.Falling
import NsShaft.Game.Belt
import NsShaft.Game.Sprites
import NsShaft.Game.Reset
import NsShaft.Video.Controller
import NsShaft.Video.Timing
import NsShaft.Video.Clock
import NsShaft.Video.Restart
import NsShaft.Video.Panel
import NsShaft.Video.Scoreboard
import NsShaft.Video.ScoreCount
import NsShaft.Video.Render
import NsShaft.Video.Converter
import NsShaft.Video.Paint
import NsShaft.Top.Lab8
import NsShaft.Top.FrameTiming
import NsShaft.Top.Pipeline
import NsShaft.Top.Screen
import NsShaft.Top.Picture
import NsShaft.Top.Display
import NsShaft.Hpi.Interface
import NsShaft.Hpi.IoHandler
import NsShaft.Hpi.Sequence
import NsShaft.Hpi.Discipline
import NsShaft.Hpi.Transfer
import NsShaft.Hpi.Completion
import NsShaft.Usb.Polling
import NsShaft.Usb.ListDone
import NsShaft.Usb.Descriptor
import NsShaft.Usb.Firmware
import NsShaft.Usb.Bus
import NsShaft.Usb.Session
import NsShaft.Usb.Rules
import NsShaft.Usb.Enumeration
import NsShaft.Usb.Ledger
import NsShaft.Usb.Runs
import NsShaft.Usb.Polls
import NsShaft.Usb.Progress
import NsShaft.Usb.Requests
import NsShaft.Audio.AudioInterface
import NsShaft.Audio.Schedule
import NsShaft.Audio.Transfers
import NsShaft.Audio.Samples
import NsShaft.Audio.DacFrame
import NsShaft.Audio.AdcFrame
import NsShaft.Audio.BitIndex
import NsShaft.Audio.Handshake
