import C64.Cia
import C64.Raster.Sink
import C64.Rtc
import C64.Rtc.Host
import C64.Via
import C64.Vic.Colour
import C64.Vic.Frame
import C64.Clock
import C64.Cpu
import C64.Bus.Flat
import C64.Bus.Traced
import C64.Keyboard
import C64.Input
import C64.Program
import C64.Board
import C64.Toml.Document
import C64.Machine.ConfigText
import C64.Machine
import C64.Machine.Inspect
import C64.Board.RtcPort
import C64.Host.Desk
import C64.Main
import C64.Host.Tree
import C64.Proofs.Fault
import C64.Proofs.Clock.Agenda
import C64.Proofs.Clock.Firing
import C64.Proofs.Clock.Splitting
import C64.Proofs.Clock.Responding
import C64.Proofs.Clock.History
import C64.Proofs.Clock.Serving
import C64.Proofs.Cia.Alarms
import C64.Proofs.Cia.Stepped
import C64.Proofs.Cia.Cycles
import C64.Proofs.Cia.Refinement
import C64.Proofs.Via.Alarms
import C64.Proofs.Rtc.Alarms
import C64.Proofs.Rtc.Transfer
import C64.Proofs.Raster.Fill
import C64.Proofs.Raster.Damage
import C64.Proofs.Raster.Screen
import C64.Proofs.Vic.Overlay
import C64.Proofs.Vic.SpriteBytes
import C64.Proofs.Vic.Picture
import C64.Proofs.Vic.Rendering
import C64.Proofs.Vic.Cache
import C64.Proofs.Vic.Damage
import C64.Proofs.Vic.Viewing
import C64.Proofs.Vic.Delivery
import C64.Proofs.Board.Ticks
import C64.Proofs.Board.Scheduling
import C64.Proofs.Machine.Interrupts
import C64.Proofs.Cpu.Simulation
import C64.Proofs.Clock.Likeness
import C64.Proofs.Cia.Likeness
import C64.Proofs.Via.Likeness
import C64.Proofs.Vic.Lines
import C64.Proofs.Board.Likeness
import C64.Proofs.Board.Making
import C64.Proofs.Machine.Reachable
import C64.Proofs.Machine.Reset
import C64.Proofs.Vic.Rows
import C64.Proofs.Vic.Still
import C64.Proofs.Cpu.Accounting
import C64.Proofs.Machine.Peeking
import C64.Proofs.Cpu.Footprint
import C64.Proofs.Board.Running
import C64.Proofs.Board.Raster
import C64.Proofs.Machine.Running
import C64.Proofs.Machine.Frames
import C64.Proofs.Board.Words
import C64.Proofs.Machine.Completion
import C64.Proofs.Machine.Faultless
import C64.Proofs.Clock.Indexed
import C64.Proofs.Clock.Conservation
import C64.Proofs.Board.Simultaneous
import C64.Proofs.Rtc.Pacing
import C64.Proofs.Board.Fixtures
import C64.Proofs.Machine.Configured
import C64.Proofs.Machine.Reconfiguring
import C64.Proofs.Raster.FullFrame
import C64.Proofs.Vic.Redrawing
import C64.Proofs.Board.Screen
import C64.Proofs.Machine.Projection
import C64.Proofs.Cpu.Traffic
import C64.Proofs.Cpu.Timing
import C64.Proofs.Cpu.Writes
import C64.Proofs.Cpu.Returning
import C64.Proofs.Cpu.Advancing
import C64.Proofs.Cpu.Combined
import C64.Proofs.Cpu.Digits
import C64.Proofs.Cpu.FixedBits
import C64.Proofs.Board.Controls
import C64.Proofs.Machine.ControlPorts
import C64.Proofs.Board.Dispatching
import C64.Proofs.Rtc.Carrying
import C64.Proofs.Rtc.Century
import C64.Proofs.Rtc.Timekeeping
import C64.Proofs.Rtc.Reading
import C64.Proofs.Rtc.Exchange
import C64.Proofs.Rtc.Snapshot
import C64.Proofs.Rtc.Protection
import C64.Proofs.Vic.Tight
import C64.Proofs.Vic.Idle
import C64.Proofs.Vic.Composition
import C64.Proofs.Vic.Matrix
import C64.Proofs.Via.Latch
import C64.Proofs.Via.FreeRun
import C64.Proofs.Board.Banking
import C64.Proofs.Cia.Tenths
import C64.Proofs.Cia.Timekeeping
import C64.Proofs.Via.OneShot
import C64.Proofs.Via.Timer2
import C64.Proofs.Via.Wrapping
import C64.Proofs.Clock.Abreast
import C64.Proofs.Cia.Watching
import C64.Proofs.Cia.Latching
import C64.Proofs.Cia.Reporting
import C64.Proofs.Raster.Exact
import C64.Proofs.Raster.Pieces
