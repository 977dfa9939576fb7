import HouseAM.Support.Memory
import HouseAM.Support.Pieces
import HouseAM.Support.Copies
import HouseAM.Support.Numerals
import HouseAM.Types
import HouseAM.Lib.Strings
import HouseAM.Lib.Memory
import HouseAM.Lib.StringCopy
import HouseAM.Lib.Numerals
import HouseAM.Lib.Conversions
import HouseAM.Lib.Printf
import HouseAM.Filesystem.Image
import HouseAM.Filesystem.Dentry
import HouseAM.Filesystem.Names
import HouseAM.Filesystem.Lookup
import HouseAM.Filesystem.ReadData
import HouseAM.Filesystem.Blocks
import HouseAM.Filesystem.Contents
import HouseAM.Filesystem.Accesses
import HouseAM.Terminal.State
import HouseAM.Terminal.Screen
import HouseAM.Terminal.Keyboard
import HouseAM.Support.Runs
import HouseAM.Support.Loops
import HouseAM.Support.Chains
import HouseAM.Support.Clients
import HouseAM.Support.Lines
import HouseAM.Terminal.Views
import HouseAM.Terminal.Isolation
import HouseAM.Terminal.Switching
import HouseAM.Terminal.Events
import HouseAM.Terminal.Bounds
import HouseAM.Support.TextPage
import HouseAM.Terminal.Page
import HouseAM.Terminal.Lines
import HouseAM.Terminal.Editing
import HouseAM.Terminal.Overrun
import HouseAM.Terminal.Echo
import HouseAM.Terminal.Marks
import HouseAM.Terminal.Modifiers
import HouseAM.Terminal.Indices
import HouseAM.Descriptor.Pcb
import HouseAM.Descriptor.Calls
import HouseAM.Descriptor.Run
import HouseAM.Descriptor.FileReads
import HouseAM.Descriptor.Positions
import HouseAM.Descriptor.Unopened
import HouseAM.Descriptor.Footprint
import HouseAM.Descriptor.Listing
import HouseAM.Descriptor.Entries
import HouseAM.Support.Refinement
import HouseAM.Descriptor.Table
import HouseAM.Support.Paging
import HouseAM.Paging.Tables
import HouseAM.Paging.AddressSpace
import HouseAM.Paging.Vidmap
import HouseAM.Process.Kernel
import HouseAM.Process.Execute
import HouseAM.Process.Argument
import HouseAM.Process.Loader
import HouseAM.Process.Load
import HouseAM.Process.Started
import HouseAM.Process.Startable
import HouseAM.Process.Step
import HouseAM.Process.Lineage
import HouseAM.Process.Invariant
import HouseAM.Process.Spaces
import HouseAM.Process.Slots
import HouseAM.Process.Resumption
import HouseAM.Process.Getargs
import HouseAM.Process.Assignments
import HouseAM.Process.Nesting
import HouseAM.Process.Parsing
import HouseAM.Process.Named
import HouseAM.Process.Program
import HouseAM.Process.Terminals
import HouseAM.Fish.Blink
import HouseAM.Fish.Blinkers
import HouseAM.Fish.Rings
import HouseAM.Fish.Display
import HouseAM.Fish.Schedule
import HouseAM.Syscalls.Library
import HouseAM.Syscalls.Reading
import HouseAM.Syscalls.Opened
import HouseAM.Syscalls.Cat
import HouseAM.Syscalls.Ls
import HouseAM.Syscalls.Grep
import HouseAM.Syscalls.Search
import HouseAM.Syscalls.OneFile
import HouseAM.Syscalls.Matches
import HouseAM.Syscalls.AllFiles
import HouseAM.Fish.Frames
import HouseAM.Fish.Rows
import HouseAM.Fish.Animation
import HouseAM.Process.Clients
import HouseAM.Interrupts.Calls
import HouseAM.Interrupts.Refusals
import HouseAM.Interrupts.Devices
import HouseAM.Interrupts.Programs
