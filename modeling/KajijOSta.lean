import KajijOSta.Fat32.Refinement
import KajijOSta.Fat32.Crash
import KajijOSta.Fat32.Space
import KajijOSta.Fat32.Format
import KajijOSta.Fat32.Names
import KajijOSta.Fat32.Outcome
import KajijOSta.Fat32.Undo
import KajijOSta.Fat32.Overread
import KajijOSta.Fat32.Folders
import KajijOSta.Fat32.Walks
import KajijOSta.Paging.AllocationCheck
import KajijOSta.Shell.Lookup
import KajijOSta.Shell.Move
import KajijOSta.Shell.Copying
import KajijOSta.Inserter.Replacement
import KajijOSta.Keyboard.Delivery
import KajijOSta.Keyboard.Screen
import KajijOSta.Terminal.Columns
import KajijOSta.Terminal.Printing
import KajijOSta.Terminal.Matching
import KajijOSta.Terminal.Nested
import KajijOSta.Terminal.Search
import KajijOSta.Terminal.Words
import KajijOSta.Ata.Agreement
import KajijOSta.Stdlib.Agreement
import KajijOSta.Interrupts.Interleaving
import KajijOSta.Interrupts.Service
import KajijOSta.Paging.Accesses
import KajijOSta.Fat32.Persistence
import KajijOSta.Boot.Setup
import KajijOSta.Terminal.Picture
import KajijOSta.Terminal.Sessions
