import DiskStorage.Lib.Runs
import DiskStorage.Lib.Walks
import DiskStorage.Lib.ByteStore
import DiskStorage.Lib.Blocks
import DiskStorage.Lib.WriteBack
import DiskStorage.Lib.Extents
import DiskStorage.Lib.LittleEndian
import DiskStorage.Lib.ShiftRegister
import DiskStorage.Lib.RegisterPeriod
import DiskStorage.Lib.Readers
import DiskStorage.BlockDevice.Model
import DiskStorage.BlockDevice.View
import DiskStorage.BlockDevice.Loops
import DiskStorage.BlockDevice.Operations
import DiskStorage.BlockDevice.Refinement
import DiskStorage.BlockDevice.Durability
import DiskStorage.BlockDevice.Windows
import DiskStorage.BlockDevice.Transparency
import DiskStorage.BlockDevice.Progress
import DiskStorage.BlockDevice.WriteOrder
import DiskStorage.BlockDevice.Tags
import DiskStorage.BlockDevice.Stats
import DiskStorage.PartInfo
import DiskStorage.BlockDevice.HostFile
import DiskStorage.DiskDefs
import DiskStorage.Device
import DiskStorage.Scanner.Model
import DiskStorage.Scanner.Sectors
import DiskStorage.Scanner.Entries
import DiskStorage.Scanner.Chain
import DiskStorage.Scanner.BootSectors
import DiskStorage.Scanner.HeaderReads
import DiskStorage.Scanner.Bursts
import DiskStorage.Scanner.BitPairs
import DiskStorage.Scanner.Results
import DiskStorage.Scanner.Reads
import DiskStorage.Scanner.Rescans
import DiskStorage.Scanner.Termination
import DiskStorage.Scanner.Yields
import DiskStorage.Scanner.Primaries
import DiskStorage.Scanner.Logical
import DiskStorage.Scanner.Enumeration
import DiskStorage.Scanner.Extents
import DiskStorage.Scanner.Sizes
import DiskStorage.Scanner.EndStates
import DiskStorage.Validate.Model
import DiskStorage.Validate.Sizing
import DiskStorage.Validate.Accounting
import DiskStorage.Validate.Placement
import DiskStorage.Validate.Fixed
import DiskStorage.Validate.Gaps
import DiskStorage.Validate.Labels
import DiskStorage.Validate.Rounds
import DiskStorage.Validate.NoSpace
import DiskStorage.Validate.Order
import DiskStorage.Validate.Granularity
import DiskStorage.Validate.Sequential
import DiskStorage.Validate.Percentages
import DiskStorage.Validate.InTurn
import DiskStorage.Validate.AutoPlacement
import DiskStorage.Format.Gpt
import DiskStorage.Format.Entries
import DiskStorage.Format.Consistency
import DiskStorage.Format.Writes
import DiskStorage.Format.PowerLoss
import DiskStorage.Format.GptRoundTrip
import DiskStorage.Format.LargeSectors
import DiskStorage.Format.Mbr
import DiskStorage.Format.MbrRoundTrip
import DiskStorage.Format.MbrPowerLoss
import DiskStorage.Format.SectorUnit
import DiskStorage.Format.Errors
import DiskStorage.Format.Capacity
import DiskStorage.Format.Devices
import DiskStorage.Format.Survival
import DiskStorage.Format.MbrSurvival
import DiskStorage.Format.Reopen
import DiskStorage.Format.Independence
import DiskStorage.Format.Rewriting
import DiskStorage.Format.HeaderBlocks
import DiskStorage.Format.Positions
import DiskStorage.Format.Geometry
