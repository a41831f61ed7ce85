import LineBasic.Main
import LineBasic.Proofs.Collection.Queue
import LineBasic.Proofs.Machine.Boundary
import LineBasic.Proofs.Machine.Change
import LineBasic.Proofs.Machine.ErrorTrap
import LineBasic.Proofs.Machine.Mode
import LineBasic.Proofs.Program.Grammar
import LineBasic.Proofs.Program.Rescan
import LineBasic.Proofs.Program.Store
import LineBasic.Proofs.Session.Memory
import LineBasic.Proofs.Snapshot.RoundTrip
import LineBasic.Proofs.Source.Simulation
import LineBasic.Proofs.Machine.Memory
import LineBasic.Proofs.Machine.Reentry
import LineBasic.Proofs.Machine.Footing
import LineBasic.Proofs.Machine.Shutdown
import LineBasic.Proofs.Disk.Names
import LineBasic.Proofs.Disk.Restore
import LineBasic.Proofs.Disk.RoundTrip
import LineBasic.Proofs.Machine.Inspection
import LineBasic.Proofs.Machine.Report
import LineBasic.Proofs.Snapshot.Corruption
import LineBasic.Proofs.Snapshot.Place
import LineBasic.Proofs.Source.Listing
import LineBasic.Proofs.Program.Listing
import LineBasic.Proofs.Event.Pump
import LineBasic.Proofs.Session.Failure
import LineBasic.Proofs.Machine.Malformed
import LineBasic.Proofs.Machine.ResumeNext
import LineBasic.Proofs.Session.Dispatch
import LineBasic.Proofs.Session.Subroutine
import LineBasic.Proofs.Machine.Dispatch
import LineBasic.Proofs.Statement.Expression
import LineBasic.Proofs.Machine.ErrorLine
import LineBasic.Proofs.Code.Region
import LineBasic.Proofs.Program.Entry
import LineBasic.Proofs.Machine.Entry
import LineBasic.Proofs.Machine.AutoNumber
import LineBasic.Proofs.Machine.Bearing
import LineBasic.Proofs.Machine.Command
import LineBasic.Proofs.Machine.Comment
import LineBasic.Proofs.Number.Rounding
import LineBasic.Proofs.Statement.Constant
import LineBasic.Proofs.Source.Blank
import LineBasic.Proofs.Session.Variables
import LineBasic.Proofs.Machine.Progress
import LineBasic.Proofs.Code.Operation
