import FileSweep.Main
import FileSweep.Text.Order
import FileSweep.Settings.Record
import FileSweep.Proofs.Course
import FileSweep.Proofs.Visit
import FileSweep.Proofs.PathText
import FileSweep.Proofs.PathOrder
import FileSweep.Proofs.DiskNames
import FileSweep.Proofs.ScanCourse
import FileSweep.Proofs.WalkOrder
import FileSweep.Proofs.Ahead
import FileSweep.Proofs.ScanEnd
import FileSweep.Proofs.Agreement
import FileSweep.Proofs.FirstFailure
import FileSweep.Proofs.Account
import FileSweep.Proofs.BreakOff
import FileSweep.Proofs.Reachable
import FileSweep.Proofs.Explored
import FileSweep.Proofs.Lockstep
import FileSweep.Proofs.Confinement
import FileSweep.Proofs.Behind
import FileSweep.Proofs.Silence
import FileSweep.Proofs.Hush
import FileSweep.Proofs.Told
import FileSweep.Proofs.Doubles
import FileSweep.Proofs.Termination
import FileSweep.Proofs.ExitStatus
import FileSweep.Proofs.Strays
import FileSweep.Proofs.UsageReport
import FileSweep.Proofs.WalkLength
import FileSweep.Proofs.ListingOrder
import FileSweep.Proofs.Places
import FileSweep.Proofs.Relocation
import FileSweep.Proofs.Verbosity
import FileSweep.Proofs.LetterCase
import FileSweep.Proofs.ExtensionForm
import FileSweep.Proofs.Selection
import FileSweep.Proofs.Respelling
import FileSweep.Proofs.ByteText
import FileSweep.Proofs.FileNames
import FileSweep.Proofs.FailureTexts
import FileSweep.Proofs.LaunchVerdict
import FileSweep.Proofs.ArgumentOrder
import FileSweep.Proofs.Recasing
import FileSweep.Proofs.WellFormed
import FileSweep.Proofs.Decoding
import FileSweep.Proofs.ShownOutput
import FileSweep.Proofs.RawOrder
import FileSweep.Proofs.FrozenRecord
