import DeviceShell.Main
import DeviceShell.Proofs.FlagOrder
import DeviceShell.Proofs.RoundTrip
import DeviceShell.Proofs.Separator
import DeviceShell.Proofs.LastFlag
import DeviceShell.Proofs.LineEnds
import DeviceShell.Proofs.Precedence
import DeviceShell.Proofs.JsonMarks
import DeviceShell.Proofs.Verdicts
import DeviceShell.Proofs.JsonReading
import DeviceShell.Proofs.Rejections
import DeviceShell.Proofs.JoinedInput
import DeviceShell.Proofs.Diagnostics
import DeviceShell.Proofs.Failures
import DeviceShell.Proofs.Sessions
import DeviceShell.Proofs.Faults
import DeviceShell.Proofs.Places
import DeviceShell.Proofs.Spacing
import DeviceShell.Proofs.ReportLine
import DeviceShell.Proofs.FlagValues
import DeviceShell.Proofs.Pieces
import DeviceShell.Proofs.Filtering
import DeviceShell.Proofs.LoadFaults
import DeviceShell.Proofs.Operands
import DeviceShell.Proofs.Completions
import DeviceShell.Proofs.Views
import DeviceShell.Proofs.Suggestions
import DeviceShell.Proofs.HelpColor
import DeviceShell.Proofs.TakenOut
import DeviceShell.Proofs.InPlace
import DeviceShell.Proofs.StoppedPasses
import DeviceShell.Proofs.Verbosity
import DeviceShell.Proofs.ReportContext
import DeviceShell.Proofs.UniqueCut
import DeviceShell.Proofs.Magnitude
