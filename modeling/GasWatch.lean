import GasWatch.Calibration
import GasWatch.Config
import GasWatch.Converter.Lifetime
import GasWatch.Main
import GasWatch.Session
import GasWatch.Simulation
import GasWatch.Single.Bits
import GasWatch.Proofs.Accord
import GasWatch.Proofs.Agreement
import GasWatch.Proofs.Turns
import GasWatch.Proofs.WakeCondition
import GasWatch.Proofs.Arming
import GasWatch.Proofs.Interleaving
import GasWatch.Proofs.Rearming
import GasWatch.Proofs.Danger
import GasWatch.Proofs.Restarting
import GasWatch.Proofs.ScriptedRuns
import GasWatch.Proofs.Accounting
import GasWatch.Proofs.Obedience
import GasWatch.Proofs.Cycles
import GasWatch.Proofs.UnitLife
import GasWatch.Proofs.FullScale
import GasWatch.Proofs.SnapshotVerdict
import GasWatch.Proofs.Nearest
import GasWatch.Proofs.NumberBounds
import GasWatch.Proofs.AlarmLine
import GasWatch.Proofs.CleanAir
import GasWatch.Proofs.CallOrder
import GasWatch.Proofs.LineError
import GasWatch.Proofs.RoundTrip
import GasWatch.Proofs.LineOrder
import GasWatch.Proofs.LineSteps
import GasWatch.Proofs.ShownConcentrations
import GasWatch.Proofs.FailedResumption
import GasWatch.Proofs.ConfirmWindow
import GasWatch.Proofs.RunLog
import GasWatch.Proofs.Ramps
