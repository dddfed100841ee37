import Nanokernel.Foundation.SignedWord
import Nanokernel.Foundation.DoubleWord
import Nanokernel.Foundation.BitMask
import Nanokernel.Foundation.Accumulator
import Nanokernel.Foundation.Averaging
import Nanokernel.Foundation.Decay
import Nanokernel.Foundation.Median
import Nanokernel.Foundation.Sequence
import Nanokernel.Foundation.ObjectTable
import Nanokernel.Foundation.Run
import Nanokernel.Foundation.Fairness
import Nanokernel.Foundation.FifoLock
import Nanokernel.Foundation.Linearisation
import Nanokernel.Foundation.Discount
import Nanokernel.Foundation.SecondOrderLoop
import Nanokernel.Arithmetic.LFp
import Nanokernel.Arithmetic.LFpLaws
import Nanokernel.Arithmetic.TwoWord
import Nanokernel.Kernel.Timex
import Nanokernel.Kernel.State
import Nanokernel.Kernel.Ktime
import Nanokernel.Kernel.Hardpps
import Nanokernel.Kernel.Runs
import Nanokernel.Kernel.Frames
import Nanokernel.Kernel.LeapSecond
import Nanokernel.Kernel.TickInterpolation
import Nanokernel.Kernel.Envelope
import Nanokernel.Kernel.AdjtimeFrame
import Nanokernel.Kernel.ApiCalls
import Nanokernel.Kernel.Amortisation
import Nanokernel.Kernel.TickLength
import Nanokernel.Kernel.Normalised
import Nanokernel.Kernel.MaxError
import Nanokernel.Kernel.PccClock
import Nanokernel.Kernel.MicroReadings
import Nanokernel.Kernel.PccRates
import Nanokernel.Kernel.MicroTime
import Nanokernel.Kernel.PllIntegrator
import Nanokernel.Kernel.FllEstimator
import Nanokernel.Kernel.OffsetUnits
import Nanokernel.Kernel.PhaseFilter
import Nanokernel.Kernel.Popcorn
import Nanokernel.Kernel.CalibrationInterval
import Nanokernel.Kernel.IntervalAdaptation
import Nanokernel.Kernel.PpsWatchdog
import Nanokernel.Kernel.PpsCounter
import Nanokernel.Kernel.PpsFrequency
import Nanokernel.Kernel.MicroSimulation
import Nanokernel.Kernel.TwoWordMacros
import Nanokernel.Kernel.TwoWordSimulation
import Nanokernel.Kernel.PpsLock
import Nanokernel.Kernel.Holdover
import Nanokernel.Kernel.Servo
import Nanokernel.Kernel.ServoRound
import Nanokernel.Kernel.ServoLoop
import Nanokernel.Kernel.PllLock
import Nanokernel.Rtems.NanoClock
import Nanokernel.Rtems.TickScale
import Nanokernel.Rtems.StatusUpdates
import Nanokernel.Rtems.PollInterval
import Nanokernel.Rtems.LeapRequest
import Nanokernel.Rtems.LeapPolicy
import Nanokernel.Rtems.DiffTime
import Nanokernel.Rtems.PollRound
import Nanokernel.Rtems.DelayFilter
import Nanokernel.Rtems.Lifecycle
import Nanokernel.Rtems.Decrementer
import Nanokernel.Rtems.ShotSelection
import Nanokernel.Rtems.Correction
import Nanokernel.Rtems.Shutdown
import Nanokernel.Rtems.ShutdownProgress
import Nanokernel.Rtems.Restart
import Nanokernel.Rtems.CycleCounters
import Nanokernel.Alpha.PpsApi
import Nanokernel.Alpha.TimePps
import Nanokernel.Sunos.PpsStream
import Nanokernel.Boards.Highball
import Nanokernel.Boards.Tpro
import Nanokernel.Boards.YearSearch
