import AtomicFifo.Channel.Stream
import AtomicFifo.Collector
import AtomicFifo.Crowd.Census
import AtomicFifo.Ensemble
import AtomicFifo.Facade.Service
import AtomicFifo.Main
import AtomicFifo.Node.Record
import AtomicFifo.Node.Table
import AtomicFifo.Node.Walk
import AtomicFifo.Proofs.Call.Promotion
import AtomicFifo.Proofs.Channel.Agreement
import AtomicFifo.Proofs.Channel.Scenario
import AtomicFifo.Proofs.Channel.Stream
import AtomicFifo.Proofs.Collector.Reclamation
import AtomicFifo.Proofs.Ensemble.Erasure
import AtomicFifo.Proofs.Facade.Cursor
import AtomicFifo.Proofs.Facade.Lockstep
import AtomicFifo.Proofs.Memory.Refinement
import AtomicFifo.Proofs.Node.Layout
import AtomicFifo.Proofs.Node.Walk
import AtomicFifo.Proofs.Options.CommandLine
import AtomicFifo.Proofs.Queue.Estate
import AtomicFifo.Proofs.Queue.Lag
import AtomicFifo.Proofs.Round.Acceptance
import AtomicFifo.Proofs.Round.Failure
import AtomicFifo.Proofs.Round.Lossless
import AtomicFifo.Proofs.Round.Naming
import AtomicFifo.Proofs.Round.Overflow
import AtomicFifo.Proofs.Session.Handles
import AtomicFifo.Proofs.Stress.Rounds
import AtomicFifo.Proofs.System.Arrangement
import AtomicFifo.Proofs.System.Counter
import AtomicFifo.Proofs.System.Emptiness
import AtomicFifo.Proofs.System.Linearizability
import AtomicFifo.Proofs.System.LockFreedom
import AtomicFifo.Proofs.System.Pairing
import AtomicFifo.Proofs.System.Passage
import AtomicFifo.Session.Arena
import AtomicFifo.Session.Handles
import AtomicFifo.Session.Values
import AtomicFifo.Stress.Staging
