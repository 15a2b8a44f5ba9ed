import Treadmill.Main
import Treadmill.Data.Replace
import Treadmill.Proofs.Heap.Shape
import Treadmill.Proofs.Heap.Safety
import Treadmill.Proofs.Heap.Ledger
import Treadmill.Proofs.Ends
import Treadmill.Proofs.World.Books
import Treadmill.Proofs.World.Gather
import Treadmill.Proofs.World.Work
import Treadmill.Proofs.Faults
import Treadmill.Proofs.Heap.Hold
import Treadmill.Proofs.World.Account
import Treadmill.Proofs.World.Due
import Treadmill.Proofs.World.Live
import Treadmill.Proofs.Heap.Stale
import Treadmill.Proofs.World.Execution
import Treadmill.Proofs.Codec
import Treadmill.Proofs.Layouts.Alike
import Treadmill.Proofs.Layouts.Lockstep
import Treadmill.Proofs.Layouts.Access
import Treadmill.Proofs.Layouts.Collect
import Treadmill.Proofs.Layouts.Data
import Treadmill.Proofs.Layouts.Job
import Treadmill.Proofs.World.Setup
import Treadmill.Proofs.Heap.Print
import Treadmill.Proofs.World.Lore
import Treadmill.Proofs.World.Giving
import Treadmill.Proofs.Heap.Search
import Treadmill.Proofs.Heap.Floating
import Treadmill.Proofs.Heap.Whole
import Treadmill.Proofs.Heap.Still
import Treadmill.Proofs.World.Still
import Treadmill.Proofs.Heap.Budget
import Treadmill.Proofs.World.Driven
import Treadmill.Proofs.World.Concurrent
import Treadmill.Proofs.Data.Equality
import Treadmill.Proofs.World.Census
import Treadmill.Proofs.World.Delay
import Treadmill.Proofs.World.Outcome
import Treadmill.Proofs.Data.Substitution
import Treadmill.Proofs.Data.Overlay
import Treadmill.Proofs.Data.Removal
import Treadmill.Proofs.Data.Cut
import Treadmill.Proofs.Data.Construction
import Treadmill.Proofs.Symbols
import Treadmill.Proofs.World.Conduct
import Treadmill.Proofs.World.Naming
import Treadmill.Proofs.Command.Loop
import Treadmill.Proofs.World.Enclosed
import Treadmill.Proofs.Heap.Enclosed
import Treadmill.Proofs.World.Countdown
import Treadmill.Proofs.Moment
import Treadmill.Proofs.Heap.Sequences
import Treadmill.Proofs.Heap.Verdict
import Treadmill.Proofs.Data.Text
import Treadmill.Proofs.Interning
import Treadmill.Proofs.Actor.Session
