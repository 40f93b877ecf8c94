import SfqSched.SearchTree
import SfqSched.Climb
import SfqSched.Types
import SfqSched.Load
import SfqSched.Entity
import SfqSched.PssEntity
import SfqSched.PssClass
import SfqSched.Sched
import SfqSched.Step
import SfqSched.Frame
import SfqSched.Footprint
import SfqSched.EntityFrame
import SfqSched.ChoiceFrame
import SfqSched.Cpupri
import SfqSched.PrioList
import SfqSched.SchedTime
import SfqSched.GroupTree
import SfqSched.GroupTreeSteps
import SfqSched.GroupTreeSafe
import SfqSched.GroupTreeRun
import SfqSched.Shelf
import SfqSched.UserPri
import SfqSched.UserPriEntity
import SfqSched.UserPriClass
import SfqSched.UserPriSched
import SfqSched.UserPriRun
import SfqSched.Seat
import SfqSched.SeatEntity
import SfqSched.SeatClass
import SfqSched.SeatSched
import SfqSched.SeatRun
import SfqSched.SeatOps
import SfqSched.SeatPriority
import SfqSched.RunQueues
import SfqSched.View
import SfqSched.Hierarchy
import SfqSched.EntityView
import SfqSched.QueueView
import SfqSched.CandidateView
import SfqSched.PssView
import SfqSched.SchedFrame
import SfqSched.CoreSteps
import SfqSched.Steady
import SfqSched.PickView
import SfqSched.Micro
import SfqSched.Roster
import SfqSched.Walks
import SfqSched.DequeueWalk
import SfqSched.DispatchWalk
import SfqSched.ClassSteps
import SfqSched.SchedSteps
import SfqSched.ChooseSteps
import SfqSched.DispatchTotal
import SfqSched.PreemptSteps
import SfqSched.PrioritySteps
import SfqSched.SwitchSteps
import SfqSched.Reattach
import SfqSched.AddSteps
import SfqSched.ClassChange
import SfqSched.Procs
import SfqSched.NiceSteps
import SfqSched.MoveSteps
import SfqSched.OpFrame
import SfqSched.ShareSteps
import SfqSched.CreateSteps
import SfqSched.ForkSteps
import SfqSched.Settled
import SfqSched.Membership
import SfqSched.Accounts
import SfqSched.CommonAncestor
import SfqSched.LastCandidate
import SfqSched.Leftmost
import SfqSched.TimelineOrder
import SfqSched.TimeConserved
import SfqSched.Candidates
import SfqSched.Weights
import SfqSched.ThreadWeights
import SfqSched.SharesAgree
import SfqSched.Descent
import SfqSched.PutBack
import SfqSched.WakeupSwitch
import SfqSched.Yield
import SfqSched.Requests
import SfqSched.NiceTotal
import SfqSched.Settings
import SfqSched.LeafList
import SfqSched.LeafSteps
import SfqSched.Reading
import SfqSched.Basis
import SfqSched.BasisSteps
import SfqSched.BasisPath
import SfqSched.VruntimeProtocol
import SfqSched.GroupLife
import SfqSched.GroupLifetime
import SfqSched.LeafRuns
import SfqSched.Sgfs
import SfqSched.SgfsCount
import SfqSched.SgfsRun
import SfqSched.SgfsRemoved
import SfqSched.SgfsFileno
import SfqSched.SgfsScan
import SfqSched.SgfsAllocv
import SfqSched.RoundShift
import SfqSched.Scaling
import SfqSched.Slices
import SfqSched.LatencyTunables
import SfqSched.CpuLoad
import SfqSched.Hrtimer
import SfqSched.CpupriFind
import SfqSched.ForkDebit
import SfqSched.PctCpu
import SfqSched.SgfsMkdir
import SfqSched.SgfsSetattr
import SfqSched.FairShare
import SfqSched.TimelineRuns
import SfqSched.SgfsProgress
import SfqSched.WorkConserving
import SfqSched.Dispatch
