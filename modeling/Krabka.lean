import Krabka.KraftCore.RoleAgreement
import Krabka.KraftCore.LeaderCompleteness
import Krabka.Raft.TimersArmed
import Krabka.Raft.VoteDurability
import Krabka.Share.WindowIntegrity
import Krabka.Share.DeadLetter
import Krabka.ShareCoordinator.LeaderChange
import Krabka.ShareCoordinator.Shard
import Krabka.ShareCoordinator.Pruning
import Krabka.Log.SwapAtomicity
import Krabka.Log.AbortedRange
import Krabka.ConsumerGroup.Reload
import Krabka.ConsumerGroup.Converges
import Krabka.ConsumerGroup.UniformQuotas
import Krabka.Controller.ReassignmentTarget
import Krabka.Produce.OneAtATime
import Krabka.Replicator.Convergence
import Krabka.Transaction.LateMarkers
import Krabka.BreakGlass.TwoPersonRule
