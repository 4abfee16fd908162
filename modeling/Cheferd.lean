import Cheferd.HousekeepingRoundTrip
import Cheferd.EnforcementRoundTrip
import Cheferd.RateConservation
import Cheferd.LocalInterface
import Cheferd.SessionQueues
import Cheferd.HandshakeSession
import Cheferd.LocalFeedbackLoop
import Cheferd.ActiveSessions
import Cheferd.MembershipAgreement
import Cheferd.ResponsePairing
import Cheferd.Isolation
import Cheferd.StaticLimits
import Cheferd.VanillaCommitment
import Cheferd.VanillaLimits
import Cheferd.RejectedLimits
import Cheferd.VanillaQuiescence
import Cheferd.LeftoverNotification
import Cheferd.LeftoverAllocation
import Cheferd.LeftoverCommitment
import Cheferd.PolicyOperations
import Cheferd.RegistrationQueues
import Cheferd.StatisticsCall
import Cheferd.ActiveStages
import Cheferd.RulesFile
import Cheferd.OperationTables
import Cheferd.HandshakeAgreement
import Cheferd.StageSetUp
import Cheferd.FailedRegistration
import Cheferd.AggregatedReply
import Cheferd.HonestAcknowledgement
import Cheferd.TrackedJobs
import Cheferd.LeftoverBounds
import Cheferd.Tokenizer
import Cheferd.LocalConnectionManager
import Cheferd.RemovedSessions
import Cheferd.SocketAddress
import Cheferd.CycleProgress
import Cheferd.SessionProgress
import Cheferd.SystemAdmin
import Cheferd.HousekeepingDelivery
import Cheferd.FaultFreedom
import Cheferd.LocalFaultFreedom
import Cheferd.RuleDelivery
