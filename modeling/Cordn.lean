import Cordn.KeyPackageParity
import Cordn.KeyPackageConservation
import Cordn.QueueParity
import Cordn.GroupLogParity
import Cordn.MlsParseAccepts
import Cordn.MlsParseRoundTrip
import Cordn.MlsParsePrefixFree
import Cordn.MlsParsePanicFree
import Cordn.KeyPackageBinding
import Cordn.QuotaBound
import Cordn.ConcurrentQuota
import Cordn.ConcurrentRemoval
import Cordn.FailedPublish
import Cordn.ConcurrentPosts
import Cordn.ChannelOrder
import Cordn.LiveTail
import Cordn.WelcomeAcks
import Cordn.JoinRequestAcks
import Cordn.JoinRequestCap
import Cordn.TenantIsolation
import Cordn.PublishEffect
import Cordn.ListingOrder
import Cordn.ConsumeDelivery
import Cordn.BatchRemoval
import Cordn.RepeatedGroups
import Cordn.SubscriptionRegistry
import Cordn.ClockOrder
import Cordn.IdleEviction
import Cordn.KeyIsolation
import Cordn.InvisibleEviction
import Cordn.Retention
import Cordn.ExactLimit
import Cordn.Provenance
import Cordn.ServerParity
import Cordn.LinearizedCalls
import Cordn.SessionRegistry
import Cordn.ServerConsumption
import Cordn.ServerMessages
import Cordn.EnvFiles
