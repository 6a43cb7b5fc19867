import SomeIPRuntime.ErrorFlag
import SomeIPRuntime.DeclaredLength
import SomeIPRuntime.BasicSequence
import SomeIPRuntime.BackPatching
import SomeIPRuntime.Availability
import SomeIPRuntime.EventRequests
import SomeIPRuntime.EventSubscriptions
import SomeIPRuntime.SendingPaths
import SomeIPRuntime.StubRegistration
import SomeIPRuntime.ConnectionReferences
import SomeIPRuntime.AsyncCalls
import SomeIPRuntime.ReplyMatching
import SomeIPRuntime.AddressAliases
import SomeIPRuntime.MessageHandlers
import SomeIPRuntime.EnumerationRoundTrip
import SomeIPRuntime.VariantRoundTrip
import SomeIPRuntime.StringRoundTrip
import SomeIPRuntime.ByteBufferRoundTrip
import SomeIPRuntime.ByteVectors
import SomeIPRuntime.StringSizes
import SomeIPRuntime.MapRoundTrip
import SomeIPRuntime.ExtendedStructs
import SomeIPRuntime.PolymorphicStructs
import SomeIPRuntime.CleanupPass
import SomeIPRuntime.CleanupDeadlines
import SomeIPRuntime.InterfaceVersions
import SomeIPRuntime.MainLoopQueue
import SomeIPRuntime.StatusListeners
import SomeIPRuntime.StatusNotification
import SomeIPRuntime.StubUnregistration
import SomeIPRuntime.StubRouting
import SomeIPRuntime.ProxyEvents
import SomeIPRuntime.SubscriptionStatus
import SomeIPRuntime.AvailabilityTimeouts
import SomeIPRuntime.LockPrograms
import SomeIPRuntime.ConnectionLocks
import SomeIPRuntime.BlockingWaits
import SomeIPRuntime.ShutdownSafety
import SomeIPRuntime.InstanceAvailability
import SomeIPRuntime.AliasTables
import SomeIPRuntime.StreamAlignment
import SomeIPRuntime.TypedValues
import SomeIPRuntime.WireLayout
import SomeIPRuntime.ItemLoops
import SomeIPRuntime.TypedFields
import SomeIPRuntime.TypedRoundTrip
import SomeIPRuntime.WholeByteTypes
import SomeIPRuntime.ArgumentRoundTrip
import SomeIPRuntime.RemoteCalls
import SomeIPRuntime.RequestAnswers
import SomeIPRuntime.LockOrder
import SomeIPRuntime.ConnectionLockOrder
import SomeIPRuntime.RemoteAttributes
import SomeIPRuntime.AttributeChanges
import SomeIPRuntime.EventListeners
import SomeIPRuntime.EventDistribution
import SomeIPRuntime.ProxyAvailability
import SomeIPRuntime.PayloadReading
import SomeIPRuntime.PayloadEnd
import SomeIPRuntime.AnyPayload
import SomeIPRuntime.ConnectionMessages
import SomeIPRuntime.ServiceAnswers
import SomeIPRuntime.ConcurrentCalls
