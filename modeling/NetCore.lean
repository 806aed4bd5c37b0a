import NetCore.Lib.SortedMap
import NetCore.Lib.Record
import NetCore.Lib.Framing
import NetCore.Lib.Grouped
import NetCore.Lib.Machine
import NetCore.Lib.Table
import NetCore.Lib.Lru
import NetCore.Lib.Text
import NetCore.Lib.Utf8
import NetCore.Lib.JsonText
import NetCore.Lib.Percent
import NetCore.Lib.Unfold
import NetCore.CredRefs
import NetCore.CredRefPlaces
import NetCore.CredRefTexts
import NetCore.Digest
import NetCore.DigestCollisions
import NetCore.Types
import NetCore.Registry
import NetCore.RegistryRuns
import NetCore.RegistryOrigin
import NetCore.RegistryLive
import NetCore.RegistryTraceless
import NetCore.RegistryStale
import NetCore.RegistryCold
import NetCore.RegistryRecency
import NetCore.RegistryLru
import NetCore.RegistryTies
import NetCore.RegistryIdle
import NetCore.RegistryLinger
import NetCore.Http
import NetCore.Body
import NetCore.CappedRead
import NetCore.ProgressStream
import NetCore.Exec
import NetCore.QueryString
import NetCore.QueryCollisions
import NetCore.HeaderMaps
import NetCore.ProtectedHeaders
import NetCore.Streaming
import NetCore.ErrorText
import NetCore.Retry
import NetCore.CappedJson
import NetCore.BodyText
import NetCore.RetryGuidance
import NetCore.RetryAfter
import NetCore.ErrorEnvelope
import NetCore.Client
import NetCore.Runtime
import NetCore.RuntimeRuns
import NetCore.Outbound
import NetCore.Isolation
import NetCore.BuildErrors
import NetCore.Wire
import NetCore.Pinning
import NetCore.Revocation
import NetCore.CredRefJoin
import NetCore.Profile
import NetCore.HostAsk
import NetCore.ProfileDelivery
import NetCore.ProfileTeardown
