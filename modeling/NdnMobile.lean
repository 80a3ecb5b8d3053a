import NdnMobile.Lib.Run
import NdnMobile.Codec.LossyLink
import NdnMobile.Codec.Hostile
import NdnMobile.Codec.Interest
import NdnMobile.Relay.Pacing
import NdnMobile.Relay.Content
import NdnMobile.Relay.Coverage
import NdnMobile.Relay.Lead
import NdnMobile.Relay.Demand
import NdnMobile.Engine.BulkPins
import NdnMobile.Engine.Supervisors
import NdnMobile.Identity.Coherence
import NdnMobile.Identity.Rollback
import NdnMobile.Identity.Persistence
import NdnMobile.Identity.Issuance
import NdnMobile.Identity.KeyNames
import NdnMobile.RemoteSigner.Agreement
import NdnMobile.Ffi.PeerPrefix
import NdnMobile.Ffi.Descriptors
import NdnMobile.Ffi.Congestion
import NdnMobile.Offer.Serving
import NdnMobile.Offer.Streaming
import NdnMobile.Tunnel.Uplink
import NdnMobile.Tunnel.Subscription
import NdnMobile.Tunnel.IpFlow
import NdnMobile.Codec.Fragments
import NdnMobile.Offer.ContentStream
import NdnMobile.Ffi.SameSubnet
import NdnMobile.Ffi.BuildEngine
import NdnMobile.Ffi.InfraTunnels
import NdnMobile.Lib.Expiry
import NdnMobile.Ffi.PeerTable
import NdnMobile.Lib.Json
import NdnMobile.Ffi.PublishedJson
import NdnMobile.Lib.Mutex
import NdnMobile.RemoteSigner.PolicyLock
import NdnMobile.Lib.Mailbox
import NdnMobile.Ffi.WifiAware
import NdnMobile.Lib.Metered
import NdnMobile.Tunnel.Credit
import NdnMobile.Offer.StreamCredit
import NdnMobile.Lib.Channel
import NdnMobile.Lib.Network
import NdnMobile.Lib.Drain
import NdnMobile.Tunnel.Downlink
import NdnMobile.Tunnel.Link
import NdnMobile.Tunnel.Draining
import NdnMobile.Offer.Draining
import NdnMobile.Ffi.RadioSeam
import NdnMobile.Engine.AppFaces
import NdnMobile.Ffi.NearbyList
import NdnMobile.Engine.Redial
import NdnMobile.Relay.Pipeline
import NdnMobile.Offer.Linear
import NdnMobile.Lib.Threads
import NdnMobile.Lib.LockOrder
import NdnMobile.Ffi.Threads
import NdnMobile.Ffi.SharedConsumer
