import Macula.Cbor.Float
import Macula.Cbor.RoundTrip
import Macula.Frame.Codec
import Macula.Frame.Call
import Macula.Content
import Macula.Lib.Runs
import Macula.Pool.Step
import Macula.Pool.Protocol
import Macula.Pool.Refines
import Macula.Pool.Fresh
import Macula.Pool.Respawn
import Macula.Pool.Close
import Macula.Connection.Stream
import Macula.Frame.Publish
import Macula.Ucan
import Macula.Ucan.Create
import Macula.Connection.Reply
import Macula.Connection.Serve
import Macula.Connection.Answered
import Macula.Connection.Receive
import Macula.Connection.Correlate
import Macula.Frame.Hello
import Macula.Connection.Handshake
import Macula.Frame.Stream
import Macula.Frame.Event
import Macula.Frame.Built
import Macula.Cbor.Total
import Macula.Cbor.BottomUp
import Macula.Dht
import Macula.Inbound
import Macula.Domains
import Macula.DirectDial
import Macula.Discovery
import Macula.Pool.Dialers
import Macula.Pool.GivenUp
import Macula.Frame.Advertise
import Macula.Frame.Signable
import Macula.StreamHandle
import Macula.DirectDial.Call
import Macula.DirectDial.Entries
import Macula.Connection.ServePanics
import Macula.Ffi
import Macula.SendPaths
import Macula.Connection.Gate
import Macula.Pool.OneLink
import Macula.Pool.Locks
import Macula.Content.RoundTrip
import Macula.Frame.Relay
import Macula.Manifest.WordSize
import Macula.Cbor.Nesting
import Macula.RealmUri
import Macula.DirectDial.Authority
import Macula.StreamHandle.Numbers
import Macula.Manifest.Verified
import Macula.DirectDial.Selection
import Macula.DirectDial.Bound
import Macula.Dht.RoundTrip
import Macula.Ffi.Lossless
import Macula.Identity.KeyFile
import Macula.Identity.Save
