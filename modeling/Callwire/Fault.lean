/-
# What can go wrong, and what is said about it

A fault is a cause. Its text is made in one place, from the cause alone. Some
faults travel: a server puts the text of a fault into the header of its
answer, and the caller gets it back word for word. What the runtime says of a
handler that crashed is a part of the fault, as it differs from run to run.

Key definitions: `FramingFault`, `ProtocolFault`, `DispatchFault`,
`ServiceFault`, `DiscoveryFault`, `RegistryFault`, `Fault`, `Fault.message`.
-/
import Callwire.Coding
import Callwire.Duration
import Callwire.Text.Quoted

namespace Callwire

/-- What breaks the frames of a stream. -/
inductive FramingFault where
  | emptyHeader
  | headerTooLarge (size : Nat)
  | bodyTooLarge (size limit : Nat)
  | cutShort
  | unreadableHeader (why : CodecFault)
deriving DecidableEq, Repr

/-- What breaks the exchange before the first frame. -/
inductive ProtocolFault where
  | lineTooLong (limit : Nat)
  | closedBeforeOptions
  | unreadableOptions (why : Unread Text.Position)
  | wrongMagic (magic : Nat)
  | closedDuringExchange
  | tooManyHeaders
  | unexpectedReply (status : String)
  | unexpectedMethod (method : String)
  | unexpectedPath (path : String)
deriving DecidableEq, Repr

/-- Why a request names no method of a server. -/
inductive DispatchFault where
  | illFormed (target : String)
  | unknownService (name : String)
  | unknownMethod (name : String)
deriving DecidableEq, Repr

/-- Why a service is not fit to be registered. -/
inductive ServiceFault where
  | emptyName
  | noMethods (service : String)
  | repeatedMethod (service method : String)
  | badMethodName (service method : String)
deriving DecidableEq, Repr

/-- Why no server is found. -/
inductive DiscoveryFault where
  | noServers
  | unknownMode
  | wrongFormat (address : String)
  | unknownProtocol (name : String)
deriving DecidableEq, Repr

/-- Why a registry gave no answer that counts. -/
inductive RegistryFault where
  | refreshRejected (status : String)
  | heartbeatRejected (status : String)
  | noExchange
  | source (text : String)
deriving DecidableEq, Repr

/-- Why a stream carries no bytes. -/
inductive StreamFault where
  | unreachable
  | refused
  | broken
  | stalled
deriving DecidableEq, Repr

/-- Why a call was given up by its own side. -/
inductive CancelFault where
  | call
  | broadcast
deriving DecidableEq, Repr

/-- Why an operation failed. -/
inductive Fault where
  | stream (why : StreamFault)
  | codec (why : CodecFault)
  | protocol (why : ProtocolFault)
  | framing (why : FramingFault)
  | dispatch (why : DispatchFault)
  | handler (text : String)
  | crashed {text : String}
  | handleTimeout (budget : Duration)
  | connectTimeout (budget : Duration)
  | remote (text : String)
  | body (why : CodecFault)
  | shutdown
  | cancelled (why : CancelFault)
  | discovery (why : DiscoveryFault)
  | duplicateService (name : String)
  | invalidService (why : ServiceFault)
  | registry (why : RegistryFault)
deriving DecidableEq, Repr

/-- The greatest size of an encoded header. -/
def maxHeaderSize : Nat := 65536

namespace FramingFault

/-- The text of the fault. -/
def message : FramingFault → String
  | emptyHeader => "frame has an empty header"
  | headerTooLarge size => s!"header size {size} exceeds maximum {maxHeaderSize}"
  | bodyTooLarge size limit => s!"body size {size} exceeds maximum {limit}"
  | cutShort => "connection closed mid-frame"
  | unreadableHeader why => "read header: " ++ why.message

end FramingFault

namespace ProtocolFault

/-- The text of the fault. -/
def message : ProtocolFault → String
  | lineTooLong limit => s!"line exceeds {limit} bytes"
  | closedBeforeOptions => "connection closed before options"
  | unreadableOptions why => "options error: " ++ Json.describe why
  | wrongMagic magic => "invalid magic number " ++ String.ofList (Nat.toDigits 16 magic)
  | closedDuringExchange => "connection closed during HTTP exchange"
  | tooManyHeaders => "too many HTTP headers"
  | unexpectedReply status => "unexpected HTTP response: " ++ status
  | unexpectedMethod method => "unexpected HTTP method " ++ method
  | unexpectedPath path => "unexpected HTTP path " ++ path

end ProtocolFault

namespace DispatchFault

/-- The text of the fault. -/
def message : DispatchFault → String
  | illFormed target => "service/method request ill-formed: " ++ target
  | unknownService name => "can't find service " ++ name
  | unknownMethod name => "can't find method " ++ name

end DispatchFault

namespace ServiceFault

/-- The text of the fault. -/
def message : ServiceFault → String
  | emptyName => "empty service name"
  | noMethods service => service ++ " has no methods"
  | repeatedMethod service method =>
    service ++ " defines method " ++ Text.quoted method ++ " more than once"
  | badMethodName service method => service ++ " has bad method name " ++ Text.quoted method

end ServiceFault

namespace DiscoveryFault

/-- The text of the fault. -/
def message : DiscoveryFault → String
  | noServers => "no available servers"
  | unknownMode => "not supported select mode"
  | wrongFormat address => "wrong format '" ++ address ++ "', expect protocol@addr"
  | unknownProtocol name => "unsupported protocol " ++ Text.quoted name

end DiscoveryFault

namespace RegistryFault

/-- The text of the fault. That there was no exchange stands for what the HTTP
client says of it. -/
def message : RegistryFault → String
  | refreshRejected status => "refresh rejected: " ++ status
  | heartbeatRejected status => "heartbeat rejected: " ++ status
  | noExchange => "error sending request"
  | source text => text

end RegistryFault

namespace StreamFault

/-- A text for the fault. What stands here stands for what the system says, which
differs from one system to the next. -/
def message : StreamFault → String
  | unreachable => "network unreachable"
  | refused => "connection refused"
  | broken => "broken pipe"
  | stalled => "failed to write whole frame"

end StreamFault

namespace CancelFault

/-- The text of the fault. -/
def message : CancelFault → String
  | call => "call cancelled"
  | broadcast => "broadcast aborted"

end CancelFault

namespace Fault

/-- The text of the fault. -/
def message : Fault → String
  | stream why => "I/O error: " ++ why.message
  | codec why => why.message
  | protocol why => "rpc protocol: " ++ why.message
  | framing why => "rpc framing: " ++ why.message
  | dispatch why => "rpc server: " ++ why.message
  | handler text => text
  | @crashed text => "rpc server: call aborted: " ++ text
  | handleTimeout budget => "rpc: request handle timeout: expect within " ++ budget.text
  | connectTimeout budget => "rpc: connect timeout: expect within " ++ budget.text
  | remote text => text
  | body why => "reading body: " ++ why.message
  | shutdown => "connection is shut down"
  | cancelled why => "rpc client: call failed: " ++ why.message
  | discovery why => "rpc discovery: " ++ why.message
  | duplicateService name => "rpc: service already defined: " ++ name
  | invalidService why => "rpc: invalid service: " ++ why.message
  | registry why => "rpc registry: " ++ why.message

end Fault
end Callwire
