import KeyCustody.Net.Ip
import KeyCustody.Peer.Id
/-!
# Stacked addresses

Where a peer can be reached is a stack of protocols, each with at most one argument: the address of
a machine, a socket number, a peer. The text of a stack is one part after another, each behind a
slash; it is read strictly and printed with arguments in their only form.

## Main definitions

* `Protocol`: a protocol with its argument.
* `Multiaddr`: a stack of protocols, with `Multiaddr.ofText?` and `Multiaddr.toText`.
* `Multiaddr.listenSocket?`: where a stack can be listened on.
-/

namespace KeyCustody.Net

open Peer (PeerId)

/-- A protocol with its argument. -/
inductive Protocol where
  | ip4 (ip : Ipv4)
  | ip6 (ip : Ipv6)
  /-- A protocol with a socket number. -/
  | socket (name : String) (n : Nat)
  /-- A protocol with a number of eight octets. -/
  | number (name : String) (n : Nat)
  /-- A protocol with a name as its argument. -/
  | host (name argument : String)
  /-- A protocol without an argument. -/
  | plain (name : String)
  | p2p (peer : PeerId)
  deriving DecidableEq

/-- A stack of protocols, the lowest first. -/
abbrev Multiaddr := List Protocol

namespace Protocol

/-- The names of the protocols with a socket number. -/
def socketNames : List String := ["tcp", "udp", "dccp", "sctp"]

/-- The names of the protocols with a number. -/
def numberNames : List String := ["memory"]

/-- The names of the protocols with a name. -/
def hostNames : List String := ["dns", "dns4", "dns6", "dnsaddr", "unix", "ip6zone", "sni"]

/-- The names of the protocols without an argument. -/
def plainNames : List String :=
  ["tls", "udt", "utp", "http", "https", "quic", "quic-v1", "webtransport", "ws", "wss", "noise",
    "p2p-circuit", "p2p-stardust", "p2p-webrtc-direct", "p2p-webrtc-star", "p2p-websocket-star",
    "webrtc", "webrtc-direct"]

/-- The protocol with a name and an argument. -/
def ofArgument? (name argument : String) : Option Protocol :=
  if name = "ip4" then (Ipv4.ofText? argument).map .ip4
  else if name = "ip6" then (Ipv6.ofText? argument).map .ip6
  else if name = "p2p" then (PeerId.ofText? argument).map .p2p
  else if socketNames.contains name then
    (Text.Decimal.typed? Text.Decimal.largest16 argument).map (.socket name)
  else if numberNames.contains name then
    (Text.Decimal.typed? Text.Decimal.largest64 argument).map (.number name)
  else if hostNames.contains name then some (.host name argument)
  else none

/-- The text of a protocol. -/
def toText : Protocol → String
  | .ip4 ip => "/ip4/" ++ ip.toText
  | .ip6 ip => "/ip6/" ++ ip.toText
  | .socket name n => "/" ++ name ++ "/" ++ toString n
  | .number name n => "/" ++ name ++ "/" ++ toString n
  | .host name argument => "/" ++ name ++ "/" ++ argument
  | .plain name => "/" ++ name
  | .p2p peer => "/p2p/" ++ peer.toText

end Protocol

namespace Multiaddr

/-- The characters between the slashes. -/
def splitSlashes : List Char → List (List Char)
  | [] => [[]]
  | c :: cs =>
    if c = '/' then [] :: splitSlashes cs
    else
      match splitSlashes cs with
      | part :: parts => (c :: part) :: parts
      | [] => [[c]]

/-- The stack of parts. -/
def ofParts? : List String → Option Multiaddr
  | [] => some []
  | name :: rest =>
    if Protocol.plainNames.contains name then (ofParts? rest).map (.plain name :: ·)
    else
      match rest with
      | argument :: rest => do
        let p ← Protocol.ofArgument? name argument
        let ps ← ofParts? rest
        some (p :: ps)
      | [] => none

/-- The stack with a text, which starts with a slash unless it is empty. -/
def ofText? (s : String) : Option Multiaddr :=
  match (splitSlashes s.toList).map String.ofList with
  | "" :: parts => ofParts? parts
  | _ => none

/-- The text of a stack. -/
def toText (a : Multiaddr) : String :=
  String.join (a.map Protocol.toText)

/-- The machine and the socket number at the top of a stack, above which only the names of peers
stand: this is where a stack can be listened on. -/
def listenSocket? (a : Multiaddr) : Option Socket :=
  match a.reverse.dropWhile (fun | .p2p _ => true | _ => false) with
  | .socket "tcp" n :: rest =>
    match rest.dropWhile (fun | .p2p _ => true | _ => false) with
    | .ip4 ip :: _ => some (.v4 ip n)
    | .ip6 ip :: _ => some (.v6 ip 0 n)
    | _ => none
  | _ => none

end Multiaddr

end KeyCustody.Net
