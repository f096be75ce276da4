import KeyCustody.Api.Http
import KeyCustody.Node.State
import KeyCustody.Wire.PayloadText
/-!
# Routes

The paths of a node and what they stand for. A request is answered at once if it is wrong in itself;
else it becomes a task for the node, whose result is then put into a response. Replies and failures
are documents, and the status tells the kind of a failure.

## Main definitions

* `Task`, `route`: what a client asks for.
* `replyResponse`, `failureResponse`, `peersResponse`: responses.
-/

namespace KeyCustody.Api

open Custody (DispatchError)
open Node (ServiceError)
open Peer (PeerId)
open Wire (SupportRequest GetRequest SetRequest Payload)

/-! ### Requests -/

/-- What a client asks for. -/
inductive Task where
  | support (request : SupportRequest)
  | get (request : GetRequest)
  | set (request : SetRequest)
  /-- The peers of the node, perhaps without the body of the response. -/
  | peers (headOnly : Bool)

/-- The octets of the longest body. -/
def largestBody : Nat := 2 * 1024 * 1024

/-- The payload in the body of a request, or what is wrong with it. -/
def payloadOf {α : Type} [Payload α] (r : Request) : Except Response α :=
  if !r.contentType?.any isJsonType then
    .error (.plain 415 "Expected request with `Content-Type: application/json`")
  else if largestBody < r.body.length then
    .error (.plain 413 "Failed to buffer the request body")
  else
    match Payload.readJson r.body with
    | .ok a => .ok a
    | .error .malformed => .error (.plain 400 "Failed to parse the request body as JSON")
    | .error .unfit =>
      .error (.plain 422 "Failed to deserialize the JSON body into the target type")

/-- The path without a query. -/
def barePath (path : String) : String :=
  String.ofList (path.toList.takeWhile fun c => c ≠ '?' ∧ c ≠ '#')

/-- What a request asks for, or the response to it. -/
def route (r : Request) : Except Response Task :=
  let posted (task : Except Response Task) : Except Response Task :=
    if r.method = "POST" then task else .error (.bare 405)
  if r.method = "OPTIONS" then .error (.bare 200)
  else
    match barePath r.path with
    | "/v1/support-chain" => posted ((payloadOf r).map .support)
    | "/v1/social-key/get" => posted ((payloadOf r).map .get)
    | "/v1/social-key/set" => posted ((payloadOf r).map .set)
    | "/v1/peers" =>
      if r.method = "GET" then .ok (.peers false)
      else if r.method = "HEAD" then .ok (.peers true)
      else .error (.bare 405)
    | _ => .error (.bare 404)

/-! ### Responses -/

/-- A response with a document. -/
def documentResponse (status : Nat) (t : Json.Tree) : Response :=
  ⟨status, some "application/json", t.print⟩

/-- The response with a reply. -/
def replyResponse {α : Type} [Payload α] (a : α) : Response :=
  documentResponse 200 (Payload.toJson a)

/-- The status for a failure: nothing found, a wrong request, a failed relay, or anything else. -/
def failureStatus : ServiceError → Nat
  | .dispatch (.adaptor (.keyNotFound _ _)) => 404
  | .dispatch (.adaptor (.invalidRequest _)) => 400
  | .dispatch _ => 500
  | .relay _ => 502

/-- The response with a failure. -/
def failureResponse (e : ServiceError) : Response :=
  documentResponse (failureStatus e) (.object [("error", .text e.message)])

/-- The response with a result. -/
def resultResponse {α : Type} [Payload α] : Except ServiceError α → Response
  | .ok a => replyResponse a
  | .error e => failureResponse e

/-- The response with the peers of a node. -/
def peersResponse (own : PeerId) (known connected : List PeerId) (headOnly : Bool) : Response :=
  let texts (ps : List PeerId) : Json.Tree := .list (ps.map fun p => .text p.toText)
  let r := documentResponse 200 (.object [("local", .text own.toText), ("known", texts known),
    ("connected", texts connected)])
  if headOnly then r.headOnly else r

end KeyCustody.Api
