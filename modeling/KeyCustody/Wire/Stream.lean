import KeyCustody.Bytes
/-!
# Streams between peers

Two peers exchange one envelope a stream: requests on one protocol, responses on the other. What
goes over a stream is framed: four octets with the length, least significant first, then as many
octets. Whoever reads a frame sets a limit to its length and answers it with an acknowledgement.

## Main definitions

* `StreamProtocol`: the two protocols and their names.
* `encodeFrame?`, `readFrame`: frames and octets.
* `acknowledgement`: the answer to every frame.
-/

namespace KeyCustody.Wire

/-- The protocols that peers speak. -/
inductive StreamProtocol where
  | request
  | response
  deriving DecidableEq, Repr

/-- The name under which a protocol is agreed on. -/
def StreamProtocol.name : StreamProtocol → String
  | .request => "/getkeyreq/0.0.1"
  | .response => "/getkeyresp/0.0.1"

/-- The version that a node announces: peers with another rendezvous are none of its own. -/
def announcedVersion (rendezvous : String) : String :=
  "/keylocker/" ++ rendezvous

/-- The answer to every frame: the letters `ACK`. -/
def acknowledgement : Bytes := [0x41, 0x43, 0x4B]

/-! ### Frames -/

/-- The octets of the longest envelope, which are those of the longest frame of a request. -/
def largestEnvelope : Nat := 65536

/-- The octets of the longest answer to a frame. -/
def largestAnswer : Nat := 64

/-- Why there is no frame. -/
inductive FrameError where
  /-- The octets end early. -/
  | truncated
  /-- The length is beyond the limit of the reader. -/
  | overLimit
  /-- The length does not fit the four octets in front. -/
  | unframeable
  deriving DecidableEq, Repr

/-- The words for a missing frame. -/
def FrameError.message : FrameError → String
  | .truncated => "unexpected end of file"
  | .overLimit => "frame exceeds limit"
  | .unframeable => "frame too large"

/-- The octets of the length. -/
def lengthWidth : Nat := 4

/-- The frame of the octets, if their length fits. -/
def encodeFrame? (data : Bytes) : Except FrameError Bytes :=
  if data.length < Nat.pow 256 lengthWidth then .ok (Bytes.ofNatLE lengthWidth data.length ++ data)
  else .error .unframeable

/-- The contents of the frame at the start of a stream, of at most `limit` octets, and what is left
of the stream. A stream that ends early is used up; of a frame over the limit only the length is. -/
def readFrame (limit : Nat) (stream : Bytes) : Except FrameError Bytes × Bytes :=
  let front := stream.take lengthWidth
  let rest := stream.drop lengthWidth
  if front.length < lengthWidth then (.error .truncated, [])
  else
    let n := Bytes.toNatLE front
    if limit < n then (.error .overLimit, rest)
    else if rest.length < n then (.error .truncated, [])
    else (.ok (rest.take n), rest.drop n)

/-- The contents of so many frames. -/
def readFrames (limit : Nat) : (count : Nat) → Bytes → List (Except FrameError Bytes) × Bytes
  | 0, stream => ([], stream)
  | count + 1, stream =>
    let (frame, stream) := readFrame limit stream
    let (frames, stream) := readFrames limit count stream
    (frame :: frames, stream)

end KeyCustody.Wire
