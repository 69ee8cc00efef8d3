import RemoteFile.Client.Cache
import RemoteFile.Wire.RoundTrip

/-! The client program between two interactions with its surroundings: it takes a
command from its user, hands a datagram to its socket, gives up waiting for one,
or takes one. The same socket serves all exchanges, and a reply is interpreted by
what the program is waiting for alone. -/
namespace RemoteFile.Client
open Octets Cpp Cpp.Outcome

/-- What a reply will be taken for. A time query belongs to a read that missed
the cache, or found an expired entry. -/
inductive Pending where
  | time (expired : Bool) (req : ReadRequest)
  | read (req : ReadRequest) (tmserver : Int64)
  | write
  | subscribe (monitorIntervalSeconds : UInt32)
  | replace
  | delete
  deriving DecidableEq

/-- A request that has been marshalled: its number counts the requests of this
program from 0. -/
structure Exchange where
  pending : Pending
  number : Nat
  request : Request
  marshalled : Bytes
  deriving DecidableEq

inductive Phase where
  | menu
  | sending (exchange : Exchange)
  | waiting (exchange : Exchange)
  | monitoring (startTime : Int) (seconds : UInt32)
  | ended
  /-- An exception left `main`. -/
  | terminated
  deriving DecidableEq

/-- What the user sees. -/
inductive Notice where
  | requestTimeout
  | lastModified (t : UInt64)
  | content (bytes : Bytes)
  | success (kind : MessageType) (success : Bool)
  | errorMessage (message : Bytes)
  | update (bytes : Bytes)
  deriving DecidableEq

structure Program where
  /-- In milliseconds. -/
  fInterval : Int
  cache : Cache
  /-- The number of requests made; `id` is this number modulo 2^32. -/
  requests : Nat
  phase : Phase
  screen : List Notice

inductive Command where
  | read (req : ReadRequest)
  | write (req : WriteRequest)
  | subscribe (req : SubscribeRequest)
  | replace (req : ReplaceRequest)
  | delete (req : DeleteRequest)
  | terminate
  | invalid
  deriving DecidableEq

def Command.request? : Command → Option Request
  | read req => some (.read req)
  | write req => some (.write req)
  | subscribe req => some (.subscribe req)
  | replace req => some (.replace req)
  | delete req => some (.delete req)
  | terminate | invalid => none

/-- The longest string that `fgets(buffer, 1023, stdin)` reads. -/
def promptLength : Nat := 1022

/-- A request as the prompts build it: short strings, and numbers that are
non-negative ints. -/
structure Prompted (r : Request) : Prop where
  pathname : r.pathname.length ≤ promptLength
  content : r.content.length ≤ promptLength
  numbers : ∀ x ∈ r.numbers, x.toNat < 2 ^ 31

/-- A command with the answers given at its prompts. -/
structure Input where
  command : Command
  prompted : ∀ r, command.request? = some r → Prompted r

def Input.read (req : ReadRequest) (prompted : Prompted (.read req)) : Input :=
  ⟨.read req, fun _ same => Option.some.inj same ▸ prompted⟩

def Input.write (req : WriteRequest) (prompted : Prompted (.write req)) : Input :=
  ⟨.write req, fun _ same => Option.some.inj same ▸ prompted⟩

/-- The size of the vector that a reply is received into. -/
def msgLength : Nat := 5000

/-- The number of bytes of a notification that are received. -/
def updateLength : Nat := 256

/-- The size of the array `buffer` of `main`. -/
def bufferLength : Nat := 1024

/-- `recvfrom(sock, buffer, 256, …)` on the zeroed buffer: the result, which is −1 if
nothing arrives in time, and the buffer. The rest of a longer datagram is lost. -/
def receive (datagram : Option Bytes) : Int × Bytes :=
  match datagram with
  | some bytes => ((bytes.take updateLength).length, filled 0 bufferLength (bytes.take updateLength))
  | none => (-1, filled 0 bufferLength [])

/-- What `write(1, buffer, n)` puts out. As a count, −1 lies beyond every buffer, and the
call is refused. -/
def writeOut (n : Int) (buffer : Bytes) : Bytes := if n < 0 then [] else buffer.take n.toNat

/-- The message id of a request. -/
def wireId (number : Nat) : UInt32 := UInt32.ofNat number

namespace Program

def shows (n : Notice) (p : Program) : Program := { p with screen := p.screen ++ [n] }

def atMenu (p : Program) : Program := { p with phase := .menu }

/-- `marshalledReq = marshal…(id, req); id++;` before a retry loop. -/
def ask (pending : Pending) (request : Request) (p : Program) : Outcome Program := do
  let marshalled ← marshalRequest (wireId p.requests) request
  returns { p with
    requests := p.requests + 1, phase := .sending ⟨pending, p.requests, request, marshalled⟩ }

def showCached (req : ReadRequest) (p : Program) : Outcome Program := do
  let data ← cacheRead p.cache req.pathname req.offset req.numBytes
  returns (p.shows (.content data)).atMenu

/-- An exception that nothing catches ends the program. -/
def caught (p : Program) : Outcome Program → Program
  | .returns q => q
  | _ => { p with phase := .terminated }

/-- Case '1' up to its first exchange. -/
def startRead (now : Int) (req : ReadRequest) (p : Program) : Outcome Program :=
  if !fileInCache p.cache req.pathname req.offset req.numBytes then
    p.ask (.time false req) (.getLastModifiedTime ⟨req.pathname⟩)
  else
    let (cache, expired) := cacheExpired p.fInterval now p.cache req.pathname
    if expired then ask (.time true req) (.getLastModifiedTime ⟨req.pathname⟩) { p with cache }
    else showCached req { p with cache }

/-- The switch over the user's choice. -/
def command (now : Int) (c : Command) (p : Program) : Option Program :=
  match p.phase with
  | .menu => some <| p.caught <|
    match c with
    | .read req => p.startRead now req
    | .write req => p.ask .write (.write req)
    | .subscribe req => p.ask (.subscribe req.monitorIntervalSeconds) (.subscribe req)
    | .replace req => p.ask .replace (.replace req)
    | .delete req => p.ask .delete (.delete req)
    | .terminate => returns { p with phase := .ended }
    | .invalid => returns p
  | _ => none

/-- `sendto`; a failure goes round the retry loop like a timeout. -/
def transmit (sendFails : Bool) (p : Program) : Option (Program × Option Exchange) :=
  match p.phase with
  | .sending exchange =>
    if sendFails then some (p.shows .requestTimeout, none)
    else some ({ p with phase := .waiting exchange }, some exchange)
  | _ => none

/-- `recvfrom` ran into its timeout. -/
def timeout (p : Program) : Option Program :=
  match p.phase with
  | .waiting exchange => some ({ p with phase := .sending exchange }.shows .requestTimeout)
  | _ => none

/-- The reply to a time query. -/
def afterTime (now : Int) (expired : Bool) (req : ReadRequest) (msg : Bytes) (p : Program) :
    Outcome Program := do
  let timeResp ← unmarshalGetLastModifiedTimeResponse msg
  if !timeResp.success then returns (p.shows (.errorMessage timeResp.errorMessage)).atMenu
  else
    let p := p.shows (.lastModified timeResp.lastModifiedUnixTime)
    let tmserver := timeResp.lastModifiedUnixTime.toInt64
    if expired then
      let (cache, changed) := fileChangedAtServer now p.cache req.pathname tmserver
      if changed then ask (.read req tmserver) (.read req) { p with cache }
      else showCached req { p with cache }
    else p.ask (.read req tmserver) (.read req)

/-- The reply to a read request. -/
def afterRead (now : Int) (req : ReadRequest) (tmserver : Int64) (msg : Bytes) (p : Program) :
    Outcome Program := do
  let readResp ← unmarshalReadResponse msg
  if !readResp.success then returns (p.shows (.errorMessage readResp.errorMessage)).atMenu
  else
    let p := p.shows (.content readResp.content)
    let cache := cacheWrite now p.cache req.pathname readResp.content tmserver req.offset
    returns (atMenu { p with cache })

/-- The reply to a write, replace or delete request. -/
def afterStatus (kind : MessageType) (unmarshal : Bytes → Outcome StatusResponse) (msg : Bytes)
    (p : Program) : Outcome Program := do
  let resp ← unmarshal msg
  let p := p.shows (.success kind resp.success)
  if !resp.success then returns (p.shows (.errorMessage resp.errorMessage)).atMenu
  else returns p.atMenu

/-- The reply to a subscribe request. -/
def afterSubscribe (now : Int) (seconds : UInt32) (msg : Bytes) (p : Program) : Outcome Program := do
  let resp ← unmarshalSubscribeResponse msg
  let p := p.shows (.success .subscribe resp.success)
  if !resp.success then returns (p.shows (.errorMessage resp.errorMessage)).atMenu
  else returns { p with phase := .monitoring now seconds }

/-- What happens to a reply, by what the program is waiting for. -/
def after (now : Int) (pending : Pending) (msg : Bytes) (p : Program) : Outcome Program :=
  match pending with
  | .time expired req => p.afterTime now expired req msg
  | .read req tmserver => p.afterRead now req tmserver msg
  | .write => p.afterStatus .write unmarshalWriteResponse msg
  | .subscribe seconds => p.afterSubscribe now seconds msg
  | .replace => p.afterStatus .replace unmarshalReplaceResponse msg
  | .delete => p.afterStatus .delete unmarshalDeleteResponse msg

/-- `recvfrom` returns a datagram inside a retry loop. -/
def take (now : Int) (datagram : Bytes) (p : Program) : Option Program :=
  match p.phase with
  | .waiting exchange => some (p.caught (p.after now exchange.pending (datagram.take msgLength)))
  | _ => none

/-- One turn of the monitoring loop: the time is checked, then the socket is read and an
update shown, whatever the result. -/
def listen (now : Int) (datagram : Option Bytes) (p : Program) : Option Program :=
  match p.phase with
  | .monitoring startTime seconds =>
    if now - startTime < seconds.toNat * 1000 then
      let (n, buffer) := receive datagram
      some (p.shows (.update (writeOut n buffer)))
    else if datagram.isNone then some p.atMenu else none
  | _ => none

/-- The exchange that the program is in. -/
def exchange? (p : Program) : Option Exchange :=
  match p.phase with
  | .sending exchange | .waiting exchange => some exchange
  | _ => none

end Program

/-- The program before its first command. -/
def Program.start (fInterval : Int) : Program := ⟨fInterval, fun _ => none, 0, .menu, []⟩

end RemoteFile.Client
