import Larder.Api.SetRequest
import Larder.Api.Reply
import Larder.Http.Target
import Larder.Http.MediaType
import Larder.Store

/-! The service: which paths lead where, which methods each takes, and what is checked before
the store is asked. Every response may be read by any page; a request for the options of a path
is answered without looking at the path. -/

namespace Larder.Api

/-- What a path stands for; a key is still as it was written in the path. -/
inductive Resource
  | set
  | get (key : Bytes)
  | delete (key : Bytes)
  | stats
  | health
  deriving DecidableEq, Repr

def Resource.ofPath? (path : Bytes) : Option Resource :=
  match Http.segmentsOf path with
  | [[], name] =>
    if name = utf8 "set" then some .set
    else if name = utf8 "stats" then some .stats
    else if name = utf8 "health" then some .health
    else none
  | [[], name, key] =>
    if key = [] then none
    else if name = utf8 "get" then some (.get key)
    else if name = utf8 "del" then some (.delete key)
    else none
  | _ => none

def Resource.methods : Resource → List String
  | .set => ["PUT"]
  | .delete _ => ["DELETE"]
  | .get _ => ["GET", "HEAD"]
  | .stats => ["GET", "HEAD"]
  | .health => ["GET", "HEAD"]

def Resource.allow (r : Resource) : String × String := ("allow", ",".intercalate r.methods)

/-- The longest body that is taken. -/
def bodyLimit : Nat := 2 * 1024 * 1024

def wantsJson (r : Http.Request) : Bool :=
  match ((r.header? "content-type").bind Http.MediaType.visible?).bind Http.MediaType.parse? with
  | none => false
  | some t => Http.MediaType.isJson t

def refusalResponse (r : SetRequest.Refusal) : Http.Response :=
  match r.ground with
  | .malformed _ =>
    .plain 400 ("Failed to parse the request body as JSON: " ++ r.fullMessage)
  | .mismatch _ =>
    .plain 422
      ("Failed to deserialize the JSON body into the target type: " ++ r.fullMessage)

/-- The request a body holds, or the response that refuses it. -/
def requestOf (r : Http.Request) : Except Http.Response SetRequest :=
  if !wantsJson r then
    .error (.plain 415 "Expected request with `Content-Type: application/json`")
  else if bodyLimit < r.body.length then
    .error (.plain 413 "Failed to buffer the request body: length limit exceeded")
  else (SetRequest.ofBody r.body).mapError refusalResponse

def keyOf (segment : Bytes) : Except Http.Response String :=
  match Text.Utf8.decodeString? (Http.percentDecode segment) with
  | some key => .ok key
  | none => .error (.plain 400 "Invalid URL: Invalid UTF-8 in `key`")

def setEntry (s : Store) (m : Medium) (now : Millis) (r : SetRequest) :
    Store.Outcome Http.Response :=
  match r.objection? with
  | some o => ⟨failureResponse (.invalid o), s, m⟩
  | none =>
    match s.set m now r.key r.value (r.ttl.map Duration.ofSeconds) with
    | ⟨.error f, s, m⟩ => ⟨failureResponse f, s, m⟩
    | ⟨.ok _, s, m⟩ => ⟨.json 200 (Reply.stored r.key).text, s, m⟩

def getEntry (s : Store) (m : Medium) (now : Millis) (key : String) :
    Store.Outcome Http.Response :=
  match s.get now key with
  | (some value, s) => ⟨.json 200 (Reply.entry key value).text, s, m⟩
  | (none, s) => ⟨failureResponse (.notFound key), s, m⟩

def deleteEntry (s : Store) (m : Medium) (now : Millis) (key : String) :
    Store.Outcome Http.Response :=
  match s.delete m now key with
  | ⟨.error f, s, m⟩ => ⟨failureResponse f, s, m⟩
  | ⟨.ok existed, s, m⟩ => ⟨.json 200 (Reply.deleted key existed).text, s, m⟩

/-- The answer to a request whose method the resource takes. -/
def serve (s : Store) (m : Medium) (now : Instant) (r : Http.Request) :
    Resource → Store.Outcome Http.Response
  | .set =>
    match requestOf r with
    | .error response => ⟨response, s, m⟩
    | .ok request => setEntry s m now.millis request
  | .get segment =>
    match keyOf segment with
    | .error response => ⟨response, s, m⟩
    | .ok key => getEntry s m now.millis key
  | .delete segment =>
    match keyOf segment with
    | .error response => ⟨response, s, m⟩
    | .ok key => deleteEntry s m now.millis key
  | .stats => ⟨.json 200 (Reply.stats s.stats).text, s, m⟩
  | .health => ⟨.json 200 (Reply.healthy now).text, s, m⟩

/-- Headers that let any page read a response. -/
def openHeaders : List (String × String) :=
  [("access-control-allow-origin", "*"),
    ("vary", "origin, access-control-request-method, access-control-request-headers")]

/-- Headers that let any page send any request. -/
def openMethods : List (String × String) :=
  [("access-control-allow-methods", "*"), ("access-control-allow-headers", "*")]

def options (resource : Option Resource) : Http.Response :=
  (Http.Response.bare 200).withHeaders
    (openMethods ++ (resource.map Resource.allow).toList)

def route (s : Store) (m : Medium) (now : Instant) (r : Http.Request) :
    Store.Outcome Http.Response :=
  let resource := Resource.ofPath? (Http.pathOf r.target)
  if r.method = "OPTIONS" then ⟨options resource, s, m⟩
  else
    match resource with
    | none => ⟨.bare 404, s, m⟩
    | some resource =>
      if r.method ∈ resource.methods then serve s m now r resource
      else ⟨(Http.Response.bare 405).withHeaders [resource.allow], s, m⟩

/-- A response as it is sent; one that has only to show its head still states the length of the
body it leaves out. -/
def send (method : String) (response : Http.Response) : Http.Response :=
  let whole := response.measured.withHeaders openHeaders
  if method = "HEAD" then whole.headOnly else whole

/-- The response to a request. -/
def handle (s : Store) (m : Medium) (now : Instant) (r : Http.Request) :
    Store.Outcome Http.Response :=
  let o := route s m now r
  { o with answer := send r.method o.answer }

end Larder.Api
