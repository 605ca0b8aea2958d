import Larder.Counters
import Larder.Failure
import Larder.Time.Calendar
import Larder.Http.Message

/-! What the service answers, as JSON texts, and the status that goes with a failure. -/

namespace Larder.Api

inductive Reply
  | entry (key value : String)
  | stored (key : String)
  | deleted (key : String) (existed : Bool)
  | stats (counters : Counters)
  | healthy (now : Instant)
  | failure (text : String)

namespace Reply

def deletedMessage (key : String) (existed : Bool) : String :=
  if existed then "Key '" ++ key ++ "' deleted successfully"
  else "Key '" ++ key ++ "' was not present"

def fields : Reply → List (String × Json.Value)
  | .entry key value => [("key", .text key), ("value", .text value)]
  | .stored key =>
    [("message", .text ("Key '" ++ key ++ "' set successfully")), ("key", .text key)]
  | .deleted key existed =>
    [("message", .text (deletedMessage key existed)), ("key", .text key),
      ("existed", .bool existed)]
  | .stats counters => counters.fieldsWithRate
  | .healthy now => [("status", .text "healthy"), ("timestamp", .text now.text)]
  | .failure text => [("error", .text text)]

def text (r : Reply) : String :=
  Json.renderMembers (r.fields.map fun (name, v) => (name, v.render))

end Reply

def statusOf : Failure → Nat
  | .notFound _ => 404
  | .invalid _ => 400
  | .closed => 503
  | .io _ => 500
  | .corruptLine _ _ => 500
  | .internal _ => 500

def failureResponse (f : Failure) : Http.Response :=
  .json (statusOf f) (Reply.failure f.message).text

end Larder.Api
