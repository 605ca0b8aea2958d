import Larder.Text.Utf8

/-! Requests and responses. The names of headers are compared without regard to case. -/

namespace Larder.Http

structure Request where
  method : String
  target : Bytes
  headers : List (String × Bytes)
  body : Bytes

structure Response where
  status : Nat
  headers : List (String × String)
  body : String
  deriving DecidableEq, Repr

/-- The first header of a name. -/
def Request.header? (r : Request) (name : String) : Option Bytes :=
  (r.headers.find? fun (n, _) => n.map Char.toLower == name).map Prod.snd

namespace Response

def bare (status : Nat) : Response := ⟨status, [], ""⟩

def json (status : Nat) (body : String) : Response :=
  ⟨status, [("content-type", "application/json")], body⟩

def plain (status : Nat) (body : String) : Response :=
  ⟨status, [("content-type", "text/plain; charset=utf-8")], body⟩

def withHeaders (r : Response) (headers : List (String × String)) : Response :=
  { r with headers := headers ++ r.headers }

/-- States the length of the body. -/
def measured (r : Response) : Response :=
  r.withHeaders [("content-length", toString r.body.utf8ByteSize)]

/-- The same head without the body. -/
def headOnly (r : Response) : Response := { r with body := "" }

end Response

end Larder.Http
