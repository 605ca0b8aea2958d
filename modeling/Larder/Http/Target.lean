import Larder.Json.Literal

/-! The target of a request: its path, and the bytes a part of a path stands for. A percent sign
and two hexadecimal digits stand for one byte; a percent sign that has not two of them behind it
stands for itself, and so does a plus. -/

namespace Larder.Http

def slash : UInt8 := 47

/-- What comes before the query and the fragment. -/
def beforeQuery (bs : Bytes) : Bytes := bs.takeWhile fun b => b ≠ 63 && b ≠ 35

/-- What follows a scheme and two slashes; `none` if there is no scheme. -/
def afterScheme? : Bytes → Option Bytes
  | [] => none
  | 58 :: 47 :: 47 :: rest => some rest
  | _ :: rest => afterScheme? rest

/-- The path of a target. A target may name the host first; nothing behind it means the root. -/
def pathOf (target : Bytes) : Bytes :=
  let bare := beforeQuery target
  if bare.head? = some slash then bare
  else
    match afterScheme? bare with
    | none => bare
    | some rest =>
      let path := rest.dropWhile (· ≠ slash)
      if path = [] then [slash] else path

/-- The bytes between slashes, those before the first slash included. -/
def segmentsOf (path : Bytes) : List Bytes :=
  path.foldr
    (fun b done =>
      if b = slash then [] :: done
      else
        match done with
        | [] => [[b]]
        | first :: rest => (b :: first) :: rest)
    [[]]

def percentDecode : Bytes → Bytes
  | [] => []
  | 37 :: rest =>
    match rest with
    | high :: low :: after =>
      match Json.hexValue? high, Json.hexValue? low with
      | some h, some l => UInt8.ofNat (h * 16 + l) :: percentDecode after
      | _, _ => 37 :: percentDecode (high :: low :: after)
    | short => 37 :: short
  | b :: rest => b :: percentDecode rest
  termination_by bs => bs.length

end Larder.Http
