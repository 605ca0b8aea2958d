/-! Characters as bytes and back. `encode` is total. `decode` takes exactly the well-formed
sequences: no overlong forms, no surrogates, nothing above U+10FFFF. What it refuses it
describes by the index of the first byte that starts no character there, and by the number
of bytes from that index that could still have started one; when the bytes stop in the
middle of a character that so far is well formed, the sequence is incomplete rather than
invalid. -/

namespace Larder

abbrev Bytes := List UInt8

namespace Text.Utf8

def encodeChar (c : Char) : Bytes :=
  let n := c.toNat
  if n < 0x80 then [UInt8.ofNat n]
  else if n < 0x800 then [UInt8.ofNat (0xC0 + n / 64), UInt8.ofNat (0x80 + n % 64)]
  else if n < 0x10000 then
    [UInt8.ofNat (0xE0 + n / 4096), UInt8.ofNat (0x80 + n / 64 % 64), UInt8.ofNat (0x80 + n % 64)]
  else
    [UInt8.ofNat (0xF0 + n / 262144), UInt8.ofNat (0x80 + n / 4096 % 64),
      UInt8.ofNat (0x80 + n / 64 % 64), UInt8.ofNat (0x80 + n % 64)]

def encode (cs : List Char) : Bytes := cs.flatMap encodeChar

inductive Defect
  | invalid (length index : Nat)
  | incomplete (index : Nat)
  deriving DecidableEq, Repr

def Defect.message : Defect → String
  | .invalid length index =>
    "invalid utf-8 sequence of " ++ toString length ++ " bytes from index " ++ toString index
  | .incomplete index => "incomplete utf-8 byte sequence from index " ++ toString index

def Defect.index : Defect → Nat
  | .invalid _ index => index
  | .incomplete index => index

/-- How many bytes a character with this leading byte has; `none` for a byte that leads none. -/
def width (b : UInt8) : Option Nat :=
  if b < 0x80 then some 1
  else if b < 0xC2 then none
  else if b < 0xE0 then some 2
  else if b < 0xF0 then some 3
  else if b < 0xF5 then some 4
  else none

def isTail (b : UInt8) : Bool := 0x80 ≤ b && b < 0xC0

/-- The second byte of a three or four byte character: E0 and F0 leave out the overlong
forms, ED the surrogates and F4 what lies above U+10FFFF. -/
def isSecond (lead b : UInt8) : Bool :=
  if lead = 0xE0 then 0xA0 ≤ b && b < 0xC0
  else if lead = 0xED then 0x80 ≤ b && b < 0xA0
  else if lead = 0xF0 then 0x90 ≤ b && b < 0xC0
  else if lead = 0xF4 then 0x80 ≤ b && b < 0x90
  else isTail b

def char2 (a b : UInt8) : Char := Char.ofNat ((a.toNat - 0xC0) * 64 + (b.toNat - 0x80))

def char3 (a b c : UInt8) : Char :=
  Char.ofNat ((a.toNat - 0xE0) * 4096 + (b.toNat - 0x80) * 64 + (c.toNat - 0x80))

def char4 (a b c d : UInt8) : Char :=
  Char.ofNat ((a.toNat - 0xF0) * 262144 + (b.toNat - 0x80) * 4096 + (c.toNat - 0x80) * 64
    + (d.toNat - 0x80))

/-- `index` counts the bytes before the ones given; `done` holds their characters, last first. -/
def decodeFrom (index : Nat) (done : List Char) : Bytes → Except Defect (List Char)
  | [] => .ok done.reverse
  | a :: rest =>
    match width a with
    | none => .error (.invalid 1 index)
    | some 1 => decodeFrom (index + 1) (Char.ofNat a.toNat :: done) rest
    | some 2 =>
      match rest with
      | [] => .error (.incomplete index)
      | b :: rest =>
        if isTail b then decodeFrom (index + 2) (char2 a b :: done) rest
        else .error (.invalid 1 index)
    | some 3 =>
      match rest with
      | [] => .error (.incomplete index)
      | b :: rest =>
        if isSecond a b then
          match rest with
          | [] => .error (.incomplete index)
          | c :: rest =>
            if isTail c then decodeFrom (index + 3) (char3 a b c :: done) rest
            else .error (.invalid 2 index)
        else .error (.invalid 1 index)
    | some _ =>
      match rest with
      | [] => .error (.incomplete index)
      | b :: rest =>
        if isSecond a b then
          match rest with
          | [] => .error (.incomplete index)
          | c :: rest =>
            if isTail c then
              match rest with
              | [] => .error (.incomplete index)
              | d :: rest =>
                if isTail d then decodeFrom (index + 4) (char4 a b c d :: done) rest
                else .error (.invalid 3 index)
            else .error (.invalid 2 index)
        else .error (.invalid 1 index)

def decode (bs : Bytes) : Except Defect (List Char) := decodeFrom 0 [] bs

def decodeString? (bs : Bytes) : Option String :=
  match decode bs with
  | .ok cs => some (String.ofList cs)
  | .error _ => none

theorem encode_append (cs ds : List Char) : encode (cs ++ ds) = encode cs ++ encode ds := by
  simp [encode]

theorem encode_cons (c : Char) (cs : List Char) : encode (c :: cs) = encodeChar c ++ encode cs := by
  simp [encode]

end Text.Utf8

/-- The bytes of a text. -/
def utf8 (s : String) : Bytes := Text.Utf8.encode s.toList

end Larder
