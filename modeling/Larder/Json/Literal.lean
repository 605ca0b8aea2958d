import Larder.Json.Cursor

/-! String literals. `readText` takes the part after the opening quote and gives the text it
stands for; `skipText` only finds the closing quote and leaves the text unread, so it accepts
lone surrogates and bytes that are no characters. -/

namespace Larder.Json

def hexValue? (b : UInt8) : Option Nat :=
  if 48 ≤ b && b ≤ 57 then some (b.toNat - 48)
  else if 65 ≤ b && b ≤ 70 then some (b.toNat - 55)
  else if 97 ≤ b && b ≤ 102 then some (b.toNat - 87)
  else none

def hexUnit? (a b c d : UInt8) : Option Nat :=
  match hexValue? a, hexValue? b, hexValue? c, hexValue? d with
  | some a, some b, some c, some d => some (a * 4096 + b * 256 + c * 16 + d)
  | _, _, _, _ => none

/-- The byte that a backslash and this letter stand for. -/
def simpleEscape? (b : UInt8) : Option UInt8 :=
  if b = 34 then some 34
  else if b = 92 then some 92
  else if b = 47 then some 47
  else if b = 98 then some 8
  else if b = 102 then some 12
  else if b = 110 then some 10
  else if b = 114 then some 13
  else if b = 116 then some 9
  else none

def isLeadingSurrogate (n : Nat) : Bool := 0xD800 ≤ n && n ≤ 0xDBFF

def isTrailingSurrogate (n : Nat) : Bool := 0xDC00 ≤ n && n ≤ 0xDFFF

def joinSurrogates (lead trail : Nat) : Char :=
  Char.ofNat (0x10000 + (lead - 0xD800) * 1024 + (trail - 0xDC00))

/-- Puts a character's bytes in front of bytes that stand last first. -/
def pushChar (c : Char) (done : Bytes) : Bytes := (Text.Utf8.encodeChar c).reverseAux done

/-- The place of a byte of a text that ends at a closing quote in front of which `p` is: as many
bytes back as the text has from there on, in which an escape counts as what it stands for. -/
def backFrom (p : Place) (bytes : Nat) : Place := { p with column := p.column + 1 - bytes }

/-- `done` holds the bytes of the text so far, last first. -/
def readText (p : Place) (done : Bytes) : Bytes → Except Fault (String × Cursor)
  | [] => .error ⟨.endInString, p⟩
  | b :: rest =>
    if b = 34 then
      match Text.Utf8.decode done.reverse with
      | .ok cs => .ok (String.ofList cs, ⟨p.after b, rest⟩)
      | .error defect => .error ⟨.invalidCodePoint, backFrom p (done.length - defect.index)⟩
    else if b < 32 then .error ⟨.controlCharacter, p.after b⟩
    else if b ≠ 92 then readText (p.after b) (b :: done) rest
    else
      match rest with
      | [] => .error ⟨.endInString, p.after b⟩
      | letter :: rest =>
        let p := (p.after b).after letter
        match simpleEscape? letter with
        | some v => readText p (v :: done) rest
        | none =>
          if letter ≠ 117 then .error ⟨.invalidEscape, p⟩
          else
            match rest with
            | h₁ :: h₂ :: h₃ :: h₄ :: rest =>
              let p := p.afterAll [h₁, h₂, h₃, h₄]
              match hexUnit? h₁ h₂ h₃ h₄ with
              | none => .error ⟨.invalidEscape, p⟩
              | some n =>
                if isTrailingSurrogate n then .error ⟨.loneSurrogate, p⟩
                else if !isLeadingSurrogate n then readText p (pushChar (Char.ofNat n) done) rest
                else
                  match rest with
                  | [] => .error ⟨.endInString, p⟩
                  | slash :: rest =>
                    let p := p.after slash
                    if slash ≠ 92 then .error ⟨.unfinishedSurrogate, p⟩
                    else
                      match rest with
                      | [] => .error ⟨.endInString, p⟩
                      | u :: rest =>
                        let p := p.after u
                        if u ≠ 117 then .error ⟨.unfinishedSurrogate, p⟩
                        else
                          match rest with
                          | t₁ :: t₂ :: t₃ :: t₄ :: rest =>
                            let p := p.afterAll [t₁, t₂, t₃, t₄]
                            match hexUnit? t₁ t₂ t₃ t₄ with
                            | none => .error ⟨.invalidEscape, p⟩
                            | some m =>
                              if isTrailingSurrogate m then
                                readText p (pushChar (joinSurrogates n m) done) rest
                              else .error ⟨.loneSurrogate, p⟩
                          | short => .error ⟨.endInString, p.afterAll short⟩
            | short => .error ⟨.endInString, p.afterAll short⟩

/-- The cursor after the closing quote. A control byte is refused without being counted. -/
def skipText (p : Place) : Bytes → Except Fault Cursor
  | [] => .error ⟨.endInString, p⟩
  | b :: rest =>
    if b = 34 then .ok ⟨p.after b, rest⟩
    else if b < 32 then .error ⟨.controlCharacter, p⟩
    else if b ≠ 92 then skipText (p.after b) rest
    else
      match rest with
      | [] => .error ⟨.endInString, p.after b⟩
      | letter :: rest =>
        let p := (p.after b).after letter
        match simpleEscape? letter with
        | some _ => skipText p rest
        | none =>
          if letter ≠ 117 then .error ⟨.invalidEscape, p⟩
          else
            match rest with
            | h₁ :: h₂ :: h₃ :: h₄ :: rest =>
              let p := p.afterAll [h₁, h₂, h₃, h₄]
              match hexUnit? h₁ h₂ h₃ h₄ with
              | none => .error ⟨.invalidEscape, p⟩
              | some _ => skipText p rest
            | short => .error ⟨.endInString, p.afterAll short⟩

end Larder.Json
