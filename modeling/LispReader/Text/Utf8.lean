import LispReader.Text.Quoted

/-!
Decoding of UTF-8. Overlong forms, surrogates and numbers past the last code point are refused,
and a refusal says where the offending bytes lie, how many they are and what is wrong with them.
-/

namespace LispReader.Text

/-- What is wrong with a run of bytes. -/
inductive Utf8Flaw where
  | badStart
  /-- The byte after the run does not continue the character that the run begins. -/
  | badContinuation
  /-- The bytes end inside a character. -/
  | endOfData
  deriving Repr, DecidableEq

/-- A run of bytes that is not the encoding of a character. -/
structure Utf8Fault where
  flaw : Utf8Flaw
  offset : Nat
  count : Nat
  byte : UInt8
  deriving Repr, DecidableEq

namespace Utf8Fault

def reason (fault : Utf8Fault) : String :=
  match fault.flaw with
  | .badStart => "invalid start byte"
  | .badContinuation => "invalid continuation byte"
  | .endOfData => "unexpected end of data"

/-- A run of one byte is shown, a longer one is named by its first and last offset. -/
def message (fault : Utf8Fault) : String :=
  let place :=
    if fault.count = 1 then
      s!"byte 0x{String.ofList (hexDigits 2 fault.byte.toNat)} in position {fault.offset}"
    else s!"bytes in position {fault.offset}-{fault.offset + fault.count - 1}"
  s!"'utf-8' codec can't decode {place}: {fault.reason}"

end Utf8Fault

/-- A byte that may follow the first two of a character. -/
def isContinuation (byte : UInt8) : Bool :=
  0x80 ≤ byte && byte < 0xC0

/-- The second bytes that may follow a first one. They are narrowed where an overlong form, a
surrogate or a number past the last code point would begin. -/
def isSecond (first second : UInt8) : Bool :=
  isContinuation second &&
    (if first = 0xE0 then 0xA0 ≤ second
      else if first = 0xED then second < 0xA0
      else if first = 0xF0 then 0x90 ≤ second
      else if first = 0xF4 then second < 0x90
      else true)

/-- The low six bits of a continuation byte. -/
def continuationBits (byte : UInt8) : Nat :=
  byte.toNat % 64

/-- Decodes bytes that begin at an offset, given the characters before them, latest first. -/
def decodeUtf8From (offset : Nat) (done : List Char) :
    List UInt8 → Except Utf8Fault (List Char)
  | [] => .ok done.reverse
  | b :: rest =>
    if b < 0x80 then decodeUtf8From (offset + 1) (Char.ofNat b.toNat :: done) rest
    else if b < 0xC2 then .error ⟨.badStart, offset, 1, b⟩
    else if b < 0xE0 then
      match rest with
      | [] => .error ⟨.endOfData, offset, 1, b⟩
      | b1 :: rest =>
        if isSecond b b1 then
          let c := Char.ofNat (b.toNat % 32 * 64 + continuationBits b1)
          decodeUtf8From (offset + 2) (c :: done) rest
        else .error ⟨.badContinuation, offset, 1, b⟩
    else if b < 0xF0 then
      match rest with
      | [] => .error ⟨.endOfData, offset, 1, b⟩
      | b1 :: rest =>
        if isSecond b b1 then
          match rest with
          | [] => .error ⟨.endOfData, offset, 2, b⟩
          | b2 :: rest =>
            if isContinuation b2 then
              let c := Char.ofNat
                ((b.toNat % 16 * 64 + continuationBits b1) * 64 + continuationBits b2)
              decodeUtf8From (offset + 3) (c :: done) rest
            else .error ⟨.badContinuation, offset, 2, b⟩
        else .error ⟨.badContinuation, offset, 1, b⟩
    else if b < 0xF5 then
      match rest with
      | [] => .error ⟨.endOfData, offset, 1, b⟩
      | b1 :: rest =>
        if isSecond b b1 then
          match rest with
          | [] => .error ⟨.endOfData, offset, 2, b⟩
          | b2 :: rest =>
            if isContinuation b2 then
              match rest with
              | [] => .error ⟨.endOfData, offset, 3, b⟩
              | b3 :: rest =>
                if isContinuation b3 then
                  let c := Char.ofNat
                    (((b.toNat % 8 * 64 + continuationBits b1) * 64 + continuationBits b2) * 64
                      + continuationBits b3)
                  decodeUtf8From (offset + 4) (c :: done) rest
                else .error ⟨.badContinuation, offset, 3, b⟩
            else .error ⟨.badContinuation, offset, 2, b⟩
        else .error ⟨.badContinuation, offset, 1, b⟩
    else .error ⟨.badStart, offset, 1, b⟩

/-- The characters that bytes encode. A byte order mark is a character like any other. -/
def decodeUtf8 (bytes : List UInt8) : Except Utf8Fault (List Char) :=
  decodeUtf8From 0 [] bytes

def encodeUtf8 (text : String) : List UInt8 :=
  text.toUTF8.toList

end LispReader.Text
