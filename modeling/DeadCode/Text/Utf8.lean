/-!
Decoding of UTF-8. Bytes are read as a list of items, each a character or a fault; `decode` accepts
bytes without a fault, and `decodeLossy` puts U+FFFD for each fault.
-/

namespace DeadCode.Text.Utf8

inductive Cause where
  | badStart | badContinuation | truncated
  deriving DecidableEq

/-- A stretch of bytes, `first` the byte at its start, that is no character. -/
structure Fault where
  first : UInt8
  start : Nat
  stop : Nat
  cause : Cause
  deriving DecidableEq

inductive Item where
  | char (c : Char)
  | fault (f : Fault)

/-- What may follow a start byte: how many continuation bytes, and the range of the first of them. -/
def continuation? (b : UInt8) : Option (Nat × UInt8 × UInt8) :=
  if 0xC2 ≤ b && b ≤ 0xDF then some (1, 0x80, 0xBF)
  else if b == 0xE0 then some (2, 0xA0, 0xBF)
  else if b == 0xED then some (2, 0x80, 0x9F)
  else if 0xE1 ≤ b && b ≤ 0xEF then some (2, 0x80, 0xBF)
  else if b == 0xF0 then some (3, 0x90, 0xBF)
  else if b == 0xF4 then some (3, 0x80, 0x8F)
  else if 0xF1 ≤ b && b ≤ 0xF3 then some (3, 0x80, 0xBF)
  else none

/-- The continuation bytes, at most `n`, that stand at the front. -/
def continued (n : Nat) (low high : UInt8) : List UInt8 → List UInt8
  | [] => []
  | b :: rest =>
    match n with
    | 0 => []
    | n + 1 => if low ≤ b && b ≤ high then b :: continued n 0x80 0xBF rest else []

def payload (start : UInt8) (tail : List UInt8) : Nat :=
  let bits := start.toNat % (if tail.length = 1 then 0x20 else if tail.length = 2 then 0x10 else 0x08)
  tail.foldl (fun v b => v * 64 + b.toNat % 64) bits

def itemsFrom : Nat → Nat → List UInt8 → List Item
  | 0, _, _ => []
  | _, _, [] => []
  | fuel + 1, pos, b :: rest =>
    if b < 0x80 then .char (Char.ofNat b.toNat) :: itemsFrom fuel (pos + 1) rest
    else
      match continuation? b with
      | none => .fault ⟨b, pos, pos + 1, .badStart⟩ :: itemsFrom fuel (pos + 1) rest
      | some (n, low, high) =>
        let tail := continued n low high rest
        let stop := pos + 1 + tail.length
        let remaining := rest.drop tail.length
        let item :=
          if tail.length = n then .char (Char.ofNat (payload b tail))
          else if remaining.isEmpty then .fault ⟨b, pos, stop, .truncated⟩
          else .fault ⟨b, pos, stop, .badContinuation⟩
        item :: itemsFrom fuel stop remaining

def items (bytes : ByteArray) : List Item := itemsFrom bytes.size 0 bytes.toList

def firstFault? (bytes : ByteArray) : Option Fault :=
  (items bytes).findSome? fun
    | .char _ => none
    | .fault f => some f

def decode (bytes : ByteArray) : Except Fault String :=
  match String.fromUTF8? bytes with
  | some s => .ok s
  | none => .error ((firstFault? bytes).getD ⟨0, 0, 0, .badStart⟩)

def decodeLossy (bytes : ByteArray) : String :=
  String.ofList <| (items bytes).map fun
    | .char c => c
    | .fault _ => Char.ofNat 0xFFFD

def Cause.message : Cause → String
  | .badStart => "invalid start byte"
  | .badContinuation => "invalid continuation byte"
  | .truncated => "unexpected end of data"

def hexByte (b : UInt8) : String :=
  String.ofList [Nat.digitChar (b.toNat / 16), Nat.digitChar (b.toNat % 16)]

def Fault.message (f : Fault) : String :=
  let place :=
    if f.stop = f.start + 1 then s!"byte 0x{hexByte f.first} in position {f.start}"
    else s!"bytes in position {f.start}-{f.stop - 1}"
  "\x27utf-8\x27 codec can\x27t decode " ++ place ++ ": " ++ f.cause.message

end DeadCode.Text.Utf8
