namespace TurtlePlot.Text.Utf8

inductive Reason where
  | invalidStart
  | invalidContinuation
  | unexpectedEnd
deriving DecidableEq, Repr

def Reason.message : Reason → String
  | .invalidStart => "invalid start byte"
  | .invalidContinuation => "invalid continuation byte"
  | .unexpectedEnd => "unexpected end of data"

/-- Bytes that are no character: the first one, where it stands, and how many they are. -/
structure Fault where
  byte : UInt8
  offset : Nat
  count : Nat
  reason : Reason
deriving DecidableEq, Repr

def Fault.message (f : Fault) : String :=
  let place :=
    if f.count = 1 then
      let digits := String.ofList ((Nat.toDigits 16 f.byte.toNat).leftpad 2 '0')
      s!"byte 0x{digits} in position {f.offset}"
    else s!"bytes in position {f.offset}-{f.offset + f.count - 1}"
  s!"'utf-8' codec can't decode {place}: {f.reason.message}"

/-- How a first byte begins a character: the count of bytes after it, its share of the code point,
and the least and greatest second byte. -/
def lead? (a : UInt8) : Option (Nat × Nat × UInt8 × UInt8) :=
  if a < 0xc2 then none
  else if a < 0xe0 then some (1, a.toNat - 0xc0, 0x80, 0xbf)
  else if a = 0xe0 then some (2, 0, 0xa0, 0xbf)
  else if a = 0xed then some (2, 0xd, 0x80, 0x9f)
  else if a < 0xf0 then some (2, a.toNat - 0xe0, 0x80, 0xbf)
  else if a = 0xf0 then some (3, 0, 0x90, 0xbf)
  else if a < 0xf4 then some (3, a.toNat - 0xf0, 0x80, 0xbf)
  else if a = 0xf4 then some (3, 4, 0x80, 0x8f)
  else none

/-- The code point whose bytes so far make `code`, with `count` more to come, the next one between
`low` and `high`; `used` bytes are read. -/
def tail (low high : UInt8) :
    (count used code : Nat) → List UInt8 → Except (Nat × Reason) (Nat × List UInt8)
  | 0, _, code, rest => .ok (code, rest)
  | _ + 1, used, _, [] => .error (used, .unexpectedEnd)
  | count + 1, used, code, b :: rest =>
    if low ≤ b ∧ b ≤ high then tail 0x80 0xbf count (used + 1) (code * 64 + (b.toNat - 0x80)) rest
    else .error (used, .invalidContinuation)

/-- The characters of the bytes from `offset` on, put after those of `read`, which are latest first.
`room` bounds their count. -/
def charsFrom : (room offset : Nat) → (read : List Char) → List UInt8 → Except Fault (List Char)
  | 0, _, read, _ => .ok read.reverse
  | _, _, read, [] => .ok read.reverse
  | room + 1, offset, read, a :: rest =>
    if a < 0x80 then charsFrom room (offset + 1) (Char.ofNat a.toNat :: read) rest
    else
      match lead? a with
      | none => .error ⟨a, offset, 1, .invalidStart⟩
      | some (count, share, low, high) =>
        match tail low high count 1 share rest with
        | .ok (code, rest) => charsFrom room (offset + count + 1) (Char.ofNat code :: read) rest
        | .error (used, reason) => .error ⟨a, offset, used, reason⟩

def decode (bytes : ByteArray) : Except Fault String :=
  (charsFrom bytes.size 0 [] bytes.toList).map String.ofList

end TurtlePlot.Text.Utf8
