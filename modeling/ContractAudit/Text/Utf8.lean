/-!
# Reading UTF-8

Bytes are read one at a time. Between characters the next byte must be able to start one; inside a
character the next byte must lie in the range that the bytes before it leave open, which rules out
overlong forms, surrogates and code points above U+10FFFF at the earliest byte. A fault covers the
bytes of the unfinished character that were accepted.
-/

namespace ContractAudit.Text.Utf8

/-- Why bytes are not UTF-8. -/
inductive Reason where
  /-- The byte starts no character. -/
  | invalidStart
  /-- The next byte does not continue the character. -/
  | invalidContinuation
  /-- The bytes end inside a character. -/
  | unexpectedEnd
deriving DecidableEq, Repr

def Reason.text : Reason → String
  | .invalidStart => "invalid start byte"
  | .invalidContinuation => "invalid continuation byte"
  | .unexpectedEnd => "unexpected end of data"

/-- Bytes that are not UTF-8: the position and value of the first faulty byte and the number of
bytes of the fault. -/
structure Fault where
  position : Nat
  lead : UInt8
  count : Nat
  reason : Reason
deriving DecidableEq, Repr

def byteHex (byte : UInt8) : String :=
  String.ofList [Nat.digitChar (byte.toNat / 16), Nat.digitChar (byte.toNat % 16)]

def Fault.message (fault : Fault) : String :=
  let place :=
    if fault.count = 1 then s!"byte 0x{byteHex fault.lead} in position {fault.position}"
    else s!"bytes in position {fault.position}-{fault.position + fault.count - 1}"
  s!"'utf-8' codec can't decode {place}: {fault.reason.text}"

/-- A character of which some bytes have been read. -/
structure Pending where
  position : Nat
  lead : UInt8
  count : Nat
  /-- The bits read so far. -/
  code : Nat
  /-- The number of bytes still owed. -/
  owed : Nat
  /-- The least byte that may come next. -/
  low : Nat
  /-- The greatest byte that may come next. -/
  high : Nat

def Pending.fault (pending : Pending) (reason : Reason) : Fault :=
  ⟨pending.position, pending.lead, pending.count, reason⟩

/-- The character that a byte above 0x7F starts. -/
def Pending.ofLead (position : Nat) (byte : UInt8) : Option Pending :=
  let b := byte.toNat
  if 0xc2 ≤ b && b ≤ 0xdf then some ⟨position, byte, 1, b - 0xc0, 1, 0x80, 0xbf⟩
  else if 0xe0 ≤ b && b ≤ 0xef then
    some ⟨position, byte, 1, b - 0xe0, 2, if b = 0xe0 then 0xa0 else 0x80,
      if b = 0xed then 0x9f else 0xbf⟩
  else if 0xf0 ≤ b && b ≤ 0xf4 then
    some ⟨position, byte, 1, b - 0xf0, 3, if b = 0xf0 then 0x90 else 0x80,
      if b = 0xf4 then 0x8f else 0xbf⟩
  else none

/-- Reads bytes from a position on, the first of them inside a character if one is pending. -/
def decodeFrom (position : Nat) : Option Pending → List UInt8 → Except Fault (List Char)
  | none, [] => .ok []
  | some pending, [] => .error (pending.fault .unexpectedEnd)
  | none, byte :: rest =>
      if byte.toNat < 0x80 then
        (decodeFrom (position + 1) none rest).map (Char.ofNat byte.toNat :: ·)
      else match Pending.ofLead position byte with
        | none => .error ⟨position, byte, 1, .invalidStart⟩
        | some pending => decodeFrom (position + 1) (some pending) rest
  | some pending, byte :: rest =>
      if byte.toNat < pending.low || pending.high < byte.toNat then
        .error (pending.fault .invalidContinuation)
      else
        let code := 64 * pending.code + (byte.toNat - 0x80)
        if pending.owed ≤ 1 then
          (decodeFrom (position + 1) none rest).map (Char.ofNat code :: ·)
        else
          decodeFrom (position + 1)
            (some { pending with
              count := pending.count + 1, code := code, owed := pending.owed - 1,
              low := 0x80, high := 0xbf }) rest

/-- The text that bytes encode, or the first fault. -/
def decode (bytes : List UInt8) : Except Fault (List Char) :=
  decodeFrom 0 none bytes

end ContractAudit.Text.Utf8
