/-
  Reshape.Text.Utf8: characters as bytes, one to four each, and back.

  Bytes that are no characters are refused with the position and the length of the first offending
  sequence and the reason: a byte that starts nothing, a byte that cannot continue what has been
  started, or the end of the data inside a character. A sequence counts as offending up to, and
  without, the first byte that cannot continue it.
-/

import Reshape.Text.Quoted

namespace Reshape.Text

inductive Utf8Reason where
  | startByte
  | continuationByte
  | endOfData
  deriving DecidableEq, Repr

structure Utf8Fault where
  /-- The first offending byte. -/
  byte : UInt8
  position : Nat
  length : Nat
  reason : Utf8Reason
  deriving DecidableEq, Repr

namespace Utf8

def encodeChar (c : Char) : List UInt8 :=
  let n := c.toNat
  if n < 0x80 then [UInt8.ofNat n]
  else if n < 0x800 then [UInt8.ofNat (0xC0 + n / 0x40), UInt8.ofNat (0x80 + n % 0x40)]
  else if n < 0x10000 then
    [UInt8.ofNat (0xE0 + n / 0x1000), UInt8.ofNat (0x80 + n / 0x40 % 0x40),
      UInt8.ofNat (0x80 + n % 0x40)]
  else
    [UInt8.ofNat (0xF0 + n / 0x40000), UInt8.ofNat (0x80 + n / 0x1000 % 0x40),
      UInt8.ofNat (0x80 + n / 0x40 % 0x40), UInt8.ofNat (0x80 + n % 0x40)]

def encode (cs : List Char) : List UInt8 := cs.flatMap encodeChar

/-- Why decoding ended: all read, a character begun but not finished, or a fault. -/
inductive Ending where
  | complete
  | unfinished (position : Nat) (bytes : List UInt8)
  | faulty (fault : Utf8Fault)

def continues (b : UInt8) : Bool := 0x80 ≤ b && b < 0xC0

/-- The second bytes that may follow a first byte of a sequence of three or four. -/
def second (first b : UInt8) : Bool :=
  continues b && (first != 0xE0 || 0xA0 ≤ b) && (first != 0xED || b < 0xA0) &&
    (first != 0xF0 || 0x90 ≤ b) && (first != 0xF4 || b < 0x90)

def low (b : UInt8) : Nat := b.toNat % 0x40

def prepend (n : Nat) (rest : List Char × Ending) : List Char × Ending :=
  (Char.ofNat n :: rest.1, rest.2)

/-- The characters up to the first place where decoding stops; `pos` bytes have been read. -/
def decodeAt (pos : Nat) : List UInt8 → List Char × Ending
  | [] => ([], .complete)
  | a :: as =>
    let refuse (length : Nat) (reason : Utf8Reason) : List Char × Ending :=
      ([], .faulty ⟨a, pos, length, reason⟩)
    if a < 0x80 then prepend a.toNat (decodeAt (pos + 1) as)
    else if a < 0xC2 || 0xF5 ≤ a then refuse 1 .startByte
    else if a < 0xE0 then
      match as with
      | [] => ([], .unfinished pos [a])
      | b :: bs =>
        if continues b then prepend (a.toNat % 0x20 * 0x40 + low b) (decodeAt (pos + 2) bs)
        else refuse 1 .continuationByte
    else if a < 0xF0 then
      match as with
      | [] => ([], .unfinished pos [a])
      | b :: bs =>
        if !second a b then refuse 1 .continuationByte
        else match bs with
          | [] => ([], .unfinished pos [a, b])
          | c :: cs =>
            if continues c then
              prepend (a.toNat % 0x10 * 0x1000 + low b * 0x40 + low c) (decodeAt (pos + 3) cs)
            else refuse 2 .continuationByte
    else
      match as with
      | [] => ([], .unfinished pos [a])
      | b :: bs =>
        if !second a b then refuse 1 .continuationByte
        else match bs with
          | [] => ([], .unfinished pos [a, b])
          | c :: cs =>
            if !continues c then refuse 2 .continuationByte
            else match cs with
              | [] => ([], .unfinished pos [a, b, c])
              | d :: ds =>
                if continues d then
                  prepend (a.toNat % 0x8 * 0x40000 + low b * 0x1000 + low c * 0x40 + low d)
                    (decodeAt (pos + 4) ds)
                else refuse 3 .continuationByte

/-- What an unfinished character is at the end of the data. -/
def Ending.fault? : Ending → Option Utf8Fault
  | .complete => none
  | .unfinished position bytes => some ⟨bytes.headD 0, position, bytes.length, .endOfData⟩
  | .faulty fault => some fault

def decode (bytes : List UInt8) : Except Utf8Fault (List Char) :=
  match decodeAt 0 bytes with
  | (cs, ending) => match ending.fault? with
    | none => .ok cs
    | some fault => .error fault

/-- Whether data ends in two bytes that could only begin a surrogate. -/
def halvesSurrogate (bytes : List UInt8) (fault : Utf8Fault) : Bool :=
  fault.byte == 0xED && fault.position + 2 == bytes.length && bytes.getLast?.any continues

/-- Decoding in blocks, as a reader of lines does it: an unfinished character or surrogate at the
end of a block is carried over to the next one, and positions are counted from the start of what
is decoded together. Gives the characters of the blocks before the fault, if there is one. -/
def decodeBlocks (carried : List UInt8) : List (List UInt8) → List Char × Option Utf8Fault
  | [] =>
    let (cs, ending) := decodeAt 0 carried
    (cs, ending.fault?)
  | block :: blocks =>
    match decodeAt 0 (carried ++ block) with
    | (cs, .complete) => let (ds, fault) := decodeBlocks [] blocks; (cs ++ ds, fault)
    | (cs, .unfinished _ bytes) => let (ds, fault) := decodeBlocks bytes blocks; (cs ++ ds, fault)
    | (cs, .faulty fault) =>
      if halvesSurrogate (carried ++ block) fault then
        let (ds, fault) := decodeBlocks ((carried ++ block).drop fault.position) blocks
        (cs ++ ds, fault)
      else ([], some fault)

end Utf8

def Utf8Reason.message : Utf8Reason → String
  | .startByte => "invalid start byte"
  | .continuationByte => "invalid continuation byte"
  | .endOfData => "unexpected end of data"

def Utf8Fault.message (f : Utf8Fault) : String :=
  let place := if f.length = 1 then
      "byte 0x" ++ String.ofList (hexadecimal 2 f.byte.toNat) ++ s!" in position {f.position}"
    else s!"bytes in position {f.position}-{f.position + f.length - 1}"
  s!"'utf-8' codec can't decode {place}: {f.reason.message}"

end Reshape.Text
