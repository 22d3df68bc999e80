import PageLint.Text.Decimal

/-!
# UTF-8

Strict decoding. A sequence that is not well formed is refused with the place and the number of
the bytes that rule the text out: a byte that starts no character, a start that the next bytes do
not continue, or a character cut off by the end of the data.

The second byte of a longer character is limited by the first, so that no character has two
encodings and surrogates have none. `decodeFrom` ends because each character takes a byte at least.
-/

namespace PageLint.Text.Utf8

/-- Why bytes are refused. -/
inductive Reason where
  | invalidStart
  | invalidContinuation
  | unexpectedEnd
  deriving DecidableEq, Repr

/-- The bytes that are refused: the first of them, their place, their number and the reason. -/
structure Fault where
  byte : UInt8
  position : Nat
  length : Nat
  reason : Reason
  deriving DecidableEq, Repr

/-- The wording of a reason. -/
def Reason.text : Reason → String
  | .invalidStart => "invalid start byte"
  | .invalidContinuation => "invalid continuation byte"
  | .unexpectedEnd => "unexpected end of data"

/-- The wording of a fault. -/
def Fault.message (f : Fault) : String :=
  let place :=
    if f.length == 1 then
      "byte 0x" ++ String.ofList (hexDigits 2 f.byte.toNat) ++ " in position " ++ natText f.position
    else
      "bytes in position " ++ natText f.position ++ "-" ++ natText (f.position + f.length - 1)
  "'utf-8' codec can't decode " ++ place ++ ": " ++ f.reason.text

/-- How many bytes follow a start byte; none for a byte that starts no character. -/
def following? (b : UInt8) : Option Nat :=
  if b < 0x80 then some 0
  else if b < 0xC2 then none
  else if b < 0xE0 then some 1
  else if b < 0xF0 then some 2
  else if b < 0xF5 then some 3
  else none

/-- Whether a byte may stand second in a character that starts with `b`. -/
def isSecond (b c : UInt8) : Bool :=
  let low : UInt8 := if b == 0xE0 then 0xA0 else if b == 0xF0 then 0x90 else 0x80
  let high : UInt8 := if b == 0xED then 0x9F else if b == 0xF4 then 0x8F else 0xBF
  low ≤ c && c ≤ high

/-- Whether a byte may stand third or fourth in a character. -/
def isLater (c : UInt8) : Bool := 0x80 ≤ c && c ≤ 0xBF

/-- The payload of the first byte of a character that takes `n` more. -/
def startBits (b : UInt8) (n : Nat) : Nat :=
  match n with
  | 0 => b.toNat
  | 1 => b.toNat % 32
  | 2 => b.toNat % 16
  | _ => b.toNat % 8

/-- How many of the `n` bytes after start byte `b` continue the character. -/
def continued (b : UInt8) (n : Nat) (rest : List UInt8) : Nat :=
  match n, rest with
  | 0, _ => 0
  | _ + 1, [] => 0
  | n + 1, c :: cs => if isSecond b c then 1 + ((cs.take n).takeWhile isLater).length else 0

/-- The characters of the data from `position` on. -/
def decodeFrom (position : Nat) (data : List UInt8) : Except Fault (List Char) :=
  match data with
  | [] => .ok []
  | b :: rest =>
    match following? b with
    | none => .error ⟨b, position, 1, .invalidStart⟩
    | some n =>
      let k := continued b n rest
      if k < n then
        if k < rest.length then .error ⟨b, position, k + 1, .invalidContinuation⟩
        else .error ⟨b, position, k + 1, .unexpectedEnd⟩
      else
        let code := (rest.take n).foldl (fun acc c => acc * 64 + c.toNat % 64) (startBits b n)
        match decodeFrom (position + n + 1) (rest.drop n) with
        | .error fault => .error fault
        | .ok chars => .ok (Char.ofNat code :: chars)
termination_by data.length
decreasing_by simp only [List.length_cons, List.length_drop]; omega

/-- The text that the data encodes. -/
def decode (data : List UInt8) : Except Fault (List Char) := decodeFrom 0 data

/-- The bytes of a text. -/
def encode (text : String) : List UInt8 := text.toUTF8.toList

end PageLint.Text.Utf8
