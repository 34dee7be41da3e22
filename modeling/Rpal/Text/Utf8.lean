/-
# Strict UTF-8

Program files are read as UTF-8 text, and a byte sequence that is not UTF-8 is refused.  Each
character starts with a byte that tells how many bytes follow and, together with the shortest
form rule and the gap of the surrogates, which values the second byte may have:

    00-7F                    nothing follows
    C2-DF                    80-BF
    E0                       A0-BF 80-BF
    E1-EC EE EF              80-BF 80-BF
    ED                       80-9F 80-BF
    F0                       90-BF 80-BF 80-BF
    F1-F3                    80-BF 80-BF 80-BF
    F4                       80-8F 80-BF 80-BF

A refusal names the bytes that began well, or the single byte that cannot begin anything.
-/
import Rpal.Text.Quoted

namespace Rpal.Text

/-- Why a byte sequence is not UTF-8. -/
inductive MalformedReason where
  | invalidStart
  | invalidContinuation
  | unexpectedEnd
  deriving DecidableEq

/-- Where a byte sequence stops being UTF-8: the first byte of the character that fails, its
position, and the number of bytes of it that were read. -/
structure Malformed where
  reason : MalformedReason
  byte : UInt8
  position : Nat
  count : Nat
  deriving DecidableEq

/-- The wording of a reason. -/
def MalformedReason.message : MalformedReason → String
  | invalidStart => "invalid start byte"
  | invalidContinuation => "invalid continuation byte"
  | unexpectedEnd => "unexpected end of data"

/-- The wording of a refusal. -/
def Malformed.message (m : Malformed) : String :=
  let bytes :=
    if m.count = 1 then "byte 0x" ++ hex 2 m.byte.toNat ++ " in position " ++ toString m.position
    else "bytes in position " ++ toString m.position ++ "-" ++ toString (m.position + m.count - 1)
  "'utf-8' codec can't decode " ++ bytes ++ ": " ++ m.reason.message

/-- What a first byte announces: the bits it contributes, the number of bytes that follow,
and the range of the next one. -/
structure Lead where
  bits : Nat
  following : Nat
  low : Nat
  high : Nat

/-- The announcement of a first byte, if it can begin a character. -/
def lead? (byte : UInt8) : Option Lead :=
  let b := byte.toNat
  if b < 0x80 then some ⟨b, 0, 0x80, 0xBF⟩
  else if b < 0xC2 then none
  else if b < 0xE0 then some ⟨b - 0xC0, 1, 0x80, 0xBF⟩
  else if b = 0xE0 then some ⟨0, 2, 0xA0, 0xBF⟩
  else if b = 0xED then some ⟨0xD, 2, 0x80, 0x9F⟩
  else if b < 0xF0 then some ⟨b - 0xE0, 2, 0x80, 0xBF⟩
  else if b = 0xF0 then some ⟨0, 3, 0x90, 0xBF⟩
  else if b < 0xF4 then some ⟨b - 0xF0, 3, 0x80, 0xBF⟩
  else if b = 0xF4 then some ⟨4, 3, 0x80, 0x8F⟩
  else none

/-- Reads the bytes that follow a first byte.  `value` holds the bits so far and `seen` the
number of bytes read; only the first of the bytes to come has a range of its own. -/
def readFollowing (value seen : Nat) :
    Nat → Nat → Nat → List UInt8 → Except (MalformedReason × Nat) (Nat × List UInt8)
  | 0, _, _, rest => .ok (value, rest)
  | _ + 1, _, _, [] => .error (.unexpectedEnd, seen)
  | following + 1, low, high, byte :: rest =>
    let b := byte.toNat
    if low ≤ b && b ≤ high then
      readFollowing (value * 64 + (b - 0x80)) (seen + 1) following 0x80 0xBF rest
    else .error (.invalidContinuation, seen)

/-- Reading the bytes of one character never adds to what is left. -/
theorem readFollowing_length_le {value seen following low high : Nat} {bytes rest : List UInt8}
    {n : Nat} (h : readFollowing value seen following low high bytes = .ok (n, rest)) :
    rest.length ≤ bytes.length := by
  fun_induction readFollowing value seen following low high bytes with
  | case1 => simp_all
  | case2 => simp at h
  | case3 value seen following low high byte bytes b hb ih =>
    have := ih h
    simp only [List.length_cons]
    omega
  | case4 => simp at h

/-- Reads characters to the end; `acc` holds those already read, last first, and `position`
counts their bytes. -/
def decodeFrom (position : Nat) (acc : List Char) : List UInt8 → Except Malformed (List Char)
  | [] => .ok acc.reverse
  | byte :: rest =>
    match lead? byte with
    | none => .error ⟨.invalidStart, byte, position, 1⟩
    | some lead =>
      match h : readFollowing lead.bits 1 lead.following lead.low lead.high rest with
      | .error (reason, count) => .error ⟨reason, byte, position, count⟩
      | .ok (value, rest') =>
        have := readFollowing_length_le h
        decodeFrom (position + 1 + lead.following) (Char.ofNat value :: acc) rest'
termination_by bytes => bytes.length
decreasing_by simp only [List.length_cons]; omega

/-- The characters of a byte sequence. -/
def decodeUtf8 (bytes : List UInt8) : Except Malformed (List Char) :=
  decodeFrom 0 [] bytes

end Rpal.Text
