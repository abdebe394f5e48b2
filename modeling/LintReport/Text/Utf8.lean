/-!
UTF-8 as a machine over bytes. What stands between two characters, or how an unfinished character
goes on, is the state; every byte moves it and may complete a character or an ill-formed piece. An
ill-formed piece is as long as it could still have begun a character, so that one damaged character
counts once and the byte that broke it is read afresh.
-/
namespace LintReport

/-- What a program wrote, before it is read as text. -/
abbrev Bytes := List UInt8

namespace Text.Utf8

/-- Between characters, or within one: its next byte must lie from `low` to `high`, `left` bytes
follow that one, and the bytes so far spell `value`. -/
inductive State where
  | between
  | within (low high : UInt8) (left value : Nat)
  deriving DecidableEq, Repr

/-- Reads the first byte of a character; `some none` is a byte that begins none. -/
def lead (b : UInt8) : Option (Option Char) × State :=
  if b < 0x80 then (some (some (Char.ofNat b.toNat)), .between)
  else if b < 0xC2 then (some none, .between)
  else if b < 0xE0 then (none, .within 0x80 0xBF 0 (b.toNat - 0xC0))
  else if b = 0xE0 then (none, .within 0xA0 0xBF 1 0)
  else if b = 0xED then (none, .within 0x80 0x9F 1 0xD)
  else if b < 0xF0 then (none, .within 0x80 0xBF 1 (b.toNat - 0xE0))
  else if b = 0xF0 then (none, .within 0x90 0xBF 2 0)
  else if b < 0xF4 then (none, .within 0x80 0xBF 2 (b.toNat - 0xF0))
  else if b = 0xF4 then (none, .within 0x80 0x8F 2 4)
  else (some none, .between)

/-- One byte: the pieces that it completes, at most two, and the next state. -/
def step : State → UInt8 → List (Option Char) × State
  | .between, b => (lead b).map Option.toList id
  | .within low high left value, b =>
    if low ≤ b ∧ b ≤ high then
      let value := value * 64 + (b.toNat - 0x80)
      match left with
      | 0 => ([some (Char.ofNat value)], .between)
      | left + 1 => ([], .within 0x80 0xBF left value)
    else (lead b).map (none :: ·.toList) id

/-- The pieces that the bytes complete from a state on; an unfinished character is ill-formed. -/
def piecesFrom : State → Bytes → List (Option Char)
  | .between, [] => []
  | .within .., [] => [none]
  | s, b :: bytes =>
    let (done, s') := step s b
    done ++ piecesFrom s' bytes

/-- The characters of the bytes, `none` for each ill-formed piece. -/
def pieces (bytes : Bytes) : List (Option Char) := piecesFrom .between bytes

/-- The text, if every piece is a character. -/
def text? (bytes : Bytes) : Option (List Char) := (pieces bytes).mapM id

/-- The text with U+FFFD in place of each ill-formed piece. -/
def lossyText (bytes : Bytes) : List Char := (pieces bytes).map (·.getD '\uFFFD')

end Text.Utf8

/-- Whether a tool's output is given up when it is not UTF-8, or read with replacements. -/
inductive Decoding where
  | strict
  | lossy
  deriving DecidableEq, Repr

/-- The text of some output. Output that a strict reading gives up counts as empty. -/
def Decoding.read : Decoding → Bytes → List Char
  | .strict, bytes => (Text.Utf8.text? bytes).getD []
  | .lossy, bytes => Text.Utf8.lossyText bytes

end LintReport
