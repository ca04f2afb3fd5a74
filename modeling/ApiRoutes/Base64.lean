/-!
# Base 64

Bytes written with 64 characters, four characters for three bytes (`Base64.encode`).  The reader
(`Base64.decode`) skips characters that are none of the 64.
-/
namespace ApiRoutes.Base64

/-- The 64 characters, in the order of the numbers that they stand for. -/
def alphabet : List Char :=
  "ABCDEFGHIJKLMNOPQRSTUVWXYZabcdefghijklmnopqrstuvwxyz0123456789+/".toList

def digit (n : Nat) : Char := alphabet.getD n '='

def digit? (c : Char) : Option Nat := alphabet.idxOf? c

/-- Bytes as characters, filled up with `=` to a multiple of four. -/
def encode : List UInt8 → List Char
  | [] => []
  | [a] => [digit (a.toNat / 4), digit (a.toNat % 4 * 16), '=', '=']
  | [a, b] =>
    [digit (a.toNat / 4), digit (a.toNat % 4 * 16 + b.toNat / 16), digit (b.toNat % 16 * 4), '=']
  | a :: b :: c :: rest =>
    digit (a.toNat / 4) :: digit (a.toNat % 4 * 16 + b.toNat / 16) ::
      digit (b.toNat % 16 * 4 + c.toNat / 64) :: digit (c.toNat % 64) :: encode rest

/-- Why characters stand for no bytes. -/
inductive Fault where
  /-- The last group has a single digit; so many digits were read. -/
  | loneDigit (digits : Nat)
  | incomplete
  deriving DecidableEq, Repr

def Fault.message : Fault → String
  | .loneDigit digits =>
    "Invalid base64-encoded string: number of data characters (" ++ toString digits ++
      ") cannot be 1 more than a multiple of 4"
  | .incomplete => "Incorrect padding"

/-- What the reader has so far. -/
structure Pending where
  /-- How many digits were read. -/
  digits : Nat := 0
  /-- The bits of the current group of four digits that are in no byte yet. -/
  left : Nat := 0
  /-- How many `=` were read in a row. -/
  pads : Nat := 0

/-- Reads characters after `p`.  Padding that completes a group ends the text; a group that stays
incomplete makes it unreadable. -/
def decodeFrom (p : Pending) : List Char → Except Fault (List UInt8)
  | [] => match p.digits % 4 with
    | 0 => .ok []
    | 1 => .error (.loneDigit p.digits)
    | _ => .error .incomplete
  | c :: rest =>
    if c = '=' then
      if p.digits % 4 < 2 then decodeFrom p rest
      else if 4 ≤ p.digits % 4 + (p.pads + 1) then .ok []
      else decodeFrom { p with pads := p.pads + 1 } rest
    else
      match digit? c with
      | none => decodeFrom p rest
      | some n =>
        match p.digits % 4 with
        | 0 => decodeFrom ⟨p.digits + 1, n, 0⟩ rest
        | 1 => (decodeFrom ⟨p.digits + 1, n % 16, 0⟩ rest).map
            (UInt8.ofNat (p.left * 4 + n / 16) :: ·)
        | 2 => (decodeFrom ⟨p.digits + 1, n % 4, 0⟩ rest).map
            (UInt8.ofNat (p.left * 16 + n / 4) :: ·)
        | _ => (decodeFrom ⟨p.digits + 1, 0, 0⟩ rest).map (UInt8.ofNat (p.left * 64 + n) :: ·)

def decode (cs : List Char) : Except Fault (List UInt8) := decodeFrom {} cs

end ApiRoutes.Base64
