import Pushpin.Http.State

namespace PushpinHttp
open PushpinRingBuffer Scanning

def hexDigit? (b : Byte) : Option Nat :=
  if 48 ≤ b ∧ b ≤ 57 then some (b.toNat - 48)
  else if 97 ≤ b ∧ b ≤ 102 then some (b.toNat - 87)
  else if 65 ≤ b ∧ b ≤ 70 then some (b.toNat - 55)
  else none

structure SizeLine where
  size : Nat
  digits : Nat
  inSize : Bool
  inExtension : Bool
  sawReturn : Bool

/-- At most sixteen hexadecimal digits, blanks, an extension after `;`, then CRLF. -/
def sizeLine : Scanner SizeLine Byte Unit Nat where
  start := ⟨0, 0, true, false, false⟩
  feed line b :=
    if line.sawReturn then .inr (if b = 10 then .ok line.size else .error ())
    else match (if line.inSize then hexDigit? b else none) with
      | some digit =>
        if line.digits > 15 then .inr (.error ())
        else .inl { line with size := line.size * 16 + digit, digits := line.digits + 1 }
      | none =>
        if b = 13 then .inl { line with sawReturn := true }
        else if line.inExtension then .inl line
        else if b = 9 ∨ b = 32 then .inl { line with inSize := false }
        else if b = 59 then .inl { line with inSize := false, inExtension := true }
        else .inr (.error ())

structure HeaderBlock where
  line : List Byte
  headers : Headers

def splitHeader (line : List Byte) : Option (List Byte × List Byte) :=
  let name := line.takeWhile (· ≠ 58)
  match line.drop name.length with
  | [] => none
  | _ :: value => some (name, value.dropWhile (· = 32))

def headerBlock (count : Nat) : Scanner HeaderBlock Byte ParseError Headers where
  start := ⟨[], []⟩
  feed block b :=
    if b ≠ 10 then .inl { block with line := block.line ++ [b] }
    else
      let line := if block.line.getLast? = some 13 then block.line.dropLast else block.line
      if line = [] then .inr (.ok block.headers)
      else match splitHeader line with
        | none => .inr (.error .headerName)
        | some header =>
          if block.headers.length < count then .inl ⟨[], block.headers ++ [header]⟩
          else .inr (.error .tooManyHeaders)

def scanners : Httparse := ⟨sizeLine.parse, fun count => (headerBlock count).parse⟩

theorem scanners_lawful : scanners.Lawful :=
  ⟨scanner_lawful sizeLine, fun count => scanner_lawful (headerBlock count)⟩

end PushpinHttp
