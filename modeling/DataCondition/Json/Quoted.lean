import DataCondition.Json.Fault
import DataCondition.Text.Blank

/-!
# JSON strings

A string is read in two steps. The first finds its end and takes its escapes apart, which is all a
reader needs that passes over it; the second puts surrogate pairs together.
-/

namespace DataCondition

namespace Json

namespace Quoted

/-- A part of a string: a character, or a UTF-16 unit that was written in hexadecimal. -/
inductive Piece where
  | char (value : Char)
  | unit (value : Nat)

/-- The pieces of a string up to its end, or up to the fault that stops it. -/
structure Scan where
  pieces : List Piece
  fault : Option Fault
  rest : Text

/-- The value of a hexadecimal digit. -/
def hexDigit? (char : Char) : Option Nat :=
  if char.isDigit then some (char.toNat - 48)
  else if 'a' ≤ char && char ≤ 'f' then some (char.toNat - 87)
  else if 'A' ≤ char && char ≤ 'F' then some (char.toNat - 55)
  else none

/-- The unit that hexadecimal digits stand for. -/
def unit? (digits : Text) : Option Nat :=
  digits.foldlM (fun total digit => (hexDigit? digit).map (total * 16 + ·)) 0

/-- The character that a letter after a backslash stands for. -/
def simpleEscape? : Char → Option Char
  | '"' => some '"'
  | '\\' => some '\\'
  | '/' => some '/'
  | 'b' => some '\x08'
  | 'f' => some '\x0c'
  | 'n' => some '\n'
  | 'r' => some '\r'
  | 't' => some '\t'
  | _ => none

/-- How many bytes a text takes in UTF-8. -/
def byteCount (text : Text) : Nat :=
  text.foldl (fun count char => count + char.utf8Size) 0

/--
Reads a string after its opening quote. A hexadecimal escape takes four bytes: fewer mean that the
text has ended.
-/
def scan (read : List Piece) : Text → Scan
  | [] => ⟨read.reverse, some .truncated, []⟩
  | '"' :: rest => ⟨read.reverse, none, rest⟩
  | ['\\'] => ⟨read.reverse, some .truncated, []⟩
  | '\\' :: 'u' :: first :: second :: third :: fourth :: rest =>
    match unit? [first, second, third, fourth] with
    | some unit => scan (.unit unit :: read) rest
    | none => ⟨read.reverse, some .malformed, []⟩
  | '\\' :: 'u' :: rest =>
    ⟨read.reverse, some (if byteCount rest < 4 then .truncated else .malformed), []⟩
  | '\\' :: letter :: rest =>
    match simpleEscape? letter with
    | some char => scan (.char char :: read) rest
    | none => ⟨read.reverse, some .malformed, []⟩
  | char :: rest =>
    if char.toNat < 0x20 then ⟨read.reverse, some .malformed, []⟩
    else scan (.char char :: read) rest

/-- Whether a unit is the first half of a surrogate pair. -/
def isLeading (unit : Nat) : Bool := 0xD800 ≤ unit && unit < 0xDC00

/-- Whether a unit is the second half of a surrogate pair. -/
def isTrailing (unit : Nat) : Bool := 0xDC00 ≤ unit && unit < 0xE000

/--
The text of the pieces, with surrogate pairs put together. `leading` is a first half that waits for
its second one; `fault` tells how the pieces end, if not with a quote.
-/
def content (fault : Option Fault) (leading : Option Nat) : List Piece → Except Fault Text
  | [] =>
    match leading, fault with
    | none, none => .ok []
    | some _, none => .error .malformed
    | _, some fault => .error fault
  | .char char :: rest =>
    match leading with
    | some _ => .error .malformed
    | none => (content fault none rest).map (char :: ·)
  | .unit unit :: rest =>
    match leading with
    | some half =>
      if isTrailing unit then
        let code := 0x10000 + (half - 0xD800) * 0x400 + (unit - 0xDC00)
        (content fault none rest).map (Char.ofNat code :: ·)
      else .error .malformed
    | none =>
      if isTrailing unit then .error .malformed
      else if isLeading unit then content fault (some unit) rest
      else (content fault none rest).map (Char.ofNat unit :: ·)

/-- The text of a string, or its first fault. -/
def Scan.content (scan : Scan) : Except Fault Text :=
  Quoted.content scan.fault none scan.pieces

/-- Reading a string leaves no longer a text. -/
theorem length_scan_le (read : List Piece) (text : Text) :
    (scan read text).rest.length ≤ text.length := by
  fun_induction scan read text <;> simp_all <;> omega

end Quoted

end Json

end DataCondition
