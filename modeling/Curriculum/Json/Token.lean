import Curriculum.Json.Basic

/-!
# Tokens of written documents

A written document is a row of tokens: the six marks, quoted texts, and words (numbers and the
names of other values) with white space between them. The characters are fed one by one to a small
state (`Scan`), so scanning is a fold and needs no look-ahead. A word ends where a mark, a
quotation mark or white space begins.

Words follow the strict rules of the format (no leading zero or plus sign, digits on both sides of
a point), with the names of infinity and of what is not a number in addition. The part of a number
before its point has a greatest length, which the caller sets; its sign counts.
-/

namespace Curriculum

namespace Json

/-- A token of a written document. -/
inductive Token where
  | openArray
  | closeArray
  | openObject
  | closeObject
  | comma
  | colon
  | text (s : String)
  | word (value : Json)

namespace Token

/-- The mark that a character is. -/
def ofMark? : Char → Option Token
  | '[' => some .openArray
  | ']' => some .closeArray
  | '{' => some .openObject
  | '}' => some .closeObject
  | ',' => some .comma
  | ':' => some .colon
  | _ => none

end Token

/-- White space between tokens. -/
def isGap (c : Char) : Bool :=
  c = ' ' || c = '\n' || c = '\t' || c = '\r'

/-- The number that a word denotes, without its sign: an integer if it has neither point nor
exponent. -/
def unsigned? (longest : Nat) (negative : Bool) (cs : List Char) : Option Number :=
  match Numeral.split? cs with
  | none => none
  | some n =>
    let leadingZero := n.whole.head? = some '0' ∧ n.whole ≠ ['0']
    let tooLong := longest < negative.toNat + n.whole.length
    if n.whole = [] ∨ leadingZero ∨ tooLong ∨ n.fraction = some [] then none
    else
      match n.fraction, n.exponent with
      | none, none =>
        let k : Int := Numeral.digitsValue n.whole
        some (.int (if negative then -k else k))
      | _, _ => some (.float (Binary64.ofDecimal negative n.decimal))

/-- The value that a word denotes. -/
def ofWord? (longest : Nat) (cs : List Char) : Option Json :=
  match String.ofList cs with
  | "null" => some .null
  | "true" => some (.bool true)
  | "false" => some (.bool false)
  | "NaN" => some (.float .nan)
  | "Infinity" => some (.float (.infinity false))
  | "-Infinity" => some (.float (.infinity true))
  | _ =>
    match cs with
    | '-' :: rest => (unsigned? longest true rest).map .number
    | _ => (unsigned? longest false cs).map .number

/-- What is being scanned. Characters read so far stand in reverse. -/
inductive Scan where
  /-- Between tokens. -/
  | gap
  /-- Inside a word. -/
  | word (seen : List Char)
  /-- Inside a text. -/
  | text (seen : List Char)
  /-- After a backslash inside a text. -/
  | escape (seen : List Char)
  /-- Inside the digits of a code; `high` is the first half of a pair, if one was read. -/
  | code (seen : List Char) (high : Option Nat) (missing value : Nat)
  /-- After the first half of a pair: a backslash must follow. -/
  | pair (seen : List Char) (high : Nat)
  /-- After the first half of a pair and a backslash: a code must follow. -/
  | pairCode (seen : List Char) (high : Nat)

/-- The value of a hexadecimal digit. -/
def hexValue? (c : Char) : Option Nat :=
  if c.isDigit then some (c.toNat - 48)
  else if 'a' ≤ c ∧ c ≤ 'f' then some (c.toNat - 87)
  else if 'A' ≤ c ∧ c ≤ 'F' then some (c.toNat - 55)
  else none

/-- The character that a one-letter escape stands for. -/
def unescape? : Char → Option Char
  | '"' => some '"'
  | '\\' => some '\\'
  | '/' => some '/'
  | 'b' => some (Char.ofNat 8)
  | 'f' => some (Char.ofNat 12)
  | 'n' => some '\n'
  | 'r' => some '\r'
  | 't' => some '\t'
  | _ => none

/-- Go on after a complete code: a character, the first half of a pair, or its second half. A half
without the other is refused. -/
def afterCode? (seen : List Char) (high : Option Nat) (value : Nat) : Option Scan :=
  let isHigh := decide (0xD800 ≤ value ∧ value ≤ 0xDBFF)
  let isLow := decide (0xDC00 ≤ value ∧ value ≤ 0xDFFF)
  match high with
  | none =>
    if isHigh then some (.pair seen value)
    else if isLow then none
    else some (.text (Char.ofNat value :: seen))
  | some first =>
    if isLow then
      some (.text (Char.ofNat (0x10000 + (first - 0xD800) * 0x400 + (value - 0xDC00)) :: seen))
    else none

/-- Begin with a character that belongs to no earlier token. -/
def begin? (done : List Token) (c : Char) : Option (Scan × List Token) :=
  if isGap c then some (.gap, done)
  else if c = '"' then some (.text [], done)
  else
    match Token.ofMark? c with
    | some mark => some (.gap, mark :: done)
    | none => some (.word [c], done)

/-- Scan one character more. -/
def scan? (longest : Nat) : Scan × List Token → Char → Option (Scan × List Token)
  | (.gap, done), c => begin? done c
  | (.word seen, done), c =>
    if isGap c || c = '"' || (Token.ofMark? c).isSome then
      (ofWord? longest seen.reverse).bind fun value => begin? (.word value :: done) c
    else some (.word (c :: seen), done)
  | (.text seen, done), c =>
    if c = '"' then some (.gap, .text (String.ofList seen.reverse) :: done)
    else if c = '\\' then some (.escape seen, done)
    else if c.toNat < 32 then none
    else some (.text (c :: seen), done)
  | (.escape seen, done), c =>
    if c = 'u' then some (.code seen none 4 0, done)
    else (unescape? c).map fun e => (.text (e :: seen), done)
  | (.code seen high missing value, done), c =>
    (hexValue? c).bind fun d =>
      let value := 16 * value + d
      if missing ≤ 1 then (afterCode? seen high value).map fun next => (next, done)
      else some (.code seen high (missing - 1) value, done)
  | (.pair seen high, done), c => if c = '\\' then some (.pairCode seen high, done) else none
  | (.pairCode seen high, done), c =>
    if c = 'u' then some (.code seen (some high) 4 0, done) else none

/-- The tokens of a text; none if it ends inside a token or a token breaks a rule. -/
def tokens? (longest : Nat) (cs : List Char) : Option (List Token) :=
  (cs.foldlM (scan? longest) (Scan.gap, [])).bind fun
    | (.gap, done) => some done.reverse
    | (.word seen, done) =>
      (ofWord? longest seen.reverse).map fun value => (Token.word value :: done).reverse
    | _ => none

end Json

end Curriculum
