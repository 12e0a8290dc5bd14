import Ytdlpdroid.Text.Regex

namespace Ytdlpdroid

open Text

namespace JsFunctionExtractor

structure Scan where
  depth : Int := 0
  quote : Option Char := none
  previous : Option Char := none

-- Read one character. The answer tells whether it closes the outermost brace.
def Scan.read (scan : Scan) (c : Char) : Scan × Bool :=
  match scan.quote with
  | some stringChar =>
      let inString := c ≠ stringChar || scan.previous = some '\\'
      ({ scan with quote := if inString then some stringChar else none, previous := some c }, false)
  | none =>
      if c = '"' ∨ c = '\'' ∨
        c = '\x60' then ({ scan with quote := some c, previous := some c }, false)
      else if c = '\x7b' then ({ scan with depth := scan.depth + 1, previous := some c }, false)
      else if c = '\x7d' then
        ({ scan with depth := scan.depth - 1, previous := some c }, scan.depth - 1 = 0)
      else ({ scan with previous := some c }, false)

def closing (scan : Scan) (index : Nat) : Str → Option Nat
  | [] => none
  | c :: rest =>
      match scan.read c with
      | (_, true) => some index
      | (scan, false) => closing scan (index + 1) rest

-- Walks forward from openPos tracking brace depth, skipping strings.
def findMatchingBrace (js : Str) (openPos : Nat) : Option Nat :=
  closing { previous := (js.take openPos).getLast? } openPos (js.drop openPos)

-- The position of the first brace from a position on.
def openBrace (js : Str) (first : Nat) : Option Nat :=
  (indexOf (js.drop first) '\x7b').map (first + ·)

-- (?:$escaped\s*=\s*function|function\s+$escaped)\s*\([^)]*\)\s*\{
def startPattern (fnName : Str) : Regex :=
  .sequence [
    .alt
      (.sequence [.literal fnName, .spaces, .literal (str "="), .spaces, .literal (str "function")])
      (.sequence [.literal (str "function"), .spaces1, .literal fnName]),
    .spaces, .literal (str "("), .many (· != ')') 0 none, .literal (str ")"), .spaces,
    .literal (str "\x7b")]

def extractFunctionBody (js fnName : Str) : Option Str := do
  let found ← (startPattern fnName).find js
  let first ← openBrace js found.first
  let closePos ← findMatchingBrace js first
  return (js.take (closePos + 1)).drop found.first

-- var\s+$escaped\s*=\s*\{
def literalPattern (name : Str) : Regex :=
  .sequence [.literal (str "var"), .spaces1, .literal name, .spaces, .literal (str "="), .spaces,
    .literal (str "\x7b")]

def extractObjectLiteral (js name : Str) : Option Str := do
  let found ← (literalPattern name).find js
  let first ← openBrace js found.first
  let closePos ← findMatchingBrace js first
  return (js.take (closePos + 1)).drop first

end JsFunctionExtractor

end Ytdlpdroid
