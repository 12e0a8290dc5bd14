import Ytdlpdroid.Text.Basic

namespace Ytdlpdroid.Text

-- Backtracking regular expressions. Only single characters are repeated, and greedily.
inductive Regex
  | empty
  | chars (p : Char → Bool)
  | many (p : Char → Bool) (least : Nat) (most : Option Nat)
  | seq (first second : Regex)
  | alt (first second : Regex)
  | group (index : Nat) (inner : Regex)
  | start
  | finish

namespace Regex

-- A place in the text during a match, and the groups captured so far, latest first.
structure Cursor where
  offset : Nat
  rest : Str
  groups : List (Nat × Str)

def Cursor.advance (at' : Cursor) (count : Nat) : Cursor :=
  { at' with offset := at'.offset + count, rest := at'.rest.drop count }

-- `$` holds at the end of the text and before a line terminator that ends it.
def atEnd (rest : Str) : Bool :=
  rest == [] || rest == ['\n'] || rest == ['\r', '\n'] || rest == ['\r'] ||
    rest == ['\u0085'] || rest == ['\u2028'] || rest == ['\u2029']

-- All places where a match from here can end, in the order in which backtracking tries them.
def ends : Regex → Cursor → List Cursor
  | .empty, cursor => [cursor]
  | .chars p, cursor =>
      match cursor.rest with
      | [] => []
      | c :: _ => if p c then [cursor.advance 1] else []
  | .many p least most, cursor =>
      let run := (cursor.rest.takeWhile p).length
      let longest := match most with
        | none => run
        | some most => min run most
      (List.range' least (longest + 1 - least)).reverse.map cursor.advance
  | .seq first second, cursor => (first.ends cursor).flatMap second.ends
  | .alt first second, cursor => first.ends cursor ++ second.ends cursor
  | .group index inner, cursor =>
      (inner.ends cursor).map fun last =>
        { last with groups :=
          (index, cursor.rest.take (last.offset - cursor.offset)) :: last.groups }
  | .start, cursor => if cursor.offset = 0 then [cursor] else []
  | .finish, cursor => if atEnd cursor.rest then [cursor] else []

structure Match where
  first : Nat
  last : Nat
  groups : List (Nat × Str)

def Match.group (found : Match) (index : Nat) : Str := (found.groups.lookup index).getD []

-- The leftmost match at or after an offset; among those from one place, the first one tried.
def findFrom (r : Regex) (offset : Nat) (rest : Str) : Option Match :=
  match r.ends ⟨offset, rest, []⟩ with
  | last :: _ => some ⟨offset, last.offset, last.groups⟩
  | [] =>
      match rest with
      | [] => none
      | _ :: tail => findFrom r (offset + 1) tail

def find (r : Regex) (text : Str) : Option Match := r.findFrom 0 text

def findGroup (r : Regex) (text : Str) (index : Nat) : Option Str :=
  (r.find text).map (·.group index)

-- The whole text matches.
def fullMatch (r : Regex) (text : Str) : Bool :=
  (r.ends ⟨0, text, []⟩).any fun last => last.rest == []

-- Replace every match, from left to right. No expression used here matches the
-- empty text, so each round consumes a character; `fuel` bounds the rounds.
def replaceFrom (r : Regex) (replacement : Match → Str) : Nat → Nat → Str → Str
  | 0, _, rest => rest
  | fuel + 1, offset, rest =>
      match r.findFrom offset rest with
      | none => rest
      | some found =>
          rest.take (found.first - offset) ++ replacement found ++
            replaceFrom r replacement fuel found.last (rest.drop (found.last - offset))

def replace (r : Regex) (replacement : Match → Str) (text : Str) : Str :=
  r.replaceFrom replacement (text.length + 1) 0 text

def literal (text : Str) : Regex := text.foldr (fun c r => .seq (.chars (· == c)) r) .empty

def sequence : List Regex → Regex
  | [] => .empty
  | [r] => r
  | r :: rest => .seq r (sequence rest)

def isSpace (c : Char) : Bool :=
  c == ' ' || c == '\t' || c == '\n' || c == '\u000B' || c == '\u000C' || c == '\r'

def isDigit (c : Char) : Bool := '0' ≤ c && c ≤ '9'

def isLetter (c : Char) : Bool := ('a' ≤ c && c ≤ 'z') || ('A' ≤ c && c ≤ 'Z')

def isAlphanumeric (c : Char) : Bool := isLetter c || isDigit c

def spaces : Regex := .many isSpace 0 none

def spaces1 : Regex := .many isSpace 1 none

end Regex

end Ytdlpdroid.Text
