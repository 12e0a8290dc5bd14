import Ytdlpdroid.Text.Basic

namespace Ytdlpdroid.Text.Json

-- A reader of JSON documents that goes through the text character by character. A
-- document is the list of its values in the order in which they begin, each with the
-- path of names and positions that leads to it.

inductive PathStep
  | key (name : List UInt16)
  | index (position : Nat)
  deriving DecidableEq

-- An object or an array stands for its beginning; what it holds has longer paths.
inductive Value
  | null
  | bool (value : Bool)
  | number (text : Str)
  | string (value : List UInt16)
  | array
  | object
  deriving DecidableEq

structure Entry where
  path : List PathStep
  value : Value
  deriving DecidableEq

abbrev Document := List Entry

-- Where the reader is in a string: a hexadecimal escape misses `left` more digits.
inductive StringState
  | plain
  | escape
  | hex (value left : Nat)
  deriving DecidableEq

inductive NumberState
  | minus
  | zero
  | integer
  | point
  | fraction
  | exponent
  | exponentSign
  | exponentDigits
  deriving DecidableEq

inductive Mode
  | value
  -- after the opening bracket of an array
  | firstElement
  -- after the opening brace of an object
  | firstKey
  -- after a comma in an object
  | key
  | colon
  | afterValue
  | string (isKey : Bool) (state : StringState) (read : List UInt16)
  | number (state : NumberState) (read : Str)
  | word (left : Str) (value : Value)
  deriving DecidableEq

-- `stack` is the path of the value being read, innermost step first.
structure Reader where
  stack : List PathStep
  mode : Mode
  deriving DecidableEq

def isSpace (c : Char) : Bool := c == ' ' || c == '\t' || c == '\n' || c == '\r'

def isDigit (c : Char) : Bool := '0' ≤ c && c ≤ '9'

def singleEscapes : List (Char × UInt16) :=
  [('"', 0x22), ('\\', 0x5C), ('/', 0x2F), ('b', 8), ('f', 12), ('n', 10), ('r', 13), ('t', 9)]

-- What a character does in a string: it ends it, it is refused, or it is read.
inductive StringStep
  | closed
  | refused
  | more (state : StringState) (emitted : List UInt16)

def stringStep : StringState → Char → StringStep
  | .plain, c =>
      if c = '"' then .closed
      else if c = '\\' then .more .escape []
      else if c.toNat < 0x20 then .refused
      else .more .plain (units c)
  | .escape, c =>
      match singleEscapes.lookup c with
      | some unit => .more .plain [unit]
      | none => if c = 'u' then .more (.hex 0 4) [] else .refused
  | .hex value left, c =>
      match asciiHexDigit c with
      | none => .refused
      | some digit =>
          let value := 16 * value + digit
          if left = 1 then .more .plain [UInt16.ofNat value] else .more (.hex value (left - 1)) []

def numberStart (c : Char) : Option NumberState :=
  if c = '-' then some .minus
  else if c = '0' then some .zero
  else if isDigit c then some .integer
  else none

def numberStep : NumberState → Char → Option NumberState
  | .minus, c => if c = '0' then some .zero else if isDigit c then some .integer else none
  | .zero, c => if c = '.' then some .point else if c = 'e' ∨ c = 'E' then some .exponent else none
  | .integer, c =>
      if isDigit c then some .integer
      else if c = '.' then some .point
      else if c = 'e' ∨ c = 'E' then some .exponent
      else none
  | .point, c => if isDigit c then some .fraction else none
  | .fraction, c =>
      if isDigit c then some .fraction else if c = 'e' ∨ c = 'E' then some .exponent else none
  | .exponent, c =>
      if c = '+' ∨ c = '-' then some .exponentSign
      else if isDigit c then some .exponentDigits
      else none
  | .exponentSign, c => if isDigit c then some .exponentDigits else none
  | .exponentDigits, c => if isDigit c then some .exponentDigits else none

def NumberState.complete : NumberState → Bool
  | .zero | .integer | .fraction | .exponentDigits => true
  | _ => false

namespace Reader

def entry (reader : Reader) (value : Value) : Entry := ⟨reader.stack.reverse, value⟩

-- The beginning of a value, in a reader whose mode is to stay on white space.
def begin (reader : Reader) (c : Char) : Option (Reader × List Entry) :=
  if isSpace c then some (reader, [])
  else if c = '\x7b' then some ({ reader with mode := .firstKey }, [reader.entry .object])
  else if c = '[' then some ({ reader with mode := .firstElement }, [reader.entry .array])
  else if c = '"' then some ({ reader with mode := .string false .plain [] }, [])
  else if c = 't' then some ({ reader with mode := .word (str "rue") (.bool true) }, [])
  else if c = 'f' then some ({ reader with mode := .word (str "alse") (.bool false) }, [])
  else if c = 'n' then some ({ reader with mode := .word (str "ull") .null }, [])
  else (numberStart c).map fun state => ({ reader with mode := .number state [c] }, [])

def beginKey (reader : Reader) (c : Char) : Option (Reader × List Entry) :=
  if isSpace c then some (reader, [])
  else if c = '"' then some ({ reader with mode := .string true .plain [] }, [])
  else none

-- After a value: white space, the next member or element, or the end of what encloses it.
def afterValue (reader : Reader) (c : Char) : Option Reader :=
  match reader.stack with
  | .key name :: rest =>
      if isSpace c then some ⟨.key name :: rest, .afterValue⟩
      else if c = ',' then some ⟨rest, .key⟩
      else if c = '\x7d' then some ⟨rest, .afterValue⟩
      else none
  | .index position :: rest =>
      if isSpace c then some ⟨.index position :: rest, .afterValue⟩
      else if c = ',' then some ⟨.index (position + 1) :: rest, .value⟩
      else if c = ']' then some ⟨rest, .afterValue⟩
      else none
  | [] => if isSpace c then some ⟨[], .afterValue⟩ else none

def close (reader : Reader) (isKey : Bool) (read : List UInt16) : Reader × List Entry :=
  if isKey then (⟨.key read :: reader.stack, .colon⟩, [])
  else ({ reader with mode := .afterValue }, [reader.entry (.string read)])

def step (reader : Reader) (c : Char) : Option (Reader × List Entry) :=
  match reader.mode with
  | .value => reader.begin c
  | .firstElement =>
      if isSpace c then some (reader, [])
      else if c = ']' then some ({ reader with mode := .afterValue }, [])
      else begin { reader with stack := .index 0 :: reader.stack } c
  | .firstKey =>
      if c = '\x7d' then some ({ reader with mode := .afterValue }, []) else reader.beginKey c
  | .key => reader.beginKey c
  | .colon =>
      if isSpace c then some (reader, [])
      else if c = ':' then some ({ reader with mode := .value }, [])
      else none
  | .afterValue => (reader.afterValue c).map fun next => (next, [])
  | .string isKey state read =>
      match stringStep state c with
      | .closed => some (reader.close isKey read)
      | .refused => none
      | .more state emitted =>
          some ({ reader with mode := .string isKey state (read ++ emitted) }, [])
  | .number state read =>
      match numberStep state c with
      | some state => some ({ reader with mode := .number state (read ++ [c]) }, [])
      | none =>
          if state.complete then
            (reader.afterValue c).map fun next => (next, [reader.entry (.number read)])
          else none
  | .word left value =>
      match left with
      | [] => none
      | [last] =>
          if c = last then some ({ reader with mode := .afterValue }, [reader.entry value])
          else none
      | next :: left =>
          if c = next then some ({ reader with mode := .word left value }, []) else none

-- Read a text. The entries are those of the values that end, or begin as containers, in it.
def run (reader : Reader) : Str → Option (Reader × List Entry)
  | [] => some (reader, [])
  | c :: rest => do
      let (next, first) ← reader.step c
      let (last, others) ← next.run rest
      some (last, first ++ others)

-- The end of the text: it must be the end of a document.
def finish (reader : Reader) : Option (List Entry) :=
  match reader.stack, reader.mode with
  | [], .afterValue => some []
  | [], .number state read => if state.complete then some [reader.entry (.number read)] else none
  | _, _ => none

def start : Reader := ⟨[], .value⟩

end Reader

def parse (text : Str) : Option Document := do
  let (last, entries) ← Reader.start.run text
  let others ← last.finish
  some (entries ++ others)

end Ytdlpdroid.Text.Json
