import Ytdlpdroid.Collections.LinkedHashMap
import Ytdlpdroid.Concurrent.Prog
import Ytdlpdroid.Model.Numbers
import Ytdlpdroid.Text.Utf8

namespace Ytdlpdroid

open Text Collections Concurrent

structure CacheFile where
  bytes : List UInt8
  lastModified : Int
  deriving DecidableEq

-- A directory, whether it exists, and its files in the order in which they are listed.
structure Directory where
  present : Bool := true
  files : LinkedHashMap Str CacheFile := .empty

namespace DiskCache

def fileFor (key : Str) : Str := decimalInt (hashCode key) ++ str ".cache"

def readText (file : CacheFile) : Str := Utf8.decode file.bytes

def get (dir : Directory) (key : Str) : Option Str :=
  match dir.files.lookup (fileFor key) with
  | some file => if 0 < file.bytes.length then some (readText file) else none
  | none => none

def mkdirs : Prog Directory Throwable Unit :=
  .atomic fun dir => ((), { dir with present := true })

-- Opening a file for writing creates it or cuts it to nothing.
def truncate (name : Str) (now : Int) : Prog Directory Throwable Unit :=
  .atomic fun dir => ((), { dir with files := dir.files.put name ⟨[], now⟩ })

def appendByte (name : Str) (now : Int) (byte : UInt8) : Prog Directory Throwable Unit :=
  .atomic fun dir =>
    ((), match dir.files.lookup name with
      | none => dir
      | some file => { dir with files := dir.files.put name ⟨file.bytes ++ [byte], now⟩ })

def appendAll (name : Str) (now : Int) : List UInt8 → Prog Directory Throwable Unit
  | [] => .pure ()
  | byte :: rest => do
      appendByte name now byte
      appendAll name now rest

def writeText (name : Str) (now : Int) (text : Str) : Prog Directory Throwable Unit := do
  truncate name now
  appendAll name now (Utf8.encode text)

def put (key value : Str) (now : Int) : Prog Directory Throwable Unit := do
  mkdirs
  writeText (fileFor key) now value

-- `drop` refuses a negative count. A directory that does not exist has no listing.
def evictBeyond (dir : Directory) (keepNewest : Int) : Except Throwable Directory :=
  if !dir.present then .ok dir
  else if keepNewest < 0 then
    .error ⟨.illegalArgumentException, some
      (str "Requested element count " ++ decimalInt keepNewest ++ str " is less than zero."), []⟩
  else
    let newestFirst := dir.files.entries.mergeSort fun a b => b.2.lastModified ≤ a.2.lastModified
    let dropped := newestFirst.drop keepNewest.toNat
    .ok { dir with files := dropped.foldl (fun files entry => files.remove entry.1) dir.files }

end DiskCache

end Ytdlpdroid
