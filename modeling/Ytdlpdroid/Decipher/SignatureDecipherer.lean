import Ytdlpdroid.Decipher.JsFunctionExtractor
import Ytdlpdroid.Model.World
import Ytdlpdroid.Text.FormEncoding

namespace Ytdlpdroid

open Text Concurrent

namespace SignatureDecipherer

-- [a-zA-Z0-9$]
def isNameChar (c : Char) : Bool := Regex.isAlphanumeric c || c == '$'

-- ([a-zA-Z0-9$]+)\(
def nameCall : Regex := .seq (.group 1 (.many isNameChar 1 none)) (.literal (str "("))

def sigFuncPatterns : List Regex :=
  [.sequence [.literal (str ".sig||"), nameCall],
    .sequence [.literal (str ".signature"), .spaces, .literal (str "="), .spaces, nameCall],
    .sequence [.literal (str "\"signature\""), .spaces, .literal (str ","), .spaces, nameCall]]

-- ([a-zA-Z0-9$]{2,4})\.[a-zA-Z0-9$]+\(
def helperPattern : Regex :=
  .sequence [.group 1 (.many isNameChar 2 (some 4)), .literal (str "."), .many isNameChar 1 none,
    .literal (str "(")]

def extractSigFunctionCode (js : Str) : Except Throwable Str :=
  match sigFuncPatterns.findSome? fun pattern => pattern.findGroup js 1 with
  | none => .error (YTDLPError.decipherFailed (str "Sig function name not found in player JS"))
  | some fnName =>
      match JsFunctionExtractor.extractFunctionBody js fnName with
      | none =>
          .error (YTDLPError.decipherFailed
            (str "Could not extract sig function body for: " ++ fnName))
      | some mainFn =>
          match helperPattern.findGroup mainFn 1 with
          | none => .ok mainFn
          | some helperName =>
              match JsFunctionExtractor.extractObjectLiteral js helperName with
              | none => .ok mainFn
              | some helperObj =>
                  -- Wrap in IIFE so the helper is in scope when the returned function is invoked.
                  .ok (str "(function()\x7bvar " ++ helperName ++ str "=" ++ helperObj ++
                    str ";\nreturn " ++ mainFn ++ str ";\x7d)()")

-- `it.substring(0, eq) to it.substring(eq + 1)`; without an equals sign `eq` is -1.
def splitField (field : Str) : Except Throwable (Str × Str) :=
  match indexOf field '=' with
  | some eq => .ok (field.take eq, field.drop (eq + 1))
  | none => .error ⟨.stringIndexOutOfBoundsException, none, []⟩

def splitFields (signatureCipher : Str) : Except Throwable (List (Str × Str)) :=
  (signatureCipher.splitOn '&').mapM splitField

-- The last field of a name wins.
def param (params : List (Str × Str)) (name : Str) : Option Str := params.reverse.lookup name

def baseUrl (params : List (Str × Str)) : Except Throwable Str :=
  match param params (str "url") with
  | none => .error (YTDLPError.decipherFailed (str "Missing 'url' in signatureCipher"))
  | some url =>
      match FormEncoding.decode url with
      | none => .error ⟨.illegalArgumentException, none, []⟩
      | some text => .ok text

def encSig (params : List (Str × Str)) : Except Throwable Str :=
  match param params (str "s") with
  | none => .error (YTDLPError.decipherFailed (str "Missing 's' in signatureCipher"))
  | some text => .ok text

-- `functionCache.getOrPut(playerJs.hashCode()) { extractSigFunctionCode(playerJs) }`
def functionCode (playerJs : Str) : Action Str := do
  match ← reading fun w => w.sigFunctionCache (hashCode playerJs) with
  | some fnCode => return fnCode
  | none =>
      let fnCode ← .ofExcept (extractSigFunctionCode playerJs)
      writing fun w =>
        { w with sigFunctionCache :=
          Function.update w.sigFunctionCache (hashCode playerJs) (some fnCode) }
      return fnCode

def decrypt (env : Env) (signatureCipher playerJs : Str) : Action Str := do
  let params ← .ofExcept (splitFields signatureCipher)
  let encSig ← .ofExcept (encSig params)
  let sp := (param params (str "sp")).getD (str "sig")
  let baseUrl ← .ofExcept (baseUrl params)
  let fnCode ← functionCode playerJs
  let decryptedSig ← executeJs env fnCode encSig
  return baseUrl ++ str "&" ++ sp ++ str "=" ++ decryptedSig

end SignatureDecipherer

end Ytdlpdroid
