import Ytdlpdroid.Decipher.JsFunctionExtractor
import Ytdlpdroid.Decipher.PlayerScripts
import Ytdlpdroid.Model.World

namespace Ytdlpdroid

open Text Concurrent

namespace NParamDecipherer

def FULL_PLAYER_JS_SENTINEL : Str := str "__FULL_PLAYER_JS__"

-- ([?&]n=)([^&]+)
def N_PARAM_RE : Regex :=
  .seq (.group 1 (.seq (.chars fun c => c == '?' || c == '&') (.literal (str "n="))))
    (.group 2 (.many (· != '&') 1 none))

-- [a-zA-Z0-9_$]
def isNameChar (c : Char) : Bool := Regex.isAlphanumeric c || c == '_' || c == '$'

-- [a-zA-Z_$]
def isNameStart (c : Char) : Bool := Regex.isLetter c || c == '_' || c == '$'

-- [a-zA-Z0-9_\[\]$]
def isRefChar (c : Char) : Bool := isNameChar c || c == '[' || c == ']'

def N_FUNC_NAME_PATTERNS : List Regex :=
  [ -- Modern: .get("n"))&&(b=nfn(b)  or  .get("n"))&&(b=arr[0](b)
    .sequence [.literal (str ".get(\"n\"))&&("), .many isNameChar 1 none, .literal (str "="),
      .group 1 (.many isRefChar 2 (some 40)), .literal (str "(")],
    -- Alternate: x&&(b=nfn(b)
    .sequence [.many isNameChar 1 none, .literal (str "&&("), .many isNameChar 1 none,
      .literal (str "="), .group 1 (.many isRefChar 2 (some 40)), .literal (str "("),
      .chars isNameChar],
    -- Older: .get("n"))&&(b=arr[idx](b)
    .sequence [.literal (str ".get(\"n\"))&&("), .chars isNameStart, .literal (str "="),
      .group 1 (.many isNameChar 2 (some 4)), .literal (str "[")],
    -- The function body starts with var b=a.split("")
    .sequence [.group 1 (.many isNameChar 3 none), .spaces, .literal (str "="), .spaces,
      .literal (str "function"), .spaces, .literal (str "("), .chars isNameStart,
      .literal (str ")"), .spaces, .literal (str "\x7bvar"), .spaces1, .chars isNameStart, .spaces,
      .literal (str "="), .spaces, .chars isNameStart, .literal (str ".split(\"\")")]]

-- var\s+$arrName\s*=\s*\[([^\]]+)]
def arrayPattern (arrName : Str) : Regex :=
  .sequence [.literal (str "var"), .spaces1, .literal arrName, .spaces, .literal (str "="), .spaces,
    .literal (str "["), .group 1 (.many (· != ']') 1 none), .literal (str "]")]

def resolveArrayElement (js ref : Str) : Option Str := do
  let arrName := substringBefore ref '['
  let idx := (toIntOrNull (substringBefore (substringAfter ref '[') ']')).getD 0
  let elements ← (arrayPattern arrName).findGroup js 1
  let element ← if idx < 0 then none else (elements.splitOn ',')[idx.toNat]?
  return trim element

-- The first pattern that matches decides.
def extractNFunctionName (js : Str) : Option Str := do
  let raw ← N_FUNC_NAME_PATTERNS.findSome? fun pattern => pattern.findGroup js 1
  if '[' ∈ raw then resolveArrayElement js raw else some raw

def testInput1 : Str := str "abcdefghijklmnopq"

def testInput2 : Str := str "qponmlkjihgfedcba"

-- [A-Za-z0-9_\-]+
def base64url : Regex := .many (fun c => Regex.isAlphanumeric c || c == '_' || c == '-') 1 none

-- [0-9a-f]+
def pureHex : Regex := .many (fun c => Regex.isDigit c || ('a' ≤ c && c ≤ 'f')) 1 none

-- The test of the two answers. A text that matches base64url has as many units as characters.
def isPlausiblePair (r1 r2 : Str) : Bool :=
  r1 ≠ testInput1 && r1 ≠ str "undefined" && r1 ≠ str "null" &&
    !r1.contains '=' && !r1.contains '+' && !r1.contains '/' &&
    (5 ≤ r1.length && r1.length ≤ 25) && r1.length ≤ testInput1.length + 2 &&
    base64url.fullMatch r1 && !pureHex.fullMatch r1 &&
    r2 ≠ testInput2 && (5 ≤ r2.length && r2.length ≤ 25) &&
    base64url.fullMatch r2 && !pureHex.fullMatch r2 &&
    r1 ≠ r2

section

variable (env : Env)

-- Only an Exception counts as a negative answer; an Error is passed on.
def isPlausibleNsigFunction (fnCode : Str) : Action Bool :=
  .tryCatch
    (do
      let r1 ← executeJs env fnCode testInput1
      let r2 ← executeJs env fnCode testInput2
      return isPlausiblePair r1 r2)
    fun e => if e.isException then return false else .throw e

def extractNFunction (js : Str) : Action Str :=
  match (extractNFunctionName js).bind (JsFunctionExtractor.extractFunctionBody js) with
  | none => return FULL_PLAYER_JS_SENTINEL
  | some body => do
      if ← isPlausibleNsigFunction env body then return body
      else return FULL_PLAYER_JS_SENTINEL

-- `functionCache.getOrPut(playerJs.hashCode()) { extractNFunction(playerJs) }`
def functionCode (playerJs : Str) : Action Str := do
  match ← reading fun w => w.nFunctionCache (hashCode playerJs) with
  | some fnCode => return fnCode
  | none =>
      let fnCode ← extractNFunction env playerJs
      writing fun w =>
        { w with nFunctionCache :=
          Function.update w.nFunctionCache (hashCode playerJs) (some fnCode) }
      return fnCode

-- `nValue.replace("\\", "\\\\").replace("\"", "\\\"")`
def escapedN (nValue : Str) : Str :=
  nValue.flatMap fun c => if c = '\\' ∨ c = '"' then ['\\', c] else [c]

def transformViaFullPlayerJs (playerJs nValue : Str) : Action Str :=
  match env.jsEngine with
  | .custom simpleName _ => .throw (YTDLPError.decipherFailed
      (str "Full-player-JS nsig requires QuickJsEngine; got " ++ simpleName))
  | .quickJs eval => do
      let result ← executeWithPlayerJs eval (PlayerScripts.browserShim ++ str "\n" ++ playerJs)
        (PlayerScripts.buildDiscoveryScript (escapedN nValue))
      return result.getD nValue

def transform (url playerJs : Str) : Action Str :=
  match N_PARAM_RE.findGroup url 2 with
  | none => return url
  | some nValue => do
      let fnCode ← functionCode env playerJs
      let transformed ←
        if fnCode = FULL_PLAYER_JS_SENTINEL then transformViaFullPlayerJs env playerJs nValue
        else executeJs env fnCode nValue
      return N_PARAM_RE.replace (fun found => found.group 1 ++ transformed) url

end

end NParamDecipherer

end Ytdlpdroid
