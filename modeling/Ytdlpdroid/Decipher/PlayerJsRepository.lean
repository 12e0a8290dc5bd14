import Ytdlpdroid.Model.World
import Ytdlpdroid.Text.Regex

namespace Ytdlpdroid

open Text Collections Concurrent

namespace PlayerJsRepository

def isHexChar (c : Char) : Bool := Regex.isDigit c || ('a' ≤ c && c ≤ 'f')

-- [^"]+base\.js
def baseJs : Regex := .seq (.many (· != '"') 1 none) (.literal (str "base.js"))

-- "jsUrl"\s*:\s*"(/s/player/[a-f0-9]+/[^"]+base\.js)"
def jsUrlPattern : Regex :=
  .sequence [.literal (str "\"jsUrl\""), .spaces, .literal (str ":"), .spaces, .literal (str "\""),
    .group 1 (.sequence [.literal (str "/s/player/"), .many isHexChar 1 none, .literal (str "/"),
      baseJs]),
    .literal (str "\"")]

-- (/s/player/[a-f0-9]+/player_ias\.vflset/[^"]+base\.js)
def vflsetPattern : Regex :=
  .group 1 (.sequence [.literal (str "/s/player/"), .many isHexChar 1 none,
    .literal (str "/player_ias.vflset/"), baseJs])

def playerJsUrlIn (html : Str) : Option Str :=
  (jsUrlPattern.findGroup html 1).or (vflsetPattern.findGroup html 1)

-- (?:signatureTimestamp|sts)\s*[=:]\s*(\d{5,6})
def signatureTimestampPattern : Regex :=
  .sequence [.alt (.literal (str "signatureTimestamp")) (.literal (str "sts")), .spaces,
    .chars fun c => c == '=' || c == ':', .spaces, .group 1 (.many Regex.isDigit 5 (some 6))]

def extractSignatureTimestamp (playerJs : Str) : Option Int :=
  (signatureTimestampPattern.findGroup playerJs 1).bind toIntOrNull

def httpStatus (code : Int) : Throwable :=
  Throwable.ioException (some (str "HTTP " ++ decimalInt code))

def emptyBody : Throwable := Throwable.ioException (some (str "Empty body"))

-- The text of a response, or the exception of the block that reads it.
def textOf (url : Str) (response : Response) : Except Throwable Str :=
  if !response.isSuccessful then
    .error (YTDLPError.playerJsFetchFailed url (httpStatus response.code))
  else match response.body with
    | none => .error (YTDLPError.playerJsFetchFailed url emptyBody)
    | some (.unreadable e) => .error e
    | some (.text content) => .ok content

def fullUrl (playerJsUrl : Str) : Str :=
  if startsWith playerJsUrl (str "http") then playerJsUrl
  else str "https://www.youtube.com" ++ playerJsUrl

def jsRequest (playerJsUrl : Str) : Request where
  url := fullUrl playerJsUrl

def watchUrl (videoId : Str) : Str := str "https://www.youtube.com/watch?v=" ++ videoId

def watchRequest (videoId : Str) : Request where
  url := watchUrl videoId
  headers :=
    [(str "User-Agent", str "Mozilla/5.0 (Windows NT 10.0; Win64; x64) AppleWebKit/537.36")]

def urlNotFound (videoId : Str) : Throwable :=
  YTDLPError.playerJsFetchFailed (str "watch?v=" ++ videoId)
    (Throwable.ioException (some (str "player JS URL not found in page")))

-- `memCache[playerJsUrl]`
def memGet (playerJsUrl : Str) : Action (Option Str) :=
  .atomic fun w =>
    let (found, memCache) := w.memCache.get playerJsUrl
    (found, { w with memCache })

-- `memCache[playerJsUrl] = text`
def memPut (playerJsUrl text : Str) : Action Unit :=
  writing fun w => { w with memCache := w.memCache.put playerJsUrl text }

-- `if (memCache.size >= 3) memCache.entries.iterator().let { it.next(); it.remove() }`
def dropEldest (memCache : LinkedHashMap Str Str) : LinkedHashMap Str Str :=
  if 3 ≤ memCache.size then memCache.removeEldest else memCache

def makeRoom : Action Unit := writing fun w => { w with memCache := dropEldest w.memCache }

section

variable (env : Env)

def fetchText (request : Request) : Action Str :=
  .tryCatch
    (do
      let response ← executeCall env request
      .ofExcept (textOf request.url response))
    fun e => .throw (if e.isIOException then YTDLPError.playerJsFetchFailed request.url e else e)

def fetchPlayerJs (playerJsUrl : Str) : Action Str := do
  match ← memGet playerJsUrl with
  | some text => return text
  | none =>
      match ← reading fun w => DiskCache.get w.disk playerJsUrl with
      | some text =>
          memPut playerJsUrl text
          return text
      | none =>
          let text ← fetchText env (jsRequest playerJsUrl)
          diskPut env playerJsUrl text
          makeRoom
          memPut playerJsUrl text
          return text

def fetchPlayerJsUrl (videoId : Str) : Action Str := do
  let html ← fetchText env (watchRequest videoId)
  match playerJsUrlIn html with
  | some url => return url
  | none => .throw (urlNotFound videoId)

end

end PlayerJsRepository

end Ytdlpdroid
