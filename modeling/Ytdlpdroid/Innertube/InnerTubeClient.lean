import Ytdlpdroid.Innertube.InnerTubeClientConfig
import Ytdlpdroid.Model.World
import Ytdlpdroid.Text.Regex

namespace Ytdlpdroid

open Text Concurrent

namespace InnerTubeClient

def browserUA : Str := str
  "Mozilla/5.0 (Windows NT 10.0; Win64; x64) AppleWebKit/537.36 (KHTML, like Gecko) Chrome/120.0.0.0 Safari/537.36"

def homeRequest : Request where
  url := str "https://www.youtube.com/"
  headers := [(str "User-Agent", browserUA), (str "Accept-Language", str "en-US,en;q=0.9"),
    (str "Accept", str "text/html,application/xhtml+xml,application/xml;q=0.9,*/*;q=0.8")]

-- "VISITOR_DATA":"([^"]+)", or the same with the name visitorData
def visitorDataPattern (name : Str) : Regex :=
  .sequence [.literal (str "\"" ++ name ++ str "\":\""), .group 1 (.many (· != '"') 1 none),
    .literal (str "\"")]

def visitorDataIn (html : Str) : Option Str :=
  ((visitorDataPattern (str "VISITOR_DATA")).findGroup html 1).or
    ((visitorDataPattern (str "visitorData")).findGroup html 1)

-- `it.body?.string() ?: ""`
def pageOf (response : Response) : Except Throwable Str :=
  match response.body with
  | none => .ok []
  | some (.unreadable e) => .error e
  | some (.text content) => .ok content

def playerRequest (config : InnerTubeClientConfig) (videoId : Str)
    (visitorData regionCode : Option Str) (signatureTimestamp : Option Int) : Request where
  url := config.playerApiUrl
  headers := [(str "User-Agent", config.fields.userAgent),
    (str "X-YouTube-Client-Name", config.fields.clientNumber),
    (str "X-YouTube-Client-Version", config.fields.clientVersion),
    (str "Content-Type", str "application/json"), (str "Accept-Language", str "en-US,en;q=0.9"),
    (str "Origin", str "https://www.youtube.com"), (str "Referer", str "https://www.youtube.com/")]
  body := some (config.buildRequestBody videoId visitorData regionCode signatureTimestamp)

def serializationException (message : Str) : Throwable :=
  ⟨.serializationException, some message, []⟩

section

variable (env : Env)

-- One-time session init: GETs the YouTube homepage so that visitor data is captured.
-- The flag is set on every way out, and only an Error gets out.
def ensureSession : Action Unit := do
  if ← reading World.sessionInitialized then return ()
  else
    let outcome : Except Throwable Unit ← Prog.attempt do
      let response ← executeCall env homeRequest
      let html ← Prog.ofExcept (pageOf response)
      writing fun w => { w with cachedVisitorData := visitorDataIn html }
    writing fun w => { w with sessionInitialized := true }
    match outcome with
    | .ok () => return ()
    | .error e => if e.isException then return () else .throw e

-- `json.decodeFromString<RawPlayerResponse>(bodyStr)`
def decode (bodyStr : Str) : Except Throwable RawPlayerResponse :=
  match env.decodeFromString bodyStr with
  | .ok raw => .ok raw
  | .error message => .error (serializationException message)

-- What is made of a response that the call returned.
def readResponse (response : Response) : Except Throwable RawPlayerResponse :=
  if !response.isSuccessful then
    .error (YTDLPError.networkError (str "HTTP " ++ decimalInt response.code)
      (Throwable.ioException (some response.message)))
  else match response.body with
    | none =>
        .error (YTDLPError.networkError (str "Empty response body") (Throwable.ioException none))
    | some (.unreadable e) => .error e
    | some (.text bodyStr) => decode env bodyStr

-- Only an IOException of the call itself becomes a NetworkError.
def sendRequest (request : Request) : Action Response :=
  .tryCatch (executeCall env request) fun e =>
    .throw (if e.isIOException then YTDLPError.networkError
      (str "InnerTube player request failed") e
      else e)

-- Only the WEB client has a session.
def visitorDataFor (config : InnerTubeClientConfig) : Action (Option Str) :=
  match config with
  | .WEB => do
      ensureSession env
      reading World.cachedVisitorData
  | _ => return none

def fetchPlayerResponse (videoId : Str) (config : InnerTubeClientConfig) (regionCode : Option Str)
    (signatureTimestamp : Option Int) : Action RawPlayerResponse := do
  let visitorData ← visitorDataFor env config
  let response ← sendRequest env
    (playerRequest config videoId visitorData regionCode signatureTimestamp)
  .ofExcept (readResponse env response)

end

end InnerTubeClient

end Ytdlpdroid
