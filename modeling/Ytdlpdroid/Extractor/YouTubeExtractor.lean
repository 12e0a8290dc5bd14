import Ytdlpdroid.Cache.ExtractionCache
import Ytdlpdroid.Decipher.DecipherService
import Ytdlpdroid.Extractor.VideoIdParser
import Ytdlpdroid.Format.FormatSelector
import Ytdlpdroid.Innertube.InnerTubeClient
import Ytdlpdroid.Innertube.PlayerResponseParser

namespace Ytdlpdroid

open Text Concurrent

namespace YouTubeExtractor

def clientChain : List InnerTubeClientConfig :=
  [.ANDROID_VR, .ANDROID, .ANDROID_TESTSUITE, .TVHTML5_SIMPLY_EMBEDDED, .IOS, .MWEB, .WEB_EMBEDDED,
    .WEB]

-- The error after the last client: the geo-block if there was one, the last error if
-- it says that the video is unavailable, and else a summary of it.
def terminalError (videoId : Str) (lastError geoBlockedError : Option Throwable) : Throwable :=
  match geoBlockedError, lastError with
  | some geoBlocked, _ => geoBlocked
  | none, some e =>
      if e.cls = .videoUnavailable then e else YTDLPError.allClientsFailed videoId (some e)
  | none, none => YTDLPError.allClientsFailed videoId none

-- What resolving the formats of the winning response gives.
structure Resolution where
  response : RawPlayerResponse
  winningClient : InnerTubeClientConfig
  videoInfo : VideoInfo
  streamingData : RawStreamingData
  resolvedFormats : List (RawFormat × Str)

def allFormats (streamingData : RawStreamingData) : List RawFormat :=
  streamingData.adaptiveFormats ++ streamingData.formats

section

variable (env : Env)

def askClient (videoId : Str) (regionCode : Option Str) (signatureTimestamp : Option Int)
    (client : InnerTubeClientConfig) : Action RawPlayerResponse := do
  let response ←
    InnerTubeClient.fetchPlayerResponse env videoId client regionCode signatureTimestamp
  .ofExcept (PlayerResponseParser.checkPlayability response videoId)
  return response

-- The clients that are left, with the errors remembered so far.
def fallback (videoId : Str) (regionCode : Option Str) (signatureTimestamp : Option Int) :
    List InnerTubeClientConfig → Option Throwable → Option Throwable →
      Action (RawPlayerResponse × InnerTubeClientConfig)
  | [], lastError, geoBlockedError => .throw (terminalError videoId lastError geoBlockedError)
  | client :: rest, _, geoBlockedError => do
      match ← (askClient env videoId regionCode signatureTimestamp client).attempt with
      | .ok response => return (response, client)
      | .error e =>
          if e.cls = .liveStreamNotSupported then .throw e
          else if e.cls = .geoBlocked then
            fallback videoId regionCode signatureTimestamp rest (some e) (some e)
          else if e.isYTDLPError then
            fallback videoId regionCode signatureTimestamp rest (some e) geoBlockedError
          else .throw e

def fetchWithFallback (videoId : Str) (regionCode : Option Str) (signatureTimestamp : Option Int) :
    Action (RawPlayerResponse × InnerTubeClientConfig) :=
  fallback env videoId regionCode signatureTimestamp clientChain none none

-- The signature timestamp of the pre-fetched player JS. Failures are non-fatal.
def prefetchTimestamp (playerJsUrl : Option Str) : Action (Option Int) :=
  match playerJsUrl with
  | none => return none
  | some url => do
      let found : Option (Option Int) ← getOrNull do
        let js ← PlayerJsRepository.fetchPlayerJs env url
        return PlayerJsRepository.extractSignatureTimestamp js
      return found.join

-- The stages that need a response which says that the video is playable.
def checkResponse (videoId : Str) (response : RawPlayerResponse) :
    Except Throwable (VideoInfo × RawStreamingData) :=
  if PlayerResponseParser.isLive response then .error (YTDLPError.liveStreamNotSupported videoId)
  else do
    let videoInfo ← PlayerResponseParser.extractVideoInfo response
    match response.streamingData with
    | none => .error (YTDLPError.noStreamsFound videoId)
    | some streamingData => return (videoInfo, streamingData)

-- `runCatching { fmt to ... }.getOrNull()`, for one format.
def resolveFormat (playerJsUrl : Str) (fmt : RawFormat) : Action (RawFormat × Str) := do
  let url ← DecipherService.buildPlayableUrl env fmt playerJsUrl
  return (fmt, url)

-- The formats that decipher, in the order of the response. The schedule is the order in
-- which the deciphering of one format is interleaved with that of the others.
def resolveFormats (schedule : List Nat) (playerJsUrl : Str) (formats : List RawFormat) :
    Action (List (RawFormat × Str)) := do
  let outcomes : List (Except Throwable (RawFormat × Str)) ←
    Prog.par schedule (formats.map (resolveFormat env playerJsUrl))
  return outcomes.filterMap Except.toOption

def resolvePlayerJsUrl (playerJsUrl : Option Str) (videoId : Str) : Action Str :=
  match playerJsUrl with
  | some url => return url
  | none => PlayerJsRepository.fetchPlayerJsUrl env videoId

-- From the pre-fetch to the list of deciphered formats.
def resolve (schedule : List Nat) (videoId : Str) (regionCode : Option Str) :
    Action Resolution := do
  let playerJsUrl ← getOrNull (PlayerJsRepository.fetchPlayerJsUrl env videoId)
  let signatureTimestamp ← prefetchTimestamp env playerJsUrl
  let (response, winningClient) ← fetchWithFallback env videoId regionCode signatureTimestamp
  let (videoInfo, streamingData) ← .ofExcept (checkResponse videoId response)
  let resolvedPlayerJsUrl ← resolvePlayerJsUrl env playerJsUrl videoId
  let resolvedFormats ←
    resolveFormats env schedule resolvedPlayerJsUrl (allFormats streamingData)
  if resolvedFormats.isEmpty then .throw (YTDLPError.noStreamsFound videoId)
  else return { response, winningClient, videoInfo, streamingData, resolvedFormats }

def expiresInSeconds (streamingData : RawStreamingData) : Int :=
  (streamingData.expiresInSeconds.bind toLongOrNull).getD 21600

-- Selection under the caller's options, and the result made of it.
def assemble (videoId : Str) (options : ExtractionOptions) (found : Resolution) :
    Action StreamResult := do
  let selection ← .ofExcept
    (FormatSelector.select env.av1UnsafeOnThisDevice found.resolvedFormats options)
  let now ← currentTimeMillis env
  return {
    videoId := videoId
    metadata := found.videoInfo
    videoStream := selection.video
    audioStream := selection.audio
    muxedStream := selection.muxed
    expiresAt := wrapLong (now + expiresInSeconds found.streamingData * 1000)
    streamUserAgent := found.winningClient.fields.userAgent }

def extract (schedule : List Nat) (videoId : Str) (options : ExtractionOptions) :
    Action StreamResult := do
  match ← ExtractionCache.get env videoId with
  | some result => return result
  | none =>
      let found ← resolve env schedule videoId options.regionCode
      let result ← assemble env videoId options found
      ExtractionCache.put env videoId result
      return result

end

end YouTubeExtractor

namespace YTDLPDroid

def extract (env : Env) (schedule : List Nat) (url : Str) (options : ExtractionOptions) :
    Action StreamResult := do
  let videoId ← .ofExcept (VideoIdParser.parse url)
  YouTubeExtractor.extract env schedule videoId options

end YTDLPDroid

end Ytdlpdroid
