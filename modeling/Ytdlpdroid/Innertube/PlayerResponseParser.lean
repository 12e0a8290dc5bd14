import Ytdlpdroid.Model.Numbers
import Ytdlpdroid.Model.Types

namespace Ytdlpdroid

open Text

namespace PlayerResponseParser

-- The playability reason indicates a geo/region restriction.
def isGeoRestricted (reason : Option Str) : Bool :=
  match reason with
  | none => false
  | some reason =>
      let r := lowercase reason
      containsText r (str "country") || containsText r (str "region") ||
        containsText r (str "location") || containsText r (str "not available in your") ||
        containsText r (str "not made this video available")

def unavailable (videoId : Str) (reason : Option Str) : Throwable :=
  if isGeoRestricted reason then YTDLPError.geoBlocked videoId reason
  else YTDLPError.videoUnavailable videoId reason

def checkPlayability (raw : RawPlayerResponse) (videoId : Str) : Except Throwable Unit :=
  let status := raw.playabilityStatus.status
  if status = str "OK" then .ok ()
  else if status = str "LOGIN_REQUIRED" then .error (YTDLPError.ageRestricted videoId)
  else if status = str "UNPLAYABLE" ∨ status = str "ERROR" then
    .error (unavailable videoId raw.playabilityStatus.reason)
  else if status = str "LIVE_STREAM_OFFLINE" then .error (YTDLPError.liveStreamNotSupported videoId)
  else .error (YTDLPError.videoUnavailable videoId (some (str "status: " ++ status)))

-- `error("No videoDetails in response")`
def noVideoDetails : Throwable :=
  ⟨.illegalStateException, some (str "No videoDetails in response"), []⟩

-- A product of two Ints is an Int.
def bestThumb (thumbnails : List RawThumbnail) : Option RawThumbnail :=
  maxWithOrNull (fun thumbnail => [wrapInt (thumbnail.width * thumbnail.height)]) thumbnails

def extractVideoInfo (raw : RawPlayerResponse) : Except Throwable VideoInfo :=
  match raw.videoDetails with
  | none => .error noVideoDetails
  | some details => .ok {
      videoId := details.videoId
      title := details.title
      author := details.author.getD []
      channelId := details.channelId.getD []
      durationSeconds := (details.lengthSeconds.bind toLongOrNull).getD 0
      isLive := details.isLiveContent
      thumbnailUrl := ((details.thumbnail.bind bestThumb).map RawThumbnail.url).getD []
      keywords := details.keywords }

def isLive (raw : RawPlayerResponse) : Bool :=
  match raw.videoDetails with
  | none => false
  | some details => details.isLiveContent

end PlayerResponseParser

end Ytdlpdroid
