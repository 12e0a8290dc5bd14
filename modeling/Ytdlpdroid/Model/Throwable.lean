import Ytdlpdroid.Text.Basic

namespace Ytdlpdroid

open Text

-- The classes of the exceptions that the modelled code throws, catches or passes on.
-- The first ten are the subclasses of the sealed class YTDLPError.
inductive ThrowableClass
  | invalidUrl
  | videoUnavailable
  | geoBlocked
  | ageRestricted
  | liveStreamNotSupported
  | noStreamsFound
  | decipherFailed
  | networkError
  | allClientsFailed
  | playerJsFetchFailed
  | ioException
  | serializationException
  | numberFormatException
  | illegalStateException
  | illegalArgumentException
  | stringIndexOutOfBoundsException
  | runtimeException
  | error
  deriving DecidableEq

-- `causes` is the chain of causes, the nearest first.
structure Throwable where
  cls : ThrowableClass
  message : Option Str
  causes : List (ThrowableClass × Option Str) := []
  deriving DecidableEq

namespace Throwable

def asCauses (e : Throwable) : List (ThrowableClass × Option Str) := (e.cls, e.message) :: e.causes

def isYTDLPError (e : Throwable) : Bool :=
  match e.cls with
  | .invalidUrl | .videoUnavailable | .geoBlocked | .ageRestricted | .liveStreamNotSupported
  | .noStreamsFound | .decipherFailed | .networkError | .allClientsFailed
  | .playerJsFetchFailed => true
  | _ => false

def isIOException (e : Throwable) : Bool := e.cls = .ioException

-- Everything but the class Error, which `catch (_: Exception)` does not catch.
def isException (e : Throwable) : Bool := e.cls ≠ .error

def ioException (message : Option Str) : Throwable := ⟨.ioException, message, []⟩

end Throwable

namespace YTDLPError

-- `reason?.let { ": $it" } ?: ""`
def reasonSuffix : Option Str → Str
  | none => []
  | some reason => str ": " ++ reason

def invalidUrl (input : Str) : Throwable :=
  ⟨.invalidUrl, some (str "Not a recognisable YouTube URL or video ID: \"" ++ input ++ str "\""),
    []⟩

def videoUnavailable (videoId : Str) (reason : Option Str) : Throwable :=
  ⟨.videoUnavailable,
    some (str "Video " ++ videoId ++ str " is unavailable" ++ reasonSuffix reason), []⟩

def geoBlocked (videoId : Str) (reason : Option Str) : Throwable :=
  ⟨.geoBlocked, some (str "Video " ++ videoId ++ str " is not available in this region" ++
    reasonSuffix reason), []⟩

def ageRestricted (videoId : Str) : Throwable :=
  ⟨.ageRestricted, some (str "Video " ++ videoId ++
    str " requires age verification — all clients failed to bypass"), []⟩

def liveStreamNotSupported (videoId : Str) : Throwable :=
  ⟨.liveStreamNotSupported, some (str "Video " ++ videoId ++
    str " is a live stream; live streams are not supported"), []⟩

def noStreamsFound (videoId : Str) : Throwable :=
  ⟨.noStreamsFound, some (str "No playable streams found for video " ++ videoId), []⟩

def decipherFailed (reason : Str) : Throwable :=
  ⟨.decipherFailed, some (str "Stream URL decryption failed: " ++ reason), []⟩

def networkError (reason : Str) (cause : Throwable) : Throwable :=
  ⟨.networkError, some (str "Network error: " ++ reason), cause.asCauses⟩

def allClientsFailed (videoId : Str) (lastError : Option Throwable) : Throwable :=
  ⟨.allClientsFailed,
    some (str "All InnerTube clients failed to retrieve streams for video " ++ videoId ++
      match lastError.bind Throwable.message with
      | none => []
      | some message => str " — " ++ message),
    match lastError with
    | none => []
    | some e => e.asCauses⟩

def playerJsFetchFailed (jsUrl : Str) (cause : Throwable) : Throwable :=
  ⟨.playerJsFetchFailed, some (str "Failed to fetch player JS from " ++ jsUrl), cause.asCauses⟩

end YTDLPError

end Ytdlpdroid
