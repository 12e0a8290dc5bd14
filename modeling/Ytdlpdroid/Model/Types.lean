import Ytdlpdroid.Text.Basic

namespace Ytdlpdroid

open Text

structure ExtractionOptions where
  maxVideoHeight : Option Int := none
  preferH264 : Bool := false
  preferOpusAudio : Bool := true
  includeMuxedFallback : Bool := true
  regionCode : Option Str := none
  deriving DecidableEq

structure LongRange where
  first : Int
  last : Int
  deriving DecidableEq

structure StreamFormat where
  itag : Int
  url : Str
  mimeType : Str
  codec : Str
  bitrate : Int
  width : Option Int
  height : Option Int
  fps : Option Int
  audioSampleRate : Option Int
  contentLength : Option Int
  initRange : Option LongRange
  indexRange : Option LongRange
  approximateDurationMs : Int
  deriving DecidableEq

structure VideoInfo where
  videoId : Str
  title : Str
  author : Str
  channelId : Str
  durationSeconds : Int
  isLive : Bool
  thumbnailUrl : Str
  keywords : List Str
  deriving DecidableEq

structure StreamResult where
  videoId : Str
  metadata : VideoInfo
  videoStream : Option StreamFormat
  audioStream : StreamFormat
  muxedStream : Option StreamFormat
  expiresAt : Int
  streamUserAgent : Str
  deriving DecidableEq

structure RawPlayabilityStatus where
  status : Str
  reason : Option Str := none
  deriving DecidableEq

structure RawRange where
  first : Str
  last : Str
  deriving DecidableEq

structure RawFormat where
  itag : Int
  url : Option Str := none
  signatureCipher : Option Str := none
  mimeType : Str
  bitrate : Int := 0
  width : Option Int := none
  height : Option Int := none
  fps : Option Int := none
  audioSampleRate : Option Str := none
  approxDurationMs : Option Str := none
  contentLength : Option Str := none
  initRange : Option RawRange := none
  indexRange : Option RawRange := none
  deriving DecidableEq

structure RawStreamingData where
  expiresInSeconds : Option Str := none
  formats : List RawFormat := []
  adaptiveFormats : List RawFormat := []
  deriving DecidableEq

structure RawThumbnail where
  url : Str
  width : Int := 0
  height : Int := 0
  deriving DecidableEq

structure RawVideoDetails where
  videoId : Str
  title : Str
  lengthSeconds : Option Str := none
  author : Option Str := none
  channelId : Option Str := none
  isLiveContent : Bool := false
  keywords : List Str := []
  thumbnail : Option (List RawThumbnail) := none
  deriving DecidableEq

structure RawPlayerResponse where
  playabilityStatus : RawPlayabilityStatus
  streamingData : Option RawStreamingData := none
  videoDetails : Option RawVideoDetails := none
  deriving DecidableEq

end Ytdlpdroid
