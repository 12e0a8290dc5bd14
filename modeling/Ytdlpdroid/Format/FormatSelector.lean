import Ytdlpdroid.Format.MimeTypeParser
import Ytdlpdroid.Model.Numbers
import Ytdlpdroid.Model.Types

namespace Ytdlpdroid

open Text

namespace FormatSelector

structure Selection where
  video : Option StreamFormat
  audio : StreamFormat
  muxed : Option StreamFormat
  deriving DecidableEq

def toLongRange : Option RawRange → Except Throwable (Option LongRange)
  | none => .ok none
  | some range => do
      let first ← toLong range.first
      let last ← toLong range.last
      return some ⟨first, last⟩

def toStreamFormat (raw : RawFormat) (url : Str) : Except Throwable StreamFormat := do
  let initRange ← toLongRange raw.initRange
  let indexRange ← toLongRange raw.indexRange
  return {
    itag := raw.itag
    url := url
    mimeType := raw.mimeType
    codec := MimeTypeParser.extractCodecString raw.mimeType
    bitrate := raw.bitrate
    width := raw.width
    height := raw.height
    fps := raw.fps
    audioSampleRate := raw.audioSampleRate.bind toIntOrNull
    contentLength := raw.contentLength.bind toLongOrNull
    initRange := initRange
    indexRange := indexRange
    approximateDurationMs := (raw.approxDurationMs.bind toLongOrNull).getD 0 }

-- Video-only adaptive: has width, no audioSampleRate.
def isVideoOnly (f : RawFormat) : Bool :=
  MimeTypeParser.isVideo f.mimeType && f.width.isSome && f.audioSampleRate.isNone

def isAudioOnly (f : RawFormat) : Bool := MimeTypeParser.isAudio f.mimeType

-- Video and audio in one stream.
def isMuxed (f : RawFormat) : Bool := MimeTypeParser.isVideo f.mimeType && f.audioSampleRate.isSome

def selectBestVideo (av1UnsafeOnThisDevice : Bool) (formats : List StreamFormat)
    (opts : ExtractionOptions) : Option StreamFormat :=
  let capped := formats.filter fun f =>
    match opts.maxVideoHeight with
    | none => true
    | some maxHeight => f.height.getD 0 ≤ maxHeight
  let candidates :=
    if opts.preferH264 then
      let h264Only := capped.filter fun f => MimeTypeParser.detectVideoCodec f.mimeType = .H264
      if h264Only ≠ [] then h264Only else capped
    else if av1UnsafeOnThisDevice then
      let nonAv1 := capped.filter fun f => MimeTypeParser.detectVideoCodec f.mimeType ≠ .AV1
      if nonAv1 ≠ [] then nonAv1 else capped
    else capped
  maxWithOrNull (fun f => [f.height.getD 0, f.fps.getD 0,
    (MimeTypeParser.detectVideoCodec f.mimeType).priority, f.bitrate]) candidates

def selectBestAudio (formats : List StreamFormat) (opts : ExtractionOptions) :
    Option StreamFormat :=
  maxWithOrNull (fun f =>
    let codec := MimeTypeParser.detectAudioCodec f.mimeType
    [if !opts.preferOpusAudio ∧ codec = .AAC then 100 else codec.priority, f.bitrate]) formats

-- Every format of a class is converted before one is chosen.
def convert (p : RawFormat → Bool) (formats : List (RawFormat × Str)) :
    Except Throwable (List StreamFormat) :=
  (formats.filter fun (f, _) => p f).mapM fun (f, url) => toStreamFormat f url

def select (av1UnsafeOnThisDevice : Bool) (formats : List (RawFormat × Str))
    (options : ExtractionOptions) : Except Throwable Selection := do
  let videoFormats ← convert isVideoOnly formats
  let audioFormats ← convert isAudioOnly formats
  let muxedFormats ← convert isMuxed formats
  let bestMuxed := maxWithOrNull (fun f => [f.height.getD 0]) muxedFormats
  match selectBestAudio audioFormats options with
  | some bestAudio =>
      return {
        video := selectBestVideo av1UnsafeOnThisDevice videoFormats options
        audio := bestAudio
        muxed := if options.includeMuxedFallback then bestMuxed else none }
  | none =>
      match bestMuxed with
      | some muxed => return { video := none, audio := muxed, muxed := some muxed }
      | none => throw (YTDLPError.noStreamsFound (str "No audio-only adaptive stream found"))

end FormatSelector

end Ytdlpdroid
