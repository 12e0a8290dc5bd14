import Ytdlpdroid.Text.Regex

namespace Ytdlpdroid

open Text

inductive VideoCodec
  | AV1 | VP9_HDR | VP9 | H265 | H264 | VP8 | UNKNOWN
  deriving DecidableEq

def VideoCodec.priority : VideoCodec → Int
  | .AV1 => 50
  | .VP9_HDR => 45
  | .VP9 => 40
  | .H265 => 35
  | .H264 => 30
  | .VP8 => 10
  | .UNKNOWN => 0

inductive AudioCodec
  | OPUS | VORBIS | AAC | AC3 | MP3 | UNKNOWN
  deriving DecidableEq

def AudioCodec.priority : AudioCodec → Int
  | .OPUS => 50
  | .VORBIS => 40
  | .AAC => 30
  | .AC3 => 20
  | .MP3 => 10
  | .UNKNOWN => 0

namespace MimeTypeParser

def isVideo (mimeType : Str) : Bool := startsWith mimeType (str "video/")

def isAudio (mimeType : Str) : Bool := startsWith mimeType (str "audio/")

-- codecs="([^"]+)"
def codecsPattern : Regex :=
  .sequence [.literal (str "codecs=\""), .group 1 (.many (· != '"') 1 none), .literal (str "\"")]

def extractCodecString (mimeType : Str) : Str :=
  match codecsPattern.findGroup mimeType 1 with
  | some codecs => trim codecs
  | none => []

def detectVideoCodec (mimeType : Str) : VideoCodec :=
  let c := lowercase (extractCodecString mimeType)
  if startsWith c (str "av01") || startsWith c (str "av1") then .AV1
  else if containsText c (str "vp9") &&
      (containsText c (str "hdr") || containsText c (str "vp9.2")) then .VP9_HDR
  else if containsText c (str "vp9") then .VP9
  else if containsText c (str "hvc1") || containsText c (str "hev1") then .H265
  else if containsText c (str "avc1") || containsText c (str "avc3") then .H264
  else if containsText c (str "vp8") then .VP8
  else .UNKNOWN

def detectAudioCodec (mimeType : Str) : AudioCodec :=
  let c := lowercase (extractCodecString mimeType)
  if containsText c (str "opus") then .OPUS
  else if containsText c (str "vorbis") then .VORBIS
  else if containsText c (str "mp4a") || containsText c (str "aac") then .AAC
  else if containsText c (str "ac-3") || containsText c (str "ac3") then .AC3
  else if containsText c (str "mp3") then .MP3
  else .UNKNOWN

end MimeTypeParser

end Ytdlpdroid
