import Ytdlpdroid.Concurrent.Ends
import Ytdlpdroid.Extractor.YouTubeExtractor.Precedence
import Ytdlpdroid.Extractor.YouTubeExtractor.Playable
import Ytdlpdroid.Extractor.YouTubeExtractor.Runs
import Ytdlpdroid.Extractor.YouTubeExtractor.Usable

namespace Ytdlpdroid.YouTubeExtractor

open Text Concurrent DecipherService PlayerJsRepository

-- An extraction as a function of what the site says, without state, caches and order of accesses.

-- The error of a client after which the next one is asked.
def passedOver : Except Throwable RawPlayerResponse → Option Throwable
  | .ok _ => none
  | .error e => if e.isYTDLPError ∧ e.cls ≠ .liveStreamNotSupported then some e else none

-- The first client decides that is not passed over, and if there is none, the errors of all do.
def chosenAmong (videoId : Str)
    (verdict : InnerTubeClientConfig → Except Throwable RawPlayerResponse) (seen : List Throwable)
    (clients : List InnerTubeClientConfig) :
    Except Throwable (RawPlayerResponse × InnerTubeClientConfig) :=
  match clients.find? fun client => (passedOver (verdict client)).isNone with
  | some client => (verdict client).map (·, client)
  | none =>
      let errors := seen ++ clients.filterMap fun client => passedOver (verdict client)
      .error (terminalError videoId errors.getLast? (lastGeoBlocked errors))

-- What the site says about a video: the player that the watch page names, and what each client
-- makes of its answer.
structure Site where
  playerJsUrl : Except Throwable Str
  verdict : InnerTubeClientConfig → Except Throwable RawPlayerResponse

-- The formats of the chosen response, as far as they can be deciphered.
def resolutionOf (decipher : Str → RawFormat → Option Str) (videoId : Str) (site : Site) :
    Except Throwable Resolution := do
  let (response, winningClient) ← chosenAmong videoId site.verdict [] clientChain
  let (videoInfo, streamingData) ← checkResponse videoId response
  let url ← site.playerJsUrl
  let resolvedFormats := (allFormats streamingData).filterMap fun format =>
    (decipher url format).map (format, ·)
  if resolvedFormats.isEmpty then .error (YTDLPError.noStreamsFound videoId)
  else return { response, winningClient, videoInfo, streamingData, resolvedFormats }

-- The result at a time.
def resultOf (av1Unsafe : Bool) (decipher : Str → RawFormat → Option Str) (videoId : Str)
    (options : ExtractionOptions) (site : Site) (now : Int) : Except Throwable StreamResult := do
  let found ← resolutionOf decipher videoId site
  let selection ← FormatSelector.select av1Unsafe found.resolvedFormats options
  return streamResult videoId found selection now

section

variable {videoId : Str} {verdict : InnerTubeClientConfig → Except Throwable RawPlayerResponse}
  {client : InnerTubeClientConfig} {seen : List Throwable} {rest : List InnerTubeClientConfig}

theorem chosenAmong_decides (h : passedOver (verdict client) = none) :
    chosenAmong videoId verdict seen (client :: rest) = (verdict client).map (·, client) := by
  rw [chosenAmong, List.find?_cons_of_pos (by rw [h]; rfl)]

theorem chosenAmong_passes {e : Throwable} (h : passedOver (verdict client) = some e) :
    chosenAmong videoId verdict seen (client :: rest) = chosenAmong videoId verdict
      (seen ++ [e]) rest := by
  rw [chosenAmong, List.find?_cons_of_neg (by simp [h]), chosenAmong]
  simp only [List.filterMap_cons, h, List.append_assoc, List.singleton_append]

theorem passedOver_error {e : Throwable} : passedOver (.error e) =
    if e.isYTDLPError ∧ e.cls ≠ .liveStreamNotSupported then some e else none := rfl

end

end Ytdlpdroid.YouTubeExtractor
