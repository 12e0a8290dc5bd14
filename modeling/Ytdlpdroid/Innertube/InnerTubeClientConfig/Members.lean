import Ytdlpdroid.Extractor.YouTubeExtractor
import Ytdlpdroid.Text.Json.Theorems
import Ytdlpdroid.Text.Lines

namespace Ytdlpdroid.InnerTubeClientConfig

open Text Json

-- The members of a request, each by the names that lead to it.
def keys (names : List Str) : List PathStep := names.map fun name => .key (utf16 name)

def clientMembers : InnerTubeClientConfig → List Str
  | ANDROID_VR =>
      [str "androidSdkVersion", str "osName", str "osVersion", str "deviceMake", str "deviceModel"]
  | ANDROID | ANDROID_TESTSUITE => [str "androidSdkVersion", str "osName", str "osVersion"]
  | TVHTML5_SIMPLY_EMBEDDED | MWEB | WEB_EMBEDDED => []
  | IOS => [str "osName", str "osVersion", str "deviceMake", str "deviceModel"]
  | WEB => [str "originalUrl", str "platform", str "utcOffsetMinutes"]

def headMembers (config : InnerTubeClientConfig) : List (List Str) :=
  [[], [str "context"], [str "context", str "client"]] ++
    ([str "clientName", str "clientVersion", str "userAgent"] ++ config.clientMembers ++
      [str "hl"]).map
      fun name => [str "context", str "client", name]

def regionMember : List Str := [str "context", str "client", str "gl"]

-- The lines of the raw string before the region, and after it, without its blank ends.
def headLines (config : InnerTubeClientConfig) : List Str :=
  ((config.bodyLines [] none none none).take 11).tail

-- What is read from the lines before the region: where the reader is then, and the members.
theorem headLines_checked : ∀ config ∈ YouTubeExtractor.clientChain,
    (∀ line ∈ config.headLines, Unbroken line) ∧
      ((Reader.start.runLines (config.headLines.map (List.drop 8))).map
        fun found => (found.1, found.2.map Entry.path)) =
        some (⟨(keys [str "context", str "client"]).reverse, .key⟩,
          config.headMembers.map keys) := by
  decide +kernel

theorem mem_clientChain (config : InnerTubeClientConfig) :
    config ∈ YouTubeExtractor.clientChain := by
  cases config <;> decide

end Ytdlpdroid.InnerTubeClientConfig
