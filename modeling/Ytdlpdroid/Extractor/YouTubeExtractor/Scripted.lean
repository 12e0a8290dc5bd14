import Ytdlpdroid.Decipher.DecipherService.Theorems
import Ytdlpdroid.Extractor.YouTubeExtractor.Chain

namespace Ytdlpdroid.YouTubeExtractor

open Text Concurrent

-- An environment in which every server answers alike at any time. The first client of the
-- chain gets one player response and all others get another one, the watch page names one
-- player JS, and the engine returns its argument.

-- The second header of a player request is the number of the client.
def clientOf (request : Request) : Option InnerTubeClientConfig :=
  request.headers[1]?.bind fun header =>
    clientChain.find? fun config => header.2 = config.fields.clientNumber

def watchPage : Str := str "\"jsUrl\":\"/s/player/a1/x/base.js\""

def playerJsUrl : Str := str "/s/player/a1/x/base.js"

def playerJs : Str := str "var a=1;"

def respond (content : Str) : Downstream := .response { code := 200, body := some (.text content) }

def scriptedBody (client : InnerTubeClientConfig) : Str :=
  if client = .ANDROID_VR then str "first" else str "others"

def scriptedNetwork (request : Request) : Downstream :=
  match clientOf request with
  | some client => respond (scriptedBody client)
  | none =>
      if startsWith request.url (str "https://www.youtube.com/watch") then respond watchPage
      else if request.url = PlayerJsRepository.fullUrl playerJsUrl then respond playerJs
      else .failure (Throwable.ioException none)

def scriptedEnv (first others : Except Str RawPlayerResponse) : Env where
  clock := fun n => n
  httpClient := HttpClientProvider.client
  network := fun _ request _ => scriptedNetwork request
  decodeFromString := fun content => if content = str "first" then first else others
  jsEngine := .custom (str "EchoEngine") fun _ _ argument => .ok argument

def scriptedOutcome (client : InnerTubeClientConfig) : Except Throwable Response :=
  .ok { code := 200, body := some (.text (scriptedBody client)) }

def freshWorld : World := { extractionCache := { maxSize := 50 } }

section

variable {first others : Except Str RawPlayerResponse}

theorem scriptedNetwork_cases (request : Request) :
    (∃ content, scriptedNetwork request = respond content) ∨
      scriptedNetwork request = .failure (Throwable.ioException none) := by
  unfold scriptedNetwork
  split
  · exact Or.inl ⟨_, rfl⟩
  · split_ifs
    · exact Or.inl ⟨_, rfl⟩
    · exact Or.inl ⟨_, rfl⟩
    · exact Or.inr rfl

theorem scriptedEnv_ioFailures : (scriptedEnv first others).IoFailures where
  exchange := by
    intro n request attempt e h
    rcases scriptedNetwork_cases request with ⟨content, hc⟩ | hc
    · exact absurd (hc.symm.trans h) (by simp [respond])
    · obtain rfl := Downstream.failure.inj (hc.symm.trans h)
      rfl
  reading := by
    intro n request attempt response e h hbody
    rcases scriptedNetwork_cases request with ⟨content, hc⟩ | hc
    · obtain rfl := Downstream.response.inj (hc.symm.trans h)
      simp at hbody
    · exact absurd (hc.symm.trans h) (by simp)

theorem clientOf_playerRequest (config : InnerTubeClientConfig) (videoId : Str)
    (visitorData regionCode : Option Str) (signatureTimestamp : Option Int) :
    clientOf
      (InnerTubeClient.playerRequest config videoId visitorData regionCode signatureTimestamp) =
      some config := by
  have hheader : (InnerTubeClient.playerRequest config videoId visitorData regionCode
      signatureTimestamp).headers[1]? =
        some (str "X-YouTube-Client-Name", config.fields.clientNumber) := rfl
  have hnumbers : ∀ config ∈ clientChain,
      clientChain.find? (fun other => config.fields.clientNumber = other.fields.clientNumber) =
        some config := by
    decide +kernel
  rw [clientOf, hheader, Option.bind_some]
  exact hnumbers config (by cases config <;> decide)

theorem execute_respond (content : Str) :
    HttpClientProvider.client.execute (fun _ => respond content) =
      .ok { code := 200, body := some (.text content) } := rfl

theorem scriptedEnv_answers (first others : Except Str RawPlayerResponse) (videoId : Str)
    (regionCode : Option Str) (signatureTimestamp : Option Int) :
    (scriptedEnv first others).Answers videoId regionCode signatureTimestamp scriptedOutcome := by
  intro n config visitorData
  have hclient := clientOf_playerRequest config videoId visitorData regionCode signatureTimestamp
  simp only [scriptedEnv, scriptedNetwork, hclient, execute_respond, scriptedOutcome]

theorem scriptedEnv_steady : (scriptedEnv first others).SteadyEngine := fun _ => rfl

end

end Ytdlpdroid.YouTubeExtractor
