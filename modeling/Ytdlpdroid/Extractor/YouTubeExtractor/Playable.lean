import Ytdlpdroid.Decipher.DecipherService.Playable
import Ytdlpdroid.Extractor.YouTubeExtractor.Confluence

namespace Ytdlpdroid.YouTubeExtractor

open Text Concurrent DecipherService PlayerJsRepository

-- The player JS, as the repository returns it when nothing else runs.
def playerJsAt (env : Env) (url : Str) (w : World) : Except Throwable Str :=
  ((fetchPlayerJs env url).run w).1

-- The URL that a format with this source has to get in a state.
def playableAt (env : Env) (url : Str) (w : World) (format : RawFormat) (source : Source) :
    Except Throwable Str := do
  let playerJs ← playerJsAt env url w
  (functionsAt env playerJs w).playable format source

section

variable {env : Env} {url : Str} {o : Except Throwable Str} {pinned : Prop} {js : Str}
  {sigCode nCode : Except Throwable Str} {w : World} {format : RawFormat} {source : Source}

-- Formats whose outcomes no interference can change are resolved to the same list under
-- every schedule.
theorem resolveFormats_yields {I : World → Prop} {formats : List RawFormat}
    {outcome : RawFormat → Except Throwable Str}
    (h : ∀ format ∈ formats, Prog.Yields I (outcome format) (buildPlayableUrl env format url))
    (schedule : List Nat) :
    Prog.Yields I (.ok (formats.filterMap fun format => (outcome format).toOption.map (format, ·)))
      (resolveFormats env schedule url formats) := by
  let task (format : RawFormat) : Except Throwable (RawFormat × Str) := do
    let playable ← outcome format
    return (format, playable)
  have htasks :
      List.Forall₂ (fun task o => Prog.Yields I o task) (formats.map (resolveFormat env url))
      (formats.map task) := by
    rw [List.forall₂_map_left_iff, List.forall₂_map_right_iff, List.forall₂_same]
    exact fun format hm => (h format hm).seq fun playable _ => rfl
  have hoption (format : RawFormat) :
      (task format).toOption = (outcome format).toOption.map (format, ·) := by
    cases houtcome : outcome format <;> simp only [task, houtcome] <;> rfl
  refine (Prog.par_yields schedule htasks).bind (congrArg Except.ok ?_)
  rw [List.filterMap_map]
  exact List.filterMap_congr fun format _ => (hoption format).symm

theorem playerJsAt_eq (hdisk : env.SoundDisk) (hw : Shared env url o pinned js sigCode nCode w) :
    playerJsAt env url w = o := ((fetchPlayerJs_shared hdisk).run hw).1

theorem buildPlayableUrl_yields (hsteady : env.SteadyEngine) (hdisk : env.SoundDisk)
    (hjs : ∀ text, o = .ok text → js = text) (hw : Shared env url o pinned js sigCode nCode w)
    (hfree : ∀ playerJs, playerJsAt env url w = .ok playerJs →
      (functionsAt env playerJs w).AddsNoSeparator)
    (hsource : source.Describes format) :
    Prog.Yields (Shared env url o pinned js sigCode nCode) (playableAt env url w format source)
      (buildPlayableUrl env format url) := by
  have hfetch : Prog.Yields (Shared env url o pinned js sigCode nCode) o (fetchPlayerJs env url) :=
    fetchPlayerJs_shared hdisk
  have hplayerJs := playerJsAt_eq hdisk hw
  rw [playableAt, hplayerJs]
  refine hfetch.seq fun text htext => ?_
  obtain rfl := hjs text htext
  exact decipherWith_yields (computed_functionsAt hsteady shared_coded hw)
    (hfree js (hplayerJs.trans htext)) hsource

end

-- What is played is what the formats say, for every interleaving of the deciphering: the
-- formats that can be deciphered, in their order, each with its own URL, the signature put
-- in as the last parameter and the values of n replaced.
theorem resolveFormats_refines (env : Env) (url : Str) (w : World) (schedule : List Nat)
    (formats : List RawFormat) (source : RawFormat → Source) (hsteady : env.SteadyEngine)
    (hanswer : env.SteadyAnswer url) (hdisk : env.SoundDisk)
    (hsource : ∀ format ∈ formats, (source format).Describes format)
    (hfree : ∀ playerJs, playerJsAt env url w = .ok playerJs →
      (functionsAt env playerJs w).AddsNoSeparator) :
    ((resolveFormats env schedule url formats).run w).1 = .ok (formats.filterMap fun format =>
      (playableAt env url w format (source format)).toOption.map (format, ·)) := by
  obtain ⟨o, pinned, js, sigCode, nCode, hjs, hshared⟩ := exists_shared hsteady hanswer w
  exact ((resolveFormats_yields (fun format hm =>
    buildPlayableUrl_yields hsteady hdisk hjs hshared hfree (hsource format hm))
      schedule).run hshared).1

def rotatedUrl : StreamUrl where
  base := str "https://r/play"
  params := [str "fn=1", str "n=abc"]
  base_free := by simp [SeparatorFree, isSeparator, str]
  params_free := by simp [SeparatorFree, isSeparator, str]

def unsignedUrl : StreamUrl where
  base := str "https://r/"
  params := [str "n=xy", str "a=1"]
  base_free := by simp [SeparatorFree, isSeparator, str]
  params_free := by simp [SeparatorFree, isSeparator, str]

-- The cipher of this URL. The slashes need not be escaped.
def unsignedCipher : Cipher where
  fields :=
    [(str "s", str "aB-9"), (str "sp", str "sg"), (str "url", str "https://r/%3Fn%3Dxy%26a%3D1")]
  nonempty := by simp
  names_free := by simp [str]
  values_free := by simp [str]

theorem unsignedCipher_describes :
    unsignedCipher.Describes (str "aB-9") (some (str "sg")) unsignedUrl where
  signature := by decide
  name := by decide
  url := ⟨str "https://r/%3Fn%3Dxy%26a%3D1", by decide, by decide +kernel⟩
  signature_free := by simp [SeparatorFree, isSeparator, str]
  name_free := by simp [SeparatorFree, isSeparator, str]

def rotated : RawFormat where
  itag := 140
  url := some rotatedUrl.text
  mimeType := str "audio/mp4"

def unsigned : RawFormat where
  itag := 18
  signatureCipher := some unsignedCipher.text
  mimeType := str "video/mp4"

def sources (format : RawFormat) : Source :=
  if format.url.isSome then .direct rotatedUrl
  else if format.signatureCipher.isSome then .ciphered (str "aB-9") (some (str "sg")) unsignedUrl
  else .absent

-- A world that knows the player and its functions.
def playerWorld : World where
  extractionCache := { maxSize := 30 }
  memCache := Collections.LinkedHashMap.empty.put playerJsUrl (str "player")
  sigFunctionCache := fun _ => some (str "function(a)\x7breturn a\x7d")
  nFunctionCache := fun _ => some (str "function(a)\x7breturn a\x7d")

-- An engine that reverses, and three tasks that take turns; one of them has nothing to play.
theorem resolveFormats_refines_reversed :
    ((resolveFormats NParamDecipherer.reversingEnv [1, 0, 2, 1] playerJsUrl
      [rotated, withoutUrl, unsigned]).run
      playerWorld).1.map (List.map Prod.snd) =
        .ok [str "https://r/play?fn=1&n=cba", str "https://r/?n=yx&a=1&sg=9-Ba"] := by
  have hsteady : NParamDecipherer.reversingEnv.SteadyEngine := fun _ => rfl
  have hsource : ∀ format ∈ [rotated, withoutUrl, unsigned], (sources format).Describes format := by
    simp only [List.forall_mem_cons, List.not_mem_nil, false_implies, implies_true, and_true]
    exact ⟨rfl, ⟨rfl, rfl⟩, rfl, List.cons_ne_nil _ _, unsignedCipher,
      unsignedCipher_describes, rfl⟩
  have hfree : ∀ playerJs, playerJsAt NParamDecipherer.reversingEnv playerJsUrl playerWorld =
      .ok playerJs →
      (functionsAt NParamDecipherer.reversingEnv playerJs playerWorld).AddsNoSeparator := by
    intro playerJs _ s decrypted hs h c hc
    obtain rfl : s.reverse = decrypted := Except.ok.inj h
    exact hs c (List.mem_reverse.mp hc)
  rw [resolveFormats_refines NParamDecipherer.reversingEnv playerJsUrl playerWorld [1, 0, 2, 1]
    [rotated, withoutUrl, unsigned] sources hsteady (fun _ => rfl) (fun _ => rfl) hsource hfree]
  decide +kernel

end Ytdlpdroid.YouTubeExtractor
