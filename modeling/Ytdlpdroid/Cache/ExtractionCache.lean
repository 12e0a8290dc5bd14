import Ytdlpdroid.Model.World

namespace Ytdlpdroid

open Text Concurrent

namespace ExtractionCache

section

variable (env : Env)

-- The clock is read only for a key that has an entry.
def get (videoId : Str) : Action (Option StreamResult) :=
  .atomic fun w =>
    match w.extractionCache.map.lookup videoId with
    | none => (none, w)
    | some _ =>
        let (found, extractionCache) := w.extractionCache.get videoId (env.clock w.readings)
        (found, { w with extractionCache, readings := w.readings + 1 })

-- `MemoryCache.put`, which reads the clock itself.
def store (videoId : Str) (result : StreamResult) (ttlMs : Int) : Action Unit :=
  .atomic fun w =>
    ((), { w with
      extractionCache := w.extractionCache.put videoId result ttlMs (env.clock w.readings)
      readings := w.readings + 1 })

def put (videoId : Str) (result : StreamResult) : Action Unit := do
  let now ← currentTimeMillis env
  let ttlMs := wrapLong (result.expiresAt - now - 5 * 60000)
  if 0 < ttlMs then store env videoId result ttlMs

end

end ExtractionCache

end Ytdlpdroid
