import Mathlib.Logic.Function.Basic
import Ytdlpdroid.Text.Basic

namespace Ytdlpdroid

open Text

-- A cookie as far as the jar's callers tell it from others of its host. The jar reads no
-- field of it.
structure Cookie where
  name : Str
  value : Str
  deriving DecidableEq

structure InMemoryCookieJar where
  store : Str → Option (List Cookie) := fun _ => none

namespace InMemoryCookieJar

-- `host` is that of the URL.
def saveFromResponse (jar : InMemoryCookieJar) (host : Str) (cookies : List Cookie) :
    InMemoryCookieJar :=
  if cookies.isEmpty then jar else { store := Function.update jar.store host (some cookies) }

def loadForRequest (jar : InMemoryCookieJar) (host : Str) : List Cookie := (jar.store host).getD []

@[simp] theorem loadForRequest_empty (host : Str) : loadForRequest {} host = [] := rfl

theorem loadForRequest_saveFromResponse (jar : InMemoryCookieJar) (host other : Str)
    (cookies : List Cookie) :
    (jar.saveFromResponse host cookies).loadForRequest other =
      if other = host ∧ cookies ≠ [] then cookies else jar.loadForRequest other := by
  unfold saveFromResponse loadForRequest
  cases cookies with
  | nil => simp
  | cons first rest =>
      by_cases hhost : other = host
      · simp [hhost]
      · simp [hhost]

end InMemoryCookieJar

end Ytdlpdroid
