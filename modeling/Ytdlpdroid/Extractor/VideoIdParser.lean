import Ytdlpdroid.Text.Regex
import Ytdlpdroid.Model.Throwable

namespace Ytdlpdroid

open Text

namespace VideoIdParser

-- [A-Za-z0-9_-]
def isIdChar (c : Char) : Bool := Regex.isAlphanumeric c || c == '_' || c == '-'

-- ([A-Za-z0-9_-]{11})
def idGroup : Regex := .group 1 (.many isIdChar 11 (some 11))

def patterns : List Regex :=
  [.sequence [.chars fun c => c == '?' || c == '&', .literal (str "v="), idGroup],
    .sequence [.literal (str "youtu.be/"), idGroup],
    .sequence [.literal (str "youtube.com/"),
      .alt (.literal (str "embed")) (.alt (.literal (str "shorts")) (.literal (str "v"))),
      .literal (str "/"), idGroup],
    .sequence [.start, idGroup, .finish]]

def parse (input : Str) : Except Throwable Str :=
  let trimmed := trim input
  match patterns.findSome? fun pattern => pattern.findGroup trimmed 1 with
  | some id => .ok id
  | none => .error (YTDLPError.invalidUrl trimmed)

end VideoIdParser

end Ytdlpdroid
