import Ytdlpdroid.Decipher.NParamDecipherer
import Ytdlpdroid.Decipher.PlayerJsRepository
import Ytdlpdroid.Decipher.SignatureDecipherer

namespace Ytdlpdroid

open Text Concurrent

namespace DecipherService

def neitherUrlNorCipher (format : RawFormat) : Throwable :=
  YTDLPError.noStreamsFound
    (str "itag " ++ decimalInt format.itag ++ str " has neither url nor signatureCipher")

def rawUrl (env : Env) (format : RawFormat) (playerJs : Str) : Action Str :=
  match format.url, format.signatureCipher with
  | some url, _ => return url
  | none, some signatureCipher => SignatureDecipherer.decrypt env signatureCipher playerJs
  | none, none => .throw (neitherUrlNorCipher format)

def buildPlayableUrl (env : Env) (format : RawFormat) (playerJsUrl : Str) : Action Str := do
  let playerJs ← PlayerJsRepository.fetchPlayerJs env playerJsUrl
  let rawUrl ← rawUrl env format playerJs
  NParamDecipherer.transform env rawUrl playerJs

end DecipherService

end Ytdlpdroid
