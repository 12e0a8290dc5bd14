import Ytdlpdroid.Concurrent.Ends
import Ytdlpdroid.Decipher.DecipherService.Theorems
import Ytdlpdroid.Decipher.NParamDecipherer.Theorems
import Ytdlpdroid.Decipher.SignatureDecipherer.Theorems

namespace Ytdlpdroid.DecipherService

open Text Concurrent FormEncoding NParamDecipherer SignatureDecipherer

-- A URL as its base and its parameters. A separator stands only before a parameter.
structure StreamUrl where
  base : Str
  params : List Str
  base_free : SeparatorFree base
  params_free : ∀ param ∈ params, SeparatorFree param

def StreamUrl.text (url : StreamUrl) : Str := url.base ++ query url.params

-- A cipher: fields with names and values, as they stand in it. Only the URL is escaped.
structure Cipher where
  fields : List (Str × Str)
  nonempty : fields ≠ []
  names_free : ∀ field ∈ fields, '&' ∉ field.1 ∧ '=' ∉ field.1
  values_free : ∀ field ∈ fields, '&' ∉ field.2

def Cipher.text (cipher : Cipher) : Str := joinFields cipher.fields

-- Of several fields of one name the last one counts.
def Cipher.value (cipher : Cipher) (name : Str) : Option Str := cipher.fields.reverse.lookup name

-- What a format says of the URL of its stream: the URL, or one that lacks the parameter with the
-- deciphered signature, or nothing.
inductive Source
  | direct (url : StreamUrl)
  | ciphered (s : Str) (sp : Option Str) (url : StreamUrl)
  | absent

-- The cipher names the signature, the parameter for it and the URL.
structure Cipher.Describes (cipher : Cipher) (s : Str) (sp : Option Str) (url : StreamUrl) :
    Prop where
  signature : cipher.value (str "s") = some s
  name : cipher.value (str "sp") = sp
  url : ∃ escaped, cipher.value (str "url") = some escaped ∧ decode escaped = some url.text
  signature_free : SeparatorFree s
  name_free : SeparatorFree (sp.getD (str "sig"))

def Source.Describes (format : RawFormat) : Source → Prop
  | .direct url => format.url = some url.text
  | .ciphered s sp url => format.url = none ∧ url.params ≠ [] ∧
      ∃ cipher : Cipher, cipher.Describes s sp url ∧ format.signatureCipher = some cipher.text
  | .absent => format.url = none ∧ format.signatureCipher = none

-- What a player makes of a signature and of a value of n.
structure Functions where
  signature : Str → Except Throwable Str
  token : Str → Except Throwable Str

-- Every value of n is replaced by what is made of the first one.
def Functions.renew (functions : Functions) (base : Str) (params : List Str) :
    Except Throwable Str :=
  match params.findSome? nValue with
  | none => .ok (base ++ query params)
  | some value => do
      let transformed ← functions.token value
      return base ++ query (params.map (withN transformed))

-- The parameter with the deciphered signature.
def signatureParam (sp : Option Str) (decrypted : Str) : Str :=
  sp.getD (str "sig") ++ str "=" ++ decrypted

-- The URL from which a stream can be played: the signature is deciphered and becomes the last
-- parameter, and then the values of n are replaced.
def Functions.playable (functions : Functions) (format : RawFormat) : Source → Except Throwable Str
  | .direct url => functions.renew url.base url.params
  | .ciphered s sp url => do
      let decrypted ← functions.signature s
      functions.renew url.base (url.params ++ [signatureParam sp decrypted])
  | .absent => .error (neitherUrlNorCipher format)

-- The program for one signature.
def decipherSignature (env : Env) (playerJs encSig : Str) : Action Str := do
  let fnCode ← SignatureDecipherer.functionCode playerJs
  executeJs env fnCode encSig

-- The functions of a player JS, as they are when nothing else runs.
def functionsAt (env : Env) (playerJs : Str) (w : World) : Functions where
  signature encSig := ((decipherSignature env playerJs encSig).run w).1
  token value := ((decipherN env playerJs value).run w).1

-- The functions are those of the programs under every interference that keeps the invariant.
structure Functions.Computed (functions : Functions) (env : Env) (playerJs : Str)
    (I : World → Prop) : Prop where
  signature :
    ∀ encSig, Prog.Yields I (functions.signature encSig) (decipherSignature env playerJs encSig)
  token : ∀ value, Prog.Yields I (functions.token value) (decipherN env playerJs value)

-- No separator comes into a signature when it is deciphered.
def Functions.AddsNoSeparator (functions : Functions) : Prop :=
  ∀ s decrypted, SeparatorFree s → functions.signature s = .ok decrypted → SeparatorFree decrypted

section

variable {env : Env} {playerJs : Str} {I : World → Prop} {functions : Functions}
  {format : RawFormat}
  {w : World} {sigCode nCode : Except Throwable Str}

theorem computed_functionsAt (h : env.SteadyEngine) (hI : Coded env playerJs sigCode nCode I)
    (hw : I w) :
    (functionsAt env playerJs w).Computed env playerJs I := by
  have hsignature (encSig : Str) : Prog.Determined (Coded env playerJs sigCode nCode)
      (decipherSignature env playerJs encSig) :=
    Prog.Determined.bind ⟨sigCode, fun _ hI => sigFunctionCode_yields hI⟩ fun fnCode =>
      Determined.coded (executeJs_determined h fnCode encSig)
  have htoken (value : Str) :
      Prog.Determined (Coded env playerJs sigCode nCode) (decipherN env playerJs value) := by
    refine Prog.Determined.bind ⟨nCode, fun _ hI => nFunctionCode_yields hI⟩ fun fnCode => ?_
    split_ifs
    · exact Determined.coded (transformViaFullPlayerJs_determined h playerJs value)
    · exact Determined.coded (executeJs_determined h fnCode value)
  exact ⟨fun encSig => (hsignature encSig).yields hI hw, fun value => (htoken value).yields hI hw⟩

theorem transform_yields (h : functions.Computed env playerJs I) {base : Str} {params : List Str}
    (hbase : SeparatorFree base) (hparams : ∀ param ∈ params, SeparatorFree param) :
    Prog.Yields I (functions.renew base params)
      (transform env (base ++ query params) playerJs) := by
  rw [transform_eq, findGroup_query hbase hparams, Functions.renew]
  cases params.findSome? nValue with
  | none => rfl
  | some value =>
      refine (h.token value).seq fun transformed _ => ?_
      rw [replace_query transformed hbase hparams]
      exact rfl

theorem Cipher.splitFields_text (cipher : Cipher) :
    splitFields cipher.text = .ok cipher.fields := by
  refine splitFields_joinFields cipher.nonempty fun field hm => ?_
  obtain ⟨hand, hequals⟩ := cipher.names_free field hm
  simp [joinField, hand, hequals, cipher.values_free field hm]

theorem decrypt_eq {cipher : Cipher} {s : Str} {sp : Option Str} {url : StreamUrl}
    (h : cipher.Describes s sp url) : decrypt env cipher.text playerJs = do
      let decrypted ← decipherSignature env playerJs s
      return url.text ++ str "&" ++ signatureParam sp decrypted := by
  obtain ⟨escaped, hurl, hdecode⟩ := h.url
  have hencSig : encSig cipher.fields = .ok s := by
    rw [encSig, show param cipher.fields (str "s") = some s from h.signature]
  have hbaseUrl : baseUrl cipher.fields = .ok url.text := by
    rw [baseUrl, show param cipher.fields (str "url") = some escaped from hurl]
    simp only [hdecode]
  have hname : param cipher.fields (str "sp") = sp := h.name
  simp only [decrypt, cipher.splitFields_text, hencSig, hbaseUrl, hname, Prog.ofExcept_ok_bind,
    decipherSignature, signatureParam, Prog.bind_bind, List.append_assoc]

theorem query_concat {params : List Str} (hne : params ≠ []) (param : Str) :
    query (params ++ [param]) = query params ++ str "&" ++ param := by
  obtain ⟨first, rest, rfl⟩ := List.exists_cons_of_ne_nil hne
  simp only [List.cons_append, query, moreParams_append, moreParams_cons, List.append_assoc]
  simp [moreParams, str]

theorem separatorFree_signatureParam {sp : Option Str} {decrypted : Str}
    (hname : SeparatorFree (sp.getD (str "sig"))) (h : SeparatorFree decrypted) :
    SeparatorFree (signatureParam sp decrypted) := by
  have hequals : SeparatorFree (str "=") := by simp [SeparatorFree, isSeparator, str]
  exact (hname.append hequals).append h

-- What is done with a format comes to the URL that its source stands for.
theorem decipherWith_yields (h : functions.Computed env playerJs I)
    (hfree : functions.AddsNoSeparator) {source : Source} (hsource : source.Describes format) :
    Prog.Yields I (functions.playable format source) (decipherWith env format playerJs) := by
  cases source with
  | direct url =>
      have hurl : format.url = some url.text := hsource
      rw [decipherWith, rawUrl, hurl]
      exact transform_yields h url.base_free url.params_free
  | ciphered s sp url =>
      obtain ⟨hurl, hne, cipher, hdescribes, hcipher⟩ := hsource
      rw [decipherWith, rawUrl, hurl, hcipher, Functions.playable]
      dsimp only
      rw [decrypt_eq hdescribes, Prog.bind_bind]
      refine (h.signature s).seq fun decrypted hdecrypted => ?_
      have htext : url.text ++ str "&" ++ signatureParam sp decrypted =
          url.base ++ query (url.params ++ [signatureParam sp decrypted]) := by
        rw [query_concat hne, StreamUrl.text]
        simp only [List.append_assoc]
      have hparams : ∀ param ∈ url.params ++ [signatureParam sp decrypted],
          SeparatorFree param := by
        intro param hm
        rcases List.mem_append.mp hm with hm | hm
        · exact url.params_free param hm
        · obtain rfl := List.mem_singleton.mp hm
          exact separatorFree_signatureParam hdescribes.name_free
            (hfree _ _ hdescribes.signature_free hdecrypted)
      have htransform := transform_yields h url.base_free hparams
      rw [← htext] at htransform
      exact htransform
  | absent =>
      obtain ⟨hurl, hcipher⟩ := hsource
      rw [decipherWith, rawUrl, hurl, hcipher]
      exact rfl

end

end Ytdlpdroid.DecipherService
