import Ytdlpdroid.Decipher.SignatureDecipherer

namespace Ytdlpdroid

open Text Concurrent FormEncoding

namespace SignatureDecipherer

-- The fields carry the signature, the URL and, when there is one, the name of the
-- parameter. Their order, and fields of other names, do not matter.
structure CipherFields (fields : List (Str × Str)) (s u : Str) (sp : Option Str) : Prop where
  signature : ∀ value, (str "s", value) ∈ fields ↔ value = s
  url : ∀ value, (str "url", value) ∈ fields ↔ value = u
  name : ∀ value, (str "sp", value) ∈ fields ↔ sp = some value

-- The parameters as `decrypt` reads them: split, but not decoded.
def encodedParams (fields : List (Str × Str)) : List (Str × Str) :=
  fields.map fun field => (encode field.1, encode field.2)

-- A field as it stands in a cipher.
def joinField (field : Str × Str) : Str := field.1 ++ '=' :: field.2

def joinFields (fields : List (Str × Str)) : Str := ['&'].intercalate (fields.map joinField)

theorem splitField_joinField {field : Str × Str} (h : '=' ∉ field.1) :
    splitField (joinField field) = .ok field := by
  have hindex : indexOf (joinField field) '=' = some field.1.length := indexOf_append_cons h _
  rw [splitField, hindex]
  simp [joinField]

theorem mapM_splitField {fields : List (Str × Str)} (h : ∀ field ∈ fields, '=' ∉ field.1) :
    (fields.map joinField).mapM splitField = .ok fields := by
  induction fields with
  | nil => rfl
  | cons field rest ih =>
      obtain ⟨hfield, hrest⟩ := List.forall_mem_cons.mp h
      rw [List.map_cons, List.mapM_cons, splitField_joinField hfield, ih hrest]
      rfl

theorem splitFields_joinFields {fields : List (Str × Str)} (hne : fields ≠ [])
    (hfree : ∀ field ∈ fields, '&' ∉ joinField field ∧ '=' ∉ field.1) :
    splitFields (joinFields fields) = .ok fields := by
  have hsplit : (joinFields fields).splitOn '&' = fields.map joinField := by
    refine List.splitOn_intercalate '&' (fun text hm => ?_) (by simpa using hne)
    obtain ⟨field, hfield, rfl⟩ := List.mem_map.mp hm
    exact (hfree field hfield).1
  rw [splitFields, hsplit, mapM_splitField fun field hm => (hfree field hm).2]

theorem splitFields_encodeFields {fields : List (Str × Str)} (hne : fields ≠ []) :
    splitFields (encodeFields fields) = .ok (encodedParams fields) := by
  have hjoined : encodeFields fields = joinFields (encodedParams fields) := by
    rw [encodeFields, joinFields, encodedParams, List.map_map]
    rfl
  rw [hjoined]
  refine splitFields_joinFields (by simpa [encodedParams] using hne) fun field hm => ?_
  obtain ⟨source, -, rfl⟩ := List.mem_map.mp hm
  simp [joinField, (encode_no_separator _).1, (encode_no_separator _).2]

theorem mem_encodedParams {fields : List (Str × Str)} {name value : Str} :
    (encode name, encode value) ∈ encodedParams fields ↔ (name, value) ∈ fields := by
  constructor
  · intro h
    obtain ⟨field, hm, he⟩ := List.mem_map.mp h
    obtain ⟨hname, hvalue⟩ := Prod.mk.inj he
    rwa [← encode_injective hname, ← encode_injective hvalue]
  · exact fun h => List.mem_map.mpr ⟨_, h, rfl⟩

-- A name that has one value is looked up as the encoding of this value.
theorem param_encoded {fields : List (Str × Str)} {name value : Str}
    (h : ∀ other, (name, other) ∈ fields ↔ other = value) :
    param (encodedParams fields) (encode name) = some (encode value) := by
  have hm : (encode name, encode value) ∈ (encodedParams fields).reverse :=
    List.mem_reverse.mpr (mem_encodedParams.mpr ((h value).mpr rfl))
  unfold param
  cases hl : (encodedParams fields).reverse.lookup (encode name) with
  | none => simpa using List.lookup_eq_none_iff.mp hl _ hm
  | some found =>
      obtain ⟨before, after, he, -⟩ := List.lookup_eq_some_iff.mp hl
      have hfound : (encode name, found) ∈ encodedParams fields :=
        List.mem_reverse.mp (he ▸ List.mem_append_right before List.mem_cons_self)
      obtain ⟨field, hf, hp⟩ := List.mem_map.mp hfound
      obtain ⟨hname, rfl⟩ := Prod.mk.inj hp
      rw [(h field.2).mp (encode_injective hname ▸ hf)]

theorem param_absent {fields : List (Str × Str)} {name : Str}
    (h : ∀ other, (name, other) ∉ fields) : param (encodedParams fields) (encode name) = none := by
  refine List.lookup_eq_none_iff.mpr fun param hm => ?_
  obtain ⟨field, hf, rfl⟩ := List.mem_map.mp (List.mem_reverse.mp hm)
  exact bne_iff_ne.mpr fun he => h field.2 (encode_injective he ▸ hf)

-- The names of the three fields are their own encodings.
theorem encode_names :
    encode (str "s") = str "s" ∧ encode (str "url") = str "url" ∧ encode (str "sp") = str "sp" := by
  decide

section

variable {fields : List (Str × Str)} {s u : Str} {sp : Option Str}

theorem CipherFields.ne_nil (h : CipherFields fields s u sp) : fields ≠ [] :=
  List.ne_nil_of_mem ((h.signature s).mpr rfl)

theorem CipherFields.encSig (h : CipherFields fields s u sp) :
    SignatureDecipherer.encSig (encodedParams fields) = .ok (encode s) := by
  have hp := param_encoded h.signature
  rw [encode_names.1] at hp
  simp [SignatureDecipherer.encSig, hp]

theorem CipherFields.baseUrl (h : CipherFields fields s u sp) :
    SignatureDecipherer.baseUrl (encodedParams fields) = .ok u := by
  have hp := param_encoded h.url
  rw [encode_names.2.1] at hp
  simp [SignatureDecipherer.baseUrl, hp, decode_encode]

theorem CipherFields.spParam (h : CipherFields fields s u sp) :
    param (encodedParams fields) (str "sp") = sp.map encode := by
  rw [← encode_names.2.2]
  cases sp with
  | none => exact param_absent fun other hm => by simpa using (h.name other).mp hm
  | some name =>
      exact param_encoded fun other => (h.name other).trans
        ⟨fun he => (Option.some.inj he).symm, fun he => congrArg some he.symm⟩

end

theorem functionCode_run {playerJs code : Str} (hcode : extractSigFunctionCode playerJs = .ok code)
    (w : World) :
    ∃ w', (functionCode playerJs).run w =
        (.ok ((w.sigFunctionCache (hashCode playerJs)).getD code), w') ∧
      w'.executions = w.executions := by
  unfold functionCode
  simp only [Prog.run_bind, reading, Prog.run_atomic]
  cases hc : w.sigFunctionCache (hashCode playerJs) with
  | some cached => exact ⟨w, rfl, rfl⟩
  | none =>
      simp only [hcode, Prog.run_bind, Prog.run_ofExcept, writing, Prog.run_atomic]
      exact ⟨_, rfl, rfl⟩

-- The signature and the parameter name are used as they stand in the encoded text.
theorem decrypt_run {env : Env} {f : Str → Str → Str} (hf : env.PureEngine f)
    {fields : List (Str × Str)} {s u : Str} {sp : Option Str} (h : CipherFields fields s u sp)
    {playerJs code : Str} (hcode : extractSigFunctionCode playerJs = .ok code) (w : World) :
    ∃ w', (decrypt env (encodeFields fields) playerJs).run w =
        (.ok (u ++ str "&" ++ (sp.map encode).getD (str "sig") ++ str "=" ++
          f ((w.sigFunctionCache (hashCode playerJs)).getD code) (encode s)), w') ∧
      w'.executions =
        w.executions ++ [((w.sigFunctionCache (hashCode playerJs)).getD code, encode s)] := by
  obtain ⟨w', hrun, hexec⟩ := functionCode_run hcode w
  simp only [decrypt, Prog.run_bind, Prog.run_ofExcept, splitFields_encodeFields h.ne_nil, h.encSig,
    h.baseUrl, h.spParam, hrun, executeJs, Prog.run_attemptAtomic, hf _ _ _]
  exact ⟨_, rfl, by simp [hexec]⟩

theorem name_eq_iff {before after : Str} (sp : Option Str) (default : Str) :
    before ++ (sp.map encode).getD default ++ after = before ++ sp.getD default ++ after ↔
      ∀ name, sp = some name → ∀ c ∈ name, isUnreserved c := by
  cases sp with
  | none => simp
  | some name =>
      simp only [Option.map_some, Option.getD_some, List.append_assoc, List.append_cancel_left_eq,
        List.append_cancel_right_eq, encode_eq_self_iff, Option.some.injEq, forall_eq']

theorem decrypt_inverts_encoding_iff {env : Env} {f : Str → Str → Str} (hf : env.PureEngine f)
    {fields : List (Str × Str)} {s u : Str} {sp : Option Str} (h : CipherFields fields s u sp)
    {playerJs code : Str} (hcode : extractSigFunctionCode playerJs = .ok code) (w : World) :
    (∃ w', (decrypt env (encodeFields fields) playerJs).run w =
        (.ok (u ++ str "&" ++ sp.getD (str "sig") ++ str "=" ++ f code s), w') ∧
      w'.executions = w.executions ++ [(code, s)]) ↔
    (∀ c ∈ s, isUnreserved c) ∧ (∀ name, sp = some name → ∀ c ∈ name, isUnreserved c) ∧
      ∀ cached, w.sigFunctionCache (hashCode playerJs) = some cached → cached = code := by
  obtain ⟨w', hrun, hexec⟩ := decrypt_run hf h hcode w
  have hcached : (w.sigFunctionCache (hashCode playerJs)).getD code = code ↔
      ∀ cached, w.sigFunctionCache (hashCode playerJs) = some cached → cached = code := by
    cases w.sigFunctionCache (hashCode playerJs) <;> simp
  constructor
  · rintro ⟨final, hr, he⟩
    rw [hrun] at hr
    obtain ⟨hresult, rfl⟩ := Prod.mk.inj hr
    rw [hexec, List.append_cancel_left_eq, List.singleton_inj] at he
    obtain ⟨hc, hs⟩ := Prod.mk.inj he
    refine ⟨(encode_eq_self_iff s).mp hs, ?_, hcached.mp hc⟩
    rw [hc, hs, Except.ok.injEq, List.append_assoc, List.append_assoc _ (str "=")] at hresult
    exact (name_eq_iff sp (str "sig")).mp hresult
  · rintro ⟨hs, hsp, hc⟩
    have hs := (encode_eq_self_iff s).mpr hs
    have hc := hcached.mpr hc
    refine ⟨w', hrun.trans ?_, by rw [hexec, hc, hs]⟩
    rw [hc, hs, List.append_assoc, (name_eq_iff sp (str "sig")).mpr hsp, ← List.append_assoc]

-- An engine whose functions return their argument, and a player JS with a signature function.
def echoEnv : Env where
  clock := fun _ => 0
  httpClient := ⟨none⟩
  network := fun _ _ _ => .failure (Throwable.ioException none)
  decodeFromString := fun _ => .error []
  jsEngine := .custom (str "EchoEngine") fun _ _ argument => .ok argument

def plainPlayerJs : Str := str "b.sig||fn(c);fn=function(a)\x7breturn a\x7d;"

def plainCode : Str := str "fn=function(a)\x7breturn a\x7d"

theorem plainPlayerJs_code : extractSigFunctionCode plainPlayerJs = .ok plainCode := by
  decide +kernel

def freshWorld : World := { extractionCache := { maxSize := 30 } }

theorem echoEnv_pure : echoEnv.PureEngine fun _ argument => argument := fun _ _ _ => rfl

def plainFields : List (Str × Str) :=
  [(str "url", str "https://r/?a=1"), (str "s", str "aB-9"), (str "sp", str "sig"),
    (str "lsig", str "x&y")]

theorem plainFields_cipher :
    CipherFields plainFields (str "aB-9") (str "https://r/?a=1") (some (str "sig")) :=
  ⟨by simp [plainFields, str], by simp [plainFields, str],
    fun value => by rw [Option.some.injEq, eq_comm]; simp [plainFields, str]⟩

theorem decrypt_inverts_encoding_plain :
    ∃ w', (decrypt echoEnv (encodeFields plainFields) plainPlayerJs).run freshWorld =
      (.ok (str "https://r/?a=1&sig=aB-9"), w') ∧ w'.executions = [(plainCode, str "aB-9")] := by
  have hs : ∀ c ∈ str "aB-9", isUnreserved c := List.all_eq_true.mp (by decide)
  have hsp : ∀ c ∈ str "sig", isUnreserved c := List.all_eq_true.mp (by decide)
  exact (decrypt_inverts_encoding_iff echoEnv_pure plainFields_cipher plainPlayerJs_code
    freshWorld).mpr
    ⟨hs, fun name hname => Option.some.inj hname ▸ hsp, by simp [freshWorld]⟩

def escapedFields : List (Str × Str) := [(str "s", str "a=b"), (str "url", str "https://r/")]

theorem escapedFields_cipher : CipherFields escapedFields (str "a=b") (str "https://r/") none :=
  ⟨by simp [escapedFields, str], by simp [escapedFields, str], by simp [escapedFields, str]⟩

-- The encoding of the signature `a=b` is what the function is run on.
theorem decrypt_keeps_escaped_signature :
    ¬∃ w', (decrypt echoEnv (encodeFields escapedFields) plainPlayerJs).run freshWorld =
      (.ok (str "https://r/&sig=a=b"), w') ∧ w'.executions = [(plainCode, str "a=b")] := by
  rintro ⟨final, hr, -⟩
  obtain ⟨w', hrun, -⟩ :=
    decrypt_run echoEnv_pure escapedFields_cipher plainPlayerJs_code freshWorld
  rw [hrun] at hr
  exact absurd (Except.ok.inj (Prod.mk.inj hr).1) (by decide)

end SignatureDecipherer

end Ytdlpdroid
