import Ytdlpdroid.Innertube.InnerTubeClient.Initialization
import Ytdlpdroid.Innertube.InnerTubeClientConfig.VisitorData
import Ytdlpdroid.Text.Regex.Earliest

namespace Ytdlpdroid.InnerTubeClient

open Text Json

-- The text begins with a field of this name, and this stands between the quotes of its value.
def VisitorField (name rest visitorData : Str) : Prop :=
  visitorData ≠ [] ∧ (∀ c ∈ visitorData, c ≠ '"') ∧
    ∃ more, rest = str "\"" ++ name ++ str "\":\"" ++ (visitorData ++ '"' :: more)

-- The first field of the one name has the visitor data, or, if it has none, the first one
-- of the other.
def HasVisitorData (html visitorData : Str) : Prop :=
  Earliest (VisitorField (str "VISITOR_DATA")) html visitorData ∨
    (∀ before rest value, html = before ++ rest → ¬VisitorField (str "VISITOR_DATA") rest value) ∧
      Earliest (VisitorField (str "visitorData")) html visitorData

def Arguments.region (arguments : Arguments) : Str := arguments.regionCode.getD (str "US")

-- The body of a request carries just what the visitor data in a page are a literal for, and is no
-- document if they are none.
structure Transports (arguments : Arguments) (visitorData body : Str) : Prop where
  carries : ∀ value, IsLiteral visitorData value ↔
    InnerTubeClientConfig.CarriesVisitor .WEB arguments.videoId arguments.region value body
  refuses : (∀ value, ¬IsLiteral visitorData value) → Json.parse body = none

section

variable {html visitorData : Str} {arguments : Arguments}

theorem visitorDataPattern_eq (name : Str) : visitorDataPattern name =
    Regex.around [.literal (str "\"" ++ name ++ str "\":\"")] 1 (.many (· != '"') 1 none)
      [.literal (str "\"")] := rfl

theorem around_iff_visitorField {name rest : Str} :
    Regex.Around [.literal (str "\"" ++ name ++ str "\":\"")] (.many (· != '"') 1 none)
      [.literal (str "\"")] rest
      visitorData ↔ VisitorField name rest visitorData := by
  simp only [Regex.Around, Regex.texts_singleton, Regex.denotes_literal, Regex.denotes_atLeast,
    bne_iff_ne]
  constructor
  · rintro ⟨_, _, more, rfl, rfl, ⟨hvalue, hleast⟩, rfl⟩
    exact ⟨List.length_pos_iff.mp hleast, hvalue, more, rfl⟩
  · rintro ⟨hne, hvalue, more, rfl⟩
    exact ⟨_, _, more, rfl, rfl, ⟨hvalue, List.length_pos_iff.mpr hne⟩, rfl⟩

-- The value ends at the first quote.
theorem VisitorField.unique {name rest other : Str} (h : VisitorField name rest visitorData)
    (hother : VisitorField name rest other) : other = visitorData := by
  obtain ⟨-, hvalue, more, rfl⟩ := h
  obtain ⟨-, hvalue', more', he⟩ := hother
  have hend : ('"' != '"') = false := rfl
  have hsame := List.append_cancel_left he
  exact (split_run_unique (fun c hc => bne_iff_ne.mpr (hvalue c hc))
    (fun c hc => bne_iff_ne.mpr (hvalue' c hc)) hend
    hend hsame).1.symm

theorem locates_visitorData (name : Str) :
    (visitorDataPattern name).Locates 1 (VisitorField name) := by
  have hplain (expected : Str) : ∀ r ∈ [Regex.literal expected], r.Plain :=
    List.forall_mem_singleton.mpr (Regex.plain_literal expected)
  rw [visitorDataPattern_eq]
  exact Regex.locates_around (hplain _) (Regex.plain_many _ _ _) (hplain _)
    (fun _ _ => around_iff_visitorField)
    fun _ _ _ h => h.unique

theorem visitorDataIn_eq_some_iff : visitorDataIn html = some visitorData ↔
    HasVisitorData html visitorData := by
  rw [visitorDataIn, Option.or_eq_some_iff, (locates_visitorData _).eq_some_iff,
    (locates_visitorData _).eq_none_iff, (locates_visitorData _).eq_some_iff]
  rfl

theorem HasVisitorData.quote (h : HasVisitorData html visitorData) : '"' ∉ visitorData := by
  have hfield {name rest : Str} (hstands : VisitorField name rest visitorData) :
      '"' ∉ visitorData :=
    fun hm => hstands.2.1 _ hm rfl
  rcases h with ⟨_, _, -, hstands, -⟩ | ⟨-, _, _, -, hstands, -⟩
  · exact hfield hstands
  · exact hfield hstands

-- What is posted is the body with the region that is meant.
theorem request_body (arguments : Arguments) (visitorData : Option Str) :
    (arguments.request visitorData).body =
    some (InnerTubeClientConfig.buildRequestBody .WEB arguments.videoId visitorData
      (some arguments.region)
      arguments.signatureTimestamp) := by
  obtain ⟨videoId, regionCode, signatureTimestamp⟩ := arguments
  cases regionCode <;> rfl

theorem plain_region (h : ∀ region, arguments.regionCode = some region → ∀ c ∈ region, isPlain c) :
    ∀ c ∈ arguments.region, isPlain c := by
  rw [Arguments.region]
  cases hregion : arguments.regionCode with
  | none => exact List.all_eq_true.mp (by decide)
  | some region => exact h region hregion

-- The member is there once, so a literal is carried as nothing else than what it stands for.
theorem transports_of_quote {visitorData : Str} (hid : ∀ c ∈ arguments.videoId, isPlain c)
    (hregion : ∀ c ∈ arguments.region, isPlain c) (hquote : '"' ∉ visitorData) :
    Transports arguments visitorData
      (InnerTubeClientConfig.buildRequestBody .WEB arguments.videoId (some visitorData)
      (some arguments.region) arguments.signatureTimestamp) := by
  have hrefuses : (∀ value, ¬IsLiteral visitorData value) →
      Json.parse (InnerTubeClientConfig.buildRequestBody .WEB _ _ _ _) = none :=
    InnerTubeClientConfig.parse_of_not_literal hid hregion arguments.signatureTimestamp hquote
  refine ⟨fun value =>
    ⟨InnerTubeClientConfig.carries_of_literal hid hregion _ hquote, fun hcarries => ?_⟩, hrefuses⟩
  obtain ⟨document, hparse, hvisitor, -, -, -, -, -, hnodup⟩ := hcarries
  by_contra hnot
  by_cases hliteral : ∃ other, IsLiteral visitorData other
  · obtain ⟨other, hother⟩ := hliteral
    obtain ⟨document', hparse', hvisitor', -⟩ : InnerTubeClientConfig.CarriesVisitor .WEB _ _ _ _ :=
      InnerTubeClientConfig.carries_of_literal hid hregion arguments.signatureTimestamp
        hquote hother
    obtain rfl := Option.some.inj (hparse.symm.trans hparse')
    have hsame := List.inj_on_of_nodup_map hnodup hvisitor hvisitor' rfl
    obtain rfl := Value.string.inj (Json.Entry.mk.inj hsame).2
    exact hnot hother
  · have hnone := hrefuses fun other hother => hliteral ⟨other, hother⟩
    rw [hparse] at hnone
    cases hnone

-- Every request for the web client, of any number of calls and in every interleaving, is posted
-- with what the one home page has to say: with the visitor data that stand in it, or with none.
theorem Session.posts_visitorData (calls : Nat → Arguments) (events : List Event) (call : Nat)
    (request : Request) (input : Str)
    (hposting : (Session.run calls events).locations call = .posting request)
    (hid : VideoIdParser.parse input = .ok (calls call).videoId)
    (hregion : ∀ region, (calls call).regionCode = some region → ∀ c ∈ region, isPlain c) :
    ∃ outcome body, (Session.run calls events).answers = [outcome] ∧ request.body = some body ∧
      ((∃ html visitorData, outcome.bind pageOf = .ok html ∧ HasVisitorData html visitorData ∧
          Transports (calls call) visitorData body) ∨
        (∀ html visitorData, outcome.bind pageOf = .ok html → ¬HasVisitorData html visitorData) ∧
          InnerTubeClientConfig.Carries .WEB (calls call).videoId (calls call).region body) := by
  have hplain : ∀ c ∈ (calls call).videoId, isPlain c := fun c hc =>
    InnerTubeClientConfig.isPlain_of_idChar (VideoIdParser.parse_idChars hid c hc)
  have hpassed : HasPassed ((Session.run calls events).locations call) := by rw [hposting]; trivial
  obtain ⟨outcome, hsetUp⟩ := Session.setUp_of_hasPassed hpassed
  have hdone := hsetUp []
  rw [List.append_nil] at hdone
  obtain rfl := hdone.posting call request hposting
  refine ⟨outcome, _, hdone.answers, request_body _ _, ?_⟩
  cases hfound : foundIn outcome with
  | none =>
      refine Or.inr ⟨fun html visitorData hpage hhas => ?_, ?_⟩
      · rw [foundIn, hpage] at hfound
        exact absurd (visitorDataIn_eq_some_iff.mpr hhas) (by simp [hfound])
      · exact InnerTubeClientConfig.carries_of_plain .WEB hplain (plain_region hregion) _
  | some visitorData =>
      unfold foundIn at hfound
      cases hpage : outcome.bind pageOf with
      | error e => simp [hpage] at hfound
      | ok html =>
          rw [hpage] at hfound
          have hhas := visitorDataIn_eq_some_iff.mp hfound
          exact Or.inl
            ⟨html, visitorData, rfl, hhas,
              transports_of_quote hplain (plain_region hregion) hhas.quote⟩

def escapedPage : Str := str "ytcfg.set(\x7b\"VISITOR_DATA\":\"CgtB\\u003d\"\x7d)"

def twoCalls : Nat → Arguments :=
  fun _ => { videoId := str "dQw4w9WgXcQ", regionCode := some (str "DE") }

-- The first call asks for the page, and the second one posts.
def twoCallsEvents : List Event :=
  [0, 0, 0, 0].map Event.proceed ++ .answer 0
    (.ok { code := 200, body := some (.text escapedPage) }) ::
    [0, 0, 0, 1, 1].map Event.proceed

-- The page has a sign of the visitor data as an escape, and what is posted carries the sign.
theorem Session.posts_visitorData_escaped :
    ∃ request body, (Session.run twoCalls twoCallsEvents).locations 1 = .posting request ∧
      request.body = some body ∧
      InnerTubeClientConfig.CarriesVisitor .WEB (str "dQw4w9WgXcQ") (str "DE")
        (utf16 (str "CgtB=")) body := by
  have hposting : (Session.run twoCalls twoCallsEvents).locations 1 =
      .posting ((twoCalls 1).request (visitorDataIn escapedPage)) := by rfl
  have hfound : visitorDataIn escapedPage = some (str "CgtB\\u003d") := by decide +kernel
  have hregion : ∀ region, (twoCalls 1).regionCode = some region → ∀ c ∈ region, isPlain c := by
    rintro region ⟨⟩
    exact List.all_eq_true.mp (by decide)
  obtain ⟨outcome, body, hanswers, hbody, hposted⟩ :=
    Session.posts_visitorData twoCalls twoCallsEvents 1 _ (str "dQw4w9WgXcQ") hposting
      (by decide +kernel) hregion
  have hpage : outcome.bind pageOf = .ok escapedPage := by
    obtain rfl := List.singleton_inj.mp hanswers
    rfl
  refine ⟨_, body, hposting, hbody, ?_⟩
  rcases hposted with ⟨html, visitorData, hhtml, hhas, htransports⟩ | ⟨hnone, -⟩
  · obtain rfl := Except.ok.inj (hpage.symm.trans hhtml)
    obtain rfl := Option.some.inj (hfound.symm.trans (visitorDataIn_eq_some_iff.mpr hhas))
    exact (htransports.carries _).mp (by decide +kernel)
  · exact absurd (visitorDataIn_eq_some_iff.mp hfound) (hnone _ _ hpage)

end

end Ytdlpdroid.InnerTubeClient
