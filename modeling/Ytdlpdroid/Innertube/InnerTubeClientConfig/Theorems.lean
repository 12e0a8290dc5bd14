import Ytdlpdroid.Innertube.InnerTubeClientConfig.Reading

namespace Ytdlpdroid.InnerTubeClientConfig

open Text Json

-- The members that a configuration sends, with or without a signature timestamp.
def ownMembers (config : InnerTubeClientConfig) : List (List Str) :=
  config.headMembers ++ regionMember :: [str "videoId"] ::
    (config.dynamicMembers ++ config.playbackMembers
      (some 0) ++ [[str "racyCheckOk"], [str "contentCheckOk"]])

-- The text is a document that holds the parameters, and members of the configuration only,
-- each once.
def Carries (config : InnerTubeClientConfig) (videoId region text : Str) : Prop :=
  ∃ document, parse text = some document ∧
    ⟨keys regionMember, .string (utf16 region)⟩ ∈ document ∧
    ⟨keys [str "videoId"], .string (utf16 videoId)⟩ ∈ document ∧
    ⟨keys [str "racyCheckOk"], .bool true⟩ ∈ document ∧
    ⟨keys [str "contentCheckOk"], .bool true⟩ ∈ document ∧
    (∀ entry ∈ document, entry.path ∈ config.ownMembers.map keys) ∧
    (document.map Entry.path).Nodup

theorem ownMembers_nodup (config : InnerTubeClientConfig) : (config.ownMembers.map keys).Nodup := by
  have hall : ∀ config ∈ YouTubeExtractor.clientChain, (config.ownMembers.map keys).Nodup := by
    decide
  exact hall config config.mem_clientChain

theorem playbackMembers_sublist (config : InnerTubeClientConfig) (signatureTimestamp : Option Int) :
    (config.playbackMembers signatureTimestamp).Sublist (config.playbackMembers (some 0)) := by
  have hall : ∀ config ∈ YouTubeExtractor.clientChain,
      (config.playbackMembers none).Sublist (config.playbackMembers (some 0)) := by
    decide
  cases signatureTimestamp with
  | none => exact hall config config.mem_clientChain
  | some sts => exact List.Sublist.refl _

theorem unbroken_of_plain {text : Str} (h : ∀ c ∈ text, isPlain c) : Unbroken text := by
  intro c hc hbreak
  have hplain := h c hc
  have hor : c = '\r' ∨ c = '\n' := by simpa [isBreak] using hbreak
  rcases hor with rfl | rfl <;> exact absurd hplain (by decide)

-- A plain region is carried.
theorem carries_of_plain (config : InnerTubeClientConfig) {videoId region : Str}
    (hid : ∀ c ∈ videoId, isPlain c) (hregion : ∀ c ∈ region, isPlain c)
    (signatureTimestamp : Option Int) :
    Carries config videoId region
      (config.buildRequestBody videoId none (some region) signatureTimestamp) := by
  have hunbroken := unbroken_of_plain hregion
  obtain ⟨indent, hindent, more, htext, hplain⟩ :=
    config.buildRequestBody_layout (unbroken_of_plain hid) region signatureTimestamp
  obtain ⟨rfl, rfl⟩ := hplain hunbroken
  obtain ⟨before, hhead, hbefore⟩ := config.run_head hindent
  obtain ⟨after, htail, hafter⟩ := config.run_tail hid signatureTimestamp
  have hline : firstLine (region ++ ['"']) = region ++ ['"'] := by
    rw [firstLine_append hunbroken]
    rfl
  have hread :=
    Reader.run_append_of hhead (Reader.run_append_of (Reader.run_quoted _ hregion) htail)
  rw [List.nil_append] at htext
  rw [← hline, ← htext] at hread
  have hsublist : (config.headMembers ++ regionMember :: [str "videoId"] ::
      (config.dynamicMembers ++ config.playbackMembers signatureTimestamp ++
        [[str "racyCheckOk"], [str "contentCheckOk"]])).Sublist config.ownMembers :=
    List.Sublist.append_left (List.Sublist.cons_cons _ (List.Sublist.cons_cons _
      (List.Sublist.append_right (List.Sublist.append_left (config.playbackMembers_sublist _) _)
        _))) _
  let document : Document :=
    before ++ ([⟨(keys regionMember).reverse.reverse, .string (utf16 region)⟩] ++
    (⟨keys [str "videoId"], .string (utf16 videoId)⟩ :: after ++
      [⟨keys [str "racyCheckOk"], .bool true⟩, ⟨keys [str "contentCheckOk"], .bool true⟩]))
  have hpaths : (document.map Entry.path).Sublist (config.ownMembers.map keys) := by
    have hnames := hsublist.map keys
    simp only [document, List.map_append, List.map_cons, List.map_nil] at hnames hafter ⊢
    rwa [hbefore, hafter, List.reverse_reverse]
  refine ⟨document, parse_of_run hread, by simp [document], by simp [document], by simp [document],
    by simp [document], ?_, ?_⟩
  · exact fun entry hm => hpaths.subset (List.mem_map_of_mem hm)
  · exact hpaths.nodup config.ownMembers_nodup

-- A quote in the text before which there is no control character is one of those after the
-- region begins.
theorem prefix_of_closed {region inside after more : Str}
    (h : firstLine (region ++ ['"']) ++ '\n' :: more = inside ++ '"' :: after)
    (hinside : ∀ c ∈ inside, 0x20 ≤ c.toNat) : ∃ tail, region ++ ['"'] = inside ++ '"' :: tail := by
  have hline : ∀ c ∈ firstLine (region ++ ['"']), decide (c ≠ '\n') = true := by
    intro c hc
    have hbreak := List.mem_takeWhile_imp hc
    have hne : c ≠ '\n' := by rintro rfl; exact absurd hbreak (by decide)
    exact decide_eq_true hne
  have hquoted : ∀ c ∈ inside ++ ['"'], decide (c ≠ '\n') = true := by
    intro c hc
    have hne : c ≠ '\n' := by
      rintro rfl
      rcases List.mem_append.mp hc with hc | hc
      · exact absurd (hinside _ hc) (by decide)
      · exact absurd hc (by decide)
    exact decide_eq_true hne
  have hcut := congrArg (List.takeWhile fun c => decide (c ≠ '\n')) h
  have hsame : inside ++ '"' :: after = inside ++ ['"'] ++ after := by simp
  rw [hsame, List.takeWhile_append_of_pos hline, List.takeWhile_append_of_pos hquoted,
    List.takeWhile_cons_of_neg (by decide), List.append_nil] at hcut
  obtain ⟨rest, hrest⟩ := List.takeWhile_prefix (l := region ++ ['"']) fun c => !isBreak c
  refine ⟨after.takeWhile (fun c => decide (c ≠ '\n')) ++ rest, ?_⟩
  rw [← hrest, show List.takeWhile (fun c => !isBreak c) (region ++ ['"']) = _ from hcut]
  simp

-- A region that is carried is plain: the first quote in the text after it must be the one
-- that ends it.
theorem plain_of_carries (config : InnerTubeClientConfig) {videoId region : Str}
    (hid : ∀ c ∈ videoId, isPlain c) (signatureTimestamp : Option Int)
    (h : Carries config videoId region
      (config.buildRequestBody videoId none (some region) signatureTimestamp)) :
    ∀ c ∈ region, isPlain c := by
  obtain ⟨indent, hindent, more, htext, -⟩ :=
    config.buildRequestBody_layout (unbroken_of_plain hid) region signatureTimestamp
  obtain ⟨before, hhead, -⟩ := config.run_head hindent
  obtain ⟨document, hparse, hregion, -, -, -, -, hnodup⟩ := h
  rw [htext, parse] at hparse
  obtain ⟨⟨last, entries⟩, hrun, hparse⟩ := Option.bind_eq_some_iff.mp hparse
  obtain ⟨others, hfinish, hdocument⟩ := Option.bind_eq_some_iff.mp hparse
  obtain ⟨middle, first, more', hfirst, hrest, hentries⟩ := Reader.run_append_inv hrun
  obtain ⟨rfl, rfl⟩ := Prod.mk.inj (Option.some.inj (hhead.symm.trans hfirst))
  rcases Reader.run_string_inv hrest with ⟨state, read, rfl⟩ | hclosed
  · rw [Reader.finish_string] at hfinish
    cases hfinish
  · obtain ⟨inside, after, value, rest, hsplit, hvisible, rfl, hbound, hshort⟩ := hclosed
    obtain ⟨tail, htail⟩ := prefix_of_closed hsplit hvisible
    have hvalue : value = utf16 region := by
      have hread : (⟨keys regionMember, .string value⟩ : Json.Entry) ∈ document := by
        rw [← Option.some.inj hdocument, hentries, List.reverse_reverse]
        simp
      have hsame := List.inj_on_of_nodup_map hnodup hread hregion rfl
      exact Value.string.inj (Json.Entry.mk.inj hsame).2
    -- The value has no unit that the region lacks, and the region goes at least up to the quote.
    have hlength := congrArg (fun text => (utf16 text).length) htail
    simp only [utf16_append, utf16_cons, utf16_nil, List.length_append, List.append_nil] at hlength
    rw [hvalue] at hbound hshort
    simp only [pending, List.length_nil] at hbound hshort
    rcases hshort trivial with hplain | hless
    · have hempty : tail = [] := by
        cases tail with
        | nil => rfl
        | cons c tail =>
            have hpos := units_length_pos c
            simp only [utf16_cons, List.length_append] at hlength
            omega
      rw [hempty] at htail
      rwa [List.append_cancel_right htail]
    · omega

theorem buildRequestBody_carries_iff (config : InnerTubeClientConfig) (input videoId region : Str)
    (signatureTimestamp : Option Int) (hid : VideoIdParser.parse input = .ok videoId) :
    Carries config videoId region
        (config.buildRequestBody videoId none (some region) signatureTimestamp) ↔
      ∀ c ∈ region, c ≠ '"' ∧ c ≠ '\\' ∧ 0x20 ≤ c.toNat := by
  have hvideoId : ∀ c ∈ videoId, isPlain c := fun c hc =>
    isPlain_of_idChar (VideoIdParser.parse_idChars hid c hc)
  have hplain : (∀ c ∈ region, isPlain c) ↔ ∀ c ∈ region, c ≠ '"' ∧ c ≠ '\\' ∧ 0x20 ≤ c.toNat := by
    simp only [isPlain, Bool.and_eq_true, decide_eq_true_eq, and_assoc]
  rw [← hplain]
  exact ⟨config.plain_of_carries hvideoId signatureTimestamp,
    fun hregion => config.carries_of_plain hvideoId hregion signatureTimestamp⟩

theorem buildRequestBody_carries_country :
    Carries .WEB (str "dQw4w9WgXcQ") (str "DE")
      (buildRequestBody .WEB (str "dQw4w9WgXcQ") none (some (str "DE")) (some 19834)) := by
  have hplain : ∀ c ∈ str "DE", isPlain c := List.all_eq_true.mp (by decide)
  refine (buildRequestBody_carries_iff .WEB (str "https://youtu.be/dQw4w9WgXcQ") (str "dQw4w9WgXcQ")
    (str "DE") (some 19834) (by decide +kernel)).mpr fun c hc => ?_
  simpa only [isPlain, Bool.and_eq_true, decide_eq_true_eq, and_assoc] using hplain c hc

-- A quote in the region ends its string, and what follows is read as more of the document.
theorem buildRequestBody_quote_breaks :
    VideoIdParser.parse (str "dQw4w9WgXcQ") = .ok (str "dQw4w9WgXcQ") ∧
      ¬Carries .ANDROID (str "dQw4w9WgXcQ") (str "U\"S")
        (buildRequestBody .ANDROID (str "dQw4w9WgXcQ") none (some (str "U\"S")) none) := by
  refine ⟨by decide +kernel, fun hcarries => ?_⟩
  have hid : ∀ c ∈ str "dQw4w9WgXcQ", isPlain c := List.all_eq_true.mp (by decide)
  have hquote : '"' ∈ str "U\"S" := by decide
  exact absurd (plain_of_carries .ANDROID hid none hcarries _ hquote) (by decide)

end Ytdlpdroid.InnerTubeClientConfig
