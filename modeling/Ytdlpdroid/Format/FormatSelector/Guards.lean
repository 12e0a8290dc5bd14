import Ytdlpdroid.Format.FormatSelector.Optimality

namespace Ytdlpdroid

open Text Collections

namespace FormatSelector

-- The picture, before its codec is looked at.
def frameKeys (f : RawFormat) : List Int := [f.height.getD 0, f.fps.getD 0]

def isAV1 (f : RawFormat) : Bool := MimeTypeParser.detectVideoCodec f.mimeType = .AV1

-- The codec decides only between pictures of one size and rate.
theorem videoKeys_le_iff {f g : RawFormat} : videoKeys f ≤ videoKeys g ↔
    frameKeys f < frameKeys g ∨ frameKeys f = frameKeys g ∧
      [(MimeTypeParser.detectVideoCodec f.mimeType).priority, f.bitrate] ≤
        [(MimeTypeParser.detectVideoCodec g.mimeType).priority, g.bitrate] := by
  simp only [videoKeys, frameKeys, le_iff_lt_or_eq, List.cons_lt_cons_iff, List.cons.injEq]
  simp only [List.not_lt_nil, and_false, or_false, and_true]
  omega

theorem frameKeys_le {f g : RawFormat} (h : videoKeys f ≤ videoKeys g) :
    frameKeys f ≤ frameKeys g := by
  rcases videoKeys_le_iff.mp h with hlt | ⟨heq, -⟩
  · exact hlt.le
  · exact heq.le

theorem priority_le {f g : RawFormat} (h : videoKeys f ≤ videoKeys g)
    (hframe : frameKeys g ≤ frameKeys f) :
    (MimeTypeParser.detectVideoCodec f.mimeType).priority ≤
      (MimeTypeParser.detectVideoCodec g.mimeType).priority := by
  rcases videoKeys_le_iff.mp h with hlt | ⟨-, hle⟩
  · exact absurd hlt (not_lt.mpr hframe)
  · rw [le_iff_lt_or_eq, List.cons_lt_cons_iff] at hle
    simp only [List.cons.injEq] at hle
    omega

-- No other codec has the priority of AV1.
theorem priority_AV1_le {codec : VideoCodec} (h : VideoCodec.AV1.priority ≤ codec.priority) :
    codec = .AV1 := by
  cases codec with
  | AV1 => rfl
  | VP9_HDR | VP9 | H265 | H264 | VP8 | UNKNOWN => exact absurd h (by decide)

section

variable {av1Unsafe : Bool} {options : ExtractionOptions}
  {formats candidates : List (RawFormat × Str)}
  {selection : Selection}

theorem mem_ofClass {p : RawFormat → Bool} {pair : RawFormat × Str} :
    pair ∈ ofClass p candidates ↔ pair ∈ candidates ∧ p pair.1 := List.mem_filter

theorem ofClass_ne_nil {p : RawFormat → Bool} :
    ofClass p candidates ≠ [] ↔ ∃ pair ∈ candidates, p pair.1 := by
  simp only [ofClass, ne_eq, List.filter_eq_nil_iff, not_forall, not_not, exists_prop]

theorem narrowed_of_exists {p : RawFormat → Bool} (h : ∃ pair ∈ candidates, p pair.1) :
    narrowed p candidates = ofClass p candidates := if_pos (ofClass_ne_nil.mpr h)

theorem narrowed_of_not_exists {p : RawFormat → Bool} (h : ¬∃ pair ∈ candidates, p pair.1) :
    narrowed p candidates = candidates := if_neg fun hne => h (ofClass_ne_nil.mp hne)

-- With an audio-only format every picture comes from the video-only ones.
theorem optimalWithAudio (haudio : ∃ pair ∈ formats, isAudioOnly pair.1)
    (h : select av1Unsafe formats options = .ok selection) :
    OptimalWithAudio av1Unsafe options formats selection := by
  have hoptimal := optimal_of_select h
  unfold Optimal at hoptimal
  rwa [if_pos (ofClass_ne_nil.mpr haudio)] at hoptimal

theorem optimalWithoutAudio (haudio : ¬∃ pair ∈ formats, isAudioOnly pair.1)
    (h : select av1Unsafe formats options = .ok selection) :
    OptimalWithoutAudio formats selection := by
  have hoptimal := optimal_of_select h
  unfold Optimal at hoptimal
  rwa [if_neg fun hne => haudio (ofClass_ne_nil.mp hne)] at hoptimal

theorem exists_audio_of_video {f : StreamFormat}
    (h : select av1Unsafe formats options = .ok selection) (hf : selection.video = some f) :
    ∃ pair ∈ formats, isAudioOnly pair.1 := by
  by_contra haudio
  rw [(optimalWithoutAudio haudio h).video] at hf
  cases hf

theorem chosen_of_video {f : StreamFormat} (h : select av1Unsafe formats options = .ok selection)
    (hf : selection.video = some f) :
    Chosen videoKeys (eligible av1Unsafe options formats) (some f) :=
  hf ▸ (optimalWithAudio (exists_audio_of_video h hf) h).video

-- A stream is chosen from any formats that are left.
theorem Chosen.exists_of_mem {keys : RawFormat → List Int} {found : Option StreamFormat}
    (h : Chosen keys candidates found) {pair : RawFormat × Str} (hm : pair ∈ candidates) :
    ∃ f, found = some f := by
  cases found with
  | none =>
      have hnil : candidates = [] := h
      rw [hnil] at hm
      cases hm
  | some f => exact ⟨f, rfl⟩

-- AV1 is the codec of the selected video only if it is that of all formats under the cap.
def SoleCodec (options : ExtractionOptions) (formats : List (RawFormat × Str))
    (selection : Selection) : Prop :=
  ∀ f, selection.video = some f → MimeTypeParser.detectVideoCodec f.mimeType = .AV1 →
    ∀ pair ∈ capped options formats, isAV1 pair.1

-- The inputs for which the preference for H264, finding none, brings AV1 back.
structure FallsBackToAV1 (options : ExtractionOptions) (formats : List (RawFormat × Str)) :
    Prop where
  prefers : options.preferH264 = true
  ranges : ∀ pair ∈ formats, isSelectable pair.1 → HasRanges pair.1
  audio : ∃ pair ∈ formats, isAudioOnly pair.1
  noH264 : ¬∃ pair ∈ capped options formats, isH264 pair.1
  other : ∃ pair ∈ capped options formats, isNotAV1 pair.1
  unbeaten : ∃ pair ∈ capped options formats, isAV1 pair.1 ∧
    ∀ rival ∈ capped options formats, isNotAV1 rival.1 → frameKeys rival.1 ≤ frameKeys pair.1

theorem isAV1_iff {f : RawFormat} : isAV1 f = true ↔ ¬isNotAV1 f = true := by
  simp [isAV1, isNotAV1]

-- The greatest of the formats is AV1 if no other codec has a greater picture than some AV1 format.
theorem greatest_isAV1_iff {pair : RawFormat × Str}
    (hgreatest : IsFirstGreatest (fun pair => videoKeys pair.1) candidates pair) :
    isAV1 pair.1 = true ↔ ∃ best ∈ candidates, isAV1 best.1 ∧
      ∀ rival ∈ candidates, isNotAV1 rival.1 → frameKeys rival.1 ≤ frameKeys best.1 := by
  constructor
  · intro hav1
    exact ⟨pair, hgreatest.mem, hav1, fun rival hm _ => frameKeys_le (hgreatest.le hm)⟩
  · rintro ⟨best, hm, hav1, hbest⟩
    by_contra hnot
    have hother : isNotAV1 pair.1 = true := by
      rw [isAV1_iff] at hnot
      simpa using hnot
    have hpriority := priority_le (hgreatest.le hm) (hbest pair hgreatest.mem hother)
    have hcodec : MimeTypeParser.detectVideoCodec best.1.mimeType = .AV1 := of_decide_eq_true hav1
    rw [hcodec] at hpriority
    exact hnot (decide_eq_true (priority_AV1_le hpriority))

end

-- On a device with an unsafe decoder AV1 is only a last resort, unless H264 is preferred
-- and missing.
theorem select_av1_iff (options : ExtractionOptions) (formats : List (RawFormat × Str)) :
    (∀ selection, select true formats options = .ok selection →
      SoleCodec options formats selection) ↔
      ¬FallsBackToAV1 options formats := by
  constructor
  · intro hsole hfalls
    obtain ⟨audio, haudio, hclass⟩ := hfalls.audio
    have hok : ∃ selection, select true formats options = .ok selection :=
      select_ok_iff.mpr ⟨hfalls.ranges, audio, haudio, Or.inl hclass⟩
    obtain ⟨selection, hselect⟩ := hok
    have hchosen := (optimalWithAudio hfalls.audio hselect).video
    have heligible : eligible true options formats = capped options formats := by
      unfold eligible
      rw [if_pos hfalls.prefers, narrowed_of_not_exists hfalls.noH264]
    rw [heligible] at hchosen
    obtain ⟨other, hother, hnotAV1⟩ := hfalls.other
    obtain ⟨f, hf⟩ := hchosen.exists_of_mem hother
    rw [hf] at hchosen
    obtain ⟨pair, hgreatest, hconverts⟩ := hchosen
    have hav1 := (greatest_isAV1_iff hgreatest).mpr hfalls.unbeaten
    have hcodec : MimeTypeParser.detectVideoCodec f.mimeType = .AV1 := by
      rw [hconverts.presents.mimeType]
      exact of_decide_eq_true hav1
    exact isAV1_iff.mp (hsole selection hselect f hf hcodec other hother) hnotAV1
  · intro hnot selection hselect f hf hcodec
    by_contra hall
    simp only [not_forall] at hall
    obtain ⟨other, hother, hnotAV1⟩ := hall
    have hother' : isNotAV1 other.1 = true := by
      rw [isAV1_iff] at hnotAV1
      simpa using hnotAV1
    have hchosen := chosen_of_video hselect hf
    unfold eligible at hchosen
    obtain ⟨pair, hgreatest, hconverts⟩ := id hchosen
    have hav1 : isAV1 pair.1 = true := by
      rw [hconverts.presents.mimeType] at hcodec
      exact decide_eq_true hcodec
    by_cases hprefers : options.preferH264 = true
    · rw [if_pos hprefers] at hgreatest
      by_cases hh264 : ∃ pair ∈ capped options formats, isH264 pair.1
      · -- Among H264 formats none is AV1.
        rw [narrowed_of_exists hh264] at hgreatest
        have hpair := (mem_ofClass.mp hgreatest.mem).2
        have hAV1 : MimeTypeParser.detectVideoCodec pair.1.mimeType = .AV1 := of_decide_eq_true hav1
        rw [isH264, hAV1] at hpair
        cases hpair
      · rw [narrowed_of_not_exists hh264] at hgreatest
        exact hnot ⟨hprefers, (select_ok_iff.mp ⟨selection, hselect⟩).1,
          exists_audio_of_video hselect hf, hh264, ⟨other, hother, hother'⟩,
          (greatest_isAV1_iff hgreatest).mp hav1⟩
    · rw [if_neg hprefers, if_pos rfl, narrowed_of_exists ⟨other, hother, hother'⟩] at hgreatest
      exact isAV1_iff.mp hav1 (mem_ofClass.mp hgreatest.mem).2

def av01 : RawFormat where
  itag := 399
  mimeType := str "video/mp4; codecs=\"av01.0.08M.08\""
  width := some 1920
  height := some 1080

def vp9 : RawFormat where
  itag := 248
  mimeType := str "video/webm; codecs=\"vp9\""
  width := some 1920
  height := some 1080

def preferH264 : ExtractionOptions where
  preferH264 := true

-- The crashing codec is chosen although VP9 is offered at the same size.
theorem select_falls_back_to_av1 :
    ∃ selection, select true [(av01, str "u"), (vp9, str "v"), (opus, str "w")] preferH264 =
      .ok selection ∧ ¬SoleCodec preferH264
        [(av01, str "u"), (vp9, str "v"), (opus, str "w")] selection := by
  refine ⟨_, rfl, fun hsole => ?_⟩
  have hvp9 := hsole _ rfl (by decide) (vp9, str "v") (by decide)
  exact absurd hvp9 (by decide)

-- The stream is no taller than the cap, if some format of its class is known not to be.
def WithinCap (maxHeight : Int) (candidates : List (RawFormat × Str)) (f : StreamFormat) : Prop :=
  (∃ pair ∈ candidates, ∃ height, pair.1.height = some height ∧ height ≤ maxHeight) →
    ∀ height, f.height = some height → height ≤ maxHeight

structure CapBinds (maxHeight : Int) (formats : List (RawFormat × Str)) (selection : Selection) :
    Prop where
  video : ∀ f, selection.video = some f → WithinCap maxHeight (ofClass isVideoOnly formats) f
  muxed : ∀ f, selection.muxed = some f → WithinCap maxHeight (ofClass isMuxed formats) f
  -- A muxed stream stands in for the audio.
  audio : (¬∃ pair ∈ formats, isAudioOnly pair.1) →
    WithinCap maxHeight (ofClass isMuxed formats) selection.audio

-- The inputs for which the tallest muxed format is reported in spite of the cap.
structure MuxedBeyondCap (maxHeight : Int) (options : ExtractionOptions)
    (formats : List (RawFormat × Str)) :
    Prop where
  ranges : ∀ pair ∈ formats, isSelectable pair.1 → HasRanges pair.1
  reported : options.includeMuxedFallback = true ∨ ¬∃ pair ∈ formats, isAudioOnly pair.1
  within : ∃ pair ∈ ofClass isMuxed formats, ∃ height, pair.1.height = some height ∧
    height ≤ maxHeight
  tallest : ∃ pair, IsFirstGreatest (fun pair => heightKeys pair.1) (ofClass isMuxed formats) pair ∧
    ∃ height, pair.1.height = some height ∧ maxHeight < height

section

variable {av1Unsafe : Bool} {options : ExtractionOptions}
  {formats candidates : List (RawFormat × Str)}
  {selection : Selection} {maxHeight : Int}

-- The first of the tallest formats keeps to the cap unless it is known to be taller.
theorem withinCap_iff {f : StreamFormat} (h : Chosen heightKeys candidates (some f)) :
    WithinCap maxHeight candidates f ↔
      ¬((∃ pair ∈ candidates, ∃ height, pair.1.height = some height ∧ height ≤ maxHeight) ∧
        ∃ pair, IsFirstGreatest (fun pair => heightKeys pair.1) candidates pair ∧
          ∃ height, pair.1.height = some height ∧ maxHeight < height) := by
  obtain ⟨pair, hgreatest, hconverts⟩ := h
  have hheight := hconverts.presents.height
  rw [WithinCap, not_and]
  refine forall_congr' fun _ => ?_
  constructor
  · rintro hall ⟨pair', hgreatest', height, hknown, hlt⟩
    obtain rfl := hgreatest.unique hgreatest'
    exact absurd (hall height (hheight.trans hknown)) (not_le.mpr hlt)
  · intro hnot height hknown
    by_contra hgt
    exact hnot ⟨pair, hgreatest, height, hheight.symm.trans hknown, not_le.mp hgt⟩

theorem withinCap_video (hcap : options.maxVideoHeight = some maxHeight)
    (h : select av1Unsafe formats options = .ok selection) {f : StreamFormat}
    (hf : selection.video = some f) :
    WithinCap maxHeight candidates f := by
  intro _ height hheight
  have hle := select_capped hcap h hf
  rwa [hheight] at hle

-- Without an audio-only format a selection is made of a muxed one.
theorem chosen_muxed_of_reported (hreported : options.includeMuxedFallback = true ∨
      ¬∃ pair ∈ formats, isAudioOnly pair.1)
        (h : select av1Unsafe formats options = .ok selection) :
    Chosen heightKeys (ofClass isMuxed formats) selection.muxed := by
  by_cases haudio : ∃ pair ∈ formats, isAudioOnly pair.1
  · rcases (optimalWithAudio haudio h).muxed with ⟨-, hoff⟩ | ⟨-, hchosen⟩
    · rcases hreported with hon | hnone
      · rw [hon] at hoff
        cases hoff
      · exact absurd haudio hnone
    · exact hchosen
  · have hoptimal := optimalWithoutAudio haudio h
    rw [hoptimal.muxed]
    exact hoptimal.audio

theorem reported_of_muxed {f : StreamFormat} (h : select av1Unsafe formats options = .ok selection)
    (hf : selection.muxed = some f) :
    options.includeMuxedFallback = true ∨ ¬∃ pair ∈ formats, isAudioOnly pair.1 := by
  by_cases haudio : ∃ pair ∈ formats, isAudioOnly pair.1
  · rcases (optimalWithAudio haudio h).muxed with ⟨hnone, -⟩ | ⟨hon, -⟩
    · rw [hnone] at hf
      cases hf
    · exact Or.inl hon
  · exact Or.inr haudio

end

-- The cap holds of the adaptive video, and of a muxed stream only by chance.
theorem select_cap_iff (av1Unsafe : Bool) (options : ExtractionOptions)
    (formats : List (RawFormat × Str)) (maxHeight : Int)
    (hcap : options.maxVideoHeight = some maxHeight) :
    (∀ selection, select av1Unsafe formats options = .ok selection →
      CapBinds maxHeight formats selection) ↔
      ¬MuxedBeyondCap maxHeight options formats := by
  constructor
  · intro hbinds hbeyond
    obtain ⟨muxed, hm, -⟩ := id hbeyond.within
    obtain ⟨hformat, hclass⟩ := mem_ofClass.mp hm
    have hok : ∃ selection, select av1Unsafe formats options = .ok selection :=
      select_ok_iff.mpr ⟨hbeyond.ranges, muxed, hformat, Or.inr hclass⟩
    obtain ⟨selection, hselect⟩ := hok
    have hchosen := chosen_muxed_of_reported hbeyond.reported hselect
    obtain ⟨f, hf⟩ := hchosen.exists_of_mem hm
    rw [hf] at hchosen
    exact (withinCap_iff hchosen).mp ((hbinds selection hselect).muxed f hf)
      ⟨hbeyond.within, hbeyond.tallest⟩
  · intro hnot selection hselect
    have hranges := (select_ok_iff.mp ⟨selection, hselect⟩).1
    have hmuxed : ∀ f, selection.muxed = some f →
        WithinCap maxHeight (ofClass isMuxed formats) f := by
      intro f hf
      have hreported := reported_of_muxed hselect hf
      have hchosen := chosen_muxed_of_reported hreported hselect
      rw [hf] at hchosen
      refine (withinCap_iff hchosen).mpr ?_
      rintro ⟨hwithin, htallest⟩
      exact hnot ⟨hranges, hreported, hwithin, htallest⟩
    exact ⟨fun f hf => withinCap_video hcap hselect hf, hmuxed,
      fun haudio => hmuxed selection.audio (optimalWithoutAudio haudio hselect).muxed⟩

def muxed360 : RawFormat where
  itag := 18
  mimeType := str "video/mp4; codecs=\"avc1.42001E, mp4a.40.2\""
  width := some 640
  height := some 360
  audioSampleRate := some (str "44100")

def muxed720 : RawFormat :=
  { muxed360 with itag := 22, width := some 1280, height := some 720 }

def cap360 : ExtractionOptions where
  maxVideoHeight := some 360

-- The formats in reach of the cap are all within it.
theorem select_cap_muxed360 :
    ∃ selection, select false [(muxed360, str "u"), (opus, str "v")] cap360 = .ok selection ∧
      CapBinds 360 [(muxed360, str "u"), (opus, str "v")] selection := by
  have hiff := select_cap_iff false cap360 [(muxed360, str "u"), (opus, str "v")] 360 rfl
  refine ⟨_, rfl, hiff.mpr (fun hbeyond => ?_) _ rfl⟩
  obtain ⟨pair, hgreatest, height, hheight, hlt⟩ := hbeyond.tallest
  have hm : pair ∈ [(muxed360, str "u")] := hgreatest.mem
  obtain rfl := List.mem_singleton.mp hm
  obtain rfl := Option.some.inj hheight
  exact absurd hlt (by decide)

-- A muxed stream of 720 lines is returned although one of 360 lines is offered.
theorem select_ignores_cap :
    ∃ selection, select false [(muxed720, str "u"), (muxed360, str "v"), (opus, str "w")] cap360 =
      .ok selection ∧ ¬CapBinds 360 [(muxed720, str "u"), (muxed360, str "v"), (opus, str "w")]
        selection := by
  refine ⟨_, rfl, fun hbinds => ?_⟩
  have hle := hbinds.muxed _ rfl ⟨(muxed360, str "v"), by decide, 360, rfl, by decide⟩ 720 rfl
  exact absurd hle (by decide)

end FormatSelector

end Ytdlpdroid
