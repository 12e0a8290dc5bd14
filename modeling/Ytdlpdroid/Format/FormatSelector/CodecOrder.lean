import Ytdlpdroid.Format.FormatSelector.Guards

namespace Ytdlpdroid

open Text Collections

namespace FormatSelector

def digits : Str := str "0123456789"

-- The characters of the parameters of the older codecs.
def parameterChars : Str := digits ++ str "ABCDEFabcdefLH"

-- Nothing, or a dot and further fields.
def Fields (alphabet text : Str) : Prop := (text = [] ∨ text.head? = some '.') ∧
    text ⊆ '.' :: alphabet

-- VP9 with its profile, level and depth, and any optional fields.
def LongVP9 (profile codecs : Str) : Prop :=
  ∃ level depth fields, codecs =
    str "vp09." ++ (profile ++ '.' :: level ++ '.' :: depth ++ fields) ∧
    level.length = 2 ∧ depth.length = 2 ∧ level ++ depth ⊆ digits ∧ Fields digits fields

def LongSpelled (codecs : Str) : Prop := LongVP9 (str "02") codecs ∨ LongVP9 (str "00") codecs

def IsVP9HDR (codecs : Str) : Prop := codecs = str "vp9.2" ∨ LongVP9 (str "02") codecs

def IsVP9SDR (codecs : Str) : Prop := codecs = str "vp9" ∨ LongVP9 (str "00") codecs

-- The names of H.265, H.264 and VP8.
def olderNames : List Str := [str "hvc1", str "hev1", str "avc1", str "avc3", str "vp8", str "vp08"]

def IsOlder (codecs : Str) : Prop :=
  ∃ name ∈ olderNames, ∃ fields, codecs = name ++ fields ∧ Fields parameterChars fields

-- The documented order, as far as VP9 comes first in it.
def Above (codecs other : Str) : Prop :=
  IsVP9HDR codecs ∧ (IsVP9SDR other ∨ IsOlder other) ∨ IsVP9SDR codecs ∧ IsOlder other

def codecsOf (f : RawFormat) : Str := MimeTypeParser.extractCodecString f.mimeType

def SamePicture (f g : RawFormat) : Prop := f.height = g.height ∧ f.fps = g.fps

-- No format is the selected video when one of the same picture is above it.
def KeepsCodecOrder (formats : List (RawFormat × Str)) (selection : Selection) : Prop :=
  ∀ a ∈ ofClass isVideoOnly formats, ∀ b ∈ ofClass isVideoOnly formats, SamePicture a.1 b.1 →
    Above (codecsOf a.1) (codecsOf b.1) → ¬∃ f, selection.video = some f ∧ Converts b f

-- The inputs for which a VP9 format in the long spelling is passed over: the greatest of the
-- video-only formats is below it and shows the same picture.
structure PassesOverLongSpelling (formats : List (RawFormat × Str)) : Prop where
  ranges : ∀ pair ∈ formats, isSelectable pair.1 → HasRanges pair.1
  below : ∃ a ∈ ofClass isVideoOnly formats, ∃ b,
    IsFirstGreatest (fun pair => videoKeys pair.1) (ofClass isVideoOnly formats) b ∧
      LongSpelled (codecsOf a.1) ∧ SamePicture a.1 b.1 ∧ Above (codecsOf a.1) (codecsOf b.1)

section

variable {codecs : Str}

theorem lowercase_append (left right : Str) :
    lowercase (left ++ right) = lowercase left ++ lowercase right :=
  List.flatMap_append

theorem lowercase_digits {text : Str} (h : text ⊆ '.' :: digits) : lowercase text = text := by
  have hchar : ('.' :: digits).all fun c => lowercaseChar c = [c] := by decide
  induction text with
  | nil => rfl
  | cons c text ih =>
      obtain ⟨hc, htext⟩ := List.cons_subset.mp h
      rw [lowercase, List.flatMap_cons, of_decide_eq_true (List.all_eq_true.mp hchar c hc)]
      exact congrArg (c :: ·) (ih htext)

theorem startsWith_cons {c d : Char} {part text : Str} :
    startsWith (c :: text) (d :: part) = (d == c && startsWith text part) := rfl

-- The part can only start in the characters written out.
theorem containsText_cons {c d : Char} {part text : Str} :
    containsText (c :: text) (d :: part) =
      (d == c && startsWith text part || containsText text (d :: part)) := by
  rw [Bool.eq_iff_iff]
  simp only [containsText, startsWith, Bool.or_eq_true, Bool.and_eq_true, beq_iff_eq,
    decide_eq_true_eq, List.isPrefixOf_iff_prefix, List.infix_cons_iff, List.cons_prefix_cons]

theorem containsText_of_not_mem {c : Char} {part text : Str} (htext : c ∉ text) :
    containsText text (c :: part) = false :=
  decide_eq_false fun h => htext (h.subset List.mem_cons_self)

theorem detectVideoCodec_of_long {profile : Str} {f : RawFormat}
    (hprofile : profile = str "02" ∨ profile = str "00") (h : LongVP9 profile (codecsOf f)) :
    MimeTypeParser.detectVideoCodec f.mimeType = .UNKNOWN := by
  obtain ⟨level, depth, fields, he, -, -, hnumbers, -, hfields⟩ := h
  have hdigits : profile ++ '.' :: level ++ '.' :: depth ++ fields ⊆ '.' :: digits := by
    have hprofile' : profile ⊆ '.' :: digits := by
      rcases hprofile with rfl | rfl <;> decide
    simp only [List.append_subset, List.cons_subset] at hnumbers ⊢
    exact ⟨⟨⟨hprofile', by simp, List.subset_cons_of_subset _ hnumbers.1⟩, by simp,
      List.subset_cons_of_subset _ hnumbers.2⟩, hfields⟩
  have hlower : lowercase (codecsOf f) =
      str "vp09." ++ (profile ++ '.' :: level ++ '.' :: depth ++ fields) := by
    rw [he, lowercase_append, lowercase_digits hdigits]
    rfl
  generalize profile ++ '.' :: level ++ '.' :: depth ++ fields = tail at hdigits hlower
  have hnone : ∀ c ∈ str "avh", c ∉ tail := fun c hc hm => by
    have hfree : (str "avh").all fun c => c ∉ '.' :: digits := by decide
    exact of_decide_eq_true (List.all_eq_true.mp hfree c hc) (hdigits hm)
  unfold codecsOf at hlower
  unfold MimeTypeParser.detectVideoCodec
  rw [hlower]
  have hv : 'v' ∉ tail := hnone 'v' (by decide)
  have ha : 'a' ∉ tail := hnone 'a' (by decide)
  have hh : 'h' ∉ tail := hnone 'h' (by decide)
  simp [str, startsWith_cons, containsText_cons, containsText_of_not_mem hv,
    containsText_of_not_mem ha, containsText_of_not_mem hh]

theorem detectVideoCodec_of_longSpelled {f : RawFormat} (h : LongSpelled (codecsOf f)) :
    MimeTypeParser.detectVideoCodec f.mimeType = .UNKNOWN := by
  rcases h with hhdr | hsdr
  · exact detectVideoCodec_of_long (Or.inl rfl) hhdr
  · exact detectVideoCodec_of_long (Or.inr rfl) hsdr

theorem lowercase_parameters {text : Str} (h : text ⊆ '.' :: parameterChars) :
    'v' ∉ lowercase text := by
  have hchar : ('.' :: parameterChars).all fun c => 'v' ∉ lowercaseChar c := by decide
  intro hm
  obtain ⟨c, hc, hv⟩ := List.mem_flatMap.mp hm
  exact of_decide_eq_true (List.all_eq_true.mp hchar c (h hc)) hv

theorem olderNames_unlike {name tail : Str} (hname : name ∈ olderNames) (hv : 'v' ∉ tail) :
    startsWith (name ++ tail) (str "av01") = false ∧ startsWith (name ++ tail) (str "av1") = false ∧
      containsText (name ++ tail) (str "vp9") = false := by
  simp only [olderNames, List.mem_cons, List.not_mem_nil, or_false] at hname
  rcases hname with rfl | rfl | rfl | rfl | rfl | rfl
  all_goals simp [str, startsWith_cons, containsText_cons, containsText_of_not_mem hv]

theorem priority_of_older {f : RawFormat} (h : IsOlder (codecsOf f)) :
    (MimeTypeParser.detectVideoCodec f.mimeType).priority ≤ VideoCodec.H265.priority := by
  obtain ⟨name, hname, fields, he, -, hfields⟩ := h
  have hv : 'v' ∉ lowercase fields := lowercase_parameters hfields
  have hlower : lowercase (codecsOf f) = name ++ lowercase fields := by
    have hnames : ∀ name ∈ olderNames, lowercase name = name := by decide
    rw [he, lowercase_append, hnames name hname]
  generalize lowercase fields = tail at hv hlower
  obtain ⟨hav01, hav1, hvp9⟩ := olderNames_unlike hname hv
  unfold codecsOf at hlower
  unfold MimeTypeParser.detectVideoCodec
  rw [hlower]
  simp only [hav01, hav1, hvp9, Bool.or_self, Bool.false_and, Bool.false_eq_true, if_false]
  split_ifs
  · decide
  · decide
  · decide
  · decide

theorem detectVideoCodec_of_eq {f : RawFormat} (h : codecsOf f = codecs) (mimeType : Str)
    (hmime : MimeTypeParser.extractCodecString mimeType = codecs) :
    MimeTypeParser.detectVideoCodec f.mimeType = MimeTypeParser.detectVideoCodec mimeType := by
  unfold MimeTypeParser.detectVideoCodec
  rw [hmime]
  unfold codecsOf at h
  rw [h]

theorem priority_of_sdr {f : RawFormat} (h : IsVP9SDR (codecsOf f)) :
    (MimeTypeParser.detectVideoCodec f.mimeType).priority ≤ VideoCodec.VP9.priority := by
  rcases h with hshort | hlong
  · rw [detectVideoCodec_of_eq hshort (str "codecs=\"vp9\"") (by decide)]
    decide
  · rw [detectVideoCodec_of_longSpelled (Or.inr hlong)]
    decide

-- In the short spelling VP9 is recognised, and its place is above what the order puts below it.
theorem priority_lt_of_above {f g : RawFormat} (habove : Above (codecsOf f) (codecsOf g))
    (hshort : ¬LongSpelled (codecsOf f)) :
    (MimeTypeParser.detectVideoCodec g.mimeType).priority <
      (MimeTypeParser.detectVideoCodec f.mimeType).priority := by
  rcases habove with ⟨hhdr | hlong, hbelow⟩ | ⟨hsdr | hlong, holder⟩
  · rw [detectVideoCodec_of_eq hhdr (str "codecs=\"vp9.2\"") (by decide)]
    have hhdr :
        VideoCodec.VP9.priority <
          (MimeTypeParser.detectVideoCodec (str "codecs=\"vp9.2\"")).priority := by
      decide
    rcases hbelow with hsdr | holder
    · exact lt_of_le_of_lt (priority_of_sdr hsdr) hhdr
    · exact lt_of_le_of_lt ((priority_of_older holder).trans (by decide)) hhdr
  · exact absurd (Or.inl hlong) hshort
  · rw [detectVideoCodec_of_eq hsdr (str "codecs=\"vp9\"") (by decide)]
    exact lt_of_le_of_lt (priority_of_older holder) (by decide)
  · exact absurd (Or.inr hlong) hshort

theorem frameKeys_eq {f g : RawFormat} (h : SamePicture f g) : frameKeys f = frameKeys g := by
  rw [frameKeys, frameKeys, h.1, h.2]

end

-- By default all video-only formats are candidates.
theorem eligible_default (formats : List (RawFormat × Str)) :
    eligible false {} formats = ofClass isVideoOnly formats :=
  List.filter_eq_self.mpr fun _ _ => rfl

-- The documented order is kept unless a format is passed over for its spelling.
theorem select_codecOrder_iff (formats : List (RawFormat × Str))
    (haudio : ∃ pair ∈ formats, isAudioOnly pair.1) :
    (∀ selection, select false formats {} = .ok selection → KeepsCodecOrder formats selection) ↔
      ¬PassesOverLongSpelling formats := by
  constructor
  · intro hkeeps hpasses
    obtain ⟨a, ha, b, hgreatest, -, hpicture, habove⟩ := hpasses.below
    obtain ⟨audio, hm, hclass⟩ := id haudio
    have hok : ∃ selection, select false formats {} = .ok selection :=
      select_ok_iff.mpr ⟨hpasses.ranges, audio, hm, Or.inl hclass⟩
    obtain ⟨selection, hselect⟩ := hok
    have hchosen := (optimalWithAudio haudio hselect).video
    rw [eligible_default] at hchosen
    obtain ⟨f, hf⟩ := hchosen.exists_of_mem hgreatest.mem
    rw [hf] at hchosen
    obtain ⟨pair, hgreatest', hconverts⟩ := hchosen
    obtain rfl := hgreatest.unique hgreatest'
    exact hkeeps selection hselect a ha b hgreatest.mem hpicture habove ⟨f, hf, hconverts⟩
  · rintro hnot selection hselect a ha b hb hpicture habove ⟨f, hf, hconverts⟩
    have hchosen := chosen_of_video hselect hf
    rw [eligible_default] at hchosen
    obtain ⟨pair, hgreatest, hconverts'⟩ := hchosen
    -- The format in question and the one that was chosen have become the same stream.
    have hstream := hconverts.presents
    have hstream' := hconverts'.presents
    have hcodecs : codecsOf b.1 = codecsOf pair.1 := by
      rw [codecsOf, codecsOf, ← hstream.mimeType, hstream'.mimeType]
    have hpicture' : SamePicture a.1 pair.1 :=
      ⟨hpicture.1.trans (hstream.height.symm.trans hstream'.height),
        hpicture.2.trans (hstream.fps.symm.trans hstream'.fps)⟩
    rw [hcodecs] at habove
    by_cases hlong : LongSpelled (codecsOf a.1)
    · exact hnot ⟨(select_ok_iff.mp ⟨selection, hselect⟩).1, a, ha, pair, hgreatest, hlong,
        hpicture', habove⟩
    · have hle := priority_le (hgreatest.le ha) (frameKeys_eq hpicture').ge
      exact absurd (priority_lt_of_above habove hlong) (not_lt.mpr hle)

def vp9HDR : RawFormat where
  itag := 335
  mimeType := str "video/webm; codecs=\"vp09.02.51.10.01.09.16.09.00\""
  width := some 1920
  height := some 1080

def avc1 : RawFormat where
  itag := 137
  mimeType := str "video/mp4; codecs=\"avc1.640028\""
  width := some 1920
  height := some 1080

theorem isVP9HDR_vp9HDR : IsVP9HDR (codecsOf vp9HDR) :=
  Or.inr
    ⟨str "51", str "10",
      str ".01.09.16.09.00", by decide, rfl, rfl, by decide, Or.inr (by decide), by decide⟩

theorem isOlder_avc1 : IsOlder (codecsOf avc1) :=
  ⟨str "avc1", by decide, str ".640028", by decide, Or.inr (by decide), by decide⟩

-- In the short spelling the VP9 format keeps its place.
theorem select_codecOrder_short :
    ∃ selection, select false [(avc1, str "u"), (vp9, str "v"), (opus, str "w")]
      {} = .ok selection ∧ selection.video.map (·.itag) = some 248 ∧
      KeepsCodecOrder [(avc1, str "u"), (vp9, str "v"), (opus, str "w")] selection := by
  have hiff := select_codecOrder_iff [(avc1, str "u"), (vp9, str "v"), (opus, str "w")]
    ⟨(opus, str "w"), by simp, by decide⟩
  refine ⟨_, rfl, rfl, hiff.mpr (fun hpasses => ?_) _ rfl⟩
  obtain ⟨a, ha, b, -, hlong, -, -⟩ := hpasses.below
  have hunknown := detectVideoCodec_of_longSpelled hlong
  have hm : a ∈ [(avc1, str "u"), (vp9, str "v")] := ha
  simp only [List.mem_cons, List.not_mem_nil, or_false] at hm
  rcases hm with rfl | rfl
  · exact absurd hunknown (by decide)
  · exact absurd hunknown (by decide)

-- H.264 is selected although HDR VP9 is offered in the same picture.
theorem select_passes_over_hdr :
    ∃ selection, select false [(vp9HDR, str "u"), (avc1, str "v"), (opus, str "w")]
      {} = .ok selection ∧ ¬KeepsCodecOrder
      [(vp9HDR, str "u"), (avc1, str "v"), (opus, str "w")] selection := by
  refine ⟨_, rfl, fun hkeeps => ?_⟩
  exact hkeeps (vp9HDR, str "u") (by decide) (avc1, str "v") (by decide) ⟨rfl, rfl⟩
    (Or.inl ⟨isVP9HDR_vp9HDR, Or.inr isOlder_avc1⟩) ⟨_, rfl, rfl⟩

end FormatSelector

end Ytdlpdroid
