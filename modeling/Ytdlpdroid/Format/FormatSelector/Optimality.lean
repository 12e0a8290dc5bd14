import Mathlib.Data.Int.Order.Basic
import Mathlib.Data.List.Forall2
import Mathlib.Data.List.Lex
import Ytdlpdroid.Collections.Greatest
import Ytdlpdroid.Format.FormatSelector.Theorems

namespace Ytdlpdroid

open Text Collections

namespace FormatSelector

-- The keys by which the formats of a class are compared.
def heightKeys (f : RawFormat) : List Int := [f.height.getD 0]

def videoKeys (f : RawFormat) : List Int :=
  [f.height.getD 0, f.fps.getD 0, (MimeTypeParser.detectVideoCodec f.mimeType).priority, f.bitrate]

def isAAC (f : RawFormat) : Bool := MimeTypeParser.detectAudioCodec f.mimeType = .AAC

def audioRank (options : ExtractionOptions) (f : RawFormat) : Int :=
  if !options.preferOpusAudio ∧
    isAAC f then 100 else (MimeTypeParser.detectAudioCodec f.mimeType).priority

def audioKeys (options : ExtractionOptions) (f : RawFormat) : List Int :=
  [audioRank options f, f.bitrate]

def isH264 (f : RawFormat) : Bool := MimeTypeParser.detectVideoCodec f.mimeType = .H264

def isNotAV1 (f : RawFormat) : Bool := MimeTypeParser.detectVideoCodec f.mimeType ≠ .AV1

def ofClass (p : RawFormat → Bool) (formats : List (RawFormat × Str)) : List (RawFormat × Str) :=
  formats.filter fun pair => p pair.1

def isCapped (options : ExtractionOptions) (f : RawFormat) : Bool :=
  options.maxVideoHeight.all fun maxHeight => f.height.getD 0 ≤ maxHeight

-- The video-only formats that pass the height filter.
def capped (options : ExtractionOptions) (formats : List (RawFormat × Str)) :
    List (RawFormat × Str) :=
  ofClass (isCapped options) (ofClass isVideoOnly formats)

-- A preference among formats, unless it would leave none.
def narrowed (p : RawFormat → Bool) (formats : List (RawFormat × Str)) : List (RawFormat × Str) :=
  if ofClass p formats ≠ [] then ofClass p formats else formats

def eligible (av1Unsafe : Bool) (options : ExtractionOptions) (formats : List (RawFormat × Str)) :
    List (RawFormat × Str) :=
  if options.preferH264 then narrowed isH264 (capped options formats)
  else if av1Unsafe then narrowed isNotAV1 (capped options formats)
  else capped options formats

-- The pair becomes the stream.
def Converts (pair : RawFormat × Str) (stream : StreamFormat) : Prop :=
  toStreamFormat pair.1 pair.2 = .ok stream

-- The stream of the first of the greatest formats, or none if there are no formats.
def Chosen (keys : RawFormat → List Int) (candidates : List (RawFormat × Str)) :
    Option StreamFormat → Prop
  | none => candidates = []
  | some stream =>
      ∃ pair, IsFirstGreatest (fun pair => keys pair.1) candidates pair ∧ Converts pair stream

-- The best selection when there are audio-only formats.
structure OptimalWithAudio (av1Unsafe : Bool) (options : ExtractionOptions)
    (formats : List (RawFormat × Str)) (selection : Selection) : Prop where
  audio : Chosen (audioKeys options) (ofClass isAudioOnly formats) (some selection.audio)
  muxed : selection.muxed = none ∧ options.includeMuxedFallback = false ∨
    options.includeMuxedFallback = true ∧
      Chosen heightKeys (ofClass isMuxed formats) selection.muxed
  noVideo : selection.video = none ↔ capped options formats = []
  video : Chosen videoKeys (eligible av1Unsafe options formats) selection.video

-- The best selection when there are none.
structure OptimalWithoutAudio (formats : List (RawFormat × Str)) (selection : Selection) :
    Prop where
  audio : Chosen heightKeys (ofClass isMuxed formats) (some selection.audio)
  muxed : selection.muxed = some selection.audio
  video : selection.video = none

def Optimal (av1Unsafe : Bool) (options : ExtractionOptions) (formats : List (RawFormat × Str))
    (selection : Selection) : Prop :=
  if ofClass isAudioOnly formats ≠ [] then OptimalWithAudio av1Unsafe options formats selection
  else OptimalWithoutAudio formats selection

-- Both are none, or the streams of two formats with equal keys.
def SameKeys (keys : RawFormat → List Int) (candidates : List (RawFormat × Str)) :
    Option StreamFormat → Option StreamFormat → Prop :=
  Option.Rel fun stream other => ∃ pair ∈ candidates, ∃ pair' ∈ candidates,
    Converts pair stream ∧ Converts pair' other ∧ keys pair.1 = keys pair'.1

-- Two selections that differ at most in formats with equal keys.
structure Exchangeable (av1Unsafe : Bool) (options : ExtractionOptions)
    (formats : List (RawFormat × Str)) (selection other : Selection) : Prop where
  video : SameKeys videoKeys (eligible av1Unsafe options formats) selection.video other.video
  audio : if ofClass isAudioOnly formats ≠ [] then
      SameKeys (audioKeys options) (ofClass isAudioOnly formats) (some selection.audio)
        (some other.audio)
    else SameKeys heightKeys (ofClass isMuxed formats) (some selection.audio) (some other.audio)
  muxed : SameKeys heightKeys (ofClass isMuxed formats) selection.muxed other.muxed

section

variable {av1Unsafe : Bool} {options : ExtractionOptions}
  {formats permuted : List (RawFormat × Str)}
  {candidates : List (RawFormat × Str)} {streams : List StreamFormat} {selection other : Selection}

theorem convert_forall₂ {p : RawFormat → Bool} (h : convert p formats = .ok streams) :
    List.Forall₂ Converts (ofClass p formats) streams :=
  mapM_forall₂ (fun pair : RawFormat × Str => toStreamFormat pair.1 pair.2) h

theorem Converts.presents {pair : RawFormat × Str} {stream : StreamFormat}
    (h : Converts pair stream) :
    Presents stream pair.1 := (toStreamFormat_presents h).1

-- A test of the streams that looks at what they have from their formats is one of the formats.
theorem ofClass_forall₂ {p : RawFormat → Bool} {q : StreamFormat → Bool}
    (hpq : ∀ stream f, Presents stream f → q stream = p f)
    (h : List.Forall₂ Converts candidates streams) :
    List.Forall₂ Converts (ofClass p candidates) (streams.filter q) := by
  refine List.rel_filter (fun pair stream hc => ?_) h
  change p pair.1 = true ↔ q stream = true
  rw [hpq stream pair.1 hc.presents]

theorem forall₂_nil_iff (h : List.Forall₂ Converts candidates streams) :
    streams = [] ↔ candidates = [] := by
  cases h with
  | nil => simp
  | cons hfirst hrest => simp

theorem chosen_maxWithOrNull {keys : RawFormat → List Int} {keys' : StreamFormat → List Int}
    (hkeys : ∀ stream f, Presents stream f → keys' stream = keys f)
    (h : List.Forall₂ Converts candidates streams) :
    Chosen keys candidates (maxWithOrNull keys' streams) := by
  have hrel : Option.Rel Converts (maxWithOrNull (fun pair => keys pair.1) candidates)
      (maxWithOrNull keys' streams) :=
    maxWithOrNull_rel (fun pair stream hc => (hkeys stream pair.1 hc.presents).symm) h
  generalize maxWithOrNull keys' streams = found at hrel ⊢
  generalize hsource : maxWithOrNull (fun pair => keys pair.1) candidates = source at hrel
  cases hrel with
  | none => exact maxWithOrNull_eq_none.mp hsource
  | some hc => exact ⟨_, maxWithOrNull_greatest hsource, hc⟩

theorem chosen_muxed (h : List.Forall₂ Converts candidates streams) :
    Chosen heightKeys candidates (maxWithOrNull (fun f => [f.height.getD 0]) streams) :=
  chosen_maxWithOrNull (fun stream f hp => by rw [hp.height]; rfl) h

theorem chosen_audio (h : List.Forall₂ Converts candidates streams) :
    Chosen (audioKeys options) candidates (selectBestAudio streams options) := by
  refine chosen_maxWithOrNull (fun stream f hp => ?_) h
  simp [hp.mimeType, hp.bitrate, audioKeys, audioRank, isAAC]

-- The narrowing of the streams is that of the formats.
theorem narrowed_forall₂ {p : RawFormat → Bool} {q : StreamFormat → Bool}
    (hpq : ∀ stream f, Presents stream f → q stream = p f)
    (h : List.Forall₂ Converts candidates streams) :
    List.Forall₂ Converts (narrowed p candidates)
      (if streams.filter q ≠ [] then streams.filter q else streams) := by
  have hfiltered := ofClass_forall₂ hpq h
  have hnil := forall₂_nil_iff hfiltered
  unfold narrowed
  by_cases hempty : ofClass p candidates = []
  · simpa [hempty, hnil.mpr hempty] using h
  · rw [if_pos hempty, if_pos (fun hc => hempty (hnil.mp hc))]
    exact hfiltered

theorem narrowed_eq_nil {p : RawFormat → Bool} : narrowed p candidates = [] ↔ candidates = [] := by
  unfold narrowed
  split_ifs with h
  · refine ⟨fun hnil => absurd hnil h, fun hnil => ?_⟩
    simp [hnil, ofClass]
  · rfl

theorem eligible_eq_nil : eligible av1Unsafe options formats = [] ↔
    capped options formats = [] := by
  unfold eligible
  split_ifs
  · exact narrowed_eq_nil
  · exact narrowed_eq_nil
  · rfl

theorem chosen_video (h : List.Forall₂ Converts (ofClass isVideoOnly formats) streams) :
    Chosen videoKeys (eligible av1Unsafe options formats)
      (selectBestVideo av1Unsafe streams options) := by
  have hcapped {q : StreamFormat → Bool}
      (hq : ∀ stream, q stream = options.maxVideoHeight.all fun maxHeight =>
        stream.height.getD 0 ≤ maxHeight) :
      List.Forall₂ Converts (capped options formats) (streams.filter q) :=
    ofClass_forall₂ (fun stream f hp => by rw [hq, hp.height]; rfl) h
  refine chosen_maxWithOrNull (fun stream f hp => ?_) ?_
  · rw [hp.height, hp.fps, hp.mimeType, hp.bitrate]
    rfl
  · unfold eligible
    split_ifs
    · refine narrowed_forall₂ (fun stream f hp => by rw [isH264, hp.mimeType])
        (hcapped fun stream => ?_)
      cases options.maxVideoHeight <;> rfl
    · refine narrowed_forall₂ (fun stream f hp => by rw [isNotAV1, hp.mimeType])
        (hcapped fun stream => ?_)
      cases options.maxVideoHeight <;> rfl
    · refine hcapped fun stream => ?_
      cases options.maxVideoHeight <;> rfl

-- Whatever the selection returns is optimal.
theorem optimal_of_select (h : select av1Unsafe formats options = .ok selection) :
    Optimal av1Unsafe options formats selection := by
  obtain ⟨video, audio, muxed, hvideo, haudio, hmuxed, hcase⟩ := select_inv h
  have hchosenVideo : Chosen videoKeys (eligible av1Unsafe options formats)
      (selectBestVideo av1Unsafe video options) := chosen_video (convert_forall₂ hvideo)
  have hchosenAudio : Chosen (audioKeys options) (ofClass isAudioOnly formats)
      (selectBestAudio audio options) := chosen_audio (convert_forall₂ haudio)
  have hchosenMuxed := chosen_muxed (convert_forall₂ hmuxed)
  unfold Optimal
  rcases hcase with ⟨best, hbest, rfl⟩ | ⟨hnone, best, hbest, rfl⟩
  · rw [hbest] at hchosenAudio
    obtain ⟨pair, hgreatest, -⟩ := id hchosenAudio
    rw [if_pos (List.ne_nil_of_mem hgreatest.mem)]
    refine ⟨hchosenAudio, ?_, ?_, hchosenVideo⟩
    · cases options.includeMuxedFallback with
      | false => exact Or.inl ⟨rfl, rfl⟩
      | true => exact Or.inr ⟨rfl, hchosenMuxed⟩
    · have hnil : eligible av1Unsafe options formats = [] ↔ capped options formats = [] :=
        eligible_eq_nil
      rw [← hnil]
      generalize selectBestVideo av1Unsafe video options = found at hchosenVideo
      cases found with
      | none => exact ⟨fun _ => hchosenVideo, fun _ => rfl⟩
      | some stream =>
          obtain ⟨pair, hgreatest, -⟩ := hchosenVideo
          exact ⟨nofun, fun hnil => absurd hnil (List.ne_nil_of_mem hgreatest.mem)⟩
  · rw [hnone] at hchosenAudio
    have hempty : ofClass isAudioOnly formats = [] := hchosenAudio
    rw [if_neg (not_not.mpr hempty)]
    rw [hbest] at hchosenMuxed
    exact ⟨hchosenMuxed, rfl, rfl⟩

theorem Chosen.converts {keys : RawFormat → List Int} {stream : StreamFormat}
    (h : Chosen keys candidates (some stream)) : ∃ pair ∈ candidates, Converts pair stream := by
  obtain ⟨pair, hgreatest, hconverts⟩ := h
  exact ⟨pair, hgreatest.mem, hconverts⟩

theorem ofClass_subset (p : RawFormat → Bool) (candidates : List (RawFormat × Str)) :
    ofClass p candidates ⊆ candidates := List.filter_subset_self candidates

theorem eligible_subset : eligible av1Unsafe options formats ⊆ formats := by
  have hcapped : capped options formats ⊆ formats :=
    List.Subset.trans (ofClass_subset _ _) (ofClass_subset _ _)
  have hnarrowed (p : RawFormat → Bool) : narrowed p (capped options formats) ⊆ formats := by
    unfold narrowed
    split_ifs
    · exact List.Subset.trans (ofClass_subset _ _) hcapped
    · exact hcapped
  unfold eligible
  split_ifs
  · exact hnarrowed isH264
  · exact hnarrowed isNotAV1
  · exact hcapped

-- The streams of a selection.
def Selection.Has (selection : Selection) (stream : StreamFormat) : Prop :=
  selection.video = some stream ∨ selection.audio = stream ∨ selection.muxed = some stream

-- Every selected stream is made of one of the formats and its URL.
theorem select_converts (h : select av1Unsafe formats options = .ok selection)
    {stream : StreamFormat} (hstream : selection.Has stream) :
    ∃ pair ∈ formats, Converts pair stream := by
  have hoptimal := optimal_of_select h
  have hfound {keys : RawFormat → List Int} {candidates : List (RawFormat × Str)}
      (hsub : candidates ⊆ formats)
      (hchosen : Chosen keys candidates (some stream)) :
        ∃ pair ∈ formats, Converts pair stream := by
    obtain ⟨pair, hm, hconverts⟩ := hchosen.converts
    exact ⟨pair, hsub hm, hconverts⟩
  unfold Optimal at hoptimal
  split_ifs at hoptimal
  · rcases hstream with hvideo | rfl | hmuxed
    · exact hfound eligible_subset (hvideo ▸ hoptimal.video)
    · exact hfound (ofClass_subset _ _) hoptimal.audio
    · rcases hoptimal.muxed with ⟨hnone, -⟩ | ⟨-, hchosen⟩
      · rw [hnone] at hmuxed
        cases hmuxed
      · exact hfound (ofClass_subset _ _) (hmuxed ▸ hchosen)
  · have haudio := hoptimal.audio
    rcases hstream with hvideo | rfl | hmuxed
    · rw [hoptimal.video] at hvideo
      cases hvideo
    · exact hfound (ofClass_subset _ _) haudio
    · rw [hoptimal.muxed] at hmuxed
      exact hfound (ofClass_subset _ _) (hmuxed ▸ haudio)

-- The candidates in another order are the same formats.
theorem ofClass_perm (p : RawFormat → Bool) (h : formats.Perm permuted) :
    (ofClass p formats).Perm (ofClass p permuted) := h.filter _

theorem narrowed_perm (p : RawFormat → Bool) (h : formats.Perm permuted) :
    (narrowed p formats).Perm (narrowed p permuted) := by
  have hclass := ofClass_perm p h
  have hnil : ofClass p formats = [] ↔ ofClass p permuted = [] :=
    ⟨fun hf => List.perm_nil.mp (hf ▸ hclass.symm), fun hp => List.perm_nil.mp (hp ▸ hclass)⟩
  unfold narrowed
  by_cases hempty : ofClass p formats = []
  · simpa [hempty, hnil.mp hempty] using h
  · rw [if_pos hempty, if_pos fun hp => hempty (hnil.mpr hp)]
    exact hclass

theorem capped_perm (h : formats.Perm permuted) :
    (capped options formats).Perm (capped options permuted) :=
  ofClass_perm _ (ofClass_perm _ h)

theorem eligible_perm (h : formats.Perm permuted) :
    (eligible av1Unsafe options formats).Perm (eligible av1Unsafe options permuted) := by
  unfold eligible
  split_ifs
  · exact narrowed_perm isH264 (capped_perm h)
  · exact narrowed_perm isNotAV1 (capped_perm h)
  · exact capped_perm h

-- The streams chosen from two orders of the candidates have equal keys.
theorem sameKeys_of_perm {keys : RawFormat → List Int} {permutedCandidates : List (RawFormat × Str)}
    (hperm : candidates.Perm permutedCandidates) {stream other : Option StreamFormat}
    (h : Chosen keys candidates stream) (h' : Chosen keys permutedCandidates other) :
    SameKeys keys candidates stream other := by
  cases stream with
  | none =>
      have hnil : candidates = [] := h
      subst hnil
      cases other with
      | none => exact .none
      | some found =>
          obtain ⟨pair, hgreatest, -⟩ := h'
          exact absurd (hperm.symm.subset hgreatest.mem) List.not_mem_nil
  | some found =>
      obtain ⟨pair, hgreatest, hconverts⟩ := h
      cases other with
      | none =>
          have hnil : permutedCandidates = [] := h'
          subst hnil
          exact absurd (hperm.subset hgreatest.mem) List.not_mem_nil
      | some found' =>
          obtain ⟨pair', hgreatest', hconverts'⟩ := h'
          exact .some ⟨pair, hgreatest.mem, pair', hperm.symm.subset hgreatest'.mem, hconverts,
            hconverts', hgreatest.key_eq_of_perm hgreatest' hperm⟩

theorem exchangeable_of_perm (hperm : formats.Perm permuted)
    (h : Optimal av1Unsafe options formats selection)
    (h' : Optimal av1Unsafe options permuted other) :
    Exchangeable av1Unsafe options formats selection other := by
  have haudioPerm := ofClass_perm isAudioOnly hperm
  have hmuxedPerm := ofClass_perm isMuxed hperm
  have hvideoPerm :
      (eligible av1Unsafe options formats).Perm (eligible av1Unsafe options permuted) :=
    eligible_perm hperm
  unfold Optimal at h h'
  by_cases hempty : ofClass isAudioOnly formats = []
  · have hempty' : ofClass isAudioOnly permuted = [] := List.perm_nil.mp (hempty ▸ haudioPerm.symm)
    rw [if_neg (not_not.mpr hempty)] at h
    rw [if_neg (not_not.mpr hempty')] at h'
    have hsame := sameKeys_of_perm hmuxedPerm h.audio h'.audio
    refine ⟨?_, ?_, ?_⟩
    · rw [h.video, h'.video]
      exact .none
    · rwa [if_neg (not_not.mpr hempty)]
    · rwa [h.muxed, h'.muxed]
  · have hempty' : ofClass isAudioOnly permuted ≠ [] :=
      fun hnil => hempty (List.perm_nil.mp (hnil ▸ haudioPerm))
    rw [if_pos hempty] at h
    rw [if_pos hempty'] at h'
    refine ⟨sameKeys_of_perm hvideoPerm h.video h'.video, ?_, ?_⟩
    · rw [if_pos hempty]
      exact sameKeys_of_perm haudioPerm h.audio h'.audio
    · rcases h.muxed with ⟨hmuxed, hoff⟩ | ⟨hon, hmuxed⟩
      · rcases h'.muxed with ⟨hmuxed', -⟩ | ⟨hon, -⟩
        · rw [hmuxed, hmuxed']
          exact .none
        · rw [hoff] at hon
          cases hon
      · rcases h'.muxed with ⟨-, hoff⟩ | ⟨-, hmuxed'⟩
        · rw [hoff] at hon
          cases hon
        · exact sameKeys_of_perm hmuxedPerm hmuxed hmuxed'

-- With well formed ranges only a list without audio-only and muxed formats is refused.
theorem select_ok_of_ranges (hranges : ∀ pair ∈ formats, HasRanges pair.1) :
    (∃ selection, select av1Unsafe formats options = .ok selection) ↔
      ∃ pair ∈ formats, isAudioOnly pair.1 ∨ isMuxed pair.1 :=
  select_ok_iff.trans (and_iff_right fun pair hm _ => hranges pair hm)

-- A list from which a selection is made allows one in every order.
theorem select_perm (h : select av1Unsafe formats options = .ok selection)
    (hperm : formats.Perm permuted) :
    ∃ other, select av1Unsafe permuted options = .ok other := by
  obtain ⟨hranges, pair, hm, hclass⟩ := select_ok_iff.mp ⟨selection, h⟩
  exact select_ok_iff.mpr ⟨fun other ho => hranges other (hperm.symm.subset ho), pair,
    hperm.subset hm, hclass⟩

theorem priority_lt_hundred (codec : AudioCodec) : codec.priority < 100 := by
  cases codec <;> decide

theorem audioRank_lt (hopus : options.preferOpusAudio = false) {f g : RawFormat} (hf : isAAC f)
    (hg : ¬isAAC g) : audioRank options g < audioRank options f := by
  unfold audioRank
  rw [if_neg (by simp [hg]), if_pos (by simp [hopus, hf])]
  exact priority_lt_hundred _

end

-- The selection is optimal, ties go to the earliest format, and the order of the formats decides
-- only between formats with equal keys.
theorem select_optimal (av1Unsafe : Bool) (options : ExtractionOptions)
    (formats : List (RawFormat × Str)) :
    (∀ selection, select av1Unsafe formats options = .ok selection →
      Optimal av1Unsafe options formats selection ∧
        ∀ permuted, formats.Perm permuted → ∃ other, select av1Unsafe permuted options = .ok other ∧
          Exchangeable av1Unsafe options formats selection other) ∧
      (options.preferOpusAudio = false →
        ∀ f g, isAAC f → ¬isAAC g → audioRank options g < audioRank options f) ∧
      ((∀ pair ∈ formats, HasRanges pair.1) →
        ((∃ selection, select av1Unsafe formats options = .ok selection) ↔
          ∃ pair ∈ formats, isAudioOnly pair.1 ∨ isMuxed pair.1)) := by
  refine ⟨fun selection h => ⟨optimal_of_select h, fun permuted hperm => ?_⟩,
    fun hopus f g hf hg => audioRank_lt hopus hf hg, select_ok_of_ranges⟩
  obtain ⟨other, hother⟩ := select_perm h hperm
  exact ⟨other, hother, exchangeable_of_perm hperm (optimal_of_select h) (optimal_of_select hother)⟩

def opus : RawFormat where
  itag := 251
  mimeType := str "audio/webm; codecs=\"opus\""
  bitrate := 160000

def mp4a : RawFormat where
  itag := 140
  mimeType := str "audio/mp4; codecs=\"mp4a.40.2\""
  bitrate := 128000

def preferAAC : ExtractionOptions where
  preferOpusAudio := false

-- Without a preference for Opus the AAC stream wins in both orders.
theorem select_optimal_aac :
    (∃ selection, select false [(opus, str "u"), (mp4a, str "v")] preferAAC = .ok selection ∧
      selection.audio.itag = 140 ∧
      Optimal false preferAAC [(opus, str "u"), (mp4a, str "v")] selection ∧
      ∃ other, select false [(mp4a, str "v"), (opus, str "u")] preferAAC = .ok other ∧
        Exchangeable false preferAAC [(opus, str "u"), (mp4a, str "v")] selection other) ∧
      audioRank preferAAC opus < audioRank preferAAC mp4a := by
  have hmain := select_optimal false preferAAC [(opus, str "u"), (mp4a, str "v")]
  have hranges : ∀ pair ∈ [(opus, str "u"), (mp4a, str "v")], HasRanges pair.1 := by
    simp [HasRanges, opus, mp4a]
  obtain ⟨selection, hselection⟩ :=
    (hmain.2.2 hranges).mpr ⟨(opus, str "u"), by simp, Or.inl (by decide)⟩
  have hitag : (select false [(opus, str "u"), (mp4a, str "v")] preferAAC).map (·.audio.itag) =
      .ok 140 := by
    decide
  rw [hselection] at hitag
  obtain ⟨hoptimal, hperm⟩ := hmain.1 selection hselection
  exact ⟨⟨selection, hselection, Except.ok.inj hitag, hoptimal, hperm _ (List.Perm.swap ..)⟩,
    hmain.2.1 rfl mp4a opus (by decide) (by decide)⟩

end FormatSelector

end Ytdlpdroid
