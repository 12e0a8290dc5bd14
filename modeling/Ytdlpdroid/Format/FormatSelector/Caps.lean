import Ytdlpdroid.Format.FormatSelector.Guards

namespace Ytdlpdroid

namespace Collections

variable {α β : Type*} [LinearOrder β]

-- Among the elements that pass a test the one found is still the first greatest, if it passes.
theorem IsFirstGreatest.filter {key : α → β} {all : List α} {found : α}
    (h : IsFirstGreatest key all found) {p : α → Bool} (hp : p found) :
    IsFirstGreatest key (all.filter p) found := by
  obtain ⟨before, after, rfl, hbefore, hafter⟩ := h
  refine ⟨before.filter p, after.filter p, ?_, fun x hx => hbefore x (List.mem_of_mem_filter hx),
    fun x hx => hafter x (List.mem_of_mem_filter hx)⟩
  rw [List.filter_append, List.filter_cons_of_pos hp]

end Collections

open Text Collections

namespace FormatSelector

-- The same options with this cap.
def withCap (options : ExtractionOptions) (maxVideoHeight : Option Int) : ExtractionOptions :=
  { options with maxVideoHeight }

def isWithin (maxHeight : Int) (f : RawFormat) : Bool := f.height.getD 0 ≤ maxHeight

-- Above the cap stands everything that is eligible, or the cap only takes the taller ones away.
def Raises (maxHeight : Int) (below above : List (RawFormat × Str)) : Prop :=
  below = ofClass (isWithin maxHeight) above ∨ above ≠ [] ∧
    ∀ pair ∈ above, ¬isWithin maxHeight pair.1

section

variable {av1Unsafe : Bool} {options : ExtractionOptions}
  {formats candidates : List (RawFormat × Str)}
  {maxHeight : Int} {raised : Option Int}

theorem ofClass_comm (p q : RawFormat → Bool) (candidates : List (RawFormat × Str)) :
    ofClass p (ofClass q candidates) = ofClass q (ofClass p candidates) := by
  simp only [ofClass, List.filter_filter, Bool.and_comm]

theorem capped_raise (hraised : ∀ higher ∈ raised, maxHeight ≤ higher) :
    capped (withCap options (some maxHeight)) formats =
      ofClass (isWithin maxHeight) (capped (withCap options raised) formats) := by
  unfold capped
  generalize ofClass isVideoOnly formats = videos
  rw [ofClass, ofClass, ofClass, List.filter_filter]
  refine List.filter_congr fun pair _ => ?_
  cases raised with
  | none => simp [isCapped, withCap, isWithin]
  | some higher =>
      have hle := hraised higher rfl
      have hiff : pair.1.height.getD 0 ≤ maxHeight ↔ pair.1.height.getD 0 ≤ maxHeight ∧
          pair.1.height.getD 0 ≤ higher := by omega
      simp only [isCapped, withCap, isWithin, Option.all_some, ← Bool.decide_and]
      exact decide_eq_decide.mpr hiff

-- A preference that only taller formats meet takes effect when the cap lets them in.
theorem narrowed_raise (p : RawFormat → Bool) :
    Raises maxHeight (narrowed p (ofClass (isWithin maxHeight) candidates))
      (narrowed p candidates) := by
  by_cases hbelow : ∃ pair ∈ ofClass (isWithin maxHeight) candidates, p pair.1
  · obtain ⟨pair, hm, hp⟩ := hbelow
    have habove : ∃ pair ∈ candidates, p pair.1 := ⟨pair, (mem_ofClass.mp hm).1, hp⟩
    left
    rw [narrowed_of_exists ⟨pair, hm, hp⟩, narrowed_of_exists habove, ofClass_comm]
  · by_cases habove : ∃ pair ∈ candidates, p pair.1
    · right
      rw [narrowed_of_exists habove]
      refine ⟨ofClass_ne_nil.mpr habove, fun pair hm hwithin => ?_⟩
      obtain ⟨hcandidate, hp⟩ := mem_ofClass.mp hm
      exact hbelow ⟨pair, mem_ofClass.mpr ⟨hcandidate, hwithin⟩, hp⟩
    · left
      rw [narrowed_of_not_exists hbelow, narrowed_of_not_exists habove]

theorem eligible_raise (hraised : ∀ higher ∈ raised, maxHeight ≤ higher) :
    Raises maxHeight (eligible av1Unsafe (withCap options (some maxHeight)) formats)
      (eligible av1Unsafe (withCap options raised) formats) := by
  have hsame (cap : Option Int) : (withCap options cap).preferH264 = options.preferH264 := rfl
  unfold eligible
  rw [capped_raise hraised, hsame, hsame]
  by_cases hprefer : options.preferH264
  · rw [if_pos hprefer, if_pos hprefer]
    exact narrowed_raise isH264
  · rw [if_neg hprefer, if_neg hprefer]
    by_cases hunsafe : av1Unsafe
    · rw [if_pos hunsafe, if_pos hunsafe]
      exact narrowed_raise isNotAV1
    · rw [if_neg hunsafe, if_neg hunsafe]
      exact Or.inl rfl

theorem Converts.unique {pair : RawFormat × Str} {stream other : StreamFormat}
    (h : Converts pair stream) (h' : Converts pair other) :
    stream = other := Except.ok.inj (h.symm.trans h')

theorem Chosen.unique {keys : RawFormat → List Int} {stream other : Option StreamFormat}
    (h : Chosen keys candidates stream) (h' : Chosen keys candidates other) : stream = other := by
  cases stream with
  | none =>
      cases other with
      | none => rfl
      | some other =>
          obtain ⟨pair, hgreatest, -⟩ := h'
          exact absurd h (List.ne_nil_of_mem hgreatest.mem)
  | some stream =>
      obtain ⟨pair, hgreatest, hconverts⟩ := h
      cases other with
      | none => exact absurd h' (List.ne_nil_of_mem hgreatest.mem)
      | some other =>
          obtain ⟨pair', hgreatest', hconverts'⟩ := h'
          obtain rfl := hgreatest.unique hgreatest'
          rw [hconverts.unique hconverts']

-- The stream chosen above the cap is the one chosen below it, or it is taller.
theorem Raises.chosen {below above : List (RawFormat × Str)} (h : Raises maxHeight below above)
    {keys : RawFormat → List Int} {stream other : Option StreamFormat}
    (hbelow : Chosen keys below stream) (habove : Chosen keys above other) :
    other = stream ∨ ∃ f, other = some f ∧ maxHeight < f.height.getD 0 := by
  cases other with
  | none =>
      obtain rfl : above = [] := habove
      rcases h with hsame | ⟨hsome, -⟩
      · obtain rfl : below = [] := hsame
        exact Or.inl (Chosen.unique rfl hbelow)
      · exact absurd rfl hsome
  | some other =>
      obtain ⟨pair, hgreatest, hconverts⟩ := habove
      have hheight : other.height = pair.1.height := hconverts.presents.height
      by_cases hwithin : isWithin maxHeight pair.1
      · left
        rcases h with rfl | ⟨-, htaller⟩
        · have hchosen : Chosen keys (ofClass (isWithin maxHeight) above) (some other) :=
            ⟨pair, hgreatest.filter hwithin, hconverts⟩
          exact hchosen.unique hbelow
        · exact absurd hwithin (htaller pair hgreatest.mem)
      · right
        refine ⟨other, rfl, ?_⟩
        simp only [isWithin, decide_eq_true_eq, not_le] at hwithin
        rwa [hheight]

end

-- Raising the cap changes the video stream only to one that is taller than the old cap, and
-- nothing else.
theorem select_raise (av1Unsafe : Bool) (formats : List (RawFormat × Str))
    (options : ExtractionOptions) (maxHeight : Int) (raised : Option Int)
    (hraised : ∀ higher ∈ raised, maxHeight ≤ higher) (selection : Selection)
    (hselect : select av1Unsafe formats (withCap options (some maxHeight)) = .ok selection) :
    ∃ other, select av1Unsafe formats (withCap options raised) = .ok other ∧
      other.audio = selection.audio ∧ other.muxed = selection.muxed ∧
      (other.video = selection.video ∨ ∃ f, other.video = some f ∧
        maxHeight < f.height.getD 0) := by
  obtain ⟨other, hother⟩ := select_ok_iff.mpr (select_ok_iff.mp ⟨selection, hselect⟩)
  have hoptimal := optimal_of_select hselect
  have hoptimal' := optimal_of_select hother
  refine ⟨other, hother, ?_⟩
  unfold Optimal at hoptimal hoptimal'
  split_ifs at hoptimal hoptimal'
  · refine ⟨Option.some.inj (hoptimal'.audio.unique hoptimal.audio), ?_,
      (eligible_raise hraised).chosen hoptimal.video hoptimal'.video⟩
    rcases hoptimal.muxed with ⟨hnone, hoff⟩ | ⟨hon, hmuxed⟩
    · rcases hoptimal'.muxed with ⟨hnone', -⟩ | ⟨hon', -⟩
      · rw [hnone, hnone']
      · exact absurd (hon'.symm.trans hoff) nofun
    · rcases hoptimal'.muxed with ⟨-, hoff'⟩ | ⟨-, hmuxed'⟩
      · exact absurd (hon.symm.trans hoff') nofun
      · exact hmuxed'.unique hmuxed
  · have haudio := Option.some.inj (hoptimal'.audio.unique hoptimal.audio)
    refine ⟨haudio, ?_, Or.inl ?_⟩
    · rw [hoptimal.muxed, hoptimal'.muxed, haudio]
    · rw [hoptimal.video, hoptimal'.video]

-- The only stream in H264 is taller than the cap.
def tallH264 : RawFormat where
  itag := 137
  mimeType := str "video/mp4; codecs=\"avc1.640028\""
  width := some 1920
  height := some 1080

def lowVP9 : RawFormat where
  itag := 247
  mimeType := str "video/webm; codecs=\"vp9\""
  width := some 1280
  height := some 720

theorem select_raise_h264 :
    ∃ selection other, select false [(tallH264, str "t"), (lowVP9, str "l"), (audioOnly, str "u")]
        (withCap { preferH264 := true } (some 720)) = .ok selection ∧
      select false [(tallH264, str "t"), (lowVP9, str "l"), (audioOnly, str "u")]
        (withCap { preferH264 := true } none) = .ok other ∧
      other.audio = selection.audio ∧ other.muxed = selection.muxed ∧
      (other.video = selection.video ∨ ∃ f, other.video = some f ∧ 720 < f.height.getD 0) := by
  obtain ⟨selection, hselect⟩ : ∃ selection, select false [(tallH264, str "t"), (lowVP9, str "l"),
      (audioOnly, str "u")] (withCap { preferH264 := true } (some 720)) = .ok selection := ⟨_, rfl⟩
  obtain ⟨other, hother, hrest⟩ := select_raise false _ _ 720 none nofun selection hselect
  exact ⟨selection, other, hselect, hother, hrest⟩

end FormatSelector

end Ytdlpdroid
