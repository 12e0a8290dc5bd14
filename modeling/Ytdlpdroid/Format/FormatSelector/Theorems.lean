import Ytdlpdroid.Format.FormatSelector
import Ytdlpdroid.Model.Numbers.Theorems

namespace Ytdlpdroid

open Text

theorem toLong_cases (text : Str) :
    (∃ n, toLongOrNull text = some n ∧ toLong text = .ok n) ∨
      ∃ e, toLongOrNull text = none ∧ toLong text = .error e ∧ e.cls = .numberFormatException := by
  unfold toLong
  cases toLongOrNull text with
  | some n => exact Or.inl ⟨n, rfl, rfl⟩
  | none => exact Or.inr ⟨_, rfl, rfl, rfl⟩

-- A list that is mapped in order stops at the first exception.
theorem mapM_cases {α β ε : Type} (f : α → Except ε β) (all : List α) :
    (∃ found, all.mapM f = .ok found ∧ found.length = all.length ∧ ∀ a ∈ all, ∃ b, f a = .ok b) ∨
      ∃ e, all.mapM f = .error e ∧ ∃ a ∈ all, f a = .error e := by
  induction all with
  | nil => exact Or.inl ⟨[], rfl, rfl, by simp⟩
  | cons a rest ih =>
      rw [List.mapM_cons]
      cases ha : f a with
      | error e => exact Or.inr ⟨e, rfl, a, List.mem_cons_self, ha⟩
      | ok b =>
          rcases ih with ⟨found, hrest, hlength, hall⟩ | ⟨e, hrest, other, hm, he⟩
          · exact Or.inl ⟨b :: found, by rw [hrest]; rfl, by simp [hlength],
              List.forall_mem_cons.mpr ⟨⟨b, ha⟩, hall⟩⟩
          · exact Or.inr ⟨e, by rw [hrest]; rfl, other, List.mem_cons_of_mem _ hm, he⟩

-- A list that is mapped in order to the end gives the image of each element in its place.
theorem mapM_forall₂ {α β ε : Type} (f : α → Except ε β) {all : List α} {found : List β}
    (h : all.mapM f = .ok found) : List.Forall₂ (fun a b => f a = .ok b) all found := by
  induction all generalizing found with
  | nil =>
      obtain rfl := Except.ok.inj h
      exact .nil
  | cons a rest ih =>
      rw [List.mapM_cons] at h
      cases ha : f a with
      | error e => simp [ha, bind, Except.bind] at h
      | ok b =>
          cases hrest : rest.mapM f with
          | error e => simp [ha, hrest, bind, Except.bind] at h
          | ok others =>
              simp only [ha, hrest, bind, Except.bind] at h
              obtain rfl := Except.ok.inj h
              exact .cons ha (ih hrest)

namespace FormatSelector

-- The ends of a range are numerals of a Long.
def WellFormed (range : RawRange) : Prop :=
  (toLongOrNull range.first).isSome ∧ (toLongOrNull range.last).isSome

def HasRanges (f : RawFormat) : Prop :=
  ∀ range, f.initRange = some range ∨ f.indexRange = some range → WellFormed range

-- The classes of formats that selection converts.
def isSelectable (f : RawFormat) : Bool := isVideoOnly f || isAudioOnly f || isMuxed f

theorem toLongRange_cases (range : Option RawRange) :
    ((∀ r, range = some r → WellFormed r) ∧ ∃ found, toLongRange range = .ok found) ∨
      (¬∀ r, range = some r → WellFormed r) ∧
        ∃ e, toLongRange range = .error e ∧ e.cls = .numberFormatException := by
  cases range with
  | none => exact Or.inl ⟨by simp, none, rfl⟩
  | some r =>
      simp only [Option.some.injEq, forall_eq', toLongRange, WellFormed]
      rcases toLong_cases r.first with ⟨first, hsome, hfirst⟩ | ⟨e, hnone, hfirst, he⟩
      · rcases toLong_cases r.last with ⟨last, hsome', hlast⟩ | ⟨e, hnone, hlast, he⟩
        · exact Or.inl ⟨by simp [hsome, hsome'], some ⟨first, last⟩, by rw [hfirst, hlast]; rfl⟩
        · exact Or.inr ⟨by simp [hnone], e, by rw [hfirst, hlast]; rfl, he⟩
      · exact Or.inr ⟨by simp [hnone], e, by rw [hfirst]; rfl, he⟩

theorem toStreamFormat_cases (f : RawFormat) (url : Str) :
    (HasRanges f ∧ ∃ found, toStreamFormat f url = .ok found) ∨
      ¬HasRanges f ∧ ∃ e, toStreamFormat f url = .error e ∧ e.cls = .numberFormatException := by
  have hranges : HasRanges f ↔ (∀ r, f.initRange = some r → WellFormed r) ∧
      ∀ r, f.indexRange = some r → WellFormed r := by
    simp only [HasRanges, or_imp, forall_and]
  rw [hranges, toStreamFormat]
  rcases toLongRange_cases f.initRange with ⟨hinit, first, hfirst⟩ | ⟨hinit, e, hfirst, he⟩
  · rcases toLongRange_cases f.indexRange with ⟨hindex, last, hlast⟩ | ⟨hindex, e, hlast, he⟩
    · exact Or.inl ⟨⟨hinit, hindex⟩, _, by rw [hfirst, hlast]; rfl⟩
    · exact Or.inr ⟨fun h => hindex h.2, e, by rw [hfirst, hlast]; rfl, he⟩
  · exact Or.inr ⟨fun h => hinit h.1, e, by rw [hfirst]; rfl, he⟩

-- The attributes that a stream has from its format.
structure Presents (stream : StreamFormat) (f : RawFormat) : Prop where
  itag : stream.itag = f.itag
  mimeType : stream.mimeType = f.mimeType
  bitrate : stream.bitrate = f.bitrate
  width : stream.width = f.width
  height : stream.height = f.height
  fps : stream.fps = f.fps

theorem toStreamFormat_presents {f : RawFormat} {url : Str} {stream : StreamFormat}
    (h : toStreamFormat f url = .ok stream) : Presents stream f ∧ stream.url = url := by
  unfold toStreamFormat at h
  cases hinit : toLongRange f.initRange with
  | error e => simp [hinit, bind, Except.bind] at h
  | ok initRange =>
      cases hindex : toLongRange f.indexRange with
      | error e => simp [hinit, hindex, bind, Except.bind] at h
      | ok indexRange =>
          simp only [hinit, hindex, bind, Except.bind] at h
          obtain rfl := Except.ok.inj h
          exact ⟨⟨rfl, rfl, rfl, rfl, rfl, rfl⟩, rfl⟩

-- The formats of a class are converted if all their ranges are well formed.
theorem convert_cases (p : RawFormat → Bool) (formats : List (RawFormat × Str)) :
    ((∀ pair ∈ formats, p pair.1 → HasRanges pair.1) ∧
        ∃ found, convert p formats = .ok found ∧ (found ≠ [] ↔ ∃ pair ∈ formats, p pair.1)) ∨
      (∃ pair ∈ formats, p pair.1 ∧ ¬HasRanges pair.1) ∧
        ∃ e, convert p formats = .error e ∧ e.cls = .numberFormatException := by
  unfold convert
  rcases mapM_cases (fun pair => toStreamFormat pair.1 pair.2)
    (formats.filter fun pair => p pair.1) with
    ⟨found, hok, hlength, hall⟩ | ⟨e, herror, ⟨f, url⟩, hm, he⟩
  · refine Or.inl ⟨fun pair hm hp => ?_, found, hok, ?_⟩
    · obtain ⟨converted, hconverted⟩ := hall pair (List.mem_filter.mpr ⟨hm, hp⟩)
      rcases toStreamFormat_cases pair.1 pair.2 with ⟨hranges, -⟩ | ⟨-, e, he, -⟩
      · exact hranges
      · exact absurd (hconverted.symm.trans he) (by simp)
    · rw [← List.length_pos_iff, hlength, List.length_filter_pos_iff]
  · obtain ⟨hformat, hp⟩ := List.mem_filter.mp hm
    rcases toStreamFormat_cases f url with ⟨-, found, hok⟩ | ⟨hranges, other, hother, hcls⟩
    · exact absurd (hok.symm.trans he) (by simp)
    · obtain rfl := Except.error.inj (hother.symm.trans he)
      exact Or.inr ⟨⟨(f, url), hformat, hp, hranges⟩, other, herror, hcls⟩

-- Selection needs an audio-only or a muxed format, and that all ranges are well formed.
theorem select_cases (av1Unsafe : Bool) (formats : List (RawFormat × Str))
    (options : ExtractionOptions) :
    ((∀ pair ∈ formats, isSelectable pair.1 → HasRanges pair.1) ∧
      ((∃ pair ∈ formats, isAudioOnly pair.1 ∨ isMuxed pair.1) ∧
          (∃ selection, select av1Unsafe formats options = .ok selection) ∨
        (¬∃ pair ∈ formats, isAudioOnly pair.1 ∨ isMuxed pair.1) ∧
          ∃ e, select av1Unsafe formats options = .error e ∧ e.cls = .noStreamsFound)) ∨
      (∃ pair ∈ formats, isSelectable pair.1 ∧ ¬HasRanges pair.1) ∧
        ∃ e, select av1Unsafe formats options = .error e ∧ e.cls = .numberFormatException := by
  unfold select
  rcases convert_cases isVideoOnly formats with
    ⟨hvideo, video, hvideoOk, -⟩ | ⟨⟨pair, hm, hp, hnot⟩, e, herror, hcls⟩
  · rcases convert_cases isAudioOnly formats with
      ⟨haudio, audio, haudioOk, haudioSome⟩ | ⟨⟨pair, hm, hp, hnot⟩, e, herror, hcls⟩
    · rcases convert_cases isMuxed formats with
        ⟨hmuxed, muxed, hmuxedOk, hmuxedSome⟩ | ⟨⟨pair, hm, hp, hnot⟩, e, herror, hcls⟩
      · refine Or.inl ⟨fun pair hm hp => ?_, ?_⟩
        · simp only [isSelectable, Bool.or_eq_true] at hp
          rcases hp with (hp | hp) | hp
          · exact hvideo pair hm hp
          · exact haudio pair hm hp
          · exact hmuxed pair hm hp
        · have hsome : (∃ pair ∈ formats, isAudioOnly pair.1 ∨ isMuxed pair.1) ↔
              audio ≠ [] ∨ muxed ≠ [] := by
            rw [haudioSome, hmuxedSome, ← exists_or]
            exact exists_congr fun pair => and_or_left
          rw [hsome, hvideoOk, haudioOk, hmuxedOk]
          cases audio with
          | cons first rest => exact Or.inl ⟨Or.inl (by simp), _, rfl⟩
          | nil =>
              cases muxed with
              | cons first rest => exact Or.inl ⟨Or.inr (by simp), _, rfl⟩
              | nil => exact Or.inr ⟨by simp, _, rfl, rfl⟩
      · exact Or.inr ⟨⟨pair, hm, by simp [isSelectable, hp], hnot⟩, e,
          by rw [hvideoOk, haudioOk, herror]; rfl, hcls⟩
    · exact Or.inr ⟨⟨pair, hm, by simp [isSelectable, hp], hnot⟩,
        e, by rw [hvideoOk, herror]; rfl, hcls⟩
  · exact Or.inr ⟨⟨pair, hm, by simp [isSelectable, hp], hnot⟩, e, by rw [herror]; rfl, hcls⟩

theorem select_ok_iff {av1Unsafe : Bool} {formats : List (RawFormat × Str)}
    {options : ExtractionOptions} :
    (∃ selection, select av1Unsafe formats options = .ok selection) ↔
      (∀ pair ∈ formats, isSelectable pair.1 → HasRanges pair.1) ∧
        ∃ pair ∈ formats, isAudioOnly pair.1 ∨ isMuxed pair.1 := by
  rcases select_cases av1Unsafe formats options with
    ⟨hranges, ⟨hsome, hok⟩ | ⟨hnone, e, he, -⟩⟩ | ⟨⟨pair, hm, hp, hnot⟩, e, he, -⟩
  · exact iff_of_true hok ⟨hranges, hsome⟩
  · refine iff_of_false (fun hok => ?_) fun h => hnone h.2
    obtain ⟨selection, hok⟩ := hok
    rw [he] at hok
    cases hok
  · refine iff_of_false (fun hok => ?_) fun h => hnot (h.1 pair hm hp)
    obtain ⟨selection, hok⟩ := hok
    rw [he] at hok
    cases hok

-- One further format is harmless unless it is of a class that is converted and has a range
-- that is not made of numerals.
theorem select_insert_iff (av1Unsafe : Bool) (options : ExtractionOptions)
    (before after : List (RawFormat × Str)) (pair : RawFormat × Str)
    (h : ∃ selection, select av1Unsafe (before ++ after) options = .ok selection) :
    (∃ selection, select av1Unsafe (before ++ pair :: after) options = .ok selection) ↔
      (isSelectable pair.1 → HasRanges pair.1) := by
  obtain ⟨hranges, other, hother, hclass⟩ := select_ok_iff.mp h
  have hmem {p : RawFormat × Str} : p ∈ before ++ pair :: after ↔
      p = pair ∨ p ∈ before ++ after := by
    simp only [List.mem_append, List.mem_cons]
    exact or_left_comm
  rw [select_ok_iff]
  constructor
  · intro hok
    exact hok.1 pair (hmem.mpr (Or.inl rfl))
  · intro hpair
    refine ⟨fun p hp => ?_, other, hmem.mpr (Or.inr hother), hclass⟩
    rcases hmem.mp hp with rfl | hp
    · exact hpair
    · exact hranges p hp

def audioOnly : RawFormat where
  itag := 140
  mimeType := str "audio/mp4"

-- The same format with an index range that does not start with a numeral.
def brokenRange : RawFormat :=
  { audioOnly with indexRange := some ⟨str "x", str "9"⟩ }

-- A broken format of no class that is converted.
def captions : RawFormat :=
  { brokenRange with mimeType := str "text/vtt" }

theorem select_insert_captions :
    ∃ selection, select false [(captions, str "t"), (audioOnly, str "u")] {} = .ok selection :=
  (select_insert_iff false {} [] [(audioOnly, str "u")] (captions, str "t") ⟨_, rfl⟩).mpr
    fun h => absurd h (by decide)

-- A format that would not even be chosen makes the whole selection throw.
theorem select_throws_on_broken_range :
    (∃ selection, select false [(audioOnly, str "u")] {} = .ok selection) ∧
      ¬∃ selection, select false [(audioOnly, str "u"), (brokenRange, str "v")]
        {} = .ok selection := by
  refine ⟨⟨_, rfl⟩, fun h => ?_⟩
  obtain ⟨hranges, -⟩ := select_ok_iff.mp h
  have hbroken := hranges (brokenRange, str "v") (by simp) (by decide)
  exact absurd (hbroken _ (Or.inr rfl)).1 (by decide)

-- The caller's cap holds of the selected video, whatever the formats.
theorem selectBestVideo_capped {av1Unsafe : Bool} {formats : List StreamFormat}
    {options : ExtractionOptions} {maxHeight : Int} (hcap : options.maxVideoHeight = some maxHeight)
    {f : StreamFormat} (h : selectBestVideo av1Unsafe formats options = some f) :
    f.height.getD 0 ≤ maxHeight := by
  have hcapped {g : StreamFormat} (hg : g ∈ formats.filter fun f => f.height.getD 0 ≤ maxHeight) :
      g.height.getD 0 ≤ maxHeight := of_decide_eq_true (List.mem_filter.mp hg).2
  have hm := maxWithOrNull_mem h
  simp only [hcap] at hm
  split_ifs at hm
  · exact hcapped (List.mem_filter.mp hm).1
  · exact hcapped hm
  · exact hcapped (List.mem_filter.mp hm).1
  · exact hcapped hm
  · exact hcapped hm

-- A selection is made from the streams of the three classes.
theorem select_inv {av1Unsafe : Bool} {formats : List (RawFormat × Str)}
    {options : ExtractionOptions} {selection : Selection}
    (h : select av1Unsafe formats options = .ok selection) :
    ∃ video audio muxed, convert isVideoOnly formats = .ok video ∧
      convert isAudioOnly formats = .ok audio ∧ convert isMuxed formats = .ok muxed ∧
      ((∃ best, selectBestAudio audio options = some best ∧ selection = {
          video := selectBestVideo av1Unsafe video options
          audio := best
          muxed :=
            if options.includeMuxedFallback then maxWithOrNull (fun f => [f.height.getD 0]) muxed
            else none }) ∨
        selectBestAudio audio options = none ∧
          ∃ best, maxWithOrNull (fun f => [f.height.getD 0]) muxed = some best ∧
            selection = { video := none, audio := best, muxed := some best }) := by
  unfold select at h
  cases hvideo : convert isVideoOnly formats with
  | error e => simp [hvideo, bind, Except.bind] at h
  | ok video =>
      cases haudio : convert isAudioOnly formats with
      | error e => simp [hvideo, haudio, bind, Except.bind] at h
      | ok audio =>
          cases hmuxed : convert isMuxed formats with
          | error e => simp [hvideo, haudio, hmuxed, bind, Except.bind] at h
          | ok muxed =>
              simp only [hvideo, haudio, hmuxed, bind, Except.bind] at h
              refine ⟨video, audio, muxed, rfl, rfl, rfl, ?_⟩
              split at h
              · rename_i best hbest
                obtain rfl := Except.ok.inj h
                exact Or.inl ⟨best, hbest, rfl⟩
              · rename_i hnone
                split at h
                · rename_i best hbest
                  obtain rfl := Except.ok.inj h
                  exact Or.inr ⟨hnone, best, hbest, rfl⟩
                · cases h

theorem select_capped {av1Unsafe : Bool} {formats : List (RawFormat × Str)}
    {options : ExtractionOptions} {maxHeight : Int} (hcap : options.maxVideoHeight = some maxHeight)
    {selection : Selection} (h : select av1Unsafe formats options = .ok selection)
    {f : StreamFormat} (hf : selection.video = some f) :
    f.height.getD 0 ≤ maxHeight := by
  obtain ⟨video, audio, muxed, -, -, -, ⟨best, -, rfl⟩ | ⟨-, best, -, rfl⟩⟩ := select_inv h
  · exact selectBestVideo_capped hcap hf
  · cases hf

end FormatSelector

end Ytdlpdroid
