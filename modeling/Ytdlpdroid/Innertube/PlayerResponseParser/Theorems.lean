import Ytdlpdroid.Innertube.PlayerResponseParser
import Ytdlpdroid.Model.Numbers.Theorems

namespace Ytdlpdroid

open Text Collections

namespace PlayerResponseParser

def area (thumbnail : RawThumbnail) : Int := thumbnail.width * thumbnail.height

-- The area as the code computes it.
def intArea (thumbnail : RawThumbnail) : Int := wrapInt (area thumbnail)

-- A thumbnail with this URL has a greater product in 32 bits than all earlier ones with another
-- URL, and one that is not less than that of the later ones.
def Prevails (url : Str) (thumbnails : List RawThumbnail) : Prop :=
  ∃ before thumbnail after, thumbnails = before ++ thumbnail :: after ∧ thumbnail.url = url ∧
    (∀ x ∈ before, x.url ≠ url → intArea x < intArea thumbnail) ∧
    ∀ x ∈ after, x.url ≠ url → intArea x ≤ intArea thumbnail

variable {thumbnails : List RawThumbnail} {largest found : RawThumbnail}

theorem bestThumb_greatest (h : bestThumb thumbnails = some found) :
    IsFirstGreatest intArea thumbnails found := by
  have hlt : ∀ x y, [intArea x] < [intArea y] ↔ intArea x < intArea y := by
    simp [List.cons_lt_cons_iff]
  obtain ⟨before, after, he, hbefore, hafter⟩ := maxWithOrNull_greatest h
  refine ⟨before, after, he, fun x hx => (hlt x found).mp (hbefore x hx), fun x hx => ?_⟩
  exact not_lt.mp fun hless => absurd ((hlt found x).mpr hless) (not_lt.mpr (hafter x hx))

theorem exists_bestThumb (hne : thumbnails ≠ []) : ∃ found, bestThumb thumbnails = some found :=
  Option.ne_none_iff_exists'.mp (mt maxWithOrNull_eq_none.mp hne)

-- The one that is found has the URL of another one exactly when that URL prevails.
theorem url_eq_iff_prevails (h : IsFirstGreatest intArea thumbnails found) (url : Str) :
    found.url = url ↔ Prevails url thumbnails := by
  constructor
  · rintro rfl
    obtain ⟨before, after, rfl, hbefore, hafter⟩ := h
    exact ⟨before, found, after, rfl, rfl, fun x hx _ => hbefore x hx, fun x hx _ => hafter x hx⟩
  · rintro ⟨before, thumbnail, after, he, hurl, hbefore, hafter⟩
    by_contra hother
    have hne : found ≠ thumbnail := fun hsame => hother (hsame ▸ hurl)
    have hmem : thumbnail ∈ thumbnails := he ▸ List.mem_append_right before List.mem_cons_self
    have hle : intArea thumbnail ≤ intArea found := h.le hmem
    have hfound : found ∉ before := fun hm => absurd (hbefore found hm hother) (not_lt.mpr hle)
    -- The prevailing one stands before the one found, whose product is then strictly greater.
    have hlt : intArea thumbnail < intArea found := h.lt_of_not_mem_before he hfound hne
    have hlater : found ∈ after := by
      have hm := h.mem
      rw [he] at hm
      exact (List.mem_cons.mp ((List.mem_append.mp hm).resolve_left hfound)).resolve_left hne
    exact absurd (hafter found hlater hother) (not_le.mpr hlt)

-- Products that fit in an Int are compared as they are.
theorem prevails_of_bounded (h : IsFirstGreatest area thumbnails largest)
    (hbounded : ∀ x ∈ thumbnails, 0 ≤ area x ∧ area x < 2 ^ 31) :
    Prevails largest.url thumbnails := by
  have hsame : ∀ x ∈ thumbnails, intArea x = area x := fun x hx =>
    wrapInt_of_mem (by have := (hbounded x hx).1; omega) (hbounded x hx).2
  have hlargest := hsame largest h.mem
  obtain ⟨before, after, rfl, hbefore, hafter⟩ := h
  refine ⟨before, largest, after, rfl, rfl, fun x hx _ => ?_, fun x hx _ => ?_⟩
  · rw [hsame x (List.mem_append_left _ hx), hlargest]
    exact hbefore x hx
  · rw [hsame x (List.mem_append_right _ (List.mem_cons_of_mem _ hx)), hlargest]
    exact hafter x hx

-- The thumbnail is the first of the largest if all areas fit in an Int, and exactly when the URL
-- of that one prevails. One that is strictly larger than all others, wherever it stands, is the
-- first of the largest.
theorem extractVideoInfo_largest_iff (raw : RawPlayerResponse) (details : RawVideoDetails)
    (first : RawThumbnail) (rest : List RawThumbnail) :
    ∃ info largest,
      extractVideoInfo
        { raw with videoDetails := some { details with thumbnail := some (first :: rest) } } =
        .ok info ∧
      IsFirstGreatest area (first :: rest) largest ∧
      (∀ before larger after, first :: rest = before ++ larger :: after →
        (∀ x ∈ before ++ after, area x < area larger) → largest = larger) ∧
      ((∀ x ∈ first :: rest, 0 ≤ area x ∧ area x < 2 ^ 31) → info.thumbnailUrl = largest.url) ∧
      (info.thumbnailUrl = largest.url ↔ Prevails largest.url (first :: rest)) := by
  obtain ⟨found, hfound⟩ := exists_bestThumb (List.cons_ne_nil first rest)
  have hgreatest := IsFirstGreatest.foldl area first rest
  have hiff := fun url => url_eq_iff_prevails (bestThumb_greatest hfound) url
  refine ⟨_, _, rfl, hgreatest, fun before larger after he hlarger => ?_, fun hbounded => ?_, ?_⟩
  · have hfirst : IsFirstGreatest area (first :: rest) larger :=
      ⟨before, after, he, fun x hx => hlarger x (List.mem_append_left _ hx),
        fun x hx => (hlarger x (List.mem_append_right _ hx)).le⟩
    exact hgreatest.unique hfirst
  · simp only [Option.bind_some, hfound, Option.map_some, Option.getD_some]
    exact (hiff _).mpr (prevails_of_bounded hgreatest hbounded)
  · rw [← hiff]
    simp only [Option.bind_some, hfound, Option.map_some, Option.getD_some]

-- A square whose area is 2^32 counts as empty.
theorem extractVideoInfo_passes_over_largest :
    ¬∀ (raw : RawPlayerResponse) (details : RawVideoDetails) (first : RawThumbnail)
      (rest : List RawThumbnail),
      (∀ x ∈ first :: rest, 0 ≤ x.width ∧ x.width < 2 ^ 31 ∧ 0 ≤ x.height ∧ x.height < 2 ^ 31) →
        ∃ info largest, extractVideoInfo
          { raw with videoDetails := some { details with thumbnail := some (first :: rest) } } =
          .ok info ∧
        IsFirstGreatest area (first :: rest) largest ∧ info.thumbnailUrl = largest.url := by
  intro h
  let small : RawThumbnail := ⟨str "default.jpg", 120, 90⟩
  let large : RawThumbnail := ⟨str "large.jpg", 65536, 65536⟩
  obtain ⟨info, largest, hinfo, hlargest, hurl⟩ :=
    h { playabilityStatus := { status := str "OK" } } { videoId := [], title := [] } small [large]
      (by simp [small, large])
  have hlarge : IsFirstGreatest area [small, large] large := ⟨[small], [], rfl, by decide, by simp⟩
  obtain rfl := hlargest.unique hlarge
  obtain rfl := Except.ok.inj hinfo
  exact absurd hurl (by decide)

end PlayerResponseParser

end Ytdlpdroid
