import Ytdlpdroid.Extractor.VideoIdParser.Theorems
import Ytdlpdroid.Innertube.InnerTubeClientConfig.Members

namespace Ytdlpdroid.InnerTubeClientConfig

open Text

def regionPrefix : Str := str "              \"gl\": \""

def tailLines (config : InnerTubeClientConfig) (videoId : Str)
    (signatureTimestamp : Option Int) : List Str :=
  ((config.bodyLines videoId none none signatureTimestamp).drop 12).dropLast

theorem bodyLines_eq (config : InnerTubeClientConfig) (videoId region : Str)
    (signatureTimestamp : Option Int) :
    config.bodyLines videoId none (some region) signatureTimestamp =
      [] :: (config.headLines ++ (regionPrefix ++ (region ++ ['"'])) ::
        config.tailLines videoId signatureTimestamp ++ [str "    "]) := by
  have hregion : regionPrefix ++ (region ++ ['"']) = regionPrefix ++ region ++ str "\"" :=
    (List.append_assoc ..).symm
  rw [hregion]
  rfl

theorem unbroken_decimal (n : Nat) : Unbroken (decimal n) := by
  intro c hc hbreak
  have hdigit : c.isDigit := Nat.isDigit_of_mem_toDigits (by decide) (by decide) hc
  have hor : c = '\r' ∨ c = '\n' := by simpa [isBreak] using hbreak
  rcases hor with rfl | rfl <;> exact absurd hdigit (by decide)

theorem unbroken_decimalInt (n : Int) : Unbroken (decimalInt n) := by
  cases n with
  | ofNat n => exact unbroken_decimal n
  | negSucc n => exact List.forall_mem_cons.mpr ⟨by decide, unbroken_decimal (n + 1)⟩

theorem unbroken_extraBodyFields (config : InnerTubeClientConfig) :
    Unbroken config.fields.extraBodyFields := by
  cases config <;> decide

theorem unbroken_dynamicBodyFields (config : InnerTubeClientConfig) {videoId : Str}
    (h : Unbroken videoId) :
    Unbroken (config.dynamicBodyFields videoId) := by
  cases config with
  | TVHTML5_SIMPLY_EMBEDDED =>
      exact unbroken_append.mpr ⟨unbroken_append.mpr ⟨by decide, h⟩, by decide⟩
  | _ => exact unbroken_extraBodyFields _

theorem unbroken_playbackCtxField (config : InnerTubeClientConfig)
    (signatureTimestamp : Option Int) :
    Unbroken (config.playbackCtxField signatureTimestamp) := by
  have hsts : Unbroken (config.stsField signatureTimestamp) := by
    unfold stsField
    split_ifs
    · cases signatureTimestamp with
      | none => decide
      | some sts => exact unbroken_append.mpr ⟨by decide, unbroken_decimalInt sts⟩
    · decide
  unfold playbackCtxField
  split_ifs
  · exact unbroken_append.mpr ⟨unbroken_append.mpr ⟨by decide, hsts⟩, by decide⟩
  · decide

theorem unbroken_headLines (config : InnerTubeClientConfig) :
    ∀ line ∈ config.headLines, Unbroken line :=
  (headLines_checked config config.mem_clientChain).1

theorem unbroken_tailLines (config : InnerTubeClientConfig) {videoId : Str} (h : Unbroken videoId)
    (signatureTimestamp : Option Int) :
    ∀ line ∈ config.tailLines videoId signatureTimestamp, Unbroken line := by
  simp only [tailLines, bodyLines, List.drop_succ_cons, List.drop_zero, List.dropLast_cons_cons,
    List.dropLast_singleton, List.forall_mem_cons, unbroken_append]
  refine ⟨?_, ?_, ⟨⟨?_, h⟩, ?_⟩, ⟨?_, config.unbroken_dynamicBodyFields h⟩,
    ⟨?_, config.unbroken_playbackCtxField signatureTimestamp⟩, ?_, ?_, ?_, by simp⟩ <;> decide

-- How the lines of the raw string begin.
def margin : Str := List.replicate 8 ' '

theorem margin_headLines (config : InnerTubeClientConfig) :
    ∀ line ∈ config.headLines, margin <+: line := by
  simp only [headLines, bodyLines, List.take_succ_cons, List.take_zero, List.tail_cons,
    List.forall_mem_cons, List.append_assoc]
  exact ⟨⟨_, rfl⟩, ⟨_, rfl⟩, ⟨_, rfl⟩, ⟨_, rfl⟩, ⟨_, rfl⟩, ⟨_, rfl⟩, ⟨_, rfl⟩, ⟨_, rfl⟩, ⟨_, rfl⟩,
    ⟨_, rfl⟩, by simp⟩

theorem margin_tailLines (config : InnerTubeClientConfig) (videoId : Str)
    (signatureTimestamp : Option Int) :
    ∀ line ∈ config.tailLines videoId signatureTimestamp, margin <+: line := by
  simp only [tailLines, bodyLines, List.drop_succ_cons, List.drop_zero, List.dropLast_cons_cons,
    List.dropLast_singleton, List.forall_mem_cons, List.append_assoc]
  exact ⟨⟨_, rfl⟩, ⟨_, rfl⟩, ⟨_, rfl⟩, ⟨_, rfl⟩, ⟨_, rfl⟩, ⟨_, rfl⟩, ⟨_, rfl⟩, ⟨_, rfl⟩, by simp⟩

theorem unbroken_regionPrefix : Unbroken regionPrefix := by decide

-- The region begins in the line of its prefix, and adds lines if it has line breaks.
theorem lines_region (region : Str) :
    ∃ more, lines (regionPrefix ++ (region ++ ['"'])) =
        (regionPrefix ++ firstLine (region ++ ['"'])) :: more ∧ (Unbroken region → more = []) := by
  obtain ⟨more, hmore⟩ := lines_eq_firstLine (regionPrefix ++ (region ++ ['"']))
  refine ⟨more, by rw [hmore, firstLine_append unbroken_regionPrefix], fun hregion => ?_⟩
  have hline : Unbroken (regionPrefix ++ (region ++ ['"'])) :=
    unbroken_append.mpr ⟨unbroken_regionPrefix, unbroken_append.mpr ⟨hregion, by decide⟩⟩
  exact (List.cons.inj (hmore.symm.trans (lines_unbroken hline))).2

theorem lines_body (config : InnerTubeClientConfig) {videoId : Str} (hid : Unbroken videoId)
    (region : Str) (signatureTimestamp : Option Int) :
    lines (joinLines (config.bodyLines videoId none (some region) signatureTimestamp)) =
      [] :: (config.headLines ++ lines (regionPrefix ++ (region ++ ['"'])) ++
        config.tailLines videoId signatureTimestamp ++ [str "    "]) := by
  have hhead := config.unbroken_headLines
  have htail := config.unbroken_tailLines hid signatureTimestamp
  have hblank : Unbroken (str "    ") := by decide
  rw [bodyLines_eq, lines_joinLines (by simp)]
  · simp only [List.flatMap_cons, List.flatMap_append, List.flatMap_nil, flatMap_lines hhead,
      flatMap_lines htail, lines_unbroken hblank, lines, List.append_nil, List.cons_append,
      List.nil_append, List.append_assoc]
  · intro line hm
    simp only [List.mem_cons, List.mem_append, List.not_mem_nil, or_false] at hm
    rcases hm with rfl | (hm | rfl | hm) | rfl
    · simp
    · exact (hhead line hm).getLast?_ne
    · simp
    · exact (htail line hm).getLast?_ne
    · exact hblank.getLast?_ne

theorem le_indentWidth_of_margin {line : Str} (h : margin <+: line) : 8 ≤ indentWidth line := by
  obtain ⟨rest, rfl⟩ := h
  have hspaces : ∀ c ∈ margin, isWhitespace c := fun c hc => List.eq_of_mem_replicate hc ▸ rfl
  exact le_indentWidth_append hspaces rest

-- The text of the body up to the region.
def head (config : InnerTubeClientConfig) (indent : Nat) : Str :=
  config.headLines.flatMap (fun line => line.drop indent ++ ['\n']) ++ regionPrefix.drop indent

-- The opening brace is indented by eight, and no other line by less unless the region has
-- such lines.
theorem indent_body (config : InnerTubeClientConfig) {videoId : Str} (hid : Unbroken videoId)
    (region : Str) (signatureTimestamp : Option Int) :
    let all := lines (joinLines (config.bodyLines videoId none (some region) signatureTimestamp))
    minCommonIndent all ≤ 8 ∧ (Unbroken region → minCommonIndent all = 8) := by
  intro all
  have hall : all = _ := config.lines_body hid region signatureTimestamp
  have hbrace : str "        \x7b" ∈ all := by
    have hhead : str "        \x7b" ∈ config.headLines := List.mem_cons_self
    simp [hall, hhead]
  have hle : minCommonIndent all ≤ 8 := by
    have hblank : ¬isBlank (str "        \x7b") := by decide
    exact le_trans (minCommonIndent_le hbrace hblank) (by decide)
  refine ⟨hle, fun hregion => le_antisymm hle ?_⟩
  obtain ⟨more, hmore, hnil⟩ := lines_region region
  rw [hmore, hnil hregion] at hall
  refine le_minCommonIndent hbrace (by decide) fun line hm hline => ?_
  rw [hall] at hm
  simp only [List.mem_cons, List.mem_append, List.not_mem_nil, or_false] at hm
  rcases hm with rfl | ((hm | rfl) | hm) | rfl
  · exact absurd (by decide) hline
  · exact le_indentWidth_of_margin (config.margin_headLines line hm)
  · exact le_indentWidth_of_margin ⟨_, rfl⟩
  · exact le_indentWidth_of_margin (config.margin_tailLines videoId signatureTimestamp line hm)
  · exact absurd (by decide) hline

theorem buildRequestBody_layout (config : InnerTubeClientConfig) {videoId : Str}
    (hid : Unbroken videoId) (region : Str) (signatureTimestamp : Option Int) :
    ∃ indent ≤ 8, ∃ more, config.buildRequestBody videoId none (some region) signatureTimestamp =
        config.head indent ++ (firstLine (region ++ ['"']) ++
          '\n' :: joinLines
            ((more ++ config.tailLines videoId signatureTimestamp).map (List.drop indent))) ∧
      (Unbroken region → indent = 8 ∧ more = []) := by
  obtain ⟨hle, height⟩ := config.indent_body hid region signatureTimestamp
  obtain ⟨more, hmore, hnil⟩ := lines_region region
  have hlines := config.lines_body hid region signatureTimestamp
  refine ⟨_, hle, more, ?_, fun hregion => ⟨height hregion, hnil hregion⟩⟩
  rw [buildRequestBody, trimIndent_between hlines (by decide) (by decide), hmore]
  generalize minCommonIndent _ = indent at hle
  have hstart : (regionPrefix ++ firstLine (region ++ ['"'])).drop indent =
      regionPrefix.drop indent ++ firstLine (region ++ ['"']) :=
    List.drop_append_of_le_length (le_trans hle (by decide))
  have htail : (more ++ config.tailLines videoId signatureTimestamp).map (List.drop indent) ≠
      [] := by
    simp [tailLines, bodyLines]
  rw [List.append_assoc, List.map_append, List.cons_append, List.map_cons,
    joinLines_append _ (by simp), joinLines.eq_3 _ _ htail, hstart, head, List.flatMap_map]
  simp only [List.append_assoc]

end Ytdlpdroid.InnerTubeClientConfig
