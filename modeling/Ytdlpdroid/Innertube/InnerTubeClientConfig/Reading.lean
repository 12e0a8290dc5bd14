import Ytdlpdroid.Innertube.InnerTubeClientConfig.Layout

namespace Ytdlpdroid.InnerTubeClientConfig

open Text Json

-- The members that come after the region and the video id.
def dynamicMembers : InnerTubeClientConfig → List (List Str)
  | TVHTML5_SIMPLY_EMBEDDED | WEB_EMBEDDED =>
      [[str "thirdParty"], [str "thirdParty", str "embedUrl"]]
  | _ => []

def playbackMembers (config : InnerTubeClientConfig) (signatureTimestamp : Option Int) :
    List (List Str) :=
  let within := [str "playbackContext", str "contentPlaybackContext"]
  if config.fields.usePlaybackContext then
    [[str "playbackContext"], within, within ++ [str "html5Preference"]] ++
      if config.fields.includeSignatureTimestamp ∧ signatureTimestamp.isSome then
        [within ++ [str "signatureTimestamp"]]
      else []
  else []

-- Between two members of the request.
def between : Reader := ⟨[], .key⟩

theorem drop_of_margin {line : Str} (h : margin <+: line) {indent : Nat} (hindent : indent ≤ 8) :
    line.drop indent = List.replicate (8 - indent) ' ' ++ line.drop 8 := by
  obtain ⟨rest, rfl⟩ := h
  have hlength : margin.length = 8 := rfl
  rw [List.drop_append_of_le_length (by omega), List.drop_append_of_le_length (by omega), margin,
    List.drop_replicate, List.drop_replicate, Nat.sub_self, List.replicate_zero, List.nil_append]

theorem run_regionPrefix :
    Reader.run ⟨(keys [str "context", str "client"]).reverse, .key⟩ (regionPrefix.drop 8) =
      some (⟨(keys regionMember).reverse, .string false .plain []⟩, []) := by
  decide

theorem run_head (config : InnerTubeClientConfig) {indent : Nat} (hindent : indent ≤ 8) :
    ∃ entries, Reader.start.run (config.head indent) =
        some (⟨(keys regionMember).reverse, .string false .plain []⟩, entries) ∧
      entries.map Entry.path = config.headMembers.map keys := by
  obtain ⟨⟨reader, entries⟩, hrun, hfound⟩ :=
    Option.map_eq_some_iff.mp (headLines_checked config config.mem_clientChain).2
  obtain ⟨rfl, hpaths⟩ := Prod.mk.inj hfound
  refine ⟨entries, ?_, hpaths⟩
  have hlines : config.headLines.flatMap (fun line => line.drop indent ++ ['\n']) =
      (config.headLines.map (List.drop 8)).flatMap
        fun line => List.replicate (8 - indent) ' ' ++ line ++ ['\n'] := by
    rw [List.flatMap_map]
    exact List.flatMap_congr fun line hm => by
      rw [drop_of_margin (config.margin_headLines line hm) hindent]
  have hmargin : margin <+: regionPrefix := ⟨_, rfl⟩
  have hspaces :
      Reader.run ⟨(keys [str "context", str "client"]).reverse, .key⟩ (regionPrefix.drop indent) =
      some (⟨(keys regionMember).reverse, .string false .plain []⟩, []) := by
    rw [drop_of_margin hmargin hindent, Reader.run_spaces rfl, run_regionPrefix]
  have happend := Reader.run_append_of (Reader.run_of_runLines hrun (8 - indent)) hspaces
  rwa [List.append_nil, ← hlines] at happend

theorem isPlain_of_idChar {c : Char} (h : VideoIdParser.isIdChar c) : isPlain c := by
  have hquote : c ≠ '"' := by rintro rfl; exact absurd h (by decide)
  have hbackslash : c ≠ '\\' := by rintro rfl; exact absurd h (by decide)
  have hvisible : 0x20 ≤ c.toNat := by
    by_contra hlow
    have hbelow (d : Char) (hd : 0x20 ≤ d.toNat) : ¬d ≤ c := fun hle => hlow (le_trans hd hle)
    simp [VideoIdParser.isIdChar, Regex.isAlphanumeric, Regex.isLetter, Regex.isDigit,
      hbelow 'a' (by decide), hbelow 'A' (by decide), hbelow '0' (by decide)] at h
    rcases h with rfl | rfl <;> exact hlow (by decide)
  simp [isPlain, hquote, hbackslash, hvisible]

theorem run_extraBodyFields (config : InnerTubeClientConfig)
    (hdynamic : config ≠ TVHTML5_SIMPLY_EMBEDDED) :
    ∃ entries, between.run config.fields.extraBodyFields = some (between, entries) ∧
      entries.map Entry.path = config.dynamicMembers.map keys := by
  have hrun : (between.run config.fields.extraBodyFields).map
      (fun found => (found.1, found.2.map Entry.path)) =
      some (between, config.dynamicMembers.map keys) := by
    cases config with
    | TVHTML5_SIMPLY_EMBEDDED => exact absurd rfl hdynamic
    | _ => decide
  obtain ⟨⟨reader, entries⟩, hrun, hfound⟩ := Option.map_eq_some_iff.mp hrun
  obtain ⟨rfl, hpaths⟩ := Prod.mk.inj hfound
  exact ⟨entries, hrun, hpaths⟩

theorem run_dynamicBodyFields (config : InnerTubeClientConfig) {videoId : Str}
    (hid : ∀ c ∈ videoId, isPlain c) :
    ∃ entries, between.run (config.dynamicBodyFields videoId) = some (between, entries) ∧
      entries.map Entry.path = config.dynamicMembers.map keys := by
  cases config with
  | TVHTML5_SIMPLY_EMBEDDED =>
      let stack := (keys [str "thirdParty", str "embedUrl"]).reverse
      let pre := utf16 (str "https://www.youtube.com/watch?v=")
      have hopen :
          between.run (str "\"thirdParty\": \x7b\"embedUrl\": \"https://www.youtube.com/watch?v=") =
          some (⟨stack, .string false .plain pre⟩, [⟨keys [str "thirdParty"], .object⟩]) := by
        decide
      have hclosed : Reader.run ⟨stack, .afterValue⟩ (str "\x7d,") = some (between, []) := by
        decide
      have hread :=
        Reader.run_append_of (Reader.run_append_of hopen (Reader.run_plain stack false pre hid))
        (Reader.run_append_of (Reader.run_close stack (pre ++ utf16 videoId)) hclosed)
      exact ⟨_, hread, rfl⟩
  | _ => exact run_extraBodyFields _ (by decide)

-- Where the playback context goes on after its first member.
def playbackStack : List PathStep :=
  (keys [str "playbackContext", str "contentPlaybackContext"]).reverse

theorem run_signatureTimestamp (signatureTimestamp : Int) :
    Reader.run ⟨.key (utf16 (str "html5Preference")) :: playbackStack, .afterValue⟩
        (str ", \"signatureTimestamp\": " ++ decimalInt signatureTimestamp ++ str "\x7d\x7d,") =
      some (between, [⟨(PathStep.key (utf16 (str "signatureTimestamp")) :: playbackStack).reverse,
        .number (decimalInt signatureTimestamp)⟩]) := by
  let stack := PathStep.key (utf16 (str "signatureTimestamp")) :: playbackStack
  have hname : Reader.run ⟨.key (utf16 (str "html5Preference")) :: playbackStack, .afterValue⟩
      (str ", \"signatureTimestamp\": ") = some (⟨stack, .value⟩, []) := by
    decide
  obtain ⟨state, hcomplete, hnumber⟩ := Reader.run_decimalInt stack signatureTimestamp
  have hend : Reader.run ⟨stack, .number state (decimalInt signatureTimestamp)⟩ ['\x7d'] =
      some (⟨playbackStack, .afterValue⟩,
        [⟨stack.reverse, .number (decimalInt signatureTimestamp)⟩]) := by
    have hnone : numberStep state '\x7d' = none := by cases state <;> rfl
    simp [Reader.run, Reader.step, hnone, hcomplete, Reader.afterValue, Reader.entry, stack,
      isSpace]
  have hclosed : Reader.run ⟨playbackStack, .afterValue⟩ (str "\x7d,") = some (between, []) := by
    decide
  exact Reader.run_append_of (Reader.run_append_of hname hnumber)
    (Reader.run_append_of hend hclosed)

set_option maxRecDepth 2000 in
theorem run_playbackCtxField (config : InnerTubeClientConfig) (signatureTimestamp : Option Int) :
    ∃ entries, between.run (config.playbackCtxField signatureTimestamp) = some (between, entries) ∧
      entries.map Entry.path = (config.playbackMembers signatureTimestamp).map keys := by
  let within := keys [str "playbackContext", str "contentPlaybackContext"]
  have hopen : between.run
      (str
        "\"playbackContext\": \x7b\"contentPlaybackContext\": \x7b\"html5Preference\": \"HTML5_PREF_WANTS\"") =
      some (⟨.key (utf16 (str "html5Preference")) :: playbackStack, .afterValue⟩,
        [⟨keys [str "playbackContext"], .object⟩, ⟨within, .object⟩,
          ⟨within ++ keys [str "html5Preference"], .string (utf16 (str "HTML5_PREF_WANTS"))⟩]) := by
    decide
  have hclosed : Reader.run ⟨.key (utf16 (str "html5Preference")) :: playbackStack, .afterValue⟩
      (str "\x7d\x7d,") = some (between, []) := by
    decide
  unfold playbackCtxField playbackMembers
  split_ifs with hcontext hincluded
  · obtain ⟨hincludes, hsome⟩ := hincluded
    obtain ⟨sts, rfl⟩ := Option.isSome_iff_exists.mp hsome
    have hfield :
        config.stsField (some sts) = str ", \"signatureTimestamp\": " ++ decimalInt sts := by
      simp only [stsField, hincludes, ite_true]
    have hread := Reader.run_append_of hopen (run_signatureTimestamp sts)
    rw [hfield, List.append_assoc]
    exact ⟨_, hread, rfl⟩
  · have hfield : config.stsField signatureTimestamp = [] := by
      cases signatureTimestamp with
      | none => simp [stsField]
      | some sts =>
          have hnot : ¬config.fields.includeSignatureTimestamp :=
            fun hincludes => hincluded ⟨hincludes, rfl⟩
          rw [stsField, if_neg hnot]
    rw [hfield, List.append_nil]
    exact ⟨_, Reader.run_append_of hopen hclosed, rfl⟩
  · exact ⟨[], rfl, rfl⟩

-- What is read of the lines after the region.
theorem run_tail (config : InnerTubeClientConfig) {videoId : Str} (hid : ∀ c ∈ videoId, isPlain c)
    (signatureTimestamp : Option Int) :
    ∃ entries, Reader.run ⟨(keys regionMember).reverse, .afterValue⟩
        ('\n' :: joinLines ((config.tailLines videoId signatureTimestamp).map (List.drop 8))) =
        some (⟨[], .afterValue⟩, ⟨keys [str "videoId"], .string (utf16 videoId)⟩ :: entries ++
          [⟨keys [str "racyCheckOk"], .bool true⟩, ⟨keys [str "contentCheckOk"], .bool true⟩]) ∧
      entries.map Entry.path =
        (config.dynamicMembers ++ config.playbackMembers signatureTimestamp).map keys := by
  obtain ⟨dynamic, hdynamic, hdynamicPaths⟩ := config.run_dynamicBodyFields hid
  obtain ⟨playback, hplayback, hplaybackPaths⟩ := config.run_playbackCtxField signatureTimestamp
  have hopen : Reader.run ⟨(keys regionMember).reverse, .afterValue⟩
      (str "\n    \x7d\n  \x7d,\n  \"videoId\": \"") =
      some (⟨(keys [str "videoId"]).reverse, .string false .plain []⟩, []) := by
    decide
  have hcomma : Reader.run ⟨(keys [str "videoId"]).reverse, .afterValue⟩ (str ",\n  ") =
      some (between, []) := by
    decide
  have hspace : between.run (str "\n  ") = some (between, []) := by decide
  have hend : between.run (str "\n  \"racyCheckOk\": true,\n  \"contentCheckOk\": true\n\x7d") =
      some (⟨[], .afterValue⟩,
        [⟨keys [str "racyCheckOk"], .bool true⟩, ⟨keys [str "contentCheckOk"], .bool true⟩]) := by
    decide
  have hread := Reader.run_append_of hopen (Reader.run_append_of (Reader.run_quoted _ hid)
    (Reader.run_append_of hcomma (Reader.run_append_of hdynamic
      (Reader.run_append_of hspace (Reader.run_append_of hplayback hend)))))
  refine ⟨dynamic ++ playback, ?_, by simp [hdynamicPaths, hplaybackPaths]⟩
  have htext : '\n' :: joinLines ((config.tailLines videoId signatureTimestamp).map (List.drop 8)) =
      str "\n    \x7d\n  \x7d,\n  \"videoId\": \"" ++ (videoId ++ ['"'] ++ (str ",\n  " ++
        (config.dynamicBodyFields videoId ++
          (str "\n  " ++ (config.playbackCtxField signatureTimestamp ++
          str "\n  \"racyCheckOk\": true,\n  \"contentCheckOk\": true\n\x7d"))))) := by
    have hid (rest : Str) :
        (str "          \"videoId\": \"" ++ rest).drop 8 = str "  \"videoId\": \"" ++ rest := rfl
    have hfield (rest : Str) : (str "          " ++ rest).drop 8 = str "  " ++ rest := rfl
    simp only [tailLines, bodyLines, List.drop_succ_cons, List.drop_zero, List.dropLast_cons_cons,
      List.dropLast_singleton, List.map_cons, List.map_nil, joinLines, List.append_assoc,
        hid, hfield]
    rfl
  rw [htext, hread]
  simp [keys]

end Ytdlpdroid.InnerTubeClientConfig
