import Ytdlpdroid.Innertube.InnerTubeClientConfig.Theorems
import Ytdlpdroid.Text.Json.Literal
import Ytdlpdroid.Text.Template

namespace Ytdlpdroid.InnerTubeClientConfig

open Text Json

def visitorMember : List Str := [str "context", str "client", str "visitorData"]

def visitorPrefix : Str := str "              \"visitorData\": \""

-- The lines of the raw string before the visitor data, and between it and the region.
def openLines (config : InnerTubeClientConfig) : List Str := config.headLines.take 7

def fieldLines (config : InnerTubeClientConfig) : List Str := config.headLines.drop 8

-- The text is a document that holds the parameters and this visitor data, and members of the
-- configuration only, each once.
def CarriesVisitor (config : InnerTubeClientConfig) (videoId region : Str)
    (visitorData : List UInt16) (text : Str) : Prop :=
  ∃ document, parse text = some document ∧
    ⟨keys visitorMember, .string visitorData⟩ ∈ document ∧
    ⟨keys regionMember, .string (utf16 region)⟩ ∈ document ∧
    ⟨keys [str "videoId"], .string (utf16 videoId)⟩ ∈ document ∧
    ⟨keys [str "racyCheckOk"], .bool true⟩ ∈ document ∧
    ⟨keys [str "contentCheckOk"], .bool true⟩ ∈ document ∧
    (∀ entry ∈ document, entry.path ∈ (visitorMember :: config.ownMembers).map keys) ∧
    (document.map Entry.path).Nodup

section

variable {config : InnerTubeClientConfig} {videoId region visitorData : Str}

theorem mem_headLines_of_open {line : Str} (h : line ∈ config.openLines) :
    line ∈ config.headLines :=
  List.mem_of_mem_take h

theorem mem_headLines_of_field {line : Str} (h : line ∈ config.fieldLines) :
    line ∈ config.headLines :=
  List.mem_of_mem_drop h

theorem margin_spaces : margin = spaces 8 := rfl

-- The raw string, with the visitor data and what ends its line in the hole.
def visitorTemplate (config : InnerTubeClientConfig) (hid : Unbroken videoId)
    (hregion : Unbroken region) (signatureTimestamp : Option Int) : Template where
  width := 8
  before := config.openLines
  holePrefix := visitorPrefix
  after := config.fieldLines ++ (regionPrefix ++ (region ++ ['"'])) ::
    config.tailLines videoId signatureTimestamp
  last := str "    "
  before_unbroken := fun line hm => config.unbroken_headLines line (mem_headLines_of_open hm)
  prefix_unbroken := by decide
  after_unbroken := by
    refine List.forall_mem_append.mpr
      ⟨fun line hm => config.unbroken_headLines line (mem_headLines_of_field hm), ?_⟩
    refine List.forall_mem_cons.mpr ⟨?_, config.unbroken_tailLines hid signatureTimestamp⟩
    exact unbroken_append.mpr ⟨unbroken_regionPrefix, unbroken_append.mpr ⟨hregion, by decide⟩⟩
  last_unbroken := by decide
  before_margin :=
    fun line hm => margin_spaces ▸ config.margin_headLines line (mem_headLines_of_open hm)
  prefix_margin := ⟨_, rfl⟩
  after_margin := by
    refine List.forall_mem_append.mpr
      ⟨fun line hm => config.margin_headLines line (mem_headLines_of_field hm), ?_⟩
    exact List.forall_mem_cons.mpr ⟨⟨_, rfl⟩, config.margin_tailLines videoId signatureTimestamp⟩
  least := ⟨str "        \x7b", List.mem_cons_self, by decide⟩
  after_ne := by simp
  last_blank := by decide

theorem bodyLines_visitor (hid : Unbroken videoId) (hregion : Unbroken region)
    (signatureTimestamp : Option Int) :
    joinLines (config.bodyLines videoId (some visitorData) (some region) signatureTimestamp) =
      (config.visitorTemplate hid hregion signatureTimestamp).fill (visitorData ++ str "\",") := by
  have hvisitor : str "              " ++ visitorField (some visitorData) =
      visitorPrefix ++ (visitorData ++ str "\",") := by
    simp only [visitorField, ← List.append_assoc]
    rfl
  have hgl : str "              \"gl\": \"" ++ region ++ str "\"" =
      regionPrefix ++ (region ++ ['"']) :=
    List.append_assoc ..
  rw [Template.fill, bodyLines, hvisitor, Option.getD_some, hgl]
  rfl

-- Lines with the margin are read alike whether they have lost all of it or a part.
theorem run_lines {all : List Str} (hmargin : ∀ line ∈ all, margin <+: line) {reader last : Reader}
    {entries : Document} (h : reader.runLines (all.map (List.drop 8)) = some (last, entries))
    {indent : Nat} (hindent : indent ≤ 8) :
    reader.run (all.flatMap fun line => line.drop indent ++ ['\n']) = some (last, entries) := by
  have hlines : (all.flatMap fun line => line.drop indent ++ ['\n']) =
      (all.map (List.drop 8)).flatMap fun line =>
        List.replicate (8 - indent) ' ' ++ line ++ ['\n'] := by
    rw [List.flatMap_map]
    exact List.flatMap_congr fun line hm => by rw [drop_of_margin (hmargin line hm) hindent]
  rw [hlines]
  exact Reader.run_of_runLines h (8 - indent)

-- Between two members of the client.
def inClient : Reader := ⟨(keys [str "context", str "client"]).reverse, .key⟩

theorem openLines_checked : ∀ config ∈ YouTubeExtractor.clientChain,
    (Reader.start.runLines (config.openLines.map (List.drop 8))).map Prod.fst = some inClient := by
  decide +kernel

theorem headLines_eq (config : InnerTubeClientConfig) :
    config.headLines = config.openLines ++ (str "              " :: config.fieldLines) := by
  cases config <;> rfl

-- What is read of the lines before the region is read of those before the visitor data and
-- after it.
theorem read_visitorLines (config : InnerTubeClientConfig) : ∃ before after,
    Reader.start.runLines (config.openLines.map (List.drop 8)) = some (inClient, before) ∧
      inClient.runLines (config.fieldLines.map (List.drop 8)) = some (inClient, after) ∧
      (before ++ after).map Entry.path = config.headMembers.map keys := by
  obtain ⟨⟨last, entries⟩, hrun, hfound⟩ :=
    Option.map_eq_some_iff.mp (headLines_checked config config.mem_clientChain).2
  obtain ⟨rfl, hpaths⟩ := Prod.mk.inj hfound
  obtain ⟨⟨first, before⟩, hbefore, hfirst⟩ :=
    Option.map_eq_some_iff.mp (openLines_checked config config.mem_clientChain)
  obtain rfl : first = inClient := hfirst
  rw [headLines_eq, List.map_append, Reader.runLines_append, hbefore, Option.bind_some] at hrun
  obtain ⟨⟨last, after⟩, hafter, hentries⟩ := Option.map_eq_some_iff.mp hrun
  obtain ⟨rfl, rfl⟩ := Prod.mk.inj hentries
  have hblank : inClient.runLines [(str "              ").drop 8] = some (inClient, []) := by decide
  rw [List.map_cons, ← List.singleton_append, Reader.runLines_append, hblank, Option.bind_some,
    Option.map_eq_some_iff] at hafter
  obtain ⟨⟨last, fields⟩, hfields, hsame⟩ := hafter
  obtain ⟨rfl, rfl⟩ := Prod.mk.inj hsame
  exact ⟨before, fields, hbefore, hfields, hpaths⟩

theorem run_visitorPrefix {indent : Nat} (hindent : indent ≤ 8) :
    inClient.run (visitorPrefix.drop indent) =
      some (⟨(keys visitorMember).reverse, .string false .plain []⟩, []) := by
  have hmargin : margin <+: visitorPrefix := ⟨_, rfl⟩
  rw [drop_of_margin hmargin hindent, inClient, Reader.run_spaces rfl]
  decide

theorem visitorMembers_nodup (config : InnerTubeClientConfig) :
    ((visitorMember :: config.ownMembers).map keys).Nodup := by
  have hall : ∀ config ∈ YouTubeExtractor.clientChain,
      ((visitorMember :: config.ownMembers).map keys).Nodup := by
    decide +kernel
  exact hall config config.mem_clientChain

-- The members that are sent with this signature timestamp.
def sentMembers (config : InnerTubeClientConfig) (signatureTimestamp : Option Int) :
    List (List Str) :=
  config.headMembers ++ regionMember :: [str "videoId"] ::
    (config.dynamicMembers ++ config.playbackMembers signatureTimestamp ++
      [[str "racyCheckOk"], [str "contentCheckOk"]])

theorem sentMembers_sublist (config : InnerTubeClientConfig) (signatureTimestamp : Option Int) :
    (config.sentMembers signatureTimestamp).Sublist config.ownMembers := by
  refine List.Sublist.append_left (List.Sublist.cons_cons _ (List.Sublist.cons_cons _ ?_)) _
  exact List.Sublist.append_right (List.Sublist.append_left (config.playbackMembers_sublist _) _) _

theorem getLast?_visitorText (visitorData : Str) :
    (visitorPrefix ++ (visitorData ++ str "\",")).getLast? ≠ some '\r' := by
  have hcomma : str "\"," = ['"'] ++ [','] := rfl
  rw [hcomma, ← List.append_assoc, ← List.append_assoc, List.getLast?_concat]
  decide

-- The lines after the visitor data, without their margin.
theorem joinLines_after (config : InnerTubeClientConfig) (hid : Unbroken videoId)
    (hregion : Unbroken region) (signatureTimestamp : Option Int) :
    joinLines ((config.visitorTemplate hid hregion signatureTimestamp).after.map (List.drop 8)) =
      config.fieldLines.flatMap (fun line => line.drop 8 ++ ['\n']) ++
        (regionPrefix.drop 8 ++
          (region ++ ['"'] ++ '\n' :: joinLines
            ((config.tailLines videoId signatureTimestamp).map (List.drop 8)))) := by
  have htail : (config.tailLines videoId signatureTimestamp).map (List.drop 8) ≠ [] := by
    simp [tailLines, bodyLines]
  have hline : (regionPrefix ++ (region ++ ['"'])).drop 8 =
      regionPrefix.drop 8 ++ (region ++ ['"']) := rfl
  rw [visitorTemplate, List.map_append, List.map_cons, joinLines_append _ (by simp),
    joinLines.eq_3 _ _ htail, hline, List.flatMap_map]
  simp only [List.append_assoc]

-- The visitor data that are a literal are read as what they stand for.
theorem carries_of_literal {value : List UInt16} (hid : ∀ c ∈ videoId, isPlain c)
    (hregion : ∀ c ∈ region, isPlain c) (signatureTimestamp : Option Int)
    (hquote : '"' ∉ visitorData) (h : IsLiteral visitorData value) :
    CarriesVisitor config videoId region value
      (config.buildRequestBody videoId (some visitorData) (some region) signatureTimestamp) := by
  have hunbroken : Unbroken (visitorData ++ str "\",") := by
    refine unbroken_append.mpr ⟨fun c hc hbreak => ?_, by decide⟩
    have hvisible := h.visible hquote c hc
    have hor : c = '\r' ∨ c = '\n' := by simpa [isBreak] using hbreak
    rcases hor with rfl | rfl <;> exact absurd hvisible (by decide)
  let template :=
    config.visitorTemplate (unbroken_of_plain hid) (unbroken_of_plain hregion) signatureTimestamp
  obtain ⟨indent, -, more, htext, hplain⟩ :=
    template.trimIndent_fill (getLast?_visitorText visitorData)
  obtain ⟨rfl, rfl⟩ := hplain hunbroken
  obtain ⟨before, after, hbefore, hafter, hpaths⟩ := config.read_visitorLines
  obtain ⟨others, htail, hothers⟩ := config.run_tail hid signatureTimestamp
  have hhead : Reader.start.run (template.head template.width) =
      some (⟨(keys visitorMember).reverse, .string false .plain []⟩, before ++ []) :=
    Reader.run_append_of
      (run_lines (fun line hm => config.margin_headLines line (mem_headLines_of_open hm)) hbefore
      (Nat.le_refl 8)) (run_visitorPrefix (Nat.le_refl 8))
  have hcomma : Reader.run ⟨(keys visitorMember).reverse, .afterValue⟩ (str ",\n") =
      some (inClient, []) := by decide
  have hfields :=
    run_lines (fun line hm => config.margin_headLines line (mem_headLines_of_field hm)) hafter
    (Nat.le_refl 8)
  have hread := Reader.run_append_of hhead (Reader.run_append_of (Reader.run_literal _ hquote h)
    (Reader.run_append_of hcomma
      (Reader.run_append_of hfields (Reader.run_append_of run_regionPrefix
      (Reader.run_append_of (Reader.run_quoted _ hregion) htail)))))
  have hbody : config.buildRequestBody videoId (some visitorData) (some region) signatureTimestamp =
      template.head template.width ++ (visitorData ++ ['"'] ++ (str ",\n" ++
        (config.fieldLines.flatMap (fun line => line.drop 8 ++ ['\n']) ++
          (regionPrefix.drop 8 ++
          (region ++ ['"'] ++ '\n' :: joinLines
          ((config.tailLines videoId signatureTimestamp).map (List.drop 8))))))) := by
    have hline : firstLine (visitorData ++ str "\",") = visitorData ++ str "\"," := by
      rw [← List.append_nil (visitorData ++ str "\","), firstLine_append hunbroken]
      rfl
    rw [buildRequestBody, bodyLines_visitor (unbroken_of_plain hid) (unbroken_of_plain hregion),
      htext, hline, List.nil_append, ← joinLines_after config (unbroken_of_plain hid)
      (unbroken_of_plain hregion)]
    simp only [List.append_assoc]
    rfl
  rw [← hbody] at hread
  generalize hdocument : before ++ [] ++ _ = document at hread
  have hperm : (document.map Entry.path).Perm
      (keys visitorMember :: (config.sentMembers signatureTimestamp).map keys) := by
    rw [← hdocument]
    simp only [List.map_append, List.map_cons, List.map_nil, List.append_nil, List.nil_append,
      List.cons_append, sentMembers, List.reverse_reverse, hothers, ← hpaths, List.append_assoc]
    exact List.perm_middle
  have hmembers : (keys visitorMember :: (config.sentMembers signatureTimestamp).map keys).Sublist
      ((visitorMember :: config.ownMembers).map keys) :=
    ((config.sentMembers_sublist signatureTimestamp).map keys).cons_cons _
  refine ⟨document, parse_of_run hread, ?_, ?_, ?_, ?_, ?_, fun entry hm => ?_, ?_⟩
  · simp [← hdocument]
  · simp [← hdocument]
  · simp [← hdocument]
  · simp [← hdocument]
  · simp [← hdocument]
  · exact hmembers.subset (hperm.subset (List.mem_map_of_mem hm))
  · exact hperm.nodup_iff.mpr (hmembers.nodup config.visitorMembers_nodup)

theorem firstLine_append_of_broken {left : Str} (h : ¬Unbroken left) (right : Str) :
    firstLine (left ++ right) = firstLine left := by
  rw [firstLine, List.takeWhile_append, if_neg]
  · rfl
  · intro hlength
    have hall := List.takeWhile_eq_self_iff.mp ((List.takeWhile_sublist _).eq_of_length hlength)
    exact h fun c hc => by simpa using hall c hc

-- A text without a quote that is no literal leaves its string open, and the end of the line
-- is refused.
theorem parse_of_not_literal (hid : ∀ c ∈ videoId, isPlain c) (hregion : ∀ c ∈ region, isPlain c)
    (signatureTimestamp : Option Int) (hquote : '"' ∉ visitorData)
    (h : ∀ value, ¬IsLiteral visitorData value) :
    parse (config.buildRequestBody videoId (some visitorData) (some region) signatureTimestamp) =
      none := by
  let template :=
    config.visitorTemplate (unbroken_of_plain hid) (unbroken_of_plain hregion) signatureTimestamp
  obtain ⟨indent, hindent, more, htext, -⟩ :=
    template.trimIndent_fill (getLast?_visitorText visitorData)
  obtain ⟨before, after, hbefore, -, -⟩ := config.read_visitorLines
  have hhead : Reader.start.run (template.head indent) =
      some (⟨(keys visitorMember).reverse, .string false .plain []⟩, before ++ []) :=
    Reader.run_append_of
      (run_lines (fun line hm => config.margin_headLines line (mem_headLines_of_open hm)) hbefore
      hindent) (run_visitorPrefix hindent)
  rw [buildRequestBody, bodyLines_visitor (unbroken_of_plain hid) (unbroken_of_plain hregion),
    htext, parse, Reader.run_append, hhead, Option.bind_some]
  by_cases hunbroken : Unbroken visitorData
  · have hline : firstLine (visitorData ++ str "\",") = visitorData ++ str "\"," := by
      rw [firstLine_append hunbroken]
      rfl
    have hopen (rest : Str) :
        visitorData ++ str "\"," ++ '\n' :: rest = visitorData ++ '"' :: ([','] ++ '\n' :: rest) :=
      List.append_assoc ..
    rw [hline, hopen, Reader.run_not_literal (by decide) hquote (by decide) h]
    rfl
  · have hline : '"' ∉ firstLine (visitorData ++ str "\",") := by
      rw [firstLine_append_of_broken hunbroken]
      exact fun hm => hquote ((List.takeWhile_sublist _).subset hm)
    rw [Reader.run_control (by decide) hline]
    rfl

end

end Ytdlpdroid.InnerTubeClientConfig
