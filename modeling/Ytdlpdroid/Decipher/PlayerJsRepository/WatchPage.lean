import Ytdlpdroid.Decipher.PlayerJsRepository.Theorems
import Ytdlpdroid.Text.Regex.Earliest
import Ytdlpdroid.Text.Regex.Greedy

namespace Ytdlpdroid

open Text Concurrent

namespace PlayerJsRepository

-- The path of a player's script: a version in hexadecimal, and a name that ends in base.js.
def PlayerPath (url : Str) : Prop :=
  ∃ version name, version ≠ [] ∧ (∀ c ∈ version, isHexChar c) ∧ name ≠ [] ∧ (∀ c ∈ name, c ≠ '"') ∧
    url = str "/s/player/" ++ (version ++ (str "/" ++ (name ++ str "base.js")))

-- The same below the folder player_ias.vflset.
def VflsetPath (url : Str) : Prop :=
  ∃ version name, version ≠ [] ∧ (∀ c ∈ version, isHexChar c) ∧ name ≠ [] ∧ (∀ c ∈ name, c ≠ '"') ∧
    url = str "/s/player/" ++ (version ++ (str "/player_ias.vflset/" ++ (name ++ str "base.js")))

-- The text begins with the field jsUrl, and the value is this path.
def JsUrlField (rest url : Str) : Prop :=
  ∃ left right more, (∀ c ∈ left, Regex.isSpace c) ∧ (∀ c ∈ right, Regex.isSpace c) ∧
    PlayerPath url ∧ rest =
      str "\"jsUrl\"" ++ (left ++ (str ":" ++ (right ++ (str "\"" ++ (url ++ (str "\"" ++ more))))))

-- The text begins with this path, and with no longer one.
def LongestVflset (rest url : Str) : Prop :=
  url <+: rest ∧ VflsetPath url ∧ ∀ other, other <+: rest → VflsetPath other →
    other.length ≤ url.length

section

variable {rest url text html : Str}

def playerPathRegex : Regex :=
  .sequence [.literal (str "/s/player/"), .many isHexChar 1 none, .literal (str "/"), baseJs]

def vflsetPathRegex : Regex :=
  .sequence [.literal (str "/s/player/"), .many isHexChar 1 none,
    .literal (str "/player_ias.vflset/"), baseJs]

theorem ne_nil_of_one_le {name : Str} : 1 ≤ name.length ↔ name ≠ [] := by
  rw [Nat.one_le_iff_ne_zero, Ne, List.length_eq_zero_iff]

theorem denotes_baseJs : baseJs.Denotes text ↔
    ∃ name, name ≠ [] ∧ (∀ c ∈ name, c ≠ '"') ∧ text = name ++ str "base.js" := by
  constructor
  · rintro ⟨name, literal, rfl, ⟨hname, hleast, -⟩, hliteral⟩
    obtain rfl := Regex.denotes_literal.mp hliteral
    exact ⟨name, ne_nil_of_one_le.mp hleast, fun c hc => bne_iff_ne.mp (hname c hc), rfl⟩
  · rintro ⟨name, hne, hname, rfl⟩
    exact ⟨name, _, rfl, ⟨fun c hc => bne_iff_ne.mpr (hname c hc), ne_nil_of_one_le.mpr hne, nofun⟩,
      Regex.denotes_literal.mpr rfl⟩

-- The two expressions differ in the folder between the version and the name.
theorem denotes_path {folder : Str} :
    (Regex.sequence [.literal (str "/s/player/"), .many isHexChar 1 none, .literal folder,
      baseJs]).Denotes url ↔
      ∃ version name, version ≠ [] ∧ (∀ c ∈ version, isHexChar c) ∧ name ≠ [] ∧
        (∀ c ∈ name, c ≠ '"') ∧
          url = str "/s/player/" ++ (version ++ (folder ++ (name ++ str "base.js"))) := by
  constructor
  · rintro ⟨start, -, rfl, hstart, version, -, rfl, ⟨hversion, hleast, -⟩, middle, last, rfl,
      hmiddle, hlast⟩
    obtain rfl := Regex.denotes_literal.mp hstart
    obtain rfl := Regex.denotes_literal.mp hmiddle
    obtain ⟨name, hne, hname, rfl⟩ := denotes_baseJs.mp hlast
    exact ⟨version, name, ne_nil_of_one_le.mp hleast, hversion, hne, hname, rfl⟩
  · rintro ⟨version, name, hversion, hhex, hne, hname, rfl⟩
    exact ⟨_, _, rfl, Regex.denotes_literal.mpr rfl, version, _, rfl,
      ⟨hhex, ne_nil_of_one_le.mpr hversion, nofun⟩, folder, _, rfl, Regex.denotes_literal.mpr rfl,
      denotes_baseJs.mpr ⟨name, hne, hname, rfl⟩⟩

theorem denotes_playerPath : playerPathRegex.Denotes url ↔ PlayerPath url := denotes_path

theorem denotes_vflsetPath : vflsetPathRegex.Denotes url ↔ VflsetPath url := denotes_path

theorem anchorFree_path (folder : Str) :
    (Regex.sequence [.literal (str "/s/player/"), .many isHexChar 1 none, .literal folder,
      baseJs]).AnchorFree :=
  ⟨Regex.anchorFree_literal _, trivial, Regex.anchorFree_literal _, trivial,
    Regex.anchorFree_literal _⟩

theorem groupFree_path (folder : Str) :
    (Regex.sequence [.literal (str "/s/player/"), .many isHexChar 1 none, .literal folder,
      baseJs]).GroupFree :=
  ⟨Regex.groupFree_literal _, trivial, Regex.groupFree_literal _, trivial,
    Regex.groupFree_literal _⟩

theorem ends_literal_of_isHexChar {folder : Str} {cursor : Regex.Cursor} {c : Char}
    (hhead : cursor.rest.head? = some c) (hc : isHexChar c) (second : Regex) :
    (Regex.seq (.literal ('/' :: folder)) second).ends cursor = [] := by
  obtain ⟨more, hmore⟩ := List.head?_eq_some_iff.mp hhead
  have hne : c ≠ '/' := by
    rintro rfl
    exact absurd hc (by decide)
  simp [Regex.ends, Regex.literal, hmore, hne]

-- The version ends at the slash, and the name goes on as far as it can.
theorem greedy_path (folder : Str) :
    (Regex.sequence
      [.literal (str "/s/player/"), .many isHexChar 1 none, .literal ('/' :: folder),
        baseJs]).Greedy := by
  refine (Regex.Greedy.many_seq ?_ 1 ?_).single_seq (Regex.single_literal _)
  · exact (Regex.greedy_many_seq_literal _ 1 _).single_seq (Regex.single_literal _)
  · exact fun cursor c hhead hc => ends_literal_of_isHexChar hhead hc _

theorem vflsetPattern_eq : vflsetPattern = .group 1 vflsetPathRegex := rfl

theorem anchorFree_vflset : vflsetPattern.AnchorFree := anchorFree_path _

theorem vflset_longest (h : vflsetPattern.findGroup html 1 = some url) :
    ∃ before rest, html = before ++ rest ∧ vflsetPattern.Leftmost before rest ∧
      LongestVflset rest url := by
  rw [vflsetPattern_eq] at h
  obtain ⟨before, rest, he, hleft, hprefix, hdenotes, hlongest⟩ :=
    Regex.findGroup_longest (anchorFree_path _) (groupFree_path _) (greedy_path _) h
  exact ⟨before, rest, he, hleft, hprefix, denotes_vflsetPath.mp hdenotes,
    fun other hother hpath => hlongest other hother (denotes_vflsetPath.mpr hpath)⟩

theorem LongestVflset.matchesAt (h : LongestVflset rest url) : vflsetPattern.MatchesAt rest :=
  ⟨url, h.1, denotes_vflsetPath.mpr h.2.1⟩

theorem LongestVflset.unique {other : Str} (h : LongestVflset rest url)
    (hother : LongestVflset rest other) :
    other = url := by
  have hlength : other.length = url.length :=
    Nat.le_antisymm (h.2.2 other hother.1 hother.2.1) (hother.2.2 url h.1 h.2.1)
  exact (List.prefix_of_prefix_length_le hother.1 h.1 (by omega)).eq_of_length hlength

-- Where a path stands, a longest one does.
theorem exists_longestVflset (h : vflsetPattern.MatchesAt rest) :
    ∃ path, LongestVflset rest path := by
  cases hfound : vflsetPattern.findGroup rest 1 with
  | none =>
      rw [Regex.findGroup, Option.map_eq_none_iff,
        Regex.find_eq_none_iff anchorFree_vflset] at hfound
      exact absurd h (hfound [] rest rfl)
  | some path =>
      obtain ⟨before, rest', he, hleft, hlongest⟩ := vflset_longest hfound
      have hhere : vflsetPattern.Leftmost [] rest := ⟨h, fun other more _ _ => Nat.zero_le _⟩
      obtain ⟨rfl, rfl⟩ := hhere.unique hleft he.symm
      exact ⟨path, hlongest⟩

-- The group holds the longest path at the first place.
theorem locates_vflset : vflsetPattern.Locates 1 LongestVflset where
  anchorFree := anchorFree_vflset
  matchesAt _ := ⟨exists_longestVflset, fun ⟨_, hpath⟩ => hpath.matchesAt⟩
  findGroup := by
    intro before rest path hleft hpath
    cases hfound : vflsetPattern.findGroup (before ++ rest) 1 with
    | none =>
        rw [Regex.findGroup, Option.map_eq_none_iff,
          Regex.find_eq_none_iff anchorFree_vflset] at hfound
        exact absurd hpath.matchesAt (hfound before rest rfl)
    | some found =>
        obtain ⟨before', rest', he, hleft', hlongest⟩ := vflset_longest hfound
        obtain ⟨rfl, rfl⟩ := hleft.unique hleft' he.symm
        rw [hpath.unique hlongest]

theorem PlayerPath.no_quote (h : PlayerPath url) : ∀ c ∈ url, (c != '"') = true := by
  obtain ⟨version, name, -, hversion, -, hname, rfl⟩ := h
  intro c hc
  rw [bne_iff_ne]
  rintro rfl
  simp only [List.mem_append] at hc
  rcases hc with hc | hc | hc | hc | hc
  · exact absurd hc (by simp [str])
  · exact absurd (hversion _ hc) (by decide)
  · exact absurd hc (by simp [str])
  · exact hname _ hc rfl
  · exact absurd hc (by simp [str])

theorem JsUrlField.unique {other : Str} (h : JsUrlField rest url) (hother : JsUrlField rest other) :
    other = url := by
  have hcolon : Regex.isSpace ':' = false := rfl
  have hquote : Regex.isSpace '"' = false := rfl
  obtain ⟨left, right, more, hleft, hright, hpath, rfl⟩ := h
  obtain ⟨left', right', more', hleft', hright', hpath', he⟩ := hother
  obtain ⟨rfl, -, he⟩ := split_run_unique hleft hleft' hcolon hcolon (List.append_cancel_left he)
  obtain ⟨rfl, -, he⟩ := split_run_unique hright hright' hquote hquote he
  have hpathquote : ('"' != '"') = false := rfl
  exact (split_run_unique hpath.no_quote hpath'.no_quote hpathquote hpathquote he).1.symm

-- The expressions before the path.
def beforePath : List Regex :=
  [.literal (str "\"jsUrl\""), .spaces, .literal (str ":"), .spaces, .literal (str "\"")]

theorem jsUrlPattern_eq : jsUrlPattern = .around beforePath 1 playerPathRegex
    [.literal (str "\"")] := rfl

theorem around_iff_jsUrlField :
    Regex.Around beforePath playerPathRegex [.literal (str "\"")] rest url ↔
      JsUrlField rest url := by
  simp only [Regex.Around, beforePath, Regex.texts_literal, Regex.texts_spaces, Regex.texts_nil]
  constructor
  · rintro ⟨_, _, more, rfl,
      ⟨_, rfl, left, _, rfl, hleft, _, rfl, right, _, rfl, hright, _, rfl, rfl⟩, hpath, _,
      rfl, rfl⟩
    refine ⟨left, right, more, hleft, hright, denotes_playerPath.mp hpath, ?_⟩
    simp only [List.append_assoc, List.append_nil]
  · rintro ⟨left, right, more, hleft, hright, hpath, rfl⟩
    refine ⟨_, _, more, ?_,
      ⟨_, rfl, left, _, rfl, hleft, _, rfl, right, _, rfl, hright, _, rfl, rfl⟩,
      denotes_playerPath.mpr hpath, _, rfl, rfl⟩
    simp only [List.append_assoc, List.append_nil]

theorem locates_jsUrl : jsUrlPattern.Locates 1 JsUrlField := by
  have hbefore : ∀ r ∈ beforePath, r.Plain := by
    simp [beforePath, Regex.plain_literal, Regex.spaces, Regex.plain_many]
  have hafter : ∀ r ∈ [Regex.literal (str "\"")], r.Plain := by simp [Regex.plain_literal]
  have hpath : playerPathRegex.Plain := ⟨anchorFree_path _, groupFree_path _⟩
  rw [jsUrlPattern_eq]
  exact Regex.locates_around hbefore hpath hafter (fun _ _ => around_iff_jsUrlField) fun _ _ _ h =>
    h.unique

theorem VflsetPath.playerPath (h : VflsetPath url) : PlayerPath url := by
  obtain ⟨version, name, hversion, hhex, hne, hname, rfl⟩ := h
  have hfolder : ∀ c ∈ str "player_ias.vflset/", c ≠ '"' := by simp [str]
  refine ⟨version, str "player_ias.vflset/" ++ name, hversion,
    hhex, by simp [hne], fun c hc => ?_, ?_⟩
  · exact (List.mem_append.mp hc).elim (hfolder c) (hname c)
  · have hslash : str "/player_ias.vflset/" = str "/" ++ str "player_ias.vflset/" := rfl
    simp only [hslash, List.append_assoc]

-- Whatever the page says, its player is one of the site.
theorem playerJsUrlIn_path (h : playerJsUrlIn html = some url) : PlayerPath url := by
  rw [playerJsUrlIn, Option.or_eq_some_iff] at h
  rcases h with h | ⟨-, h⟩
  · obtain ⟨-, -, -, ⟨-, -, -, -, -, hpath, -⟩, -⟩ := locates_jsUrl.eq_some_iff.mp h
    exact hpath
  · obtain ⟨-, -, -, ⟨-, hpath, -⟩, -⟩ := locates_vflset.eq_some_iff.mp h
    exact hpath.playerPath

-- A player path is never taken for a whole URL.
theorem PlayerPath.fullUrl (h : PlayerPath url) :
    fullUrl url = str "https://www.youtube.com" ++ url := by
  obtain ⟨version, name, -, -, -, -, rfl⟩ := h
  rfl

end

section

variable {env : Env} {videoId url : Str} {w : World}

theorem fetchPlayerJsUrl_run : ((fetchPlayerJsUrl env videoId).run w).1 = .ok url ↔
    ∃ html, textIn (callOf env w (watchRequest videoId)) = .ok html ∧
      playerJsUrlIn html = some url := by
  unfold fetchPlayerJsUrl
  cases htext : textIn (callOf env w (watchRequest videoId)) with
  | error e =>
      rw [Prog.run_bind_error (fetchText_error htext)]
      simp
  | ok html =>
      rw [Prog.run_bind_ok (fetchText_ok htext)]
      cases hurl : playerJsUrlIn html with
      | none => simp [hurl]
      | some path => simp [hurl]

-- The player of a watch page is the value of its first field jsUrl, or, if it has none, the
-- longest path below player_ias.vflset at the first place where there is one.
theorem fetchPlayerJsUrl_ok_iff (env : Env) (videoId url : Str) (w : World) :
    ((fetchPlayerJsUrl env videoId).run w).1 = .ok url ↔
      ∃ html, textIn (callOf env w (watchRequest videoId)) = .ok html ∧
        (Earliest JsUrlField html url ∨
          (∀ before rest path, html = before ++ rest → ¬JsUrlField rest path) ∧
            Earliest LongestVflset html url) := by
  rw [fetchPlayerJsUrl_run]
  refine exists_congr fun html => and_congr_right fun _ => ?_
  rw [playerJsUrlIn, Option.or_eq_some_iff, locates_jsUrl.eq_some_iff, locates_jsUrl.eq_none_iff,
    locates_vflset.eq_some_iff]

end

end PlayerJsRepository

end Ytdlpdroid
