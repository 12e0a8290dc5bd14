import Ytdlpdroid.Decipher.NParamDecipherer.Theorems
import Ytdlpdroid.Text.Lines
import Ytdlpdroid.Text.StringLiteral

namespace Ytdlpdroid

open Text

namespace PlayerScripts

-- The lines of the discovery script around the one that holds the token.
def firstScriptLine : Str := str "(function() \x7b"

def laterScriptLines : List Str := ((discoveryLines []).drop 3).dropLast

-- That line up to the opening quote, and from the closing one on.
def beforeToken : Str := str "    var nVal="

def afterToken : Str := str ",ti=\"" ++ ti ++ str "\",ti2=\"" ++ ti2 ++ str "\",res=nVal;"

-- The script before and after the token and its quotes.
def discoveryHead : Str := firstScriptLine ++ '\n' :: beforeToken

def discoveryTail : Str := afterToken ++ '\n' :: joinLines laterScriptLines

variable {escapedN : Str}

theorem discoveryLines_eq (escapedN : Str) : discoveryLines escapedN =
    [] :: (firstScriptLine :: (beforeToken ++ '"' :: (escapedN ++ '"' :: afterToken)) ::
      laterScriptLines ++ [[]]) := by
  have htoken : beforeToken ++ '"' :: (escapedN ++ '"' :: afterToken) =
      str "    var nVal=\"" ++ escapedN ++ str "\",ti=\"" ++ ti ++ str "\",ti2=\"" ++ ti2 ++
        str "\",res=nVal;" := by
    simp only [afterToken, List.append_assoc]
    rfl
  rw [htoken]
  rfl

theorem unbroken_discoveryLines (h : Unbroken escapedN) :
    ∀ line ∈ discoveryLines escapedN, Unbroken line := by
  have hlater : laterScriptLines.all fun line => decide (Unbroken line) := by decide +kernel
  have htoken : Unbroken (beforeToken ++ '"' :: (escapedN ++ '"' :: afterToken)) := by
    have hbefore : Unbroken (beforeToken ++ ['"']) := by decide +kernel
    have hafter : Unbroken ('"' :: afterToken) := by decide +kernel
    have hline := unbroken_append.mpr ⟨hbefore, unbroken_append.mpr ⟨h, hafter⟩⟩
    rwa [List.append_assoc] at hline
  rw [discoveryLines_eq]
  intro line hm
  simp only [List.cons_append, List.mem_cons, List.mem_append, List.not_mem_nil, or_false] at hm
  rcases hm with rfl | rfl | rfl | hm | rfl
  · decide
  · decide +kernel
  · exact htoken
  · exact of_decide_eq_true (List.all_eq_true.mp hlater line hm)
  · decide

-- The template adds nothing to the token and takes nothing from it: its first line is not indented.
theorem buildDiscoveryScript_eq (h : Unbroken escapedN) :
    buildDiscoveryScript escapedN = discoveryHead ++ '"' :: (escapedN ++ '"' :: discoveryTail) := by
  have hall := unbroken_discoveryLines h
  have hlines : lines (joinLines (discoveryLines escapedN)) = discoveryLines escapedN := by
    have hne : discoveryLines escapedN ≠ [] := by simp [discoveryLines_eq]
    rw [lines_joinLines hne fun line hm => (hall line hm).getLast?_ne, flatMap_lines hall]
  have hindent : minCommonIndent (discoveryLines escapedN) = 0 := by
    have hfirst : firstScriptLine ∈ discoveryLines escapedN := by simp [discoveryLines_eq]
    have hle := minCommonIndent_le hfirst (by decide +kernel)
    have hzero : indentWidth firstScriptLine = 0 := by decide +kernel
    omega
  have hshape := hlines.trans (discoveryLines_eq escapedN)
  have hdrop : (List.drop 0 : Str → Str) = id := rfl
  have hlater : laterScriptLines ≠ [] := by decide +kernel
  rw [buildDiscoveryScript, trimIndent_between hshape rfl rfl, hlines, hindent, hdrop, List.map_id,
    joinLines.eq_3 _ _ (List.cons_ne_nil _ _), joinLines.eq_3 _ _ hlater, discoveryHead,
      discoveryTail]
  simp only [List.append_assoc, List.cons_append]

end PlayerScripts

namespace NParamDecipherer

open PlayerScripts

-- The two passes one after the other: the backslashes that the second one adds are not doubled.
theorem escapedN_eq_replace (nValue : Str) :
    escapedN nValue = replaceChar (replaceChar nValue '\\' ['\\', '\\']) '"' ['\\', '"'] := by
  rw [escapedN, replaceChar, replaceChar, List.flatMap_assoc]
  refine List.flatMap_congr fun c _ => ?_
  by_cases hbackslash : c = '\\'
  · subst hbackslash
    rfl
  · by_cases hquote : c = '"'
    · subst hquote
      rfl
    · simp [hbackslash, hquote]

-- The token of a URL without line breaks, escaped in two passes, stands in the script as one
-- string literal that ends at the quote of the template and has the token as its value.
theorem buildDiscoveryScript_token {url nValue : Str} (hurl : ∀ c ∈ url, c ≠ '\n' ∧ c ≠ '\r')
    (h : N_PARAM_RE.findGroup url 2 = some nValue) :
    let escaped := replaceChar (replaceChar nValue '\\' ['\\', '\\']) '"' ['\\', '"']
    escapedN nValue = escaped ∧
      buildDiscoveryScript escaped = discoveryHead ++ '"' :: (escaped ++ '"' :: discoveryTail) ∧
      StringLiteral.read .plain (escaped ++ '"' :: discoveryTail) =
        some (utf16 nValue, discoveryTail) := by
  intro escaped
  have hescaped : escapedN nValue = escaped := escapedN_eq_replace nValue
  have hvalue : ∀ c ∈ nValue, c ≠ '\n' ∧ c ≠ '\r' := fun c hc =>
    hurl c (Regex.subset_of_findGroup anchorFree h hc)
  have hunbroken : Unbroken (escapedN nValue) := by
    intro c hc
    obtain ⟨d, hd, hmem⟩ := List.mem_flatMap.mp hc
    have hline := hvalue d hd
    split_ifs at hmem with hspecial
    · rcases List.mem_cons.mp hmem with rfl | hmem
      · decide
      · obtain rfl := List.mem_singleton.mp hmem
        simp [isBreak, hline]
    · obtain rfl := List.mem_singleton.mp hmem
      simp [isBreak, hline]
  have hread := StringLiteral.read_escape hvalue discoveryTail
  rw [← hescaped]
  exact ⟨rfl, buildDiscoveryScript_eq hunbroken, hread⟩

-- A token of a backslash and a quote.
theorem buildDiscoveryScript_backslash :
    buildDiscoveryScript (str "a\\\\\\\"b") =
      discoveryHead ++ '"' :: (str "a\\\\\\\"b" ++ '"' :: discoveryTail) ∧
      StringLiteral.read .plain (str "a\\\\\\\"b" ++ '"' :: discoveryTail) =
        some (utf16 (str "a\\\"b"), discoveryTail) := by
  have hurl : ∀ c ∈ str "https://r/play?n=a\\\"b&x=1", c ≠ '\n' ∧ c ≠ '\r' := by simp [str]
  have hfind : N_PARAM_RE.findGroup (str "https://r/play?n=a\\\"b&x=1") 2 =
      some (str "a\\\"b") := by decide +kernel
  have hescaped : str "a\\\\\\\"b" =
      replaceChar (replaceChar (str "a\\\"b") '\\' ['\\', '\\']) '"' ['\\', '"'] := by
        decide +kernel
  rw [hescaped]
  exact (buildDiscoveryScript_token hurl hfind).2

end NParamDecipherer

end Ytdlpdroid
