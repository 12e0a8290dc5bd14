import Ytdlpdroid.Extractor.VideoIdParser
import Ytdlpdroid.Text.Regex.Theorems

namespace Ytdlpdroid

open Text

namespace VideoIdParser

theorem patterns_capture_ids :
    ∀ pattern ∈ patterns, pattern.Captures fun found => ∀ c ∈ found, isIdChar c := by
  have hid : idGroup.Captures fun found => ∀ c ∈ found, isIdChar c :=
    Regex.captures_group_many (fun _ h => h) 1 11 (some 11)
  have hliteral (text : Str) := Regex.captures_literal (fun found => ∀ c ∈ found, isIdChar c) text
  simp only [patterns, List.forall_mem_cons]
  refine ⟨⟨trivial, hliteral _, hid⟩, ⟨hliteral _, hid⟩, ?_, ⟨trivial, hid, trivial⟩, by simp⟩
  exact ⟨hliteral _, ⟨hliteral _, hliteral _, hliteral _⟩, hliteral _, hid⟩

-- Whatever the input, an id has only ASCII letters and digits, underscores and hyphens.
theorem parse_idChars {input videoId : Str} (h : parse input = .ok videoId) :
    ∀ c ∈ videoId, isIdChar c := by
  simp only [parse] at h
  split at h
  · rename_i id hfound
    obtain rfl := Except.ok.inj h
    obtain ⟨pattern, hm, hgroup⟩ := List.exists_of_findSome?_eq_some hfound
    exact Regex.findGroup_captures (P := fun found => ∀ c ∈ found, isIdChar c) (by simp)
      (patterns_capture_ids pattern hm) hgroup
  · simp at h

end VideoIdParser

end Ytdlpdroid
