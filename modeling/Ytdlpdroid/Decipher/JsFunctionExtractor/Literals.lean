import Ytdlpdroid.Decipher.JsFunctionExtractor.Definitions

namespace Ytdlpdroid

open Text

namespace JsFunctionExtractor

theorem literalPattern_anchorFree (name : Str) : (literalPattern name).AnchorFree := by
  simp [literalPattern, Regex.sequence, Regex.AnchorFree, Regex.anchorFree_literal, Regex.spaces,
    Regex.spaces1]

theorem denotes_literalPattern {name text : Str} : (literalPattern name).Denotes text ↔
    ∃ gap left right, text = str "var" ++ (gap ++ (name ++ (left ++ '=' :: (right ++ ['\x7b'])))) ∧
      gap ≠ [] ∧ (∀ c ∈ gap, Regex.isSpace c) ∧ (∀ c ∈ left, Regex.isSpace c) ∧
        ∀ c ∈ right, Regex.isSpace c := by
  simp only [literalPattern, Regex.sequence, Regex.Denotes, Regex.denotes_literal,
    Regex.denotes_spaces, Regex.denotes_spaces1]
  constructor
  · rintro ⟨-, -, rfl, rfl, gap, -, rfl, ⟨hne, hgap⟩, -, -, rfl, rfl, left, -, rfl, hleft, -, -,
      rfl, rfl, right, -, rfl, hright, rfl⟩
    exact ⟨gap, left, right, rfl, hne, hgap, hleft, hright⟩
  · rintro ⟨gap, left, right, rfl, hne, hgap, hleft, hright⟩
    exact ⟨_, _, rfl, rfl, gap, _, rfl, ⟨hne, hgap⟩, name, _, rfl, rfl, left, _, rfl, hleft,
      str "=", _, rfl, rfl, right, str "\x7b", rfl, hright, rfl⟩

-- From a known leftmost place on, the literal is the block that the next brace opens.
theorem extractObjectLiteral_of_leftmost {name before head tail text : Str} (hhead : '\x7b' ∉ head)
    (hleft : (literalPattern name).Leftmost before (head ++ '\x7b' :: tail)) :
    extractObjectLiteral (before ++ (head ++ '\x7b' :: tail)) name = some text ↔
      IsBlock backslashRule text ∧ text <+: '\x7b' :: tail := by
  obtain ⟨found, hfind, -, hopen⟩ :=
    openBrace_of_leftmost (literalPattern_anchorFree name) hhead hleft
  have htake : ∀ inner after : Str, ((before ++ head ++ '\x7b' :: (inner ++ '\x7d' :: after)).take
      ((before ++ head).length + (inner.length + 1) + 1)).drop (before ++ head).length =
        '\x7b' :: (inner ++ ['\x7d']) := by
    intro inner after
    rw [take_block, List.drop_left]
  have hextract : extractObjectLiteral (before ++ (head ++ '\x7b' :: tail)) name =
      (findMatchingBrace (before ++ head ++ '\x7b' :: tail) (before ++ head).length).map
        fun closePos =>
          ((before ++ head ++ '\x7b' :: tail).take (closePos + 1)).drop
            (before ++ head).length := by
    rw [extractObjectLiteral, hfind, Option.bind_eq_bind, Option.bind_some, hopen,
      Option.bind_eq_bind, Option.bind_some, List.append_assoc]
    exact (Option.map_eq_bind ..).symm
  rw [hextract]
  constructor
  · intro h
    obtain ⟨answer, hanswer, hspec⟩ := findMatchingBrace_spec (before ++ head) tail
    rw [hspec] at h
    cases hanswer with
    | @closed inner after hinner =>
        obtain rfl := (htake inner after).symm.trans (Option.some.inj h)
        exact ⟨⟨inner, hinner, rfl⟩, after, by simp⟩
    | unclosed _ => simp at h
  · rintro ⟨⟨inner, hinner, rfl⟩, after, hafter⟩
    rw [List.cons_append, List.append_assoc, List.singleton_append] at hafter
    obtain rfl := (List.cons.inj hafter).2
    have hclose := findMatchingBrace_of_matching (.closed after hinner) (before ++ head)
    rw [List.cons_append] at hclose
    rw [hclose, Option.map_some, Option.map_some, htake]

end JsFunctionExtractor

end Ytdlpdroid
