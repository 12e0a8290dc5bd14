import Ytdlpdroid.Text.Lines

namespace Ytdlpdroid.Text

def spaces (width : Nat) : Str := List.replicate width ' '

-- The lines of a raw string with one hole: an empty first line, a blank last one, and between them
-- lines that are indented by `width` or more, some line by exactly that.
structure Template where
  width : Nat
  before : List Str
  holePrefix : Str
  after : List Str
  last : Str
  before_unbroken : ∀ line ∈ before, Unbroken line
  prefix_unbroken : Unbroken holePrefix
  after_unbroken : ∀ line ∈ after, Unbroken line
  last_unbroken : Unbroken last
  before_margin : ∀ line ∈ before, spaces width <+: line
  prefix_margin : spaces width <+: holePrefix
  after_margin : ∀ line ∈ after, spaces width <+: line
  least : ∃ line ∈ before, ¬isBlank line ∧ indentWidth line = width
  after_ne : after ≠ []
  last_blank : isBlank last

namespace Template

variable (template : Template)

-- The raw string with this text in the hole.
def fill (text : Str) : Str :=
  joinLines
    ([] :: (template.before ++ (template.holePrefix ++ text) :: template.after ++ [template.last]))

-- What comes before the hole when the lines have lost this indent.
def head (indent : Nat) : Str :=
  template.before.flatMap (fun line => line.drop indent ++ ['\n']) ++
    template.holePrefix.drop indent

variable {template} {text : Str}

-- The text begins in the line of the hole, and adds lines if it has line breaks.
theorem lines_hole (template : Template) (text : Str) :
    ∃ more, lines (template.holePrefix ++ text) = (template.holePrefix ++ firstLine text) :: more ∧
      (Unbroken text → more = []) := by
  obtain ⟨more, hmore⟩ := lines_eq_firstLine (template.holePrefix ++ text)
  refine ⟨more, by rw [hmore, firstLine_append template.prefix_unbroken], fun htext => ?_⟩
  have hline : Unbroken (template.holePrefix ++ text) :=
    unbroken_append.mpr ⟨template.prefix_unbroken, htext⟩
  exact (List.cons.inj (hmore.symm.trans (lines_unbroken hline))).2

theorem lines_fill (template : Template)
    (htext : (template.holePrefix ++ text).getLast? ≠ some '\r') :
    lines (template.fill text) = [] :: (template.before ++ lines (template.holePrefix ++ text) ++
      template.after ++ [template.last]) := by
  rw [fill, lines_joinLines (by simp)]
  · simp only [List.flatMap_cons, List.flatMap_append, List.flatMap_nil,
      flatMap_lines template.before_unbroken, flatMap_lines template.after_unbroken,
      lines_unbroken template.last_unbroken, lines, List.append_nil,
      List.cons_append, List.nil_append, List.append_assoc]
  · intro line hm
    simp only [List.mem_cons, List.mem_append, List.not_mem_nil, or_false] at hm
    rcases hm with rfl | (hm | rfl | hm) | rfl
    · simp
    · exact (template.before_unbroken line hm).getLast?_ne
    · exact htext
    · exact (template.after_unbroken line hm).getLast?_ne
    · exact template.last_unbroken.getLast?_ne

theorem le_indentWidth_of_spaces {width : Nat} {line : Str} (h : spaces width <+: line) :
    width ≤ indentWidth line := by
  obtain ⟨rest, rfl⟩ := h
  have hspaces : ∀ c ∈ spaces width, isWhitespace c := fun c hc => List.eq_of_mem_replicate hc ▸ rfl
  have hle := le_indentWidth_append hspaces rest
  rwa [spaces, List.length_replicate] at hle

-- A text with line breaks can take away from the indent.
theorem indent_fill (template : Template)
    (htext : (template.holePrefix ++ text).getLast? ≠ some '\r') :
    minCommonIndent (lines (template.fill text)) ≤ template.width ∧
      (Unbroken text → minCommonIndent (lines (template.fill text)) = template.width) := by
  have hall := template.lines_fill htext
  obtain ⟨least, hleast, hblank, hwidth⟩ := template.least
  have hm : least ∈ lines (template.fill text) := by simp [hall, hleast]
  have hle : minCommonIndent (lines (template.fill text)) ≤ template.width :=
    hwidth ▸ minCommonIndent_le hm hblank
  refine ⟨hle, fun hunbroken => le_antisymm hle ?_⟩
  obtain ⟨more, hmore, hnil⟩ := template.lines_hole text
  rw [hmore, hnil hunbroken] at hall
  refine le_minCommonIndent hm hblank fun line hm hline => ?_
  rw [hall] at hm
  simp only [List.mem_cons, List.mem_append, List.not_mem_nil, or_false] at hm
  rcases hm with rfl | ((hm | rfl) | hm) | rfl
  · exact absurd (by decide) hline
  · exact le_indentWidth_of_spaces (template.before_margin line hm)
  · obtain ⟨rest, hrest⟩ := template.prefix_margin
    exact le_indentWidth_of_spaces ⟨rest ++ firstLine text, by rw [← List.append_assoc, hrest]⟩
  · exact le_indentWidth_of_spaces (template.after_margin line hm)
  · exact absurd template.last_blank hline

theorem trimIndent_fill (template : Template)
    (htext : (template.holePrefix ++ text).getLast? ≠ some '\r') :
    ∃ indent ≤ template.width, ∃ more, trimIndent (template.fill text) =
        template.head indent ++ (firstLine text ++
          '\n' :: joinLines ((more ++ template.after).map (List.drop indent))) ∧
      (Unbroken text → indent = template.width ∧ more = []) := by
  obtain ⟨hle, height⟩ := template.indent_fill htext
  obtain ⟨more, hmore, hnil⟩ := template.lines_hole text
  have hlines := template.lines_fill htext
  refine ⟨_, hle, more, ?_, fun hunbroken => ⟨height hunbroken, hnil hunbroken⟩⟩
  rw [trimIndent_between hlines (by decide) template.last_blank, hmore]
  generalize minCommonIndent _ = indent at hle
  have hlong : indent ≤ template.holePrefix.length := by
    obtain ⟨rest, hrest⟩ := template.prefix_margin
    have hlength := congrArg List.length hrest
    rw [List.length_append, spaces, List.length_replicate] at hlength
    omega
  have hstart : (template.holePrefix ++ firstLine text).drop indent =
      template.holePrefix.drop indent ++ firstLine text := List.drop_append_of_le_length hlong
  have htail : (more ++ template.after).map (List.drop indent) ≠ [] := by simp [template.after_ne]
  rw [List.append_assoc, List.map_append, List.cons_append, List.map_cons,
    joinLines_append _ (by simp), joinLines.eq_3 _ _ htail, hstart, head, List.flatMap_map]
  simp only [List.append_assoc]

end Template

end Ytdlpdroid.Text
