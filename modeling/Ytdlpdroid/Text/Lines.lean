import Ytdlpdroid.Text.Basic

namespace Ytdlpdroid.Text

def isBreak (c : Char) : Bool := c == '\r' || c == '\n'

def Unbroken (line : Str) : Prop := ∀ c ∈ line, ¬isBreak c

instance (line : Str) : Decidable (Unbroken line) := List.decidableBAll (fun c => ¬isBreak c) line

@[simp] theorem unbroken_append {left right : Str} :
    Unbroken (left ++ right) ↔ Unbroken left ∧ Unbroken right := List.forall_mem_append

theorem Unbroken.getLast?_ne {line : Str} (h : Unbroken line) : line.getLast? ≠ some '\r' :=
  fun hlast => h _ (List.mem_of_getLast? hlast) rfl

theorem lines_break {c : Char} (hc : isBreak c) {rest : Str}
    (hrest : c = '\r' → rest.head? ≠ some '\n') : lines (c :: rest) = [] :: lines rest := by
  have hbreak : c = '\r' ∨ c = '\n' := by simpa [isBreak] using hc
  rw [lines.eq_3 _ _ (fun more h1 h2 => hrest h1 (by rw [h2]; rfl)), if_pos hbreak]

theorem lines_ne_nil (text : Str) : lines text ≠ [] := by
  fun_cases lines text <;> simp_all

theorem lines_cons {c : Char} (hc : ¬isBreak c) (rest : Str) :
    ∃ line more, lines rest = line :: more ∧ lines (c :: rest) = (c :: line) :: more := by
  have hbreak : ¬(c = '\r' ∨ c = '\n') := by simpa [isBreak] using hc
  obtain ⟨line, more, hl⟩ := List.exists_cons_of_ne_nil (lines_ne_nil rest)
  refine ⟨line, more, hl, ?_⟩
  rw [lines.eq_3 _ _ (fun _ h1 => absurd (Or.inl h1) hbreak), if_neg hbreak, hl]

theorem lines_unbroken {line : Str} (h : Unbroken line) : lines line = [line] := by
  induction line with
  | nil => rfl
  | cons c rest ih =>
      obtain ⟨hc, hrest⟩ := List.forall_mem_cons.mp h
      obtain ⟨first, more, hfirst, hlines⟩ := lines_cons hc rest
      obtain ⟨rfl, rfl⟩ := List.cons.inj (hfirst.symm.trans (ih hrest))
      exact hlines

-- The first line of a text goes up to the first break in it.
def firstLine (text : Str) : Str := text.takeWhile fun c => !isBreak c

theorem lines_eq_firstLine (text : Str) : ∃ more, lines text = firstLine text :: more := by
  induction text with
  | nil => exact ⟨[], rfl⟩
  | cons c rest ih =>
      by_cases hc : isBreak c
      · have hfirst : firstLine (c :: rest) = [] := by simp [firstLine, hc]
        rw [hfirst]
        by_cases hpair : c = '\r' ∧ rest.head? = some '\n'
        · obtain ⟨rfl, hhead⟩ := hpair
          obtain ⟨tail, rfl⟩ := List.head?_eq_some_iff.mp hhead
          exact ⟨lines tail, rfl⟩
        · exact ⟨lines rest, lines_break hc fun hr hhead => hpair ⟨hr, hhead⟩⟩
      · obtain ⟨line, more, hrest, hlines⟩ := lines_cons hc rest
        obtain ⟨more', hfirst⟩ := ih
        obtain ⟨rfl, rfl⟩ := List.cons.inj (hrest.symm.trans hfirst)
        exact ⟨more, by simp [hlines, firstLine, hc]⟩

theorem firstLine_append {left : Str} (h : Unbroken left) (right : Str) :
    firstLine (left ++ right) = left ++ firstLine right :=
  List.takeWhile_append_of_pos fun c hc => by simpa using h c hc

theorem flatMap_lines {all : List Str} (h : ∀ line ∈ all, Unbroken line) :
    all.flatMap lines = all := by
  rw [List.flatMap_congr fun line hm => lines_unbroken (h line hm), List.flatMap_singleton']

theorem getLast?_ne_of_cons {c d : Char} {rest : Str} (h : (c :: rest).getLast? ≠ some d) :
    rest.getLast? ≠ some d := by
  cases rest with
  | nil => simp
  | cons e rest => simpa using h

-- A line feed after a text that does not end in a carriage return ends its last line.
theorem lines_append {left : Str} (h : left.getLast? ≠ some '\r') (right : Str) :
    lines (left ++ '\n' :: right) = lines left ++ lines right := by
  fun_induction lines left with
  | case1 => simp [lines]
  | case2 rest ih =>
      simp only [List.cons_append, lines, ih (getLast?_ne_of_cons h)]
  | case3 c rest hpair hc ih =>
      have hhead : c = '\r' → (rest ++ '\n' :: right).head? ≠ some '\n' := by
        intro hr
        cases rest with
        | nil => simp [hr] at h
        | cons d rest =>
            have hd : d ≠ '\n' := fun hd => hpair rest hr (by rw [hd])
            simpa using hd
      rw [List.cons_append, lines_break (by simpa [isBreak] using hc) hhead,
        ih (getLast?_ne_of_cons h), List.cons_append]
  | case4 c rest hpair hc hnil => exact absurd hnil (lines_ne_nil rest)
  | case5 c rest hpair hc line more hl ih =>
      obtain ⟨line', more', hl', he⟩ :=
        lines_cons (c := c) (by simpa [isBreak] using hc) (rest ++ '\n' :: right)
      rw [ih (getLast?_ne_of_cons h), hl, List.cons_append] at hl'
      obtain ⟨rfl, rfl⟩ := List.cons.inj hl'
      rw [List.cons_append, he, List.cons_append]

theorem lines_joinLines {all : List Str} (hall : all ≠ [])
    (h : ∀ line ∈ all, line.getLast? ≠ some '\r') : lines (joinLines all) = all.flatMap lines := by
  induction all with
  | nil => exact absurd rfl hall
  | cons line rest ih =>
      cases rest with
      | nil => simp [joinLines]
      | cons next rest =>
          have hrest := ih (by simp) fun other hm => h other (List.mem_cons_of_mem _ hm)
          rw [joinLines.eq_3 _ _ (by simp), lines_append (h line List.mem_cons_self), hrest,
            ← List.flatMap_cons]

theorem joinLines_append (before : List Str) {after : List Str} (h : after ≠ []) :
    joinLines (before ++ after) = before.flatMap
      (fun line => line ++ ['\n']) ++ joinLines after := by
  induction before with
  | nil => rfl
  | cons line rest ih =>
      have hrest : rest ++ after ≠ [] := by simp [h]
      rw [List.cons_append, joinLines.eq_3 _ _ hrest, ih, List.flatMap_cons]
      simp only [List.append_assoc, List.cons_append, List.nil_append]

-- The lines of a text that are neither its first nor its last one stay, without the indent.
theorem trimIndent_between {text first last : Str} {between : List Str}
    (h : lines text = first :: (between ++ [last])) (hfirst : isBlank first)
    (hlast : isBlank last) :
    trimIndent text = joinLines (between.map (List.drop (minCommonIndent (lines text)))) := by
  have hbetween : (between.zipIdx 1).filterMap (fun found =>
      if (found.2 = 0 ∨ found.2 + 1 = between.length + 2) ∧ isBlank found.1 then none
      else some (found.1.drop (minCommonIndent (lines text)))) =
      between.map (List.drop (minCommonIndent (lines text))) := by
    have hmap : between.map (List.drop (minCommonIndent (lines text))) =
        (between.zipIdx 1).filterMap
          (some ∘ List.drop (minCommonIndent (lines text)) ∘ Prod.fst) := by
      rw [List.filterMap_eq_map, ← List.map_map, List.zipIdx_map_fst]
    rw [hmap]
    refine List.filterMap_congr fun found hm => if_neg fun hends => ?_
    have hrange := List.mem_zipIdx hm
    omega
  have hlength : (first :: (between ++ [last])).length = between.length + 2 := by simp
  have hend : 1 + between.length + 1 = between.length + 2 := by omega
  unfold trimIndent
  rw [← hbetween]
  simp only [h, hlength, List.zipIdx_cons, List.zipIdx_append, List.filterMap_cons,
    List.filterMap_append, List.zipIdx_nil, List.filterMap_nil, hfirst, hlast, hend, true_or,
    or_true, and_true, ite_true, List.append_nil, Nat.zero_add]

theorem le_indentWidth_append {pre : Str} (h : ∀ c ∈ pre, isWhitespace c) (line : Str) :
    pre.length ≤ indentWidth (pre ++ line) := by
  rw [indentWidth, List.takeWhile_append_of_pos h, List.length_append]
  omega

theorem minCommonIndent_le {all : List Str} {line : Str} (hm : line ∈ all) (hline : ¬isBlank line) :
    minCommonIndent all ≤ indentWidth line := by
  have hwidth : indentWidth line ∈ (all.filter fun line => !isBlank line).map indentWidth :=
    List.mem_map.mpr ⟨line, List.mem_filter.mpr ⟨hm, by simpa using hline⟩, rfl⟩
  cases hmin : ((all.filter fun line => !isBlank line).map indentWidth).min? with
  | none => simp [List.min?_eq_none_iff.mp hmin] at hwidth
  | some least =>
      rw [minCommonIndent, hmin, Option.getD_some]
      exact ((List.min?_eq_some_iff).mp hmin).2 _ hwidth

theorem le_minCommonIndent {all : List Str} {line : Str} (hm : line ∈ all) (hline : ¬isBlank line)
    {width : Nat} (h : ∀ line ∈ all, ¬isBlank line → width ≤ indentWidth line) :
    width ≤ minCommonIndent all := by
  cases hmin : ((all.filter fun line => !isBlank line).map indentWidth).min? with
  | none =>
      have hwidth : indentWidth line ∈ (all.filter fun line => !isBlank line).map indentWidth :=
        List.mem_map.mpr ⟨line, List.mem_filter.mpr ⟨hm, by simpa using hline⟩, rfl⟩
      simp [List.min?_eq_none_iff.mp hmin] at hwidth
  | some least =>
      rw [minCommonIndent, hmin, Option.getD_some]
      obtain ⟨other, hother, rfl⟩ := List.mem_map.mp ((List.min?_eq_some_iff).mp hmin).1
      obtain ⟨hmem, hblank⟩ := List.mem_filter.mp hother
      exact h other hmem (by simpa using hblank)

end Ytdlpdroid.Text
