import Ytdlpdroid.Text.Regex

namespace Ytdlpdroid.Text.Regex

def AnchorFree : Regex → Prop
  | .seq first second | .alt first second => first.AnchorFree ∧ second.AnchorFree
  | .group _ inner => inner.AnchorFree
  | .start | .finish => False
  | _ => True

-- The texts that an expression without anchors matches.
def Denotes : Regex → Str → Prop
  | .empty, text => text = []
  | .chars p, text => ∃ c, p c ∧ text = [c]
  | .many p least most, text =>
      (∀ c ∈ text, p c) ∧ least ≤ text.length ∧ ∀ bound, most = some bound → text.length ≤ bound
  | .seq first second, text =>
      ∃ left right, text = left ++ right ∧ first.Denotes left ∧ second.Denotes right
  | .alt first second, text => first.Denotes text ∨ second.Denotes text
  | .group _ inner, text => inner.Denotes text
  | .start, text | .finish, text => text = []

def MatchesAt (r : Regex) (rest : Str) : Prop := ∃ text, text <+: rest ∧ r.Denotes text

-- The text is split before the leftmost of all places where the expression matches.
def Leftmost (r : Regex) (before rest : Str) : Prop :=
  r.MatchesAt rest ∧
    ∀ other more, other ++ more = before ++ rest → r.MatchesAt more → before.length ≤ other.length

section

variable {r : Regex} {p : Char → Bool} {cursor : Cursor} {text rest : Str}

theorem le_length_takeWhile_iff {count : Nat} :
    count ≤ (rest.takeWhile p).length ↔ count ≤ rest.length ∧ ∀ c ∈ rest.take count, p c := by
  constructor
  · intro h
    have htaken : rest.take count <+: rest.takeWhile p :=
      List.prefix_of_prefix_length_le (List.take_prefix ..) (List.takeWhile_prefix ..)
        (le_trans (List.length_take_le ..) h)
    exact ⟨le_trans h (List.takeWhile_prefix p).length_le, fun c hc =>
      List.mem_takeWhile_imp (htaken.subset hc)⟩
  · rintro ⟨hcount, hall⟩
    have hsplit : (rest.take count ++ rest.drop count).takeWhile p =
        rest.take count ++ (rest.drop count).takeWhile p := List.takeWhile_append_of_pos hall
    rw [List.take_append_drop] at hsplit
    rw [hsplit, List.length_append, List.length_take_of_le hcount]
    omega

theorem mem_ends_many {least : Nat} {most : Option Nat} {last : Cursor} :
    last ∈ (many p least most).ends cursor ↔
      ∃ count, last = cursor.advance count ∧ least ≤ count ∧
        count ≤ (cursor.rest.takeWhile p).length ∧ ∀ bound, most = some bound → count ≤ bound := by
  have hrange :
      ∀ longest, last ∈ (List.range' least (longest + 1 - least)).reverse.map cursor.advance ↔
      ∃ count, last = cursor.advance count ∧ least ≤ count ∧ count ≤ longest := by
    intro longest
    simp only [List.mem_map, List.mem_reverse, List.mem_range'_1]
    constructor
    · rintro ⟨count, hcount, rfl⟩
      exact ⟨count, rfl, by omega, by omega⟩
    · rintro ⟨count, rfl, hleast, hmost⟩
      exact ⟨count, by omega, rfl⟩
  cases most with
  | none => exact (hrange _).trans (by simp)
  | some bound => exact (hrange _).trans (by simp only [Option.some.injEq, forall_eq', Nat.le_min])

-- Without anchors, where matches from a cursor end depends on the text after it alone.
theorem exists_ends_iff (hr : r.AnchorFree) :
    (∃ last ∈ r.ends cursor, last.rest = rest) ↔ ∃ text, r.Denotes text ∧
      cursor.rest = text ++ rest := by
  induction r generalizing cursor rest with
  | empty => simp [ends, Denotes]
  | chars p =>
      cases hrest : cursor.rest with
      | nil => simp [ends, Denotes, hrest]
      | cons c more =>
          by_cases hc : p c
          · simp [ends, Denotes, hrest, hc, Cursor.advance]
          · simp [ends, Denotes, hrest, hc]
  | many p least most =>
      constructor
      · rintro ⟨last, hm, rfl⟩
        obtain ⟨count, rfl, hleast, hcount, hbound⟩ := mem_ends_many.mp hm
        obtain ⟨hlength, hall⟩ := le_length_takeWhile_iff.mp hcount
        refine ⟨cursor.rest.take count, ⟨hall, ?_, ?_⟩, (List.take_append_drop ..).symm⟩
        · rwa [List.length_take_of_le hlength]
        · rwa [List.length_take_of_le hlength]
      · rintro ⟨text, ⟨hall, hleast, hbound⟩, hrest⟩
        refine ⟨cursor.advance text.length, mem_ends_many.mpr ⟨_, rfl, hleast, ?_, hbound⟩, ?_⟩
        · rw [le_length_takeWhile_iff, hrest, List.take_left]
          exact ⟨by simp, hall⟩
        · rw [Cursor.advance, hrest, List.drop_left]
  | seq first second ihfirst ihsecond =>
      constructor
      · rintro ⟨last, hm, hlast⟩
        obtain ⟨middle, hmiddle, hm⟩ := List.mem_flatMap.mp hm
        obtain ⟨right, hright, hrest⟩ := (ihsecond hr.2).mp ⟨last, hm, hlast⟩
        obtain ⟨left, hleft, hcursor⟩ := (ihfirst hr.1).mp ⟨middle, hmiddle, hrest⟩
        exact ⟨left ++ right, ⟨left, right, rfl, hleft, hright⟩, by rw [hcursor, List.append_assoc]⟩
      · rintro ⟨-, ⟨left, right, rfl, hleft, hright⟩, hcursor⟩
        rw [List.append_assoc] at hcursor
        obtain ⟨middle, hmiddle, hrest⟩ := (ihfirst hr.1).mpr ⟨left, hleft, hcursor⟩
        obtain ⟨last, hm, hlast⟩ := (ihsecond hr.2).mpr ⟨right, hright, hrest⟩
        exact ⟨last, List.mem_flatMap.mpr ⟨middle, hmiddle, hm⟩, hlast⟩
  | alt first second ihfirst ihsecond =>
      simp only [ends, Denotes, List.mem_append, or_and_right, exists_or, ihfirst hr.1,
        ihsecond hr.2]
  | group index inner ih =>
      simp only [Denotes, ← ih hr, ends, List.mem_map]
      constructor
      · rintro ⟨-, ⟨last, hm, rfl⟩, hlast⟩
        exact ⟨last, hm, hlast⟩
      · rintro ⟨last, hm, hlast⟩
        exact ⟨_, ⟨last, hm, rfl⟩, hlast⟩
  | start => exact hr.elim
  | finish => exact hr.elim

theorem fullMatch_iff (hr : r.AnchorFree) : r.fullMatch text ↔ r.Denotes text := by
  have hends : (∃ last ∈ r.ends ⟨0, text, []⟩, last.rest = []) ↔ ∃ whole, r.Denotes whole ∧
      text = whole ++ [] :=
    exists_ends_iff hr
  simp only [fullMatch, List.any_eq_true, beq_iff_eq, hends, List.append_nil]
  exact ⟨fun ⟨_, h, he⟩ => he ▸ h, fun h => ⟨text, h, rfl⟩⟩

theorem matchesAt_iff (hr : r.AnchorFree) (offset : Nat) :
    r.MatchesAt rest ↔ r.ends ⟨offset, rest, []⟩ ≠ [] := by
  constructor
  · rintro ⟨text, ⟨more, hmore⟩, htext⟩ hnone
    have hends : ∃ last ∈ r.ends ⟨offset, rest, []⟩, last.rest = more :=
      (exists_ends_iff hr).mpr ⟨text, htext, hmore.symm⟩
    simp [hnone] at hends
  · intro hne
    obtain ⟨last, hm⟩ := List.exists_mem_of_ne_nil _ hne
    obtain ⟨text, htext, hrest⟩ := (exists_ends_iff hr).mp ⟨last, hm, rfl⟩
    exact ⟨text, ⟨last.rest, hrest.symm⟩, htext⟩

theorem findFrom_of_matchesAt (hr : r.AnchorFree) (offset : Nat) (h : r.MatchesAt text) :
    ∃ found, r.findFrom offset text = some found ∧ found.first = offset := by
  obtain ⟨last, others, he⟩ := List.exists_cons_of_ne_nil ((matchesAt_iff hr offset).mp h)
  rw [findFrom.eq_def]
  simp only [he]
  exact ⟨_, rfl, rfl⟩

theorem findFrom_of_not_matchesAt (hr : r.AnchorFree) (offset : Nat) (h : ¬r.MatchesAt text) :
    r.findFrom offset text = text.tail?.bind (r.findFrom (offset + 1)) := by
  have he : r.ends ⟨offset, text, []⟩ = [] := by
    by_contra hne
    exact h ((matchesAt_iff hr offset).mpr hne)
  rw [findFrom.eq_def]
  cases text with
  | nil => simp only [he]; rfl
  | cons c rest => simp only [he]; rfl

-- The search stops at the leftmost place, when there is one.
theorem findFrom_leftmost (hr : r.AnchorFree) (offset : Nat) (text : Str) :
    (∃ before rest found, text = before ++ rest ∧ r.Leftmost before rest ∧
        r.findFrom offset text = some found ∧ found.first = offset + before.length) ∨
      (∀ before rest, text = before ++ rest → ¬r.MatchesAt rest) ∧
        r.findFrom offset text = none := by
  induction text generalizing offset with
  | nil =>
      by_cases h : r.MatchesAt []
      · obtain ⟨found, hfound, hfirst⟩ := findFrom_of_matchesAt hr offset h
        exact .inl ⟨[], [], found, rfl, ⟨h, fun _ _ _ _ => Nat.zero_le _⟩, hfound, hfirst⟩
      · refine .inr ⟨fun before rest he => ?_, findFrom_of_not_matchesAt hr offset h⟩
        rwa [(List.append_eq_nil_iff.mp he.symm).2]
  | cons c text ih =>
      by_cases h : r.MatchesAt (c :: text)
      · obtain ⟨found, hfound, hfirst⟩ := findFrom_of_matchesAt hr offset h
        exact .inl ⟨[], c :: text, found, rfl, ⟨h, fun _ _ _ _ => Nat.zero_le _⟩, hfound, hfirst⟩
      have hskip : r.findFrom offset (c :: text) = r.findFrom (offset + 1) text :=
        findFrom_of_not_matchesAt hr offset h
      rcases ih (offset + 1) with
        ⟨before, rest, found, rfl, hleft, hfound, hfirst⟩ | ⟨hnone, hfound⟩
      · refine .inl ⟨c :: before, rest, found, rfl, ⟨hleft.1, fun other more he hmore => ?_⟩,
          hskip.trans hfound, by rw [hfirst, List.length_cons]; omega⟩
        rcases List.append_eq_cons_iff.mp he with ⟨rfl, rfl⟩ | ⟨shorter, rfl, hrest⟩
        · exact (h hmore).elim
        · have hle := hleft.2 shorter more hrest.symm hmore
          simp only [List.length_cons]
          omega
      · refine .inr ⟨fun before rest he => ?_, hskip.trans hfound⟩
        rcases List.append_eq_cons_iff.mp he.symm with ⟨-, rfl⟩ | ⟨shorter, rfl, hrest⟩
        · exact h
        · exact hnone shorter rest hrest

-- Among the places where an expression matches there is a leftmost one.
theorem exists_leftmost (hr : r.AnchorFree) {before : Str} (h : r.MatchesAt rest)
    (htext : text = before ++ rest) :
    ∃ before rest, text = before ++ rest ∧ r.Leftmost before rest := by
  rcases findFrom_leftmost hr 0 text with ⟨before, rest, -, he, hleft, -⟩ | ⟨hnone, -⟩
  · exact ⟨before, rest, he, hleft⟩
  · exact absurd h (hnone before rest htext)

-- A text has one leftmost place.
theorem Leftmost.unique {before other more : Str} (h : r.Leftmost before rest)
    (hother : r.Leftmost other more) (he : other ++ more = before ++ rest) :
    other = before ∧ more = rest := by
  have hlength : other.length = before.length :=
    Nat.le_antisymm (hother.2 before rest he.symm h.1) (h.2 other more he hother.1)
  exact List.append_inj he hlength

theorem find_eq_some_iff (hr : r.AnchorFree) {first : Nat} :
    (r.find text).map Match.first = some first ↔
      ∃ before rest, text = before ++ rest ∧ r.Leftmost before rest ∧ first = before.length := by
  rcases findFrom_leftmost hr 0 text with
    ⟨before, rest, found, rfl, hleft, hfound, hfirst⟩ | ⟨hnone, hfound⟩
  · rw [find, hfound, Option.map_some, Option.some.injEq, hfirst, Nat.zero_add]
    constructor
    · exact fun he => ⟨before, rest, rfl, hleft, he.symm⟩
    · rintro ⟨other, more, he, hother, rfl⟩
      rw [(hleft.unique hother he.symm).1]
  · rw [find, hfound]
    constructor
    · intro h
      simp at h
    · rintro ⟨before, rest, he, hleft, -⟩
      exact absurd hleft.1 (hnone before rest he)

@[simp] theorem denotes_literal {expected : Str} :
    (literal expected).Denotes text ↔ text = expected := by
  induction expected generalizing text with
  | nil => exact Iff.rfl
  | cons c expected ih =>
      constructor
      · rintro ⟨left, right, rfl, ⟨d, hd, rfl⟩, hright⟩
        rw [ih.mp hright, beq_iff_eq.mp hd]
        rfl
      · rintro rfl
        exact ⟨[c], expected, rfl, ⟨c, beq_self_eq_true c, rfl⟩, ih.mpr rfl⟩

@[simp] theorem denotes_spaces : spaces.Denotes text ↔ ∀ c ∈ text, isSpace c := by
  simp [spaces, Denotes]

@[simp] theorem denotes_spaces1 : spaces1.Denotes text ↔ text ≠ [] ∧ ∀ c ∈ text, isSpace c := by
  simp [spaces1, Denotes, Nat.one_le_iff_ne_zero, and_comm]

theorem anchorFree_literal (expected : Str) : (literal expected).AnchorFree := by
  induction expected with
  | nil => exact trivial
  | cons c expected ih => exact ⟨trivial, ih⟩

end

end Ytdlpdroid.Text.Regex
