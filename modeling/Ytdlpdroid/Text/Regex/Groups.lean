import Ytdlpdroid.Text.Regex.Theorems

namespace Ytdlpdroid.Text.Regex

def GroupFree : Regex → Prop
  | .seq first second | .alt first second => first.GroupFree ∧ second.GroupFree
  | .group _ _ => False
  | _ => True

-- The texts that an expression without anchors matches, each with the groups that are captured
-- on the way, latest first.
def Matches : Regex → Str → List (Nat × Str) → Prop
  | .seq first second, text, groups =>
      ∃ left right before after, text = left ++ right ∧ groups = after ++ before ∧
        first.Matches left before ∧ second.Matches right after
  | .alt first second, text, groups => first.Matches text groups ∨ second.Matches text groups
  | .group index inner, text, groups =>
      ∃ inside, inner.Matches text inside ∧ groups = (index, text) :: inside
  | r, text, groups => r.Denotes text ∧ groups = []

section

variable {r first second : Regex} {p : Char → Bool} {cursor last : Cursor} {text rest : Str}
  {groups : List (Nat × Str)}

theorem matches_of_groupFree (h : r.GroupFree) :
    r.Matches text groups ↔ r.Denotes text ∧ groups = [] := by
  induction r generalizing text groups with
  | seq first second ihfirst ihsecond =>
      simp only [Matches, Denotes, ihfirst h.1, ihsecond h.2]
      constructor
      · rintro ⟨left, right, -, -, rfl, rfl, ⟨hleft, rfl⟩, hright, rfl⟩
        exact ⟨⟨left, right, rfl, hleft, hright⟩, rfl⟩
      · rintro ⟨⟨left, right, rfl, hleft, hright⟩, rfl⟩
        exact ⟨left, right, [], [], rfl, rfl, ⟨hleft, rfl⟩, hright, rfl⟩
  | alt first second ihfirst ihsecond =>
      simp only [Matches, Denotes, ihfirst h.1, ihsecond h.2, or_and_right]
  | group index inner => exact h.elim
  | empty => exact Iff.rfl
  | chars p => exact Iff.rfl
  | many p least most => exact Iff.rfl
  | start => exact Iff.rfl
  | finish => exact Iff.rfl

theorem denotes_of_matches (h : r.Matches text groups) : r.Denotes text := by
  induction r generalizing text groups with
  | seq first second ihfirst ihsecond =>
      obtain ⟨left, right, before, after, rfl, rfl, hleft, hright⟩ := h
      exact ⟨left, right, rfl, ihfirst hleft, ihsecond hright⟩
  | alt first second ihfirst ihsecond =>
      rcases h with h | h
      · exact Or.inl (ihfirst h)
      · exact Or.inr (ihsecond h)
  | group index inner ih =>
      obtain ⟨inside, h, rfl⟩ := h
      exact ih h
  | empty => exact h.1
  | chars p => exact h.1
  | many p least most => exact h.1
  | start => exact h.1
  | finish => exact h.1

theorem exists_matches (h : r.Denotes text) : ∃ groups, r.Matches text groups := by
  induction r generalizing text with
  | seq first second ihfirst ihsecond =>
      obtain ⟨left, right, rfl, hleft, hright⟩ := h
      obtain ⟨before, hbefore⟩ := ihfirst hleft
      obtain ⟨after, hafter⟩ := ihsecond hright
      exact ⟨after ++ before, left, right, before, after, rfl, rfl, hbefore, hafter⟩
  | alt first second ihfirst ihsecond =>
      rcases h with h | h
      · obtain ⟨groups, hgroups⟩ := ihfirst h
        exact ⟨groups, Or.inl hgroups⟩
      · obtain ⟨groups, hgroups⟩ := ihsecond h
        exact ⟨groups, Or.inr hgroups⟩
  | group index inner ih =>
      obtain ⟨inside, hinside⟩ := ih h
      exact ⟨(index, text) :: inside, inside, hinside, rfl⟩
  | empty => exact ⟨[], h, rfl⟩
  | chars p => exact ⟨[], h, rfl⟩
  | many p least most => exact ⟨[], h, rfl⟩
  | start => exact ⟨[], h, rfl⟩
  | finish => exact ⟨[], h, rfl⟩

theorem exists_matches_iff : (∃ groups, r.Matches text groups) ↔ r.Denotes text := by
  constructor
  · rintro ⟨groups, h⟩
    exact denotes_of_matches h
  · exact exists_matches

-- The place that is reached from a cursor by a text and the groups captured in it.
def Cursor.Reaches (cursor : Cursor) (text : Str) (groups : List (Nat × Str))
    (last : Cursor) : Prop :=
  cursor.rest = text ++ last.rest ∧ last.offset = cursor.offset + text.length ∧
    last.groups = groups ++ cursor.groups

theorem Cursor.reaches_iff_advance :
    cursor.Reaches text [] last ↔ text <+: cursor.rest ∧ last = cursor.advance text.length := by
  obtain ⟨offset, rest, groups⟩ := cursor
  obtain ⟨offset', rest', groups'⟩ := last
  simp only [Reaches, advance, Cursor.mk.injEq, List.nil_append]
  constructor
  · rintro ⟨rfl, rfl, rfl⟩
    exact ⟨List.prefix_append .., rfl, by rw [List.drop_left], rfl⟩
  · rintro ⟨⟨more, rfl⟩, rfl, hrest, rfl⟩
    rw [List.drop_left] at hrest
    exact ⟨by rw [hrest], rfl, rfl⟩

theorem Cursor.Reaches.append {middle : Cursor} {left right : Str} {before after : List (Nat × Str)}
    (hleft : cursor.Reaches left before middle) (hright : middle.Reaches right after last) :
    cursor.Reaches (left ++ right) (after ++ before) last := by
  obtain ⟨hrest, hoffset, hgroups⟩ := hleft
  obtain ⟨hrest', hoffset', hgroups'⟩ := hright
  refine ⟨by rw [hrest, hrest', List.append_assoc],
    ?_, by rw [hgroups', hgroups, List.append_assoc]⟩
  rw [hoffset', hoffset, List.length_append, Nat.add_assoc]

-- A match from a cursor ends after a text of the expression, with its groups captured.
theorem mem_ends_iff (hr : r.AnchorFree) :
    last ∈ r.ends cursor ↔ ∃ text groups, r.Matches text groups ∧
      cursor.Reaches text groups last := by
  induction r generalizing cursor last with
  | empty =>
      simp only [ends, Matches, Denotes, List.mem_singleton]
      constructor
      · rintro rfl
        exact ⟨[], [], ⟨rfl, rfl⟩, rfl, rfl, rfl⟩
      · rintro ⟨-, -, ⟨rfl, rfl⟩, h⟩
        exact (Cursor.reaches_iff_advance.mp h).2
  | chars p =>
      simp only [Matches, Denotes]
      constructor
      · intro hm
        cases hrest : cursor.rest with
        | nil => simp [ends, hrest] at hm
        | cons c more =>
            simp only [ends, hrest] at hm
            split_ifs at hm with hc
            · exact ⟨[c], [], ⟨⟨c, hc, rfl⟩, rfl⟩,
                Cursor.reaches_iff_advance.mpr ⟨⟨more, hrest.symm⟩, List.mem_singleton.mp hm⟩⟩
            · cases hm
      · rintro ⟨-, -, ⟨⟨c, hc, rfl⟩, rfl⟩, h⟩
        obtain ⟨⟨more, hmore⟩, hlast⟩ := Cursor.reaches_iff_advance.mp h
        simp [ends, ← hmore, hc, hlast]
  | many p least most =>
      simp only [Matches, Denotes, mem_ends_many]
      constructor
      · rintro ⟨count, rfl, hleast, hcount, hbound⟩
        obtain ⟨hlength, hall⟩ := le_length_takeWhile_iff.mp hcount
        have htaken : (cursor.rest.take count).length = count := List.length_take_of_le hlength
        refine ⟨cursor.rest.take count, [], ⟨⟨hall, ?_, ?_⟩, rfl⟩,
          Cursor.reaches_iff_advance.mpr ⟨?_, ?_⟩⟩
        · rwa [htaken]
        · rwa [htaken]
        · exact List.take_prefix ..
        · rw [htaken]
      · rintro ⟨text, -, ⟨⟨hall, hleast, hbound⟩, rfl⟩, h⟩
        obtain ⟨⟨more, hmore⟩, rfl⟩ := Cursor.reaches_iff_advance.mp h
        refine ⟨text.length, rfl, hleast, ?_, hbound⟩
        rw [le_length_takeWhile_iff, ← hmore, List.take_left]
        exact ⟨by simp, hall⟩
  | seq first second ihfirst ihsecond =>
      simp only [ends, List.mem_flatMap, ihfirst hr.1, ihsecond hr.2]
      constructor
      · rintro ⟨middle, ⟨left, before, hleft, hmiddle⟩, right, after, hright, hlast⟩
        exact ⟨left ++ right, after ++ before,
          ⟨left, right, before, after, rfl, rfl, hleft, hright⟩, hmiddle.append hlast⟩
      · rintro ⟨-, -, ⟨left, right, before, after, rfl, rfl, hleft, hright⟩, hrest, hoffset,
          hgroups⟩
        let middle : Cursor :=
          ⟨cursor.offset + left.length, right ++ last.rest, before ++ cursor.groups⟩
        refine ⟨middle, ⟨left, before, hleft, ?_, rfl, rfl⟩, right, after, hright, rfl, ?_, ?_⟩
        · rw [hrest, List.append_assoc]
        · rw [hoffset, List.length_append, Nat.add_assoc]
        · rw [hgroups, List.append_assoc]
  | alt first second ihfirst ihsecond =>
      simp only [ends, Matches, List.mem_append, or_and_right, exists_or, ihfirst hr.1,
        ihsecond hr.2]
  | group index inner ih =>
      simp only [ends, Matches, List.mem_map]
      constructor
      · rintro ⟨inside, hm, rfl⟩
        obtain ⟨text, groups, hmatches, hrest, hoffset, hgroups⟩ := (ih hr).mp hm
        refine ⟨text, (index, text) :: groups, ⟨groups, hmatches, rfl⟩, hrest, hoffset, ?_⟩
        simp [hoffset, hrest, hgroups]
      · rintro ⟨text, -, ⟨groups, hmatches, rfl⟩, hrest, hoffset, hgroups⟩
        refine ⟨⟨last.offset, last.rest, groups ++ cursor.groups⟩,
          (ih hr).mpr ⟨text, groups, hmatches, hrest, hoffset, rfl⟩, ?_⟩
        obtain ⟨offset, rest, found⟩ := last
        obtain rfl := hgroups
        obtain rfl := hoffset
        simp only at hrest
        simp [hrest]
  | start => exact hr.elim
  | finish => exact hr.elim

-- What is found is one of the ends of a match from some place.
theorem findFrom_place {offset : Nat} {found : Match} (h : r.findFrom offset text = some found) :
    ∃ before rest last, text = before ++ rest ∧ last ∈ r.ends ⟨offset + before.length, rest, []⟩ ∧
      found = ⟨offset + before.length, last.offset, last.groups⟩ := by
  induction text generalizing offset with
  | nil =>
      rcases findFrom_cases h with ⟨last, hm, hfound⟩ | ⟨c, tail, he, -⟩
      · exact ⟨[], [], last, rfl, hm, hfound⟩
      · cases he
  | cons c text ih =>
      rcases findFrom_cases h with ⟨last, hm, hfound⟩ | ⟨d, tail, he, hnext⟩
      · exact ⟨[], c :: text, last, rfl, hm, hfound⟩
      · obtain ⟨rfl, rfl⟩ := List.cons.inj he
        obtain ⟨before, rest, last, rfl, hm, hfound⟩ := ih hnext
        have hoffset : offset + (c :: before).length = offset + 1 + before.length := by
          rw [List.length_cons]
          omega
        exact ⟨c :: before, rest, last, rfl, hoffset ▸ hm, hoffset ▸ hfound⟩

-- What is found is a match from the leftmost place.
theorem findFrom_matches (hr : r.AnchorFree) {offset : Nat} {found : Match}
    (h : r.findFrom offset text = some found) :
    ∃ before matched after, text = before ++ (matched ++ after) ∧
      r.Leftmost before (matched ++ after) ∧ r.Matches matched found.groups ∧
      found.first = offset + before.length ∧
        found.last = offset + before.length + matched.length := by
  rcases findFrom_leftmost hr offset text with
    ⟨before, rest, whole, rfl, hleft, hfound, hfirst⟩ | ⟨-, hnone⟩
  · obtain rfl := Option.some.inj (hfound.symm.trans h)
    obtain ⟨before', rest', last, he, hm, rfl⟩ := findFrom_place h
    obtain ⟨rfl, rfl⟩ := List.append_inj he (by simp only at hfirst; omega)
    obtain ⟨matched, groups, hmatches, hrest, hlast, hgroups⟩ := (mem_ends_iff hr).mp hm
    rw [List.append_nil] at hgroups
    refine ⟨before, matched,
      last.rest, by rw [← hrest], hrest ▸ hleft, hgroups ▸ hmatches, rfl, hlast⟩
  · rw [hnone] at h
    cases h

theorem find_matches (hr : r.AnchorFree) {found : Match} (h : r.find text = some found) :
    ∃ before matched after, text = before ++ (matched ++ after) ∧
      r.Leftmost before (matched ++ after) ∧ r.Matches matched found.groups ∧
      found.first = before.length ∧ found.last = before.length + matched.length := by
  simpa only [Nat.zero_add] using findFrom_matches hr h

-- Nothing is found in a text only if there is no match anywhere.
theorem find_eq_none_iff (hr : r.AnchorFree) :
    r.find text = none ↔ ∀ before rest, text = before ++ rest → ¬r.MatchesAt rest := by
  rcases findFrom_leftmost hr 0 text with
    ⟨before, rest, found, rfl, hleft, hfound, -⟩ | ⟨hnone, hfound⟩
  · refine iff_of_false (fun h => ?_) fun h => h before rest rfl hleft.1
    rw [find, hfound] at h
    cases h
  · exact iff_of_true hfound hnone

-- A group captures the same text in every match from the leftmost place, if it is found there.
theorem findGroup_of_leftmost (hr : r.AnchorFree) {before captured : Str} {index : Nat}
    (hleft : r.Leftmost before rest)
    (hall : ∀ matched groups, r.Matches matched groups → matched <+: rest →
      groups.lookup index = some captured) :
    r.findGroup (before ++ rest) index = some captured := by
  cases hfind : r.find (before ++ rest) with
  | none => exact absurd hleft.1 ((find_eq_none_iff hr).mp hfind before rest rfl)
  | some found =>
      obtain ⟨before', matched, after, he, hleft', hmatches, -, -⟩ := find_matches hr hfind
      obtain ⟨rfl, hrest⟩ := hleft.unique hleft' he.symm
      have hlookup := hall matched found.groups hmatches ⟨after, hrest⟩
      rw [findGroup, hfind, Option.map_some, Match.group, hlookup]
      rfl

-- A group captures a part of what is matched.
theorem infix_of_matches (h : r.Matches text groups) : ∀ found ∈ groups, found.2 <:+: text := by
  induction r generalizing text groups with
  | seq first second ihfirst ihsecond =>
      obtain ⟨left, right, before, after, rfl, rfl, hleft, hright⟩ := h
      intro found hm
      rcases List.mem_append.mp hm with hm | hm
      · exact (ihsecond hright found hm).trans (List.suffix_append left right).isInfix
      · exact (ihfirst hleft found hm).trans (List.prefix_append left right).isInfix
  | alt first second ihfirst ihsecond =>
      rcases h with h | h
      · exact ihfirst h
      · exact ihsecond h
  | group index inner ih =>
      obtain ⟨inside, h, rfl⟩ := h
      exact List.forall_mem_cons.mpr ⟨List.infix_refl text, ih h⟩
  | empty => simp [h.2]
  | chars p => simp [h.2]
  | many p least most => simp [h.2]
  | start => simp [h.2]
  | finish => simp [h.2]

theorem subset_of_findGroup (hr : r.AnchorFree) {index : Nat} {captured : Str}
    (h : r.findGroup text index = some captured) : captured ⊆ text := by
  obtain ⟨found, hfind, rfl⟩ := Option.map_eq_some_iff.mp h
  obtain ⟨before, matched, after, rfl, -, hmatches, -, -⟩ := find_matches hr hfind
  rw [Match.group]
  cases hlookup : found.groups.lookup index with
  | none => exact List.nil_subset _
  | some part =>
      obtain ⟨others, more, he, -⟩ := List.lookup_eq_some_iff.mp hlookup
      have hpart :=
        infix_of_matches hmatches (index, part)
          (he ▸ List.mem_append_right others List.mem_cons_self)
      intro c hc
      exact List.mem_append_right before (List.mem_append_left after (hpart.subset hc))

-- No match starts inside the first part of a text.
def Inert (r : Regex) (head rest : Str) : Prop :=
  ∀ before after, head = before ++ after → after ≠ [] → ¬r.MatchesAt (after ++ rest)

theorem inert_nil : r.Inert [] rest := by
  intro before after he hne
  exact absurd (List.append_eq_nil_iff.mp he.symm).2 hne

theorem Inert.findFrom_append (hr : r.AnchorFree) {head : Str} (h : r.Inert head rest)
    (offset : Nat) :
    r.findFrom offset (head ++ rest) = r.findFrom (offset + head.length) rest := by
  induction head generalizing offset with
  | nil => rfl
  | cons c head ih =>
      have hhead : r.Inert head rest :=
        fun before after he => h (c :: before) after (by rw [he]; rfl)
      rw [findFrom_of_not_matchesAt hr offset (h [] (c :: head) rfl (by simp)), List.length_cons]
      exact (ih hhead (offset + 1)).trans (by congr 1; omega)

-- Before the leftmost place there is no match.
theorem Leftmost.inert {before : Str} (h : r.Leftmost before rest) : r.Inert before rest := by
  intro other after he hne hmatches
  have hle := h.2 other (after ++ rest) (by rw [he, List.append_assoc]) hmatches
  have hlength := congrArg List.length he
  rw [List.length_append] at hlength
  have hpos := List.length_pos_iff.mpr hne
  omega

-- What is captured is captured by the first of the matches from the leftmost place.
theorem Leftmost.findGroup_eq (hr : r.AnchorFree) {before : Str} (h : r.Leftmost before rest)
    (hends : (r.ends ⟨before.length, rest, []⟩).head? = some last) (index : Nat) :
    r.findGroup (before ++ rest) index = some ((last.groups.lookup index).getD []) := by
  obtain ⟨others, hothers⟩ := List.head?_eq_some_iff.mp hends
  rw [findGroup, find, h.inert.findFrom_append hr, Nat.zero_add, findFrom.eq_def, hothers]
  rfl

-- A repetition without an upper bound first takes all it can.
theorem head?_ends_many {least : Nat} (h : least ≤ (cursor.rest.takeWhile p).length) :
    ((many p least none).ends cursor).head? =
      some (cursor.advance (cursor.rest.takeWhile p).length) := by
  obtain ⟨count, hcount⟩ := Nat.exists_eq_add_of_le h
  have hrange : (cursor.rest.takeWhile p).length + 1 - least = count + 1 := by omega
  simp only [ends, hrange, List.range'_concat, List.reverse_append, List.map_append, Nat.one_mul]
  simp [hcount]

-- With an upper bound it first takes all it may.
theorem head?_ends_many_upTo {least most : Nat}
    (h : least ≤ min (cursor.rest.takeWhile p).length most) :
    ((many p least (some most)).ends cursor).head? =
      some (cursor.advance (min (cursor.rest.takeWhile p).length most)) := by
  obtain ⟨count, hcount⟩ := Nat.exists_eq_add_of_le h
  have hrange : min (cursor.rest.takeWhile p).length most + 1 - least = count + 1 := by omega
  simp only [ends, hrange, List.range'_concat, List.reverse_append, List.map_append, Nat.one_mul]
  simp [hcount]

-- A repetition gives no character back to an expression that cannot begin with it.
theorem ends_many_seq {run : Str} (hrun : ∀ c ∈ run, p c)
    (hrest : ∀ c, rest.head? = some c → p c = false)
    (hsecond : ∀ cursor : Cursor, ∀ c, cursor.rest.head? = some c → p c → second.ends cursor = [])
    (offset : Nat) (groups : List (Nat × Str)) :
    (seq (many p 0 none) second).ends ⟨offset, run ++ rest, groups⟩ =
      second.ends ⟨offset + run.length, rest, groups⟩ := by
  have hlongest : (run ++ rest).takeWhile p = run := by
    rw [List.takeWhile_append_of_pos hrun]
    cases rest with
    | nil => simp
    | cons c more => rw [List.takeWhile_cons_of_neg (by simp [hrest c rfl]), List.append_nil]
  have hshorter : ((List.range' 0 run.length).reverse.map
      (Cursor.advance ⟨offset, run ++ rest, groups⟩)).flatMap second.ends = [] := by
    rw [List.flatMap_eq_nil_iff]
    intro cursor hm
    obtain ⟨count, hcount, rfl⟩ := List.mem_map.mp hm
    have hlt : count < run.length := by simpa using hcount
    have hhead : ((run ++ rest).drop count).head? = some run[count] := by
      rw [List.head?_drop, List.getElem?_append_left hlt, List.getElem?_eq_getElem hlt]
    exact hsecond _ _ hhead (hrun _ (List.getElem_mem hlt))
  simp only [ends, hlongest, Nat.sub_zero, List.range'_concat, List.reverse_append, List.map_append,
    List.flatMap_append, hshorter, List.append_nil, Nat.one_mul, Nat.zero_add]
  simp [Cursor.advance]

-- Only one part of a sequence captures groups.
theorem matches_seq_iff_right (h : first.GroupFree) : (seq first second).Matches text groups ↔
    ∃ left right, text = left ++ right ∧ first.Denotes left ∧ second.Matches right groups := by
  simp only [Matches, matches_of_groupFree h]
  constructor
  · rintro ⟨left, right, -, after, rfl, rfl, ⟨hleft, rfl⟩, hright⟩
    exact ⟨left, right, rfl, hleft, by rwa [List.append_nil]⟩
  · rintro ⟨left, right, rfl, hleft, hright⟩
    exact ⟨left, right, [], groups, rfl, (List.append_nil groups).symm, ⟨hleft, rfl⟩, hright⟩

theorem matches_seq_iff_left (h : second.GroupFree) : (seq first second).Matches text groups ↔
    ∃ left right, text = left ++ right ∧ first.Matches left groups ∧ second.Denotes right := by
  simp only [Matches, matches_of_groupFree h]
  constructor
  · rintro ⟨left, right, before, -, rfl, rfl, hleft, hright, rfl⟩
    exact ⟨left, right, rfl, hleft, hright⟩
  · rintro ⟨left, right, rfl, hleft, hright⟩
    exact ⟨left, right, groups, [], rfl, rfl, hleft, hright, rfl⟩

-- A group around an expression without groups captures what is matched.
theorem matches_group_iff {index : Nat} (h : r.GroupFree) :
    (group index r).Matches text groups ↔ r.Denotes text ∧ groups = [(index, text)] := by
  simp only [Matches, matches_of_groupFree h]
  constructor
  · rintro ⟨-, ⟨hr, rfl⟩, rfl⟩
    exact ⟨hr, rfl⟩
  · rintro ⟨hr, rfl⟩
    exact ⟨[], ⟨hr, rfl⟩, rfl⟩

theorem groupFree_literal (expected : Str) : (literal expected).GroupFree := by
  induction expected with
  | nil => exact trivial
  | cons c expected ih => exact ⟨trivial, ih⟩

end

end Ytdlpdroid.Text.Regex
