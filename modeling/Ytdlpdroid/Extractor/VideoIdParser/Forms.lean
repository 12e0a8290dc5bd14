import Ytdlpdroid.Extractor.VideoIdParser.Theorems
import Ytdlpdroid.Text.Regex.Groups

namespace Ytdlpdroid

open Text

namespace VideoIdParser

-- What stands before the id in each of the first three patterns.
def queryIntros : List Str := [str "?v=", str "&v="]

def shortIntros : List Str := [str "youtu.be/"]

def pathIntros : List Str :=
  [str "youtube.com/embed/", str "youtube.com/shorts/", str "youtube.com/v/"]

def forms : List (List Str) := [queryIntros, shortIntros, pathIntros]

def IsId (id : Str) : Prop := id.length = 11 ∧ ∀ c ∈ id, isIdChar c

-- The text begins with an introduction and an id.
def Introduced (intros : List Str) (rest : Str) : Prop :=
  ∃ intro ∈ intros, ∃ id, IsId id ∧ intro ++ id <+: rest

def Nowhere (intros : List Str) (text : Str) : Prop :=
  ∀ before rest, text = before ++ rest → ¬Introduced intros rest

-- The text is split before the leftmost introduction of an id.
def First (intros : List Str) (before rest : Str) : Prop :=
  Introduced intros rest ∧
    ∀ other more, other ++ more = before ++ rest → Introduced intros more →
      before.length ≤ other.length

-- The expression matches an introduction and the id after it, which it captures.
structure Introduces (r : Regex) (intros : List Str) : Prop where
  anchorFree : r.AnchorFree
  iff : ∀ text groups, r.Matches text groups ↔
    ∃ intro ∈ intros, ∃ id, IsId id ∧ text = intro ++ id ∧ groups = [(1, id)]

theorem introduces_idGroup : Introduces idGroup [[]] := by
  refine ⟨trivial, fun text groups => ?_⟩
  have hfree : (Regex.many isIdChar 11 (some 11)).GroupFree := trivial
  rw [idGroup, Regex.matches_group_iff hfree]
  simp only [Regex.Denotes, List.mem_singleton, exists_eq_left, List.nil_append, IsId,
    Option.some.injEq, forall_eq']
  constructor
  · rintro ⟨⟨hall, hleast, hmost⟩, rfl⟩
    exact ⟨text, ⟨Nat.le_antisymm hmost hleast, hall⟩, rfl, rfl⟩
  · rintro ⟨id, ⟨hlength, hall⟩, rfl, rfl⟩
    exact ⟨⟨hall, hlength.ge, hlength.le⟩, rfl⟩

-- An expression before the introduction makes it longer.
theorem Introduces.seq {first second : Regex} {heads intros : List Str}
    (h : Introduces second intros) (hanchor : first.AnchorFree) (hgroup : first.GroupFree)
    (hdenotes : ∀ text, first.Denotes text ↔ text ∈ heads) :
    Introduces (.seq first second) (heads.flatMap fun head => intros.map (head ++ ·)) := by
  refine ⟨⟨hanchor, h.anchorFree⟩, fun text groups => ?_⟩
  rw [Regex.matches_seq_iff_right hgroup]
  constructor
  · rintro ⟨head, right, rfl, hhead, hright⟩
    obtain ⟨intro, hintro, id, hid, rfl, rfl⟩ := (h.iff _ _).mp hright
    refine ⟨head ++ intro, ?_, id, hid, (List.append_assoc ..).symm, rfl⟩
    exact List.mem_flatMap.mpr
      ⟨head, (hdenotes head).mp hhead, List.mem_map.mpr ⟨intro, hintro, rfl⟩⟩
  · rintro ⟨whole, hwhole, id, hid, rfl, rfl⟩
    obtain ⟨head, hhead, hm⟩ := List.mem_flatMap.mp hwhole
    obtain ⟨intro, hintro, rfl⟩ := List.mem_map.mp hm
    exact ⟨head, intro ++ id, List.append_assoc .., (hdenotes head).mpr hhead,
      (h.iff _ _).mpr ⟨intro, hintro, id, hid, rfl, rfl⟩⟩

theorem Introduces.literal {second : Regex} {intros : List Str} (h : Introduces second intros)
    (text : Str) :
    Introduces (.seq (.literal text) second) (intros.map (text ++ ·)) := by
  have hdenotes (text' : Str) : (Regex.literal text).Denotes text' ↔ text' ∈ [text] := by simp
  simpa using h.seq (Regex.anchorFree_literal text) (Regex.groupFree_literal text) hdenotes

def bare : Regex := .sequence [.start, idGroup, .finish]

theorem introduces_patterns : ∃ rs, patterns = rs ++ [bare] ∧ List.Forall₂ Introduces rs forms := by
  have hquery (text : Str) : (Regex.chars fun c => c == '?' || c == '&').Denotes text ↔
      text ∈ [str "?", str "&"] := by
    simp [Regex.Denotes, str, or_and_right, exists_or]
  have hkind (text : Str) : (Regex.alt (.literal (str "embed")) (.alt (.literal (str "shorts"))
      (.literal (str "v")))).Denotes text ↔ text ∈ [str "embed", str "shorts", str "v"] := by
    simp [Regex.Denotes]
  have hkindAnchor : (Regex.alt (.literal (str "embed")) (.alt (.literal (str "shorts"))
      (.literal (str "v")))).AnchorFree :=
    ⟨Regex.anchorFree_literal _, Regex.anchorFree_literal _, Regex.anchorFree_literal _⟩
  have hkindGroup : (Regex.alt (.literal (str "embed")) (.alt (.literal (str "shorts"))
      (.literal (str "v")))).GroupFree :=
    ⟨Regex.groupFree_literal _, Regex.groupFree_literal _, Regex.groupFree_literal _⟩
  refine ⟨patterns.take 3, rfl, .cons ?_ (.cons ?_ (.cons ?_ .nil))⟩
  · refine (introduces_idGroup.literal _).seq ?_ ?_ hquery
    · exact trivial
    · exact trivial
  · exact introduces_idGroup.literal _
  · exact ((introduces_idGroup.literal _).seq hkindAnchor hkindGroup hkind).literal _

-- The first match of the patterns, in their order.
def search (trimmed : Str) : Option Regex.Match :=
  patterns.findSome? fun pattern => pattern.find trimmed

theorem parse_eq (input : Str) : parse input =
    match search (trim input) with
    | some found => .ok (found.group 1)
    | none => .error (YTDLPError.invalidUrl (trim input)) := by
  have hgroup : (patterns.findSome? fun pattern => pattern.findGroup (trim input) 1) =
      (search (trim input)).map (·.group 1) := by
    rw [search, List.map_findSome?]
    rfl
  simp only [parse, hgroup]
  cases search (trim input) with
  | none => rfl
  | some found => rfl

section

variable {r : Regex} {rs : List Regex} {intros : List Str} {fs : List (List Str)}
  {text before rest : Str}

theorem Introduces.matchesAt_iff (h : Introduces r intros) :
    r.MatchesAt rest ↔ Introduced intros rest := by
  simp only [Regex.MatchesAt, ← Regex.exists_matches_iff, h.iff, Introduced]
  constructor
  · rintro ⟨-, hstarts, -, intro, hintro, id, hid, rfl, -⟩
    exact ⟨intro, hintro, id, hid, hstarts⟩
  · rintro ⟨intro, hintro, id, hid, hstarts⟩
    exact ⟨intro ++ id, hstarts, _, intro, hintro, id, hid, rfl, rfl⟩

theorem Introduces.leftmost_iff (h : Introduces r intros) :
    r.Leftmost before rest ↔ First intros before rest := by
  simp only [Regex.Leftmost, First, h.matchesAt_iff]

-- No introduction of a form begins with another one.
def PrefixFree (intros : List Str) : Prop := ∀ a ∈ intros, ∀ b ∈ intros, a <+: b → a = b

theorem forms_prefixFree : ∀ intros ∈ forms, PrefixFree intros := by
  unfold PrefixFree
  decide

-- One place has at most one introduction, and one id after it.
theorem PrefixFree.unique (h : PrefixFree intros) {a b id id' : Str} (ha : a ∈ intros)
    (hb : b ∈ intros) (hid : IsId id) (hid' : IsId id') (hstarts : a ++ id <+: rest)
    (hstarts' : b ++ id' <+: rest) :
    a = b ∧ id = id' := by
  have hab : a = b := by
    rcases List.prefix_or_prefix_of_prefix ((List.prefix_append a id).trans hstarts)
      ((List.prefix_append b id').trans hstarts') with hle | hle
    · exact h a ha b hb hle
    · exact (h b hb a ha hle).symm
  subst hab
  have hlength : (a ++ id).length = (a ++ id').length := by
    rw [List.length_append, List.length_append, hid.1, hid'.1]
  have heq := (List.prefix_of_prefix_length_le hstarts hstarts' hlength.le).eq_of_length hlength
  exact ⟨rfl, List.append_cancel_left heq⟩

theorem Introduces.find_eq_none_iff (h : Introduces r intros) :
    r.find text = none ↔ Nowhere intros text := by
  rw [Regex.find_eq_none_iff h.anchorFree]
  simp only [Nowhere, h.matchesAt_iff]

-- What is found is the id of the leftmost introduction.
theorem Introduces.find_cases (h : Introduces r intros) {found : Regex.Match}
    (hfind : r.find text = some found) :
    ∃ before intro id after, text = before ++ (intro ++ id ++ after) ∧ intro ∈ intros ∧ IsId id ∧
      First intros before (intro ++ id ++ after) ∧ found.group 1 = id ∧
      found.last = (before ++ intro ++ id).length := by
  obtain ⟨before, matched, after, rfl, hleft, hmatches, -, hlast⟩ :=
    Regex.find_matches h.anchorFree hfind
  obtain ⟨intro, hintro, id, hid, rfl, hgroups⟩ := (h.iff _ _).mp hmatches
  refine ⟨before, intro, id, after, rfl, hintro, hid, h.leftmost_iff.mp hleft, ?_, ?_⟩
  · rw [Regex.Match.group, hgroups]
    rfl
  · simp only [hlast, List.length_append]
    omega

-- The first form that occurs in a text decides what its patterns find.
theorem findSome?_of_first {earlier later : List (List Str)}
    (h : List.Forall₂ Introduces rs (earlier ++ intros :: later))
    (hearlier : ∀ other ∈ earlier, Nowhere other text) (hsome : ¬Nowhere intros text) :
    ∃ r found, Introduces r intros ∧ r.find text = some found ∧
      rs.findSome? (fun pattern => pattern.find text) = some found := by
  induction earlier generalizing rs with
  | nil =>
      cases h with
      | cons hr hrest =>
          rename_i r rs
          cases hfind : r.find text with
          | none => exact absurd (hr.find_eq_none_iff.mp hfind) hsome
          | some found => exact ⟨r, found, hr, hfind, by rw [List.findSome?_cons, hfind]⟩
  | cons other earlier ih =>
      cases h with
      | cons hr hrest =>
          obtain ⟨hother, hearlier⟩ := List.forall_mem_cons.mp hearlier
          obtain ⟨r, found, hr', hfind, hfound⟩ := ih hrest hearlier
          exact ⟨r, found, hr',
            hfind, by rw [List.findSome?_cons, hr.find_eq_none_iff.mpr hother]; exact hfound⟩

theorem findSome?_of_nowhere (h : List.Forall₂ Introduces rs fs)
    (hnowhere : ∀ intros ∈ fs, Nowhere intros text) :
    rs.findSome? (fun pattern => pattern.find text) = none := by
  induction h with
  | nil => rfl
  | cons hr hrest ih =>
      obtain ⟨hfirst, hnowhere⟩ := List.forall_mem_cons.mp hnowhere
      rw [List.findSome?_cons, hr.find_eq_none_iff.mpr hfirst]
      exact ih hnowhere

-- The forms before the first one that occurs.
theorem first_form_cases (fs : List (List Str)) (text : Str) :
    (∃ earlier intros later, fs = earlier ++ intros :: later ∧
      (∀ other ∈ earlier, Nowhere other text) ∧ ¬Nowhere intros text) ∨
        ∀ intros ∈ fs, Nowhere intros text := by
  induction fs with
  | nil => exact Or.inr (by simp)
  | cons intros fs ih =>
      by_cases hnowhere : Nowhere intros text
      · rcases ih with ⟨earlier, first, later, rfl, hearlier, hfirst⟩ | hall
        · exact Or.inl
            ⟨intros :: earlier, first, later, rfl, List.forall_mem_cons.mpr ⟨hnowhere, hearlier⟩,
              hfirst⟩
        · exact Or.inr (List.forall_mem_cons.mpr ⟨hnowhere, hall⟩)
      · exact Or.inl ⟨[], intros, fs, rfl, by simp, hnowhere⟩

theorem First.not_nowhere (h : First intros before rest) : ¬Nowhere intros (before ++ rest) :=
  fun hnowhere => hnowhere before rest rfl h.1

theorem search_of_nowhere (h : ∀ intros ∈ forms, Nowhere intros text) :
    search text = bare.find text := by
  obtain ⟨rs, hpatterns, hrel⟩ := introduces_patterns
  rw [search, hpatterns, List.findSome?_append, findSome?_of_nowhere hrel h, Option.none_or]
  exact List.findSome?_singleton

-- The leftmost id of the first form that occurs is found.
theorem search_of_first {earlier later : List (List Str)} {intro id after : Str}
    (hforms : forms = earlier ++ intros :: later)
    (hearlier : ∀ other ∈ earlier, Nowhere other (before ++ (intro ++ id ++ after)))
    (hintro : intro ∈ intros) (hid : IsId id)
    (hfirst : First intros before (intro ++ id ++ after)) :
    ∃ found, search (before ++ (intro ++ id ++ after)) = some found ∧ found.group 1 = id ∧
      found.last = (before ++ intro ++ id).length := by
  obtain ⟨rs, hpatterns, hrel⟩ := introduces_patterns
  obtain ⟨r, found, hr, hfind, hfound⟩ :=
    findSome?_of_first (hforms ▸ hrel) hearlier hfirst.not_nowhere
  have hsearch : search (before ++ (intro ++ id ++ after)) = some found := by
    rw [search, hpatterns, List.findSome?_append, hfound, Option.some_or]
  obtain ⟨before', intro', id', after', he, hintro', hid', hfirst', hgroup, hlast⟩ :=
    hr.find_cases hfind
  obtain ⟨rfl, hrest⟩ := (hr.leftmost_iff.mpr hfirst).unique (hr.leftmost_iff.mpr hfirst') he.symm
  have hm : intros ∈ forms := by
    rw [hforms]
    simp
  obtain ⟨rfl, rfl⟩ :=
    (forms_prefixFree intros hm).unique hintro hintro' hid hid' (List.prefix_append _ after)
    (hrest ▸ List.prefix_append _ after')
  exact ⟨found, hsearch, hgroup, hlast⟩

end

-- An id alone, which a line terminator may follow.
def IsBare (text id : Str) : Prop := IsId id ∧ ∃ after, text = id ++ after ∧ Regex.atEnd after

theorem mem_ends_bare {text : Str} {last : Regex.Cursor} (h : last ∈ bare.ends ⟨0, text, []⟩) :
    ∃ id, IsId id ∧ text = id ++ last.rest ∧ Regex.atEnd last.rest ∧ last.offset = id.length ∧
      last.groups = [(1, id)] := by
  simp only [bare, Regex.sequence, Regex.ends, if_true, List.flatMap_singleton,
    List.mem_flatMap] at h
  obtain ⟨middle, hmiddle, hlast⟩ := h
  split_ifs at hlast with hend
  · obtain rfl := List.mem_singleton.mp hlast
    obtain ⟨matched, groups, hmatches, hrest, hoffset, hgroups⟩ :=
      (Regex.mem_ends_iff introduces_idGroup.anchorFree).mp hmiddle
    obtain ⟨intro, hintro, id, hid, rfl, rfl⟩ := (introduces_idGroup.iff _ _).mp hmatches
    obtain rfl := List.mem_singleton.mp hintro
    exact ⟨id, hid, hrest, hend, by simpa using hoffset, hgroups⟩
  · cases hlast

theorem ends_bare_of_isBare {text id : Str} (h : IsBare text id) :
    bare.ends ⟨0, text, []⟩ ≠ [] := by
  obtain ⟨hid, after, rfl, hend⟩ := h
  have hmatches : idGroup.Matches id [(1, id)] :=
    (introduces_idGroup.iff _ _).mpr ⟨[], List.mem_singleton.mpr rfl, id, hid, rfl, rfl⟩
  have hmiddle :
      (⟨id.length, after, [(1, id)]⟩ : Regex.Cursor) ∈ idGroup.ends ⟨0, id ++ after, []⟩ :=
    (Regex.mem_ends_iff introduces_idGroup.anchorFree).mpr
      ⟨id, _, hmatches, rfl, (Nat.zero_add _).symm, rfl⟩
  have hlast : (⟨id.length, after, [(1, id)]⟩ : Regex.Cursor) ∈ bare.ends ⟨0, id ++ after, []⟩ := by
    simp only [bare, Regex.sequence, Regex.ends, if_true, List.flatMap_singleton, List.mem_flatMap]
    exact ⟨_, hmiddle, by simp [hend]⟩
  exact List.ne_nil_of_mem hlast

-- After the start of the text there is no match.
theorem findFrom_bare_succ (offset : Nat) (text : Str) :
    bare.findFrom (offset + 1) text = none := by
  have hends (rest : Str) (offset : Nat) : bare.ends ⟨offset + 1, rest, []⟩ = [] := by
    simp [bare, Regex.sequence, Regex.ends]
  induction text generalizing offset with
  | nil => simp [Regex.findFrom, hends]
  | cons c text ih => simp [Regex.findFrom, hends, ih]

theorem find_bare_cases (text : Str) :
    (∃ id found, IsBare text id ∧ bare.find text = some found ∧ found.group 1 = id ∧
      found.last = id.length) ∨
      (¬∃ id, IsBare text id) ∧ bare.find text = none := by
  rw [Regex.find, Regex.findFrom.eq_def]
  cases hends : bare.ends ⟨0, text, []⟩ with
  | nil =>
      have hnone : ¬∃ id, IsBare text id := by
        rintro ⟨id, hbare⟩
        exact ends_bare_of_isBare hbare hends
      refine Or.inr ⟨hnone, ?_⟩
      cases text with
      | nil => rfl
      | cons c text => exact findFrom_bare_succ 0 text
  | cons last others =>
      have hm : last ∈ bare.ends ⟨0, text, []⟩ := by
        rw [hends]
        exact List.mem_cons_self
      obtain ⟨id, hid, htext, hend, hoffset, hgroups⟩ := mem_ends_bare hm
      refine Or.inl ⟨id, _, ⟨hid, last.rest, htext, hend⟩, rfl, ?_, hoffset⟩
      rw [Regex.Match.group, hgroups]
      rfl

-- Where a search ends: at the leftmost id of the first form that occurs, at a bare id, or nowhere.
theorem search_cases (text : Str) :
    (∃ earlier intros later before intro id after found, forms = earlier ++ intros :: later ∧
      (∀ other ∈ earlier, Nowhere other text) ∧ text = before ++ (intro ++ id ++ after) ∧
      intro ∈ intros ∧ IsId id ∧ First intros before (intro ++ id ++ after) ∧
      search text = some found ∧ found.group 1 = id ∧ found.last = (before ++ intro ++ id).length) ∨
      (∀ intros ∈ forms, Nowhere intros text) ∧
        ((∃ id found, IsBare text id ∧ search text = some found ∧ found.group 1 = id ∧
          found.last = id.length) ∨ (¬∃ id, IsBare text id) ∧ search text = none) := by
  rcases first_form_cases forms text with
    ⟨earlier, intros, later, hforms, hearlier, hsome⟩ | hnowhere
  · obtain ⟨rs, hpatterns, hrel⟩ := introduces_patterns
    obtain ⟨r, found, hr, hfind, hfound⟩ := findSome?_of_first (hforms ▸ hrel) hearlier hsome
    have hsearch : search text = some found := by
      rw [search, hpatterns, List.findSome?_append, hfound, Option.some_or]
    obtain ⟨before, intro, id, after, htext, hintro, hid, hfirst, hgroup, hlast⟩ :=
      hr.find_cases hfind
    exact Or.inl ⟨earlier, intros, later, before, intro, id, after, found, hforms, hearlier, htext,
      hintro, hid, hfirst, hsearch, hgroup, hlast⟩
  · rw [search_of_nowhere hnowhere]
    exact Or.inr ⟨hnowhere, find_bare_cases text⟩

-- The returned id is the one that was matched, and it is not cut out of a longer run.
def ReturnsWholeId (input : Str) : Prop :=
  ∀ id, parse input = .ok id → IsId id ∧ ∃ found before after, search (trim input) = some found ∧
    trim input = before ++ id ++ after ∧ found.last = (before ++ id).length ∧
    ∀ c, after.head? = some c → ¬isIdChar c

-- The leftmost id of the first form that occurs goes on after its 11 characters.
def CutsRun (text : Str) : Prop :=
  ∃ earlier intros later before intro id c after, forms = earlier ++ intros :: later ∧
    (∀ other ∈ earlier, Nowhere other text) ∧ text = before ++ (intro ++ id ++ c :: after) ∧
    intro ∈ intros ∧ IsId id ∧ First intros before (intro ++ id ++ c :: after) ∧ isIdChar c

theorem atEnd_head {after : Str} (h : Regex.atEnd after) :
    ∀ c, after.head? = some c → ¬isIdChar c := by
  simp only [Regex.atEnd, Bool.or_eq_true, beq_iff_eq] at h
  rcases h with (((((rfl | rfl) | rfl) | rfl) | rfl) | rfl) | rfl
  all_goals simp [isIdChar, Regex.isAlphanumeric, Regex.isLetter, Regex.isDigit]

theorem parse_of_search {input : Str} {found : Regex.Match} (h : search (trim input) = some found) :
    parse input = .ok (found.group 1) := by rw [parse_eq, h]

theorem search_of_parse {input id : Str} (h : parse input = .ok id) :
    ∃ found, search (trim input) = some found ∧ found.group 1 = id := by
  rw [parse_eq] at h
  cases hsearch : search (trim input) with
  | none => simp [hsearch] at h
  | some found =>
      rw [hsearch] at h
      exact ⟨found, rfl, Except.ok.inj h⟩

-- An id is returned whole unless the place that decides holds a longer run.
theorem parse_wholeId_iff (input : Str) : ReturnsWholeId input ↔ ¬CutsRun (trim input) := by
  constructor
  · rintro hwhole ⟨earlier, intros, later, before, intro, id, c, after, hforms, hearlier, htext,
      hintro, hid, hfirst, hc⟩
    rw [htext] at hearlier
    obtain ⟨found, hsearch, hgroup, hlast⟩ := search_of_first hforms hearlier hintro hid hfirst
    rw [← htext] at hsearch
    have hparse : parse input = .ok id := hgroup ▸ parse_of_search hsearch
    obtain ⟨-, found', before', after', hsearch', htext', hlast', hafter⟩ := hwhole id hparse
    obtain rfl := Option.some.inj (hsearch.symm.trans hsearch')
    have hsplit : before ++ intro ++ id ++ c :: after = before' ++ id ++ after' := by
      rw [← htext', htext]
      simp only [List.append_assoc]
    obtain ⟨-, rfl⟩ := List.append_inj hsplit (hlast.symm.trans hlast')
    exact hafter c rfl hc
  · intro hnot id hparse
    obtain ⟨found, hsearch, rfl⟩ := search_of_parse hparse
    rcases search_cases (trim input) with
      ⟨earlier, intros, later, before, intro, id, after, found', hforms,
      hearlier, htext, hintro, hid, hfirst, hsearch', rfl, hlast⟩ | ⟨-,
        ⟨id, found', hbare, hsearch', rfl, hlast⟩ |
      ⟨-, hsearch'⟩⟩
    · obtain rfl := Option.some.inj (hsearch.symm.trans hsearch')
      refine ⟨hid, found, before ++ intro, after,
        hsearch, by rw [htext]; simp only [List.append_assoc], hlast, ?_⟩
      intro c hc hidChar
      obtain ⟨more, rfl⟩ := List.head?_eq_some_iff.mp hc
      exact hnot ⟨earlier, intros, later, before, intro, _, c, more, hforms, hearlier, htext,
        hintro, hid, hfirst, hidChar⟩
    · obtain rfl := Option.some.inj (hsearch.symm.trans hsearch')
      obtain ⟨hid, after, htext, hend⟩ := hbare
      exact ⟨hid, found, [], after, hsearch, htext, hlast, atEnd_head hend⟩
    · rw [hsearch] at hsearch'
      cases hsearch'

-- A value of twelve characters names another video.
theorem parse_cuts_run : parse (str "?v=dQw4w9WgXcQQ") = .ok (str "dQw4w9WgXcQ") ∧
    ¬ReturnsWholeId (str "?v=dQw4w9WgXcQQ") := by
  have hparse : parse (str "?v=dQw4w9WgXcQQ") = .ok (str "dQw4w9WgXcQ") := by decide
  refine ⟨hparse, fun hwhole => ?_⟩
  obtain ⟨-, found, before, after, hsearch, htext, hlast, hafter⟩ := hwhole _ hparse
  have hfourteen : (search (trim (str "?v=dQw4w9WgXcQQ"))).map (·.last) = some 14 := by decide
  rw [hsearch, Option.map_some, Option.some.injEq, hlast] at hfourteen
  have hafter' : after = (trim (str "?v=dQw4w9WgXcQQ")).drop 14 := by
    rw [htext, ← hfourteen, List.drop_left]
  rw [hafter'] at hafter
  exact hafter 'Q' (by decide) (by decide)

-- An absolute URL whose host is none of YouTube.
structure ForeignUrl where
  scheme : Str
  userInfo : Str
  host : Str
  port : Str
  rest : Str
  isHttp : lowercase scheme = str "http" ∨ lowercase scheme = str "https"
  userInfo_end : userInfo = [] ∨ userInfo.getLast? = some '@'
  authority : ∀ c ∈ userInfo ++ host, c ∉ str "/?#"
  host_nonempty : host ≠ []
  host_chars : '@' ∉ host ∧ (':' ∈ host → host.head? = some '[')
  port_digits : port = [] ∨ ∃ digits, port = ':' :: digits ∧ ∀ c ∈ digits, Regex.isDigit c
  rest_start : rest = [] ∨ ∃ c ∈ str "/?#", rest.head? = some c
  foreign : lowercase host ≠ str "youtu.be" ∧ lowercase host ≠ str "youtube.com" ∧
    ¬str ".youtube.com" <:+ lowercase host ∧ ¬str ".youtube-nocookie.com" <:+ lowercase host

def ForeignUrl.text (url : ForeignUrl) : Str :=
  url.scheme ++ str "://" ++ url.userInfo ++ url.host ++ url.port ++ url.rest

theorem not_isBare_of_colon {text : Str} (hm : ':' ∈ text) : ¬∃ id, IsBare text id := by
  rintro ⟨id, hid, after, rfl, hafter⟩
  rcases List.mem_append.mp hm with hm | hm
  · exact absurd (hid.2 ':' hm) (by decide)
  · simp only [Regex.atEnd, Bool.or_eq_true, beq_iff_eq] at hafter
    rcases hafter with (((((rfl | rfl) | rfl) | rfl) | rfl) | rfl) | rfl
    all_goals simp at hm

-- A URL of another host is refused unless one of the forms occurs somewhere in it.
theorem parse_foreign_iff (url : ForeignUrl) :
    parse url.text = .error (YTDLPError.invalidUrl (trim url.text)) ↔
      ∀ intros ∈ forms, Nowhere intros (trim url.text) := by
  have hcolon : ':' ∈ trim url.text := mem_trim (by simp [ForeignUrl.text, str]) (by decide)
  have hbare := not_isBare_of_colon hcolon
  rw [parse_eq]
  rcases search_cases (trim url.text) with
    ⟨earlier, intros, later, before, intro, id, after, found, hforms, -,
    htext, -, -, hfirst, hsearch, -, -⟩ | ⟨hnowhere, ⟨id, found, hid, -⟩ | ⟨-, hsearch⟩⟩
  · rw [hsearch]
    refine iff_of_false (by simp) fun hnowhere => ?_
    have hm : intros ∈ forms := by
      rw [hforms]
      simp
    exact (htext ▸ hfirst.not_nowhere) (hnowhere intros hm)
  · exact absurd ⟨id, hid⟩ hbare
  · rw [hsearch]
    exact iff_of_true rfl hnowhere

-- A page of another site, with a parameter v.
def vimeo : ForeignUrl where
  scheme := str "https"
  userInfo := []
  host := str "vimeo.com"
  port := []
  rest := str "/watch?v=dQw4w9WgXcQ"
  isHttp := by decide
  userInfo_end := by decide
  authority := by simp [str]
  host_nonempty := by decide
  host_chars := by decide
  port_digits := Or.inl rfl
  rest_start := Or.inr ⟨'/', by decide, by decide⟩
  foreign := by decide

theorem parse_foreign_parameter : parse vimeo.text = .ok (str "dQw4w9WgXcQ") ∧
    parse vimeo.text ≠ .error (YTDLPError.invalidUrl (trim vimeo.text)) := by
  have hparse : parse vimeo.text = .ok (str "dQw4w9WgXcQ") := by decide
  exact ⟨hparse, by simp [hparse]⟩

end VideoIdParser

end Ytdlpdroid
