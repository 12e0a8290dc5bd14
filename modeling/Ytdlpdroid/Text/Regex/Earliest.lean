import Ytdlpdroid.Text.Regex.Groups

namespace Ytdlpdroid.Text

-- What stands at the first of all places of the text where something stands.
def Earliest (Stands : Str → Str → Prop) (text found : Str) : Prop :=
  ∃ before rest, text = before ++ rest ∧ Stands rest found ∧
    ∀ other more another, text = other ++ more → Stands more another → before.length ≤ other.length

-- What stands at its first place, of the first kind of which anything stands in the text.
def FirstOf (kinds : List (Str → Str → Prop)) (text found : Str) : Prop :=
  ∃ earlier Stands later, kinds = earlier ++ Stands :: later ∧ Earliest Stands text found ∧
    ∀ Other ∈ earlier, ∀ before rest another, text = before ++ rest → ¬Other rest another

namespace Regex

-- The expression matches where something of the kind stands, and its group then holds it.
structure Locates (r : Regex) (index : Nat) (Stands : Str → Str → Prop) : Prop where
  anchorFree : r.AnchorFree
  matchesAt : ∀ rest, r.MatchesAt rest ↔ ∃ captured, Stands rest captured
  findGroup : ∀ before rest captured, r.Leftmost before rest → Stands rest captured →
    r.findGroup (before ++ rest) index = some captured

section

variable {r : Regex} {index : Nat} {Stands : Str → Str → Prop} {text captured : Str}

theorem Locates.eq_some_iff (hr : r.Locates index Stands) :
    r.findGroup text index = some captured ↔ Earliest Stands text captured := by
  constructor
  · intro h
    obtain ⟨found, hfind, -⟩ := Option.map_eq_some_iff.mp h
    obtain ⟨before, matched, after, rfl, hleft, -, -, -⟩ := find_matches hr.anchorFree hfind
    obtain ⟨first, hfirst⟩ := (hr.matchesAt _).mp hleft.1
    obtain rfl := Option.some.inj (h.symm.trans (hr.findGroup _ _ _ hleft hfirst))
    refine ⟨before, matched ++ after, rfl, hfirst, fun other more another he hstands => ?_⟩
    exact hleft.2 other more he.symm ((hr.matchesAt _).mpr ⟨another, hstands⟩)
  · rintro ⟨before, rest, rfl, hcaptured, hfirst⟩
    refine hr.findGroup _ _ _ ⟨(hr.matchesAt _).mpr ⟨captured, hcaptured⟩,
      fun other more he hmatches => ?_⟩ hcaptured
    obtain ⟨another, hanother⟩ := (hr.matchesAt _).mp hmatches
    exact hfirst other more another he.symm hanother

theorem Locates.eq_none_iff (hr : r.Locates index Stands) :
    r.findGroup text index = none ↔ ∀ before rest captured, text = before ++ rest →
      ¬Stands rest captured := by
  rw [Regex.findGroup, Option.map_eq_none_iff, find_eq_none_iff hr.anchorFree]
  constructor
  · exact fun h before rest captured he hstands =>
      h before rest he ((hr.matchesAt _).mpr ⟨captured, hstands⟩)
  · intro h before rest he hmatches
    obtain ⟨captured, hstands⟩ := (hr.matchesAt _).mp hmatches
    exact h before rest captured he hstands

end

-- Expressions that are tried in turn find what stands of the first kind.
theorem findSome?_eq_some_iff {patterns : List Regex} {kinds : List (Str → Str → Prop)}
    {index : Nat} {text found : Str}
    (h : List.Forall₂ (fun r Stands => r.Locates index Stands) patterns kinds) :
    (patterns.findSome? fun r => r.findGroup text index) = some found ↔
      FirstOf kinds text found := by
  induction h with
  | nil => exact iff_of_false (by simp) fun ⟨earlier, Stands, later, he, _⟩ => by simp at he
  | @cons r Stands patterns kinds hr _ ih =>
      rw [List.findSome?_cons]
      cases hfound : r.findGroup text index with
      | some first =>
          have hfirst := hr.eq_some_iff.mp hfound
          constructor
          · rintro ⟨⟩
            exact ⟨[], Stands, kinds, rfl, hfirst, by simp⟩
          · rintro ⟨earlier, Other, later, he, hearliest, hnone⟩
            cases earlier with
            | nil =>
                obtain ⟨rfl, -⟩ := List.cons.inj he
                exact hfound.symm.trans (hr.eq_some_iff.mpr hearliest)
            | cons other earlier =>
                obtain ⟨rfl, -⟩ := List.cons.inj he
                obtain ⟨before, rest, rfl, hstands, -⟩ := hfirst
                exact absurd hstands (hnone Stands List.mem_cons_self before rest first rfl)
      | none =>
          have hnone := hr.eq_none_iff.mp hfound
          refine ih.trans ⟨?_, ?_⟩
          · rintro ⟨earlier, Other, later, rfl, hearliest, hothers⟩
            exact ⟨Stands :: earlier, Other, later, rfl, hearliest,
              List.forall_mem_cons.mpr ⟨hnone, hothers⟩⟩
          · rintro ⟨earlier, Other, later, he, hearliest, hothers⟩
            cases earlier with
            | nil =>
                obtain ⟨rfl, -⟩ := List.cons.inj he
                obtain ⟨before, rest, htext, hstands, -⟩ := hearliest
                exact absurd hstands (hnone before rest found htext)
            | cons other earlier =>
                obtain ⟨rfl, hrest⟩ := List.cons.inj he
                exact ⟨earlier, Other, later, hrest, hearliest, (List.forall_mem_cons.mp hothers).2⟩

-- A group between other expressions.
def around (before : List Regex) (index : Nat) (inner : Regex) (after : List Regex) : Regex :=
  sequence (before ++ group index inner :: after)

-- The text is made of texts of these expressions, one after the other.
def Texts : List Regex → Str → Prop
  | [], text => text = []
  | r :: rest, text => ∃ left right, text = left ++ right ∧ r.Denotes left ∧ Texts rest right

-- The text begins with a text of the group between texts of the other expressions.
def Around (before : List Regex) (inner : Regex) (after : List Regex)
    (rest captured : Str) : Prop :=
  ∃ left right more, rest = left ++ (captured ++ (right ++ more)) ∧ Texts before left ∧
    inner.Denotes captured ∧ Texts after right

-- Neither anchors nor groups.
def Plain (r : Regex) : Prop := r.AnchorFree ∧ r.GroupFree

section

variable {r inner : Regex} {rs before after : List Regex} {index : Nat} {text rest captured : Str}
  {groups : List (Nat × Str)} {p : Char → Bool}

theorem plain_literal (expected : Str) : (literal expected).Plain :=
  ⟨anchorFree_literal _, groupFree_literal _⟩

theorem plain_chars (p : Char → Bool) : (chars p).Plain := ⟨trivial, trivial⟩

theorem plain_many (p : Char → Bool) (least : Nat) (most : Option Nat) :
    (many p least most).Plain := ⟨trivial, trivial⟩

theorem sequence_cons (r : Regex) (hrs : rs ≠ []) : sequence (r :: rs) = seq r (sequence rs) := by
  cases rs with
  | nil => exact absurd rfl hrs
  | cons next rs => rfl

theorem texts_singleton : Texts [r] text ↔ r.Denotes text := by
  constructor
  · rintro ⟨left, right, rfl, hleft, rfl⟩
    rwa [List.append_nil]
  · exact fun h => ⟨text, [], (List.append_nil text).symm, h, rfl⟩

theorem texts_nil : Texts [] text ↔ text = [] := Iff.rfl

theorem texts_literal {expected : Str} :
    Texts (literal expected :: rs) text ↔ ∃ right, text = expected ++ right ∧ Texts rs right := by
  simp only [Texts, denotes_literal]
  constructor
  · rintro ⟨_, right, rfl, rfl, hright⟩
    exact ⟨right, rfl, hright⟩
  · rintro ⟨right, rfl, hright⟩
    exact ⟨expected, right, rfl, rfl, hright⟩

theorem texts_spaces : Texts (spaces :: rs) text ↔
    ∃ left right, text = left ++ right ∧ (∀ c ∈ left, isSpace c) ∧ Texts rs right := by
  simp only [Texts, denotes_spaces]

theorem texts_spaces1 : Texts (spaces1 :: rs) text ↔
    ∃ left right, text = left ++ right ∧ (left ≠ [] ∧ ∀ c ∈ left, isSpace c) ∧ Texts rs right := by
  simp only [Texts, denotes_spaces1]

theorem texts_chars : Texts (chars p :: rs) text ↔ ∃ c right, text = c :: right ∧ p c ∧
    Texts rs right := by
  simp only [Texts, Denotes]
  constructor
  · rintro ⟨_, right, rfl, ⟨c, hc, rfl⟩, hright⟩
    exact ⟨c, right, rfl, hc, hright⟩
  · rintro ⟨c, right, rfl, hc, hright⟩
    exact ⟨[c], right, rfl, ⟨c, hc, rfl⟩, hright⟩

-- At least one character of the kind.
theorem denotes_atLeast {least : Nat} :
    (many p least none).Denotes text ↔ (∀ c ∈ text, p c) ∧ least ≤ text.length := by simp [Denotes]

theorem denotes_between {least most : Nat} : (many p least (some most)).Denotes text ↔
    (∀ c ∈ text, p c) ∧ least ≤ text.length ∧ text.length ≤ most := by simp [Denotes]

theorem texts_many1 : Texts (many p 1 none :: rs) text ↔
    ∃ left right, text = left ++ right ∧ (left ≠ [] ∧ ∀ c ∈ left, p c) ∧ Texts rs right := by
  simp [Texts, Denotes, Nat.one_le_iff_ne_zero, and_comm]

theorem denotes_sequence : (sequence rs).Denotes text ↔ Texts rs text := by
  induction rs generalizing text with
  | nil => exact Iff.rfl
  | cons r rs ih =>
      by_cases hrs : rs = []
      · rw [hrs, texts_singleton, sequence]
      · rw [sequence_cons r hrs]
        simp only [Denotes, Texts, ih]

theorem plain_sequence (h : ∀ r ∈ rs, r.Plain) : (sequence rs).Plain := by
  induction rs with
  | nil => exact ⟨trivial, trivial⟩
  | cons r rs ih =>
      obtain ⟨hr, hrest⟩ := List.forall_mem_cons.mp h
      by_cases hrs : rs = []
      · rwa [hrs, sequence]
      · rw [sequence_cons r hrs]
        exact ⟨⟨hr.1, (ih hrest).1⟩, hr.2, (ih hrest).2⟩

theorem anchorFree_around (hbefore : ∀ r ∈ before, r.Plain) (hinner : inner.Plain)
    (hafter : ∀ r ∈ after, r.Plain) :
    (around before index inner after).AnchorFree := by
  induction before with
  | nil =>
      by_cases hnil : after = []
      · rw [hnil]
        exact hinner.1
      · rw [around, List.nil_append, sequence_cons _ hnil]
        exact ⟨hinner.1, (plain_sequence hafter).1⟩
  | cons r before ih =>
      obtain ⟨hr, hrest⟩ := List.forall_mem_cons.mp hbefore
      rw [around, List.cons_append, sequence_cons r (by simp)]
      exact ⟨hr.1, ih hrest⟩

theorem matches_around (hbefore : ∀ r ∈ before, r.Plain) (hinner : inner.Plain)
    (hafter : ∀ r ∈ after, r.Plain) :
    (around before index inner after).Matches text groups ↔
      ∃ left captured right, text = left ++ (captured ++ right) ∧ Texts before left ∧
        inner.Denotes captured ∧ Texts after right ∧ groups = [(index, captured)] := by
  induction before generalizing text with
  | nil =>
      by_cases hnil : after = []
      · subst hnil
        simp only [around, List.nil_append, sequence, matches_group_iff hinner.2, Texts]
        constructor
        · rintro ⟨hdenotes, rfl⟩
          exact ⟨[], text, [], by simp, rfl, hdenotes, rfl, rfl⟩
        · rintro ⟨_, captured, _, rfl, rfl, hdenotes, rfl, rfl⟩
          rw [List.nil_append, List.append_nil]
          exact ⟨hdenotes, rfl⟩
      · rw [around, List.nil_append, sequence_cons _ hnil,
          matches_seq_iff_left (plain_sequence hafter).2]
        constructor
        · rintro ⟨captured, right, rfl, hcaptured, hright⟩
          obtain ⟨hdenotes, rfl⟩ := (matches_group_iff hinner.2).mp hcaptured
          exact ⟨[], captured, right, rfl, rfl, hdenotes, denotes_sequence.mp hright, rfl⟩
        · rintro ⟨_, captured, right, rfl, rfl, hdenotes, hright, rfl⟩
          exact ⟨captured, right, rfl, (matches_group_iff hinner.2).mpr ⟨hdenotes, rfl⟩,
            denotes_sequence.mpr hright⟩
  | cons r before ih =>
      obtain ⟨hr, hrest⟩ := List.forall_mem_cons.mp hbefore
      rw [around, List.cons_append, sequence_cons r (by simp), matches_seq_iff_right hr.2]
      constructor
      · rintro ⟨first, _, rfl, hfirst, h⟩
        obtain ⟨left, captured, right, rfl, hleft, hinner, hright, rfl⟩ := (ih hrest).mp h
        exact ⟨first ++ left, captured,
          right, by simp, ⟨first, left, rfl, hfirst, hleft⟩, hinner, hright, rfl⟩
      · rintro ⟨_, captured, right, rfl, ⟨first, left, rfl, hfirst, hleft⟩, hinner, hright, rfl⟩
        refine ⟨first, left ++ (captured ++ right), by simp, hfirst, (ih hrest).mpr ?_⟩
        exact ⟨left, captured, right, rfl, hleft, hinner, hright, rfl⟩

-- Where the group can stand for one text only, that is what it holds.
theorem locates_around {Stands : Str → Str → Prop} (hbefore : ∀ r ∈ before, r.Plain)
    (hinner : inner.Plain) (hafter : ∀ r ∈ after, r.Plain)
    (hstands : ∀ rest captured, Around before inner after rest captured ↔ Stands rest captured)
    (hunique : ∀ rest captured other, Stands rest captured → Stands rest other → other = captured) :
    (around before index inner after).Locates index Stands where
  anchorFree := anchorFree_around hbefore hinner hafter
  matchesAt := by
    intro rest
    refine Iff.trans ?_ (exists_congr fun captured => hstands rest captured)
    constructor
    · rintro ⟨matched, ⟨more, rfl⟩, hdenotes⟩
      obtain ⟨groups, hmatches⟩ := exists_matches hdenotes
      obtain ⟨left, captured, right, rfl, hleft, hcaptured, hright, -⟩ :=
        (matches_around hbefore hinner hafter).mp hmatches
      exact ⟨captured, left, right, more, by simp, hleft, hcaptured, hright⟩
    · rintro ⟨captured, left, right, more, rfl, hleft, hcaptured, hright⟩
      refine ⟨left ++ (captured ++ right), ⟨more, by simp⟩,
        denotes_of_matches ((matches_around hbefore hinner
        hafter).mpr ⟨left, captured, right, rfl, hleft, hcaptured, hright, rfl⟩)⟩
  findGroup := by
    intro before' rest captured hleftmost h
    refine findGroup_of_leftmost (anchorFree_around hbefore hinner hafter) hleftmost
      fun matched groups hm hprefix => ?_
    obtain ⟨left, other, right, rfl, hleft, hother, hright, rfl⟩ :=
      (matches_around hbefore hinner hafter).mp hm
    obtain ⟨more, rfl⟩ := hprefix
    have hfound : Stands (left ++ (other ++ right) ++ more) other :=
      (hstands _ _).mp ⟨left, right, more, by simp, hleft, hother, hright⟩
    rw [List.lookup_cons_self, hunique _ _ _ h hfound]

-- A run ends where a character comes that is not of its kind.
theorem takeWhile_run {run tail : Str} (hrun : ∀ c ∈ run, p c)
    (htail : ∀ c, tail.head? = some c → p c = false) :
    (run ++ tail).takeWhile p = run := by
  rw [List.takeWhile_append_of_pos hrun]
  cases tail with
  | nil => exact List.append_nil run
  | cons c tail => rw [List.takeWhile_cons_of_neg (by simp [htail c rfl]), List.append_nil]

theorem run_unique {run other tail tail' : Str} (hrun : ∀ c ∈ run, p c) (hother : ∀ c ∈ other, p c)
    (htail : ∀ c, tail.head? = some c → p c = false)
    (htail' : ∀ c, tail'.head? = some c → p c = false) (he : run ++ tail = other ++ tail') :
    run = other ∧ tail = tail' := by
  have hsame : run = other := by rw [← takeWhile_run hrun htail, he, takeWhile_run hother htail']
  subst hsame
  exact ⟨rfl, List.append_cancel_left he⟩

end

end Regex

end Ytdlpdroid.Text
