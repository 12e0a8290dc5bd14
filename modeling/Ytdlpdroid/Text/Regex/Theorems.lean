import Ytdlpdroid.Text.Regex.Language

namespace Ytdlpdroid.Text.Regex

-- What every group of an expression captures, wherever it matches.
def Captures (P : Str → Prop) : Regex → Prop
  | .group _ inner =>
      inner.Captures P ∧ ∀ cursor, ∀ last ∈ inner.ends cursor,
        P (cursor.rest.take (last.offset - cursor.offset))
  | .seq first second | .alt first second => first.Captures P ∧ second.Captures P
  | _ => True

theorem captures_literal (P : Str → Prop) (text : Str) : (literal text).Captures P := by
  induction text with
  | nil => exact trivial
  | cons c rest ih => exact ⟨trivial, ih⟩

-- A repeated character class can end where all characters passed are in the class.
theorem ends_many {p : Char → Bool} {least : Nat} {most : Option Nat} {cursor last : Cursor}
    (hm : last ∈ (many p least most).ends cursor) :
    ∃ count, last = cursor.advance count ∧ ∀ c ∈ cursor.rest.take count, p c := by
  obtain ⟨count, rfl, -, hcount, -⟩ := mem_ends_many.mp hm
  exact ⟨count, rfl, (le_length_takeWhile_iff.mp hcount).2⟩

theorem captures_group_many {P : Str → Prop} {p : Char → Bool}
    (h : ∀ text : Str, (∀ c ∈ text, p c) → P text) (index least : Nat) (most : Option Nat) :
    (group index (many p least most)).Captures P := by
  refine ⟨trivial, fun cursor last hm => ?_⟩
  obtain ⟨count, rfl, hall⟩ := ends_many hm
  rw [Cursor.advance, Nat.add_sub_cancel_left]
  exact h _ hall

theorem ends_groups {P : Str → Prop} {r : Regex} (hr : r.Captures P) {cursor last : Cursor}
    (h : ∀ found ∈ cursor.groups, P found.2) (hm : last ∈ r.ends cursor) :
    ∀ found ∈ last.groups, P found.2 := by
  induction r generalizing cursor last with
  | empty => rwa [List.mem_singleton.mp hm]
  | chars p =>
      simp only [ends] at hm
      split at hm
      · simp at hm
      · split_ifs at hm
        · rwa [List.mem_singleton.mp hm]
        · simp at hm
  | many p least most =>
      obtain ⟨count, rfl, -⟩ := ends_many hm
      exact h
  | seq first second ihfirst ihsecond =>
      obtain ⟨middle, hmiddle, hlast⟩ := List.mem_flatMap.mp hm
      exact ihsecond hr.2 (ihfirst hr.1 h hmiddle) hlast
  | alt first second ihfirst ihsecond =>
      rcases List.mem_append.mp hm with hm | hm
      · exact ihfirst hr.1 h hm
      · exact ihsecond hr.2 h hm
  | group index inner ih =>
      obtain ⟨inside, hinside, rfl⟩ := List.mem_map.mp hm
      exact List.forall_mem_cons.mpr ⟨hr.2 cursor inside hinside, ih hr.1 h hinside⟩
  | start =>
      simp only [ends] at hm
      split_ifs at hm
      · rwa [List.mem_singleton.mp hm]
      · simp at hm
  | finish =>
      simp only [ends] at hm
      split_ifs at hm
      · rwa [List.mem_singleton.mp hm]
      · simp at hm

-- A match that is found starts here, or is found from the next character on.
theorem findFrom_cases {r : Regex} {offset : Nat} {rest : Str} {found : Match}
    (h : r.findFrom offset rest = some found) :
    (∃ last ∈ r.ends ⟨offset, rest, []⟩, found = ⟨offset, last.offset, last.groups⟩) ∨
      ∃ c tail, rest = c :: tail ∧ r.findFrom (offset + 1) tail = some found := by
  rw [findFrom.eq_def] at h
  cases hends : r.ends ⟨offset, rest, []⟩ with
  | cons last others =>
      rw [hends] at h
      exact .inl ⟨last, List.mem_cons_self, (Option.some.inj h).symm⟩
  | nil =>
      rw [hends] at h
      cases rest with
      | nil => simp at h
      | cons c tail => exact .inr ⟨c, tail, rfl, h⟩

theorem findFrom_groups {P : Str → Prop} {r : Regex} (hr : r.Captures P) {offset : Nat} {rest : Str}
    {found : Match} (h : r.findFrom offset rest = some found) :
    ∀ group ∈ found.groups, P group.2 := by
  induction rest generalizing offset with
  | nil =>
      rcases findFrom_cases h with ⟨last, hm, rfl⟩ | ⟨c, tail, he, -⟩
      · exact ends_groups hr (by simp) hm
      · simp at he
  | cons c rest ih =>
      rcases findFrom_cases h with ⟨last, hm, rfl⟩ | ⟨d, tail, he, hnext⟩
      · exact ends_groups hr (by simp) hm
      · obtain ⟨rfl, rfl⟩ := List.cons.inj he
        exact ih hnext

-- A group that took no part in the match is empty.
theorem findGroup_captures {P : Str → Prop} (hempty : P []) {r : Regex} (hr : r.Captures P)
    {text : Str} {index : Nat} {found : Str}
    (h : r.findGroup text index = some found) : P found := by
  obtain ⟨whole, hfind, rfl⟩ := Option.map_eq_some_iff.mp h
  rw [Match.group]
  cases hl : whole.groups.lookup index with
  | none => exact hempty
  | some captured =>
      obtain ⟨before, after, he, -⟩ := List.lookup_eq_some_iff.mp hl
      exact findFrom_groups hr hfind (index, captured)
        (he ▸ List.mem_append_right before List.mem_cons_self)

end Ytdlpdroid.Text.Regex
