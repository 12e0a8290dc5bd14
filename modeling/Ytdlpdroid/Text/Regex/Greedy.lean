import Ytdlpdroid.Text.Regex.Groups

namespace Ytdlpdroid.Text.Regex

-- Backtracking tries the longer matches from a place before the shorter ones.
def Greedy (r : Regex) : Prop := ∀ cursor, (r.ends cursor).Pairwise fun first second =>
    second.offset ≤ first.offset

-- There is one match from a place at most.
def Single (r : Regex) : Prop := ∀ cursor, (r.ends cursor).length ≤ 1

section

variable {r first second : Regex} {p : Char → Bool} {text rest : Str}

theorem single_chars (p : Char → Bool) : (chars p).Single := by
  intro cursor
  unfold ends
  cases cursor.rest with
  | nil => exact Nat.zero_le 1
  | cons c rest =>
      by_cases hc : p c
      · simp [hc]
      · simp [hc]

theorem Single.seq (hfirst : first.Single) (hsecond : second.Single) :
    (seq first second).Single := by
  intro cursor
  have hone := hfirst cursor
  rw [ends]
  cases hends : first.ends cursor with
  | nil => exact Nat.zero_le 1
  | cons last others =>
      have hnil : others = [] := by
        rw [hends, List.length_cons] at hone
        exact List.eq_nil_of_length_eq_zero (by omega)
      rw [hnil, List.flatMap_singleton]
      exact hsecond last

theorem single_literal (expected : Str) : (literal expected).Single := by
  induction expected with
  | nil => exact fun cursor => Nat.le_refl 1
  | cons c expected ih => exact (single_chars (· == c)).seq ih

theorem Single.greedy (h : r.Single) : r.Greedy := by
  intro cursor
  have hone := h cursor
  cases hends : r.ends cursor with
  | nil => exact List.Pairwise.nil
  | cons last others =>
      rw [hends, List.length_cons] at hone
      obtain rfl : others = [] := List.eq_nil_of_length_eq_zero (by omega)
      exact List.pairwise_singleton _ _

theorem Greedy.single_seq (hsecond : second.Greedy) (hfirst : first.Single) :
    (Regex.seq first second).Greedy := by
  intro cursor
  have hone := hfirst cursor
  rw [ends]
  cases hends : first.ends cursor with
  | nil => exact List.Pairwise.nil
  | cons last others =>
      rw [hends, List.length_cons] at hone
      obtain rfl : others = [] := List.eq_nil_of_length_eq_zero (by omega)
      rw [List.flatMap_singleton]
      exact hsecond last

theorem ends_literal {expected : Str} {cursor last : Cursor}
    (h : last ∈ (literal expected).ends cursor) :
    last.offset = cursor.offset + expected.length := by
  obtain ⟨text, groups, hmatches, -, hoffset, -⟩ :=
    (mem_ends_iff (anchorFree_literal expected)).mp h
  rw [hoffset, denotes_literal.mp (denotes_of_matches hmatches)]

-- The counts of a repetition, from the longest run down.
theorem pairwise_counts (p : Char → Bool) (least : Nat) (cursor : Cursor) :
    ∃ counts : List Nat, (many p least none).ends cursor = counts.map cursor.advance ∧
      (∀ count ∈ counts, count ≤ (cursor.rest.takeWhile p).length) ∧ counts.Pairwise (· > ·) := by
  refine ⟨_, rfl, fun count hm => ?_, List.pairwise_reverse.mpr List.pairwise_lt_range'⟩
  rw [List.mem_reverse, List.mem_range'_1] at hm
  dsimp only at hm
  omega

-- A repetition before an expression of a fixed length gives back as little as it can.
theorem greedy_many_seq_literal (p : Char → Bool) (least : Nat) (expected : Str) :
    (seq (many p least none) (literal expected)).Greedy := by
  intro cursor
  obtain ⟨counts, hends, -, hdown⟩ := pairwise_counts p least cursor
  rw [ends, hends, List.flatMap_map, List.pairwise_flatMap]
  refine ⟨fun count _ => (single_literal expected).greedy _, hdown.imp ?_⟩
  intro count fewer hlt last hlast other hother
  rw [ends_literal hlast, ends_literal hother, Cursor.advance, Cursor.advance]
  dsimp only
  omega

-- A repetition before an expression that begins with none of its characters takes all it can.
theorem Greedy.many_seq (hsecond : second.Greedy) (least : Nat)
    (hblocked : ∀ cursor : Cursor, ∀ c, cursor.rest.head? = some c → p c →
      second.ends cursor = []) :
    (seq (many p least none) second).Greedy := by
  intro cursor
  obtain ⟨counts, hends, hrun, hdown⟩ := pairwise_counts p least cursor
  rw [ends, hends, List.flatMap_map, List.pairwise_flatMap]
  refine ⟨fun count _ => hsecond _, hdown.imp_of_mem ?_⟩
  intro count fewer hcount _ hlt last hlast other hother
  have hinside : fewer < (cursor.rest.takeWhile p).length :=
    Nat.lt_of_lt_of_le hlt (hrun count hcount)
  obtain ⟨c, hc⟩ : ∃ c, (cursor.rest.takeWhile p)[fewer]? = some c :=
    ⟨_, List.getElem?_eq_getElem hinside⟩
  have hhead : (cursor.advance fewer).rest.head? = some c := by
    obtain ⟨more, hmore⟩ := List.takeWhile_prefix p (l := cursor.rest)
    rw [Cursor.advance, List.head?_drop, ← hmore, List.getElem?_append_left hinside, hc]
  rw [hblocked _ c hhead (List.mem_takeWhile_imp (List.mem_of_getElem? hc))] at hother
  cases hother

theorem Greedy.group (h : r.Greedy) (index : Nat) : (group index r).Greedy := by
  intro cursor
  rw [ends, List.pairwise_map]
  exact h cursor

-- A greedy group captures the longest match from the leftmost place where there is one.
theorem findGroup_longest (hr : r.AnchorFree) (hfree : r.GroupFree) (hgreedy : r.Greedy)
    {index : Nat} {captured : Str} (h : (group index r).findGroup text index = some captured) :
    ∃ before rest, text = before ++ rest ∧ r.Leftmost before rest ∧ captured <+: rest ∧
      r.Denotes captured ∧ ∀ other, other <+: rest → r.Denotes other →
        other.length ≤ captured.length := by
  have hanchor : (Regex.group index r).AnchorFree := hr
  obtain ⟨found, hfind, -⟩ := Option.map_eq_some_iff.mp h
  obtain ⟨before, matched, after, rfl, hleft, -, -, -⟩ := find_matches hanchor hfind
  obtain ⟨last, others, hends⟩ :=
    List.exists_cons_of_ne_nil ((matchesAt_iff hanchor before.length).mp hleft.1)
  have hhead : ((Regex.group index r).ends ⟨before.length, matched ++ after, []⟩).head? =
      some last := by
    rw [hends]
    rfl
  have hlast : last ∈ (Regex.group index r).ends ⟨before.length, matched ++ after, []⟩ :=
    List.mem_of_head? hhead
  obtain ⟨text, groups, hmatches, hrest, hoffset, hgroups⟩ := (mem_ends_iff hanchor).mp hlast
  obtain ⟨hdenotes, rfl⟩ := (matches_group_iff hfree).mp hmatches
  have hcaptured : captured = text := by
    rw [hleft.findGroup_eq hanchor hhead, hgroups] at h
    simpa using h.symm
  refine ⟨before, matched ++ after, rfl, hleft, ?_, hcaptured ▸ hdenotes,
    fun other hother hdenotes => ?_⟩
  · rw [hcaptured]
    exact ⟨last.rest, hrest.symm⟩
  · obtain ⟨more, hmore⟩ := hother
    have hend : (⟨before.length + other.length, more, [(index, other)]⟩ : Cursor) ∈
        (Regex.group index r).ends ⟨before.length, matched ++ after, []⟩ :=
      (mem_ends_iff hanchor).mpr
        ⟨other, [(index, other)], (matches_group_iff hfree).mpr ⟨hdenotes, rfl⟩, hmore.symm,
        rfl, rfl⟩
    have hpairwise := hgreedy.group index ⟨before.length, matched ++ after, []⟩
    rw [hends] at hend hpairwise
    have hle : before.length + other.length ≤ last.offset := by
      rcases List.mem_cons.mp hend with rfl | hm
      · exact Nat.le_refl _
      · exact List.rel_of_pairwise_cons hpairwise hm
    dsimp only at hoffset
    rw [hcaptured]
    omega

end

end Ytdlpdroid.Text.Regex
