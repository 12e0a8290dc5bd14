import Ytdlpdroid.Decipher.SignatureDecipherer
import Ytdlpdroid.Text.Regex.Groups

namespace Ytdlpdroid

open Text

namespace SignatureDecipherer

def IsName (name : Str) : Prop := ∀ c ∈ name, isNameChar c

-- ([a-zA-Z0-9$]{2,4})
def IsHelperName (name : Str) : Prop := IsName name ∧ 2 ≤ name.length ∧ name.length ≤ 4

-- [a-zA-Z0-9$]+\(
def IsMethodCall (text : Str) : Prop :=
  ∃ method after, text = method ++ '(' :: after ∧ method ≠ [] ∧ IsName method

-- A call on a name that the helper pattern takes, such that no other one starts before it.
def FirstCall (text name : Str) : Prop :=
  ∃ before after, text = before ++ (name ++ '.' :: after) ∧ IsHelperName name ∧ IsMethodCall after ∧
    ∀ other name' after', text = other ++ (name' ++ '.' :: after') → IsHelperName name' →
      IsMethodCall after' →
      before.length ≤ other.length

-- The name that the helper pattern can take from the end of a text: its last name characters,
-- four at most.
def calleeAt (text : Str) : Str := ((text.reverse.takeWhile isNameChar).take 4).reverse

section

variable {text name after rest : Str} {groups : List (Nat × Str)}

theorem IsName.not_mem (h : IsName name) {c : Char} (hc : isNameChar c = false) : c ∉ name := by
  intro hm
  rw [h c hm] at hc
  cases hc

theorem isNameChar_dot : isNameChar '.' = false := by decide

theorem isNameChar_parenthesis : isNameChar '(' = false := by decide

theorem helperPattern_anchorFree : helperPattern.AnchorFree := by
  simp [helperPattern, Regex.sequence, Regex.AnchorFree, Regex.anchorFree_literal]

theorem matches_helperPattern : helperPattern.Matches text groups ↔
    ∃ name method, text = name ++ '.' :: (method ++ ['(']) ∧ IsHelperName name ∧ method ≠ [] ∧
      IsName method ∧ groups = [(1, name)] := by
  have hfree :
      (Regex.sequence [.literal (str "."), .many isNameChar 1 none,
        .literal (str "(")]).GroupFree :=
    ⟨Regex.groupFree_literal _, trivial, Regex.groupFree_literal _⟩
  have hinner : (Regex.many isNameChar 2 (some 4)).GroupFree := trivial
  simp only [helperPattern, Regex.sequence] at hfree ⊢
  simp only [Regex.matches_seq_iff_left hfree, Regex.matches_group_iff hinner, Regex.Denotes,
    Regex.denotes_literal]
  constructor
  · rintro ⟨name, -, rfl, ⟨⟨hname, hleast, hmost⟩, rfl⟩, -, -, rfl, rfl, method, -, rfl,
      ⟨hmethod, hne, -⟩, rfl⟩
    exact ⟨name, method, rfl, ⟨hname, hleast, hmost 4 rfl⟩, List.ne_nil_of_length_pos hne,
      hmethod, rfl⟩
  · rintro ⟨name, method, rfl, ⟨hname, hleast, hmost⟩, hne, hmethod, rfl⟩
    refine ⟨name, _, rfl, ⟨⟨hname, hleast, ?_⟩, rfl⟩, str ".", _, rfl, rfl, method, str "(", rfl,
      ⟨hmethod, List.length_pos_of_ne_nil hne, by simp⟩, rfl⟩
    intro bound hbound
    rwa [← Option.some.inj hbound]

theorem matchesAt_helperPattern : helperPattern.MatchesAt rest ↔
    ∃ name after, rest = name ++ '.' :: after ∧ IsHelperName name ∧ IsMethodCall after := by
  constructor
  · rintro ⟨text, ⟨more, rfl⟩, htext⟩
    obtain ⟨groups, hgroups⟩ := Regex.exists_matches htext
    obtain ⟨name, method, rfl, hname, hne, hmethod, -⟩ := matches_helperPattern.mp hgroups
    exact ⟨name, method ++ '(' :: more, by simp, hname, method, more, rfl, hne, hmethod⟩
  · rintro ⟨name, -, rfl, hname, method, more, rfl, hne, hmethod⟩
    have hmatches := matches_helperPattern.mpr ⟨name, method, rfl, hname, hne, hmethod, rfl⟩
    exact ⟨_, ⟨more, by simp⟩, Regex.denotes_of_matches hmatches⟩

-- The pattern captures the name of the first call.
theorem findGroup_helperPattern_iff : helperPattern.findGroup text 1 = some name ↔
    FirstCall text name := by
  constructor
  · intro h
    obtain ⟨found, hfind, hgroup⟩ := Option.map_eq_some_iff.mp h
    obtain ⟨before, matched, after, rfl, hleft, hmatches, -, -⟩ :=
      Regex.find_matches helperPattern_anchorFree hfind
    obtain ⟨captured, method, rfl, hname, hne, hmethod, hgroups⟩ :=
      matches_helperPattern.mp hmatches
    obtain rfl : captured = name := by
      rw [Regex.Match.group, hgroups] at hgroup
      exact hgroup
    refine ⟨before, method ++ '(' :: after, by simp, hname, ⟨method, after, rfl, hne, hmethod⟩, ?_⟩
    intro other name' after' he hname' hcall
    exact hleft.2 other _ he.symm (matchesAt_helperPattern.mpr ⟨name', after', rfl, hname', hcall⟩)
  · rintro ⟨before, after, rfl, hname, hcall, hfirst⟩
    refine Regex.findGroup_of_leftmost helperPattern_anchorFree ⟨?_, ?_⟩ ?_
    · exact matchesAt_helperPattern.mpr ⟨name, after, rfl, hname, hcall⟩
    · intro other more he hmore
      obtain ⟨name', after', rfl, hname', hcall'⟩ := matchesAt_helperPattern.mp hmore
      exact hfirst other name' after' he.symm hname' hcall'
    · rintro matched groups hmatches ⟨more, hmore⟩
      obtain ⟨captured, method, rfl, hcaptured, -, -, rfl⟩ := matches_helperPattern.mp hmatches
      rw [List.append_assoc, List.cons_append] at hmore
      obtain ⟨rfl, -⟩ := split_before_unique (hcaptured.1.not_mem isNameChar_dot)
        (hname.1.not_mem isNameChar_dot) hmore
      rfl

theorem calleeAt_suffix (text : Str) : calleeAt text <:+ text := by
  rw [← List.reverse_prefix, calleeAt, List.reverse_reverse]
  exact (List.take_prefix ..).trans (List.takeWhile_prefix ..)

theorem calleeAt_name (text : Str) : IsName (calleeAt text) := by
  intro c hm
  exact List.mem_takeWhile_imp (List.mem_of_mem_take (List.mem_reverse.mp hm))

theorem length_calleeAt_le (text : Str) : (calleeAt text).length ≤ 4 := by
  rw [calleeAt, List.length_reverse]
  exact List.length_take_le ..

-- No helper name at the end of a text is longer.
theorem length_le_calleeAt (before : Str) (h : IsHelperName name) :
    name.length ≤ (calleeAt (before ++ name)).length := by
  have hrun : name.reverse ++ before.reverse.takeWhile isNameChar =
      (before ++ name).reverse.takeWhile isNameChar := by
    rw [List.reverse_append, List.takeWhile_append_of_pos fun c hm =>
      h.1 c (List.mem_reverse.mp hm)]
  rw [calleeAt, ← hrun, List.length_reverse, List.length_take, List.length_append,
    List.length_reverse]
  have hlength := h.2.2
  omega

-- What stands before a name does not matter if it cannot belong to the name.
theorem calleeAt_append {before : Str} (h : ∀ c, before.getLast? = some c → isNameChar c = false)
    (name : Str) :
    calleeAt (before ++ name) = calleeAt name := by
  have hstop : before.reverse.takeWhile isNameChar = [] := by
    cases hr : before.reverse with
    | nil => rfl
    | cons c rest =>
        have hlast : before.getLast? = some c := by rw [List.getLast?_eq_head?_reverse, hr]; rfl
        rw [List.takeWhile_cons_of_neg (by simp [h c hlast])]
  have hrun : (before ++ name).reverse.takeWhile isNameChar =
      name.reverse.takeWhile isNameChar := by
    rw [List.reverse_append, List.takeWhile_append, hstop, List.append_nil]
    split_ifs with hall
    · exact (List.Sublist.eq_of_length (List.takeWhile_sublist ..) hall).symm
    · rfl
  rw [calleeAt, calleeAt, hrun]

theorem calleeAt_eq_self_iff : calleeAt name = name ↔ IsName name ∧ name.length ≤ 4 := by
  constructor
  · intro h
    exact ⟨h ▸ calleeAt_name name, h ▸ length_calleeAt_le name⟩
  · rintro ⟨hname, hlength⟩
    have hall : name.reverse.takeWhile isNameChar = name.reverse :=
      List.takeWhile_eq_self_iff.mpr fun c hm => hname c (List.mem_reverse.mp hm)
    rw [calleeAt, hall, List.take_of_length_le (by rwa [List.length_reverse]), List.reverse_reverse]

theorem FirstCall.isHelperName (h : FirstCall text name) : IsHelperName name := by
  obtain ⟨-, -, -, hname, -⟩ := h
  exact hname

theorem FirstCall.unique {other : Str} (h : FirstCall text name) (hother : FirstCall text other) :
    name = other := by
  have hfound := findGroup_helperPattern_iff.mpr h
  rw [findGroup_helperPattern_iff.mpr hother] at hfound
  exact (Option.some.inj hfound).symm

section

variable {passed : Str}

-- A call starts before the first dot or after it.
theorem call_cases {before : Str} (hpassed : '.' ∉ passed) (hname : IsName name)
    (he : passed ++ '.' :: rest = before ++ (name ++ '.' :: after)) :
    (passed = before ++ name ∧ rest = after) ∨
      ∃ more, before = passed ++ '.' :: more ∧ rest = more ++ (name ++ '.' :: after) := by
  have hdot := hname.not_mem isNameChar_dot
  rcases List.append_eq_append_iff.mp he with ⟨more, rfl, hrest⟩ | ⟨more, rfl, hrest⟩
  · cases more with
    | nil =>
        rw [List.nil_append] at hrest
        cases name with
        | nil => exact Or.inl ⟨by simp, (List.cons.inj hrest).2⟩
        | cons c name =>
            obtain ⟨rfl, -⟩ := List.cons.inj hrest
            exact absurd List.mem_cons_self hdot
    | cons c more =>
        obtain ⟨rfl, htail⟩ := List.cons.inj hrest
        exact Or.inr ⟨more, rfl, htail⟩
  · have hmore : '.' ∉ more := fun hm => hpassed (List.mem_append_right before hm)
    obtain ⟨rfl, rfl⟩ := split_before_unique hdot hmore hrest
    exact Or.inl ⟨rfl, rfl⟩

theorem not_firstCall (h : '.' ∉ text) : ¬FirstCall text name := by
  rintro ⟨before, after, rfl, -⟩
  exact h (by simp)

-- A call at the first dot is the first call, on the longest name that the pattern can take.
theorem firstCall_here (hpassed : '.' ∉ passed) (hlength : 2 ≤ (calleeAt passed).length)
    (hcall : IsMethodCall rest) :
    FirstCall (passed ++ '.' :: rest) (calleeAt passed) := by
  obtain ⟨before, hbefore⟩ := calleeAt_suffix passed
  refine ⟨before, rest, by rw [← List.append_assoc, hbefore],
    ⟨calleeAt_name passed, hlength, length_calleeAt_le passed⟩, hcall, ?_⟩
  intro other name' after' he hname' _
  have hsplit := congrArg List.length hbefore
  rw [List.length_append] at hsplit
  rcases call_cases hpassed hname'.1 he with ⟨rfl, -⟩ | ⟨more, rfl, -⟩
  · have hle := length_le_calleeAt other hname'
    rw [List.length_append] at hsplit
    omega
  · rw [List.length_append]
    omega

-- Otherwise it is sought after the dot.
theorem firstCall_later (hpassed : '.' ∉ passed)
    (hnone : ¬(2 ≤ (calleeAt passed).length ∧ IsMethodCall rest)) :
    FirstCall (passed ++ '.' :: rest) name ↔ FirstCall rest name := by
  have hlater : ∀ before name' after, passed ++ '.' :: rest = before ++ (name' ++ '.' :: after) →
      IsHelperName name' → IsMethodCall after →
      ∃ more, before = passed ++ '.' :: more ∧ rest = more ++ (name' ++ '.' :: after) := by
    intro before name' after he hname' hcall
    rcases call_cases hpassed hname'.1 he with ⟨rfl, rfl⟩ | hmore
    · exact absurd ⟨le_trans hname'.2.1 (length_le_calleeAt before hname'), hcall⟩ hnone
    · exact hmore
  constructor
  · rintro ⟨before, after, he, hname, hcall, hfirst⟩
    obtain ⟨more, rfl, rfl⟩ := hlater before name after he hname hcall
    refine ⟨more, after, rfl, hname, hcall, fun other name' after' he' hname' hcall' => ?_⟩
    have hle := hfirst (passed ++ '.' :: other) name' after' (by rw [he']; simp) hname' hcall'
    simp only [List.length_append, List.length_cons] at hle
    omega
  · rintro ⟨before, after, rfl, hname, hcall, hfirst⟩
    refine ⟨passed ++ '.' :: before,
      after, by simp, hname, hcall, fun other name' after' he' hname' hcall' => ?_⟩
    obtain ⟨more, rfl, hrest⟩ := hlater other name' after' he' hname' hcall'
    have hle := hfirst more name' after' hrest hname' hcall'
    simp only [List.length_append, List.length_cons]
    omega

end

-- The name that the patterns of the call sites find.
def foundName (js : Str) : Option Str := sigFuncPatterns.findSome? fun pattern =>
    pattern.findGroup js 1

theorem captures_nameCall : nameCall.Captures IsName :=
  ⟨Regex.captures_group_many (fun _ h => h) .., Regex.captures_literal ..⟩

theorem foundName_isName {js : Str} (h : foundName js = some name) : IsName name := by
  obtain ⟨pattern, hm, hfound⟩ := List.exists_of_findSome?_eq_some h
  refine Regex.findGroup_captures (P := IsName) (fun c hc => absurd hc List.not_mem_nil) ?_ hfound
  simp only [sigFuncPatterns, List.mem_cons, List.not_mem_nil, or_false] at hm
  rcases hm with rfl | rfl | rfl
  · exact ⟨Regex.captures_literal .., captures_nameCall⟩
  · exact ⟨Regex.captures_literal .., trivial, Regex.captures_literal .., trivial,
      captures_nameCall⟩
  · exact ⟨Regex.captures_literal .., trivial, Regex.captures_literal .., trivial,
      captures_nameCall⟩

-- \.sig\|\|([a-zA-Z0-9$]+)\(
def sigCall : Regex := .sequence [.literal (str ".sig||"), nameCall]

theorem sigCall_anchorFree : sigCall.AnchorFree :=
  ⟨Regex.anchorFree_literal _, trivial, Regex.anchorFree_literal _⟩

theorem matches_sigCall : sigCall.Matches text groups ↔
    ∃ name, text = str ".sig||" ++ (name ++ ['(']) ∧ name ≠ [] ∧ IsName name ∧
      groups = [(1, name)] := by
  have hlead : (Regex.literal (str ".sig||")).GroupFree := Regex.groupFree_literal _
  have hclose : (Regex.literal (str "(")).GroupFree := Regex.groupFree_literal _
  have hinner : (Regex.many isNameChar 1 none).GroupFree := trivial
  simp only [sigCall, Regex.sequence, nameCall, Regex.matches_seq_iff_right hlead,
    Regex.matches_seq_iff_left hclose, Regex.matches_group_iff hinner, Regex.Denotes,
      Regex.denotes_literal]
  constructor
  · rintro ⟨-, -, rfl, rfl, name, -, rfl, ⟨⟨hname, hleast, -⟩, rfl⟩, rfl⟩
    exact ⟨name, rfl, List.ne_nil_of_length_pos hleast, hname, rfl⟩
  · rintro ⟨name, rfl, hne, hname, rfl⟩
    exact ⟨_, _, rfl, rfl, name, str "(", rfl,
      ⟨⟨hname, List.length_pos_of_ne_nil hne, by simp⟩, rfl⟩, rfl⟩

theorem matchesAt_sigCall (hne : name ≠ []) (hname : IsName name) :
    sigCall.MatchesAt (str ".sig||" ++ (name ++ '(' :: after)) :=
  ⟨str ".sig||" ++ (name ++ ['(']), ⟨after, by simp⟩,
    Regex.denotes_of_matches (matches_sigCall.mpr ⟨name, rfl, hne, hname, rfl⟩)⟩

-- The name that is called at the leftmost call site is found.
theorem foundName_iff {before : Str} (hleft : sigCall.Leftmost before rest) (hname : IsName name) :
    foundName (before ++ rest) = some name ↔
      ∃ after, rest = str ".sig||" ++ (name ++ '(' :: after) := by
  obtain ⟨text, ⟨more, rfl⟩, htext⟩ := hleft.1
  obtain ⟨groups, hgroups⟩ := Regex.exists_matches htext
  obtain ⟨called, rfl, hne, hcalled, -⟩ := matches_sigCall.mp hgroups
  have hgroup : sigCall.findGroup (before ++ (str ".sig||" ++ (called ++ ['(']) ++ more)) 1 =
      some called := by
    refine Regex.findGroup_of_leftmost sigCall_anchorFree hleft ?_
    rintro matched groups hmatches ⟨others, hothers⟩
    obtain ⟨other, rfl, -, hother, rfl⟩ := matches_sigCall.mp hmatches
    simp only [List.append_assoc, List.append_cancel_left_eq] at hothers
    obtain ⟨rfl, -⟩ := split_before_unique (hother.not_mem isNameChar_parenthesis)
      (hcalled.not_mem isNameChar_parenthesis) hothers
    rfl
  have hfirst : ∀ js, sigCall.findGroup js 1 = some called → foundName js = some called := by
    intro js hfound
    have hsome : (sigCall.findGroup js 1).isSome := by rw [hfound]; rfl
    exact (List.findSome?_cons_of_isSome (f := fun pattern : Regex => pattern.findGroup js 1)
      hsome).trans hfound
  rw [hfirst _ hgroup, Option.some.injEq]
  constructor
  · rintro rfl
    exact ⟨more, by simp⟩
  · rintro ⟨after, hafter⟩
    rw [List.append_assoc, List.append_cancel_left_eq, List.append_assoc] at hafter
    exact (split_before_unique (hcalled.not_mem isNameChar_parenthesis)
      (hname.not_mem isNameChar_parenthesis) hafter).1

end

end SignatureDecipherer

end Ytdlpdroid
