import Ytdlpdroid.Decipher.NParamDecipherer
import Ytdlpdroid.Decipher.PlayerJsRepository
import Ytdlpdroid.Model.Numbers.Theorems
import Ytdlpdroid.Text.Regex.Groups

namespace Ytdlpdroid

open Text

namespace PlayerJsRepository

def timestampKeys : List Str := [str "signatureTimestamp", str "sts"]

def isSign (c : Char) : Bool := c == '=' || c == ':'

def keyPattern : Regex := .alt (.literal (str "signatureTimestamp")) (.literal (str "sts"))

def numberPattern : Regex := .group 1 (.many Regex.isDigit 5 (some 6))

-- The text begins with a key, a sign and a number of these digits, which goes on as long as
-- there are digits; white space can stand around the sign.
def Assigns (rest digits : Str) : Prop :=
  ∃ key ∈ timestampKeys, ∃ left sign right tail, rest = key ++ (left ++ sign :: (right ++ tail)) ∧
    (∀ c ∈ left, Regex.isSpace c) ∧ isSign sign ∧ (∀ c ∈ right, Regex.isSpace c) ∧
    digits = tail.takeWhile Regex.isDigit ∧ digits ≠ []

section

variable {rest digits other : Str}

theorem signatureTimestampPattern_eq : signatureTimestampPattern =
    .seq keyPattern (.seq .spaces (.seq (.chars isSign) (.seq .spaces numberPattern))) :=
  rfl

theorem anchorFree : signatureTimestampPattern.AnchorFree :=
  ⟨⟨Regex.anchorFree_literal _, Regex.anchorFree_literal _⟩, trivial, trivial, trivial, trivial⟩

theorem denotes_key {key : Str} : keyPattern.Denotes key ↔ key ∈ timestampKeys := by
  simp only [keyPattern, Regex.Denotes, Regex.denotes_literal, timestampKeys, List.mem_cons,
    List.not_mem_nil, or_false]

-- The pattern matches where a number of five digits or more is assigned.
theorem matchesAt_iff :
    signatureTimestampPattern.MatchesAt rest ↔ ∃ digits, Assigns rest digits ∧
      5 ≤ digits.length := by
  constructor
  · rintro ⟨-, ⟨more, rfl⟩, key, -, rfl, hkey, left, -, rfl, hleft, -, -, rfl, ⟨sign, hsign, rfl⟩,
      right, found, rfl, hright, hdigits, hleast, -⟩
    have hlength : 5 ≤ ((found ++ more).takeWhile Regex.isDigit).length := by
      rw [List.takeWhile_append_of_pos hdigits, List.length_append]
      exact le_trans hleast (Nat.le_add_right _ _)
    refine ⟨_, ⟨key, denotes_key.mp hkey, left, sign, right, found ++ more, ?_,
      Regex.denotes_spaces.mp hleft, hsign, Regex.denotes_spaces.mp hright, rfl,
      List.ne_nil_of_length_pos (by omega)⟩, hlength⟩
    simp
  · rintro ⟨digits, ⟨key, hkey, left, sign, right, tail, rfl, hleft, hsign, hright, rfl, -⟩, hleast⟩
    have htail : (tail.takeWhile Regex.isDigit).take 5 ++
        ((tail.takeWhile Regex.isDigit).drop 5 ++ tail.dropWhile Regex.isDigit) = tail := by
      rw [← List.append_assoc, List.take_append_drop, List.takeWhile_append_dropWhile]
    refine ⟨key ++ (left ++ ([sign] ++ (right ++ (tail.takeWhile Regex.isDigit).take 5))),
      ⟨(tail.takeWhile Regex.isDigit).drop 5 ++ tail.dropWhile Regex.isDigit, ?_⟩, key, _, rfl,
      denotes_key.mpr hkey, left, _, rfl, Regex.denotes_spaces.mpr hleft, [sign], _, rfl,
      ⟨sign, hsign, rfl⟩, right, _, rfl, Regex.denotes_spaces.mpr hright, ?_, ?_, ?_⟩
    · simp only [List.append_assoc, List.cons_append, List.nil_append, htail]
    · exact fun c hc => List.mem_takeWhile_imp (List.mem_of_mem_take hc)
    · rw [List.length_take]
      omega
    · rintro bound ⟨⟩
      exact le_trans (List.length_take_le _ _) (by omega)

theorem not_isSpace_of_isSign {c : Char} (h : isSign c) : Regex.isSpace c = false := by
  simp only [isSign, Bool.or_eq_true, beq_iff_eq] at h
  rcases h with rfl | rfl
  · rfl
  · rfl

theorem not_isSpace_of_isDigit {c : Char} (h : Regex.isDigit c) : Regex.isSpace c = false := by
  by_contra hspace
  simp only [Regex.isSpace, Bool.not_eq_false, Bool.or_eq_true, beq_iff_eq] at hspace
  rcases hspace with ((((rfl | rfl) | rfl) | rfl) | rfl) | rfl <;> exact absurd h (by decide)

theorem exists_digit_cons {tail : Str} (h : tail.takeWhile Regex.isDigit ≠ []) :
    ∃ c more, tail = c :: more ∧ Regex.isDigit c := by
  cases tail with
  | nil => exact absurd rfl h
  | cons c more =>
      by_cases hc : Regex.isDigit c
      · exact ⟨c, more, rfl, hc⟩
      · exact absurd (List.takeWhile_cons_of_neg hc) h

-- A place assigns one number.
theorem Assigns.unique (h : Assigns rest digits) (hother : Assigns rest other) :
    digits = other := by
  obtain ⟨key, hkey, left, sign, right, tail, rfl, hleft, hsign, hright, rfl, hne⟩ := h
  obtain ⟨key', hkey', left', sign', right', tail', he, hleft', hsign', hright', rfl, hne'⟩ :=
    hother
  obtain ⟨c, more, rfl, hc⟩ := exists_digit_cons hne
  obtain ⟨c', more', rfl, hc'⟩ := exists_digit_cons hne'
  have hsame : key = key' := by
    simp only [timestampKeys, List.mem_cons, List.not_mem_nil, or_false] at hkey hkey'
    rcases hkey with rfl | rfl <;> rcases hkey' with rfl | rfl
    · rfl
    · simp [str] at he
    · simp [str] at he
    · rfl
  subst hsame
  obtain ⟨rfl, rfl, hrest⟩ := split_run_unique hleft hleft' (not_isSpace_of_isSign hsign)
    (not_isSpace_of_isSign hsign') (List.append_cancel_left he)
  obtain ⟨rfl, rfl, rfl⟩ := split_run_unique hright hright' (not_isSpace_of_isDigit hc)
    (not_isSpace_of_isDigit hc') hrest
  rfl

theorem ends_key {key : Str} (hkey : key ∈ timestampKeys) (offset : Nat) (rest : Str) :
    keyPattern.ends ⟨offset, key ++ rest, []⟩ = [⟨offset + key.length, rest, []⟩] := by
  simp only [timestampKeys, List.mem_cons, List.not_mem_nil, or_false] at hkey
  rcases hkey with rfl | rfl
  · simp [keyPattern, Regex.ends, Regex.literal, str, Regex.Cursor.advance]
  · simp [keyPattern, Regex.ends, Regex.literal, str, Regex.Cursor.advance]

theorem ends_sign {sign : Char} (hsign : isSign sign) (offset : Nat) (rest : Str) :
    (Regex.chars isSign).ends ⟨offset, sign :: rest, []⟩ = [⟨offset + 1, rest, []⟩] := by
  simp [Regex.ends, hsign, Regex.Cursor.advance]

theorem ends_sign_of_isSpace {after : Regex} {cursor : Regex.Cursor} {c : Char}
    (hhead : cursor.rest.head? = some c) (hc : Regex.isSpace c) :
    (Regex.seq (.chars isSign) after).ends cursor = [] := by
  obtain ⟨more, hrest⟩ := List.head?_eq_some_iff.mp hhead
  have hsign : ¬isSign c := fun hsign => by simp [not_isSpace_of_isSign hsign] at hc
  simp [Regex.ends, hrest, hsign]

theorem ends_number_of_isSpace {cursor : Regex.Cursor} {c : Char}
    (hhead : cursor.rest.head? = some c) (hc : Regex.isSpace c) :
    numberPattern.ends cursor = [] := by
  obtain ⟨more, hrest⟩ := List.head?_eq_some_iff.mp hhead
  have hdigit : ¬Regex.isDigit c := fun hdigit => by simp [not_isSpace_of_isDigit hdigit] at hc
  simp [numberPattern, Regex.ends, hrest, hdigit]

-- What is captured where a number is assigned: six digits of it at most.
theorem head?_ends_timestamp (h : Assigns rest digits) (hleast : 5 ≤ digits.length) (offset : Nat) :
    ∃ last, (signatureTimestampPattern.ends ⟨offset, rest, []⟩).head? = some last ∧
      last.groups = [(1, digits.take 6)] := by
  obtain ⟨key, hkey, left, sign, right, tail, rfl, hleft, hsign, hright, rfl, hne⟩ := h
  obtain ⟨c, more, htail, hc⟩ := exists_digit_cons hne
  have hhead : ∀ d, tail.head? = some d → Regex.isSpace d = false := by
    rintro d hd
    obtain rfl : c = d := by simpa [htail] using hd
    exact not_isSpace_of_isDigit hc
  have hsigned : ∀ d, (sign :: (right ++ tail)).head? = some d → Regex.isSpace d = false := by
    rintro d ⟨⟩
    exact not_isSpace_of_isSign hsign
  have hends :
      ∃ place, signatureTimestampPattern.ends
        ⟨offset, key ++ (left ++ sign :: (right ++ tail)), []⟩ =
      numberPattern.ends ⟨place, tail, []⟩ := by
    refine ⟨offset + key.length + left.length + 1 + right.length, ?_⟩
    calc signatureTimestampPattern.ends ⟨offset, key ++ (left ++ sign :: (right ++ tail)), []⟩
        = (Regex.seq .spaces (.seq (.chars isSign) (.seq .spaces numberPattern))).ends
            ⟨offset + key.length, left ++ sign :: (right ++ tail), []⟩ := by
          rw [signatureTimestampPattern_eq, Regex.ends, ends_key hkey, List.flatMap_singleton]
      _ = (Regex.seq (.chars isSign) (.seq .spaces numberPattern)).ends
            ⟨offset + key.length + left.length, sign :: (right ++ tail), []⟩ :=
          Regex.ends_many_seq hleft hsigned (fun _ _ hd hspace => ends_sign_of_isSpace hd hspace)
            _ _
      _ = (Regex.seq .spaces numberPattern).ends
        ⟨offset + key.length + left.length + 1, right ++ tail, []⟩ := by
          rw [Regex.ends, ends_sign hsign, List.flatMap_singleton]
      _ = numberPattern.ends ⟨offset + key.length + left.length + 1 + right.length, tail, []⟩ :=
          Regex.ends_many_seq hright hhead (fun _ _ hd hspace => ends_number_of_isSpace hd hspace)
            _ _
  obtain ⟨place, hplace⟩ := hends
  rw [hplace, numberPattern, Regex.ends, List.head?_map,
    Regex.head?_ends_many_upTo (by simp only; omega)]
  refine ⟨_, rfl, ?_⟩
  have htaken : tail.take (min (tail.takeWhile Regex.isDigit).length 6) =
      (tail.takeWhile Regex.isDigit).take 6 := by
    have hrun := List.prefix_iff_eq_take.mp (List.takeWhile_prefix Regex.isDigit (l := tail))
    conv_rhs => rw [hrun, List.take_take, Nat.min_comm]
  simp [Regex.Cursor.advance, htaken]

-- The number is taken from the leftmost place that assigns five digits or more.
theorem extractSignatureTimestamp_of_leftmost {before : Str}
    (h : signatureTimestampPattern.Leftmost before rest) (hassigns : Assigns rest digits)
    (hleast : 5 ≤ digits.length) :
    extractSignatureTimestamp (before ++ rest) = some (numberOf (digits.take 6) : Int) := by
  obtain ⟨last, hends, hgroups⟩ := head?_ends_timestamp hassigns hleast before.length
  obtain ⟨-, -, -, -, -, tail, -, -, -, -, rfl, hne⟩ := hassigns
  rw [extractSignatureTimestamp, h.findGroup_eq anchorFree hends, hgroups, Option.bind_some]
  refine toIntOrNull_digits (fun c hc => List.mem_takeWhile_imp (List.mem_of_mem_take hc)) ?_ ?_
  · simpa using hne
  · exact le_trans (List.length_take_le _ _) (by decide)

theorem extractSignatureTimestamp_eq_none {playerJs : Str}
    (h : ∀ before rest, playerJs = before ++ rest → ¬signatureTimestampPattern.MatchesAt rest) :
    extractSignatureTimestamp playerJs = none := by
  rw [extractSignatureTimestamp, Regex.findGroup, (Regex.find_eq_none_iff anchorFree).mpr h]
  rfl

end

section

variable (isIdentifierChar : Char → Bool)

-- The key is not the end of a longer identifier.
def StandsAlone (before : Str) : Prop := ∀ c, before.getLast? = some c → isIdentifierChar c = false

def Occurs (playerJs before digits : Str) : Prop :=
  ∃ rest, playerJs = before ++ rest ∧ StandsAlone isIdentifierChar before ∧ Assigns rest digits

def FiveOrSix (digits : Str) : Prop := digits.length = 5 ∨ digits.length = 6

-- No other occurrence has five or six digits.
def Sole (playerJs before digits : Str) : Prop :=
  Occurs isIdentifierChar playerJs before digits ∧ FiveOrSix digits ∧
    ∀ other number, Occurs isIdentifierChar playerJs other number → FiveOrSix number →
      other = before

-- The first place that assigns five digits or more to a name which ends in a key.
def FirstAssignment (playerJs before digits : Str) : Prop :=
  ∃ rest, playerJs = before ++ rest ∧ Assigns rest digits ∧ 5 ≤ digits.length ∧
    ∀ other more number, playerJs = other ++ more → Assigns more number → 5 ≤ number.length →
      before.length ≤ other.length

structure TakesOccurrence (playerJs : Str) : Prop where
  occurs : ∀ timestamp, extractSignatureTimestamp playerJs = some timestamp →
    ∃ before digits, Occurs isIdentifierChar playerJs before digits ∧ timestamp = numberOf digits
  sole : ∀ before digits, Sole isIdentifierChar playerJs before digits →
    extractSignatureTimestamp playerJs = some (numberOf digits : Int)

-- The first assignment is to a key and not to a longer name, of six digits at most.
def FirstIsRight (playerJs : Str) : Prop :=
  ∀ before digits, FirstAssignment playerJs before digits →
    StandsAlone isIdentifierChar before ∧ digits.length ≤ 6

-- No other occurrence has the number that the first six digits of the first assignment make.
def NumberStandsOnce (playerJs : Str) : Prop :=
  ∀ before digits, FirstAssignment playerJs before digits →
    0 < numberOf (digits.take 6) ∧ ∀ other number, Occurs isIdentifierChar playerJs other number →
      numberOf number = numberOf (digits.take 6) → other = before

end

section

variable {isIdentifierChar : Char → Bool} {playerJs before other digits number : Str}

theorem firstAssignment_iff : FirstAssignment playerJs before digits ↔
    ∃ rest, playerJs = before ++ rest ∧ signatureTimestampPattern.Leftmost before rest ∧
      Assigns rest digits ∧ 5 ≤ digits.length := by
  constructor
  · rintro ⟨rest, rfl, hassigns, hleast, hfirst⟩
    refine ⟨rest, rfl, ⟨matchesAt_iff.mpr ⟨digits, hassigns, hleast⟩, fun other more he hmore =>
      ?_⟩, hassigns, hleast⟩
    obtain ⟨number, hnumber, hfive⟩ := matchesAt_iff.mp hmore
    exact hfirst other more number he.symm hnumber hfive
  · rintro ⟨rest, rfl, hleft, hassigns, hleast⟩
    exact ⟨rest, rfl, hassigns, hleast, fun other more number he hnumber hfive =>
      hleft.2 other more he.symm (matchesAt_iff.mpr ⟨number, hnumber, hfive⟩)⟩

theorem FirstAssignment.extract_eq (h : FirstAssignment playerJs before digits) :
    extractSignatureTimestamp playerJs = some (numberOf (digits.take 6) : Int) := by
  obtain ⟨rest, rfl, hleft, hassigns, hleast⟩ := firstAssignment_iff.mp h
  exact extractSignatureTimestamp_of_leftmost hleft hassigns hleast

-- Either there is a first assignment, or nothing is extracted and there is nothing to extract.
theorem exists_firstAssignment_or (isIdentifierChar : Char → Bool) (playerJs : Str) :
    (∃ before digits, FirstAssignment playerJs before digits) ∨
      extractSignatureTimestamp playerJs = none ∧
        ∀ before digits, Occurs isIdentifierChar playerJs before digits → digits.length < 5 := by
  by_cases h : ∃ before rest, playerJs = before ++ rest ∧ signatureTimestampPattern.MatchesAt rest
  · obtain ⟨before, rest, he, hmatches⟩ := h
    obtain ⟨first, more, hfirst, hleft⟩ := Regex.exists_leftmost anchorFree hmatches he
    obtain ⟨digits, hassigns, hleast⟩ := matchesAt_iff.mp hleft.1
    exact Or.inl ⟨first, digits, firstAssignment_iff.mpr ⟨more, hfirst, hleft, hassigns, hleast⟩⟩
  · have hnone : ∀ before rest, playerJs = before ++ rest →
        ¬signatureTimestampPattern.MatchesAt rest :=
      fun before rest he hmatches => h ⟨before, rest, he, hmatches⟩
    refine Or.inr ⟨extractSignatureTimestamp_eq_none hnone, ?_⟩
    rintro before digits ⟨rest, he, -, hassigns⟩
    by_contra hleast
    exact hnone before rest he (matchesAt_iff.mpr ⟨digits, hassigns, not_lt.mp hleast⟩)

theorem Occurs.unique (h : Occurs isIdentifierChar playerJs before digits)
    (hnumber : Occurs isIdentifierChar playerJs before number) : digits = number := by
  obtain ⟨rest, rfl, -, hassigns⟩ := h
  obtain ⟨more, he, -, hmore⟩ := hnumber
  obtain rfl := List.append_cancel_left he
  exact hassigns.unique hmore

-- A longer run of digits makes a greater number.
theorem numberOf_take_lt {count : Nat} (hpos : 0 < numberOf (digits.take count))
    (hlong : count < digits.length) : numberOf (digits.take count) < numberOf digits := by
  have hsplit : numberOf digits = 10 ^ (digits.drop count).length * numberOf (digits.take count) +
      numberOf (digits.drop count) := by
    conv_lhs => rw [← List.take_append_drop count digits]
    rw [numberOf, Nat.ofDigitChars_append]
    exact Nat.ofDigitChars_eq_ofDigitChars_zero
  have hpow : 10 ^ 1 ≤ 10 ^ (digits.drop count).length :=
    Nat.pow_le_pow_right (by decide) (by rw [List.length_drop]; omega)
  have hmul := Nat.mul_le_mul_right (numberOf (digits.take count)) hpow
  omega

-- An assignment of at most six digits to a name of its own is right.
theorem FirstAssignment.occurs (h : FirstAssignment playerJs before digits)
    (halone : StandsAlone isIdentifierChar before) (hmost : digits.length ≤ 6) :
    Occurs isIdentifierChar playerJs before digits ∧ digits.take 6 = digits ∧ FiveOrSix digits := by
  obtain ⟨rest, he, hassigns, hleast, -⟩ := h
  refine ⟨⟨rest, he, halone, hassigns⟩, List.take_of_length_le hmost, ?_⟩
  unfold FiveOrSix
  omega

theorem takesOccurrence_of_first (h : FirstIsRight isIdentifierChar playerJs) :
    TakesOccurrence isIdentifierChar playerJs := by
  rcases exists_firstAssignment_or isIdentifierChar playerJs with
    ⟨before, digits, hfirst⟩ | ⟨hnone, hshort⟩
  · obtain ⟨halone, hmost⟩ := h before digits hfirst
    obtain ⟨hoccurs, htaken, hfive⟩ := hfirst.occurs halone hmost
    have hextract := hfirst.extract_eq
    rw [htaken] at hextract
    refine ⟨fun timestamp htimestamp => ?_, fun place sole hplace => ?_⟩
    · rw [hextract] at htimestamp
      exact ⟨before, digits, hoccurs, (Option.some.inj htimestamp).symm⟩
    · obtain rfl := hplace.2.2 before digits hoccurs hfive
      rw [hextract, hoccurs.unique hplace.1]
  · refine ⟨fun timestamp htimestamp => ?_, fun place sole hplace => ?_⟩
    · rw [hnone] at htimestamp
      cases htimestamp
    · have hlt := hshort place sole hplace.1
      have hfive := hplace.2.1
      unfold FiveOrSix at hfive
      omega

theorem TakesOccurrence.first (h : TakesOccurrence isIdentifierChar playerJs)
    (honce : NumberStandsOnce isIdentifierChar playerJs) :
    FirstIsRight isIdentifierChar playerJs := by
  intro before digits hfirst
  obtain ⟨other, number, hother, hnumber⟩ := h.occurs _ hfirst.extract_eq
  obtain ⟨hpos, honly⟩ := honce before digits hfirst
  have hsame := Int.ofNat.inj hnumber
  obtain rfl := honly other number hother hsame.symm
  obtain ⟨rest, rfl, hassigns, -, -⟩ := hfirst
  obtain ⟨more, he, halone, hmore⟩ := hother
  obtain rfl := List.append_cancel_left he
  obtain rfl := hassigns.unique hmore
  refine ⟨halone, ?_⟩
  by_contra hlong
  have hlt := numberOf_take_lt hpos (not_le.mp hlong)
  omega

-- The timestamp is the number of an occurrence of a key, and of the only one that there is, if
-- the first name that ends in a key is a key; and only then if its number stands once.
theorem extractSignatureTimestamp_takes_key (isIdentifierChar : Char → Bool) (playerJs : Str) :
    (FirstIsRight isIdentifierChar playerJs → TakesOccurrence isIdentifierChar playerJs) ∧
    (NumberStandsOnce isIdentifierChar playerJs →
      (TakesOccurrence isIdentifierChar playerJs ↔ FirstIsRight isIdentifierChar playerJs)) :=
  ⟨takesOccurrence_of_first, fun honce => ⟨fun h => h.first honce, takesOccurrence_of_first⟩⟩

-- A key stands at the place of an occurrence.
theorem Occurs.place (h : Occurs isIdentifierChar playerJs other number) :
    other = playerJs.take other.length ∧ other.length ≤ playerJs.length ∧
      ∃ key ∈ timestampKeys, key <+: playerJs.drop other.length := by
  obtain ⟨rest, rfl, -, key, hkey, left, sign, right, tail, rfl, -⟩ := h
  refine ⟨List.take_left.symm, ?_, key, hkey, ?_⟩
  · rw [List.length_append]
    omega
  · rw [List.drop_left]
    exact List.prefix_append ..

def keyFirst : Str := str "b.sts=19834;a.requests=12345;"

theorem keyFirst_first (h : FirstAssignment keyFirst before digits) :
    before = str "b." ∧ digits = str "19834" := by
  obtain ⟨rest, he, hassigns, hleast, hfirst⟩ := h
  have hkey : Assigns (str "sts=19834;a.requests=12345;") (str "19834") :=
    ⟨str "sts", by decide, [], '=', [], str "19834;a.requests=12345;", rfl, by simp, rfl, by simp,
      by decide, by decide⟩
  have hplaces : ∀ count < 3, signatureTimestampPattern.ends ⟨0, keyFirst.drop count, []⟩ ≠ [] →
      count = 2 := by decide +kernel
  have hle : before.length ≤ 2 := hfirst (str "b.") _ _ rfl hkey (by decide)
  have hrest : rest = keyFirst.drop before.length := by rw [he, List.drop_left]
  have hends := (Regex.matchesAt_iff anchorFree 0).mp (matchesAt_iff.mpr ⟨digits, hassigns, hleast⟩)
  have htwo := hplaces before.length (by omega) (hrest ▸ hends)
  obtain ⟨rfl, rfl⟩ := List.append_inj he.symm (htwo.trans (show 2 = (str "b.").length from rfl))
  exact ⟨rfl, hassigns.unique hkey⟩

theorem keyFirst_once : NumberStandsOnce NParamDecipherer.isNameChar keyFirst := by
  intro before digits hfirst
  obtain ⟨rfl, rfl⟩ := keyFirst_first hfirst
  refine ⟨by decide, fun other number hoccurs _ => ?_⟩
  have hplaces : ∀ count < 30, ∀ key ∈ timestampKeys, key <+: keyFirst.drop count →
      count = 2 ∨ count = 19 := by decide +kernel
  obtain ⟨hother, hle, key, hkey, hstarts⟩ := hoccurs.place
  obtain ⟨-, -, halone, -⟩ := hoccurs
  rcases hplaces other.length (Nat.lt_succ_of_le hle) key hkey hstarts with htwo | hnineteen
  · rw [htwo] at hother
    rw [hother]
    decide
  · rw [hnineteen] at hother
    exact absurd (halone 'e' (by rw [hother]; decide)) (by decide)

theorem extractSignatureTimestamp_takes_key_first :
    TakesOccurrence NParamDecipherer.isNameChar keyFirst ∧
      (TakesOccurrence NParamDecipherer.isNameChar keyFirst ↔
        FirstIsRight NParamDecipherer.isNameChar keyFirst) := by
  obtain ⟨henough, hexact⟩ :=
    extractSignatureTimestamp_takes_key NParamDecipherer.isNameChar keyFirst
  refine ⟨henough fun before digits hfirst => ?_, hexact keyFirst_once⟩
  obtain ⟨rfl, rfl⟩ := keyFirst_first hfirst
  refine ⟨fun c hc => ?_, by decide⟩
  obtain rfl : '.' = c := Option.some.inj hc
  decide

theorem extractSignatureTimestamp_takes_requests :
    ¬TakesOccurrence NParamDecipherer.isNameChar (str "a.requests=12345;b.sts=19834;") := by
  have hextract : extractSignatureTimestamp (str "a.requests=12345;b.sts=19834;") = some 12345 := by
    decide +kernel
  have hplaces : ∀ count < 30, ∀ key ∈ timestampKeys,
      key <+: (str "a.requests=12345;b.sts=19834;").drop count →
        count = 7 ∨ count = 19 := by decide +kernel
  have hdot : (str "a.requests=12345;b.").getLast? = some '.' := by decide
  have hsole : Sole NParamDecipherer.isNameChar (str "a.requests=12345;b.sts=19834;")
      (str "a.requests=12345;b.") (str "19834") := by
    have hassigns : Assigns (str "sts=19834;") (str "19834") :=
      ⟨str "sts", by decide, [], '=', [], str "19834;", rfl, by simp, rfl, by simp,
        by decide, by decide⟩
    refine ⟨⟨str "sts=19834;", rfl, fun c hc => ?_, hassigns⟩, Or.inl rfl, ?_⟩
    · obtain rfl : '.' = c := Option.some.inj (hdot.symm.trans hc)
      decide
    intro other number hoccurs _
    obtain ⟨hother, hle, key, hkey, hstarts⟩ := hoccurs.place
    obtain ⟨-, -, halone, -⟩ := hoccurs
    rcases hplaces other.length (Nat.lt_succ_of_le hle) key hkey hstarts with hseven | hnineteen
    · rw [hseven] at hother
      exact absurd (halone 'e' (by rw [hother]; decide)) (by decide)
    · rw [hnineteen] at hother
      rw [hother]
      decide
  intro h
  exact absurd (hextract.symm.trans (h.sole _ _ hsole)) (by decide +kernel)

end

end PlayerJsRepository

end Ytdlpdroid
