import Ytdlpdroid.Decipher.NParamDecipherer
import Ytdlpdroid.Text.Regex.Earliest

namespace Ytdlpdroid.NParamDecipherer

open Text

-- The forms in which a player's script names the function for n. Each of them says that the text
-- begins in this way, with this reference to the function.

-- .get("n"))&&(b=nfn(b)  or  .get("n"))&&(b=arr[0](b)
def ModernCall (rest ref : Str) : Prop :=
  ∃ name more, name ≠ [] ∧ (∀ c ∈ name, isNameChar c) ∧ (∀ c ∈ ref, isRefChar c) ∧ 2 ≤ ref.length ∧
    ref.length ≤ 40 ∧ rest = str ".get(\"n\"))&&(" ++ (name ++ '=' :: (ref ++ '(' :: more))

-- x&&(b=nfn(b)
def AlternateCall (rest ref : Str) : Prop :=
  ∃ left name c more, left ≠ [] ∧ (∀ d ∈ left, isNameChar d) ∧ name ≠ [] ∧
    (∀ d ∈ name, isNameChar d) ∧ (∀ d ∈ ref, isRefChar d) ∧ 2 ≤ ref.length ∧ ref.length ≤ 40 ∧
      isNameChar c ∧ rest = left ++ '&' :: (str "&(" ++ (name ++ '=' :: (ref ++ '(' :: c :: more)))

-- .get("n"))&&(b=arr[
def OlderCall (rest ref : Str) : Prop :=
  ∃ c more, isNameStart c ∧ (∀ d ∈ ref, isNameChar d) ∧ 2 ≤ ref.length ∧ ref.length ≤ 4 ∧
    rest = str ".get(\"n\"))&&(" ++ c :: '=' :: (ref ++ '[' :: more)

-- function(a) {var b = a.split("")
def SplitFunction (text : Str) : Prop :=
  ∃ first second third fourth fifth parameter name argument,
    (∀ run ∈ [first, second, third, fourth, fifth], ∀ c ∈ run, Regex.isSpace c) ∧ third ≠ [] ∧
    (∀ c ∈ [parameter, name, argument], isNameStart c) ∧
    text = str "function" ++
      (first ++ '(' :: parameter :: ')' :: (second ++ (str "\x7bvar" ++ (third ++ name ::
      (fourth ++ '=' :: (fifth ++ argument :: str ".split(\"\")"))))))

-- nfn = function(a) {var b = a.split("")
def SplitDefinition (rest ref : Str) : Prop :=
  ∃ left right body more, (∀ c ∈ ref, isNameChar c) ∧ 3 ≤ ref.length ∧
    (∀ c ∈ left, Regex.isSpace c) ∧ (∀ c ∈ right, Regex.isSpace c) ∧ SplitFunction body ∧
    rest = ref ++ (left ++ '=' :: (right ++ (body ++ more)))

def referenceForms : List (Str → Str → Prop) :=
  [ModernCall, AlternateCall, OlderCall, SplitDefinition]

-- var arr = [elements]
def ArrayField (arrName rest elements : Str) : Prop :=
  ∃ first second third more, first ≠ [] ∧
    (∀ run ∈ [first, second, third], ∀ c ∈ run, Regex.isSpace c) ∧
    elements ≠ [] ∧ (∀ c ∈ elements, c ≠ ']') ∧
    rest = str "var" ++
      (first ++ (arrName ++ (second ++ '=' :: (third ++ '[' :: (elements ++ ']' :: more)))))

-- A reference arr[i] is to the i-th element of the array, and to the first one if i is no number.
def ElementAt (js ref name : Str) : Prop :=
  ∃ elements element, ∃ index : Nat, Earliest (ArrayField (substringBefore ref '[')) js elements ∧
    (toIntOrNull (substringBefore (substringAfter ref '[') ']')).getD 0 = index ∧
      (elements.splitOn ',')[index]? = some element ∧ name = trim element

section

variable {js rest ref name : Str}

def splitFunctionRegexes : List Regex :=
  [.literal (str "function"), .spaces, .literal (str "("), .chars isNameStart, .literal (str ")"),
    .spaces, .literal (str "\x7bvar"), .spaces1, .chars isNameStart, .spaces, .literal (str "="),
    .spaces, .chars isNameStart, .literal (str ".split(\"\")")]

theorem texts_splitFunction {text : Str} : Regex.Texts splitFunctionRegexes text ↔
    SplitFunction text := by
  simp only [splitFunctionRegexes, Regex.texts_literal, Regex.texts_spaces, Regex.texts_spaces1,
    Regex.texts_chars, Regex.texts_nil, SplitFunction, List.forall_mem_cons, List.not_mem_nil,
    false_implies, implies_true, and_true]
  constructor
  · rintro ⟨_, rfl, first, _, rfl, hfirst, _, rfl, parameter, _, rfl, hparameter, _, rfl, second, _,
      rfl, hsecond, _, rfl, third, _, rfl, ⟨hne, hthird⟩, name, _, rfl, hname, fourth, _, rfl,
      hfourth, _, rfl, fifth, _, rfl, hfifth, argument, _, rfl, hargument, _, rfl, rfl⟩
    refine ⟨first, second, third, fourth, fifth, parameter, name, argument,
      ⟨hfirst, hsecond, hthird, hfourth, hfifth⟩, hne, ⟨hparameter, hname, hargument⟩, ?_⟩
    simp [str]
  · rintro ⟨first, second, third, fourth, fifth, parameter, name, argument,
      ⟨hfirst, hsecond, hthird, hfourth, hfifth⟩, hne, ⟨hparameter, hname, hargument⟩, rfl⟩
    refine ⟨_, ?_, first, _, rfl, hfirst, _, rfl, parameter, _, rfl, hparameter, _, rfl, second,
      _, rfl, hsecond, _, rfl, third, _, rfl, ⟨hne, hthird⟩, name, _, rfl, hname, fourth, _, rfl,
      hfourth, _, rfl, fifth, _, rfl, hfifth, argument, _, rfl, hargument, _, rfl, rfl⟩
    simp [str]

-- The characters of a reference do not hold the sign that it ends at.
theorem isRefChar_paren : isRefChar '(' = false := by decide

theorem isNameChar_equals : isNameChar '=' = false := by decide

theorem not_isNameChar_of_isSpace {c : Char} (h : Regex.isSpace c) : isNameChar c = false := by
  unfold Regex.isSpace at h
  simp only [Bool.or_eq_true, beq_iff_eq] at h
  rcases h with ((((rfl | rfl) | rfl) | rfl) | rfl) | rfl <;> decide

theorem ModernCall.unique {other : Str} (h : ModernCall rest ref) (hother : ModernCall rest other) :
    other = ref := by
  obtain ⟨name, more, -, hname, href, -, -, rfl⟩ := h
  obtain ⟨name', more', -, hname', href', -, -, he⟩ := hother
  obtain ⟨-, -, hcall⟩ :=
    split_run_unique hname hname' isNameChar_equals isNameChar_equals (List.append_cancel_left he)
  exact (split_run_unique href href' isRefChar_paren isRefChar_paren hcall).1.symm

theorem AlternateCall.unique {other : Str} (h : AlternateCall rest ref)
    (hother : AlternateCall rest other) :
    other = ref := by
  have hand : isNameChar '&' = false := by decide
  obtain ⟨left, name, c, more, -, hleft, -, hname, href, -, -, -, rfl⟩ := h
  obtain ⟨left', name', c', more', -, hleft', -, hname', href', -, -, -, he⟩ := hother
  obtain ⟨-, -, hbody⟩ := split_run_unique hleft hleft' hand hand he
  have hcalls := List.append_cancel_left hbody
  obtain ⟨-, -, hcall⟩ := split_run_unique hname hname' isNameChar_equals isNameChar_equals hcalls
  exact (split_run_unique href href' isRefChar_paren isRefChar_paren hcall).1.symm

theorem OlderCall.unique {other : Str} (h : OlderCall rest ref) (hother : OlderCall rest other) :
    other = ref := by
  have hbracket : isNameChar '[' = false := by decide
  obtain ⟨c, more, -, href, -, -, rfl⟩ := h
  obtain ⟨c', more', -, href', -, -, he⟩ := hother
  obtain ⟨-, hcall⟩ := List.cons.inj (List.append_cancel_left he)
  exact (split_run_unique href href' hbracket hbracket (List.cons.inj hcall).2).1.symm

-- Behind a defined name comes a space or the equals sign.
theorem SplitDefinition.unique {other : Str} (h : SplitDefinition rest ref)
    (hother : SplitDefinition rest other) :
    other = ref := by
  have hstop {spaces tail : Str} (hspaces : ∀ c ∈ spaces, Regex.isSpace c) (c : Char)
      (hc : (spaces ++ '=' :: tail).head? = some c) : isNameChar c = false := by
    cases spaces with
    | nil =>
        obtain rfl := Option.some.inj hc
        exact isNameChar_equals
    | cons d spaces =>
        obtain rfl := Option.some.inj hc
        exact not_isNameChar_of_isSpace (hspaces _ List.mem_cons_self)
  obtain ⟨left, right, body, more, href, -, hleft, -, -, rfl⟩ := h
  obtain ⟨left', right', body', more', href', -, hleft', -, -, he⟩ := hother
  exact (Regex.run_unique href href' (hstop hleft) (hstop hleft') he).1.symm

-- The expressions around the reference in the four forms.
def modernBefore : List Regex :=
  [.literal (str ".get(\"n\"))&&("), .many isNameChar 1 none, .literal (str "=")]

def alternateBefore : List Regex :=
  [.many isNameChar 1 none, .literal (str "&&("), .many isNameChar 1 none, .literal (str "=")]

def olderBefore : List Regex :=
  [.literal (str ".get(\"n\"))&&("), .chars isNameStart, .literal (str "=")]

def definitionAfter : List Regex := .spaces :: .literal (str "=") :: .spaces :: splitFunctionRegexes

theorem N_FUNC_NAME_PATTERNS_eq : N_FUNC_NAME_PATTERNS =
    [.around modernBefore 1 (.many isRefChar 2 (some 40)) [.literal (str "(")],
      .around alternateBefore 1 (.many isRefChar 2 (some 40))
      [.literal (str "("), .chars isNameChar], .around olderBefore 1 (.many isNameChar 2 (some 4))
      [.literal (str "[")], .around [] 1 (.many isNameChar 3 none) definitionAfter] := rfl

theorem around_iff_modernCall :
    Regex.Around modernBefore (.many isRefChar 2 (some 40)) [.literal (str "(")] rest ref ↔
      ModernCall rest ref := by
  simp only [Regex.Around, modernBefore, Regex.texts_literal, Regex.texts_many1, Regex.texts_nil,
    Regex.denotes_between]
  constructor
  · rintro ⟨_, _, more, rfl, ⟨_, rfl, name, _, rfl, ⟨hne, hname⟩, _, rfl, rfl⟩,
      ⟨href, htwo, hforty⟩, _, rfl, rfl⟩
    refine ⟨name, more, hne, hname, href, htwo, hforty, ?_⟩
    simp [str]
  · rintro ⟨name, more, hne, hname, href, htwo, hforty, rfl⟩
    refine ⟨_, _, more, ?_, ⟨_, rfl, name, _, rfl, ⟨hne, hname⟩, _, rfl, rfl⟩, ⟨href, htwo, hforty⟩,
      _, rfl, rfl⟩
    simp [str]

theorem around_iff_alternateCall :
    Regex.Around alternateBefore (.many isRefChar 2 (some 40))
      [.literal (str "("), .chars isNameChar] rest ref ↔
      AlternateCall rest ref := by
  simp only [Regex.Around, alternateBefore, Regex.texts_literal, Regex.texts_many1,
    Regex.texts_chars, Regex.texts_nil, Regex.denotes_between]
  constructor
  · rintro ⟨_, _, more, rfl,
      ⟨left, _, rfl, ⟨hsome, hleft⟩, _, rfl, name, _, rfl, ⟨hne, hname⟩, _, rfl, rfl⟩,
      ⟨href, htwo, hforty⟩, _, rfl, c, _, rfl, hc, rfl⟩
    refine ⟨left, name, c, more, hsome, hleft, hne, hname, href, htwo, hforty, hc, ?_⟩
    simp [str]
  · rintro ⟨left, name, c, more, hsome, hleft, hne, hname, href, htwo, hforty, hc, rfl⟩
    refine ⟨_, _, more, ?_,
      ⟨left, _, rfl, ⟨hsome, hleft⟩, _, rfl, name, _, rfl, ⟨hne, hname⟩, _, rfl, rfl⟩,
      ⟨href, htwo, hforty⟩, _, rfl, c, _, rfl, hc, rfl⟩
    simp [str]

theorem around_iff_olderCall :
    Regex.Around olderBefore (.many isNameChar 2 (some 4)) [.literal (str "[")] rest ref ↔
      OlderCall rest ref := by
  simp only [Regex.Around, olderBefore, Regex.texts_literal, Regex.texts_chars, Regex.texts_nil,
    Regex.denotes_between]
  constructor
  · rintro ⟨_, _, more, rfl, ⟨_, rfl, c, _, rfl, hc, _, rfl, rfl⟩, ⟨href, htwo, hfour⟩, _, rfl, rfl⟩
    refine ⟨c, more, hc, href, htwo, hfour, ?_⟩
    simp [str]
  · rintro ⟨c, more, hc, href, htwo, hfour, rfl⟩
    refine ⟨_, _, more, ?_, ⟨_, rfl, c, _, rfl, hc, _, rfl, rfl⟩, ⟨href, htwo, hfour⟩, _, rfl, rfl⟩
    simp [str]

theorem around_iff_splitDefinition :
    Regex.Around [] (.many isNameChar 3 none) definitionAfter rest ref ↔
      SplitDefinition rest ref := by
  simp only [Regex.Around, definitionAfter, Regex.texts_spaces, Regex.texts_literal,
    Regex.texts_nil, texts_splitFunction, Regex.denotes_atLeast]
  constructor
  · rintro ⟨_, _, more, rfl, rfl, ⟨href, hthree⟩, left, _, rfl, hleft, _, rfl, right, body, rfl,
      hright, hbody⟩
    refine ⟨left, right, body, more, href, hthree, hleft, hright, hbody, ?_⟩
    simp [str]
  · rintro ⟨left, right, body, more, href, hthree, hleft, hright, hbody, rfl⟩
    refine ⟨_, _, more, ?_, rfl, ⟨href, hthree⟩, left, _, rfl, hleft, _, rfl, right, body, rfl,
      hright, hbody⟩
    simp [str]

-- Each of the four expressions finds what has its form.
theorem locates_reference :
    List.Forall₂ (fun r Stands => r.Locates 1 Stands) N_FUNC_NAME_PATTERNS referenceForms := by
  have hmany (p : Char → Bool) (least : Nat) (most : Option Nat) := Regex.plain_many p least most
  have hspaces : Regex.Plain .spaces := hmany _ _ _
  have hspaces1 : Regex.Plain .spaces1 := hmany _ _ _
  rw [N_FUNC_NAME_PATTERNS_eq, referenceForms]
  refine .cons ?_ (.cons ?_ (.cons ?_ (.cons ?_ .nil)))
  · refine Regex.locates_around ?_ (hmany _ _ _) ?_ (fun _ _ => around_iff_modernCall)
      fun _ _ _ h => h.unique
    · simp [modernBefore, Regex.plain_literal, hmany]
    · simp [Regex.plain_literal]
  · refine Regex.locates_around ?_ (hmany _ _ _) ?_ (fun _ _ => around_iff_alternateCall)
      fun _ _ _ h => h.unique
    · simp [alternateBefore, Regex.plain_literal, hmany]
    · simp [Regex.plain_literal, Regex.plain_chars]
  · refine Regex.locates_around ?_ (hmany _ _ _) ?_ (fun _ _ => around_iff_olderCall) fun _ _ _ h =>
      h.unique
    · simp [olderBefore, Regex.plain_literal, Regex.plain_chars]
    · simp [Regex.plain_literal]
  · refine Regex.locates_around ?_ (hmany _ _ _) ?_ (fun _ _ => around_iff_splitDefinition)
      fun _ _ _ h => h.unique
    · simp
    · simp [definitionAfter, splitFunctionRegexes, Regex.plain_literal, Regex.plain_chars, hspaces,
        hspaces1]

theorem isRefChar_of_isNameChar {c : Char} (h : isNameChar c) : isRefChar c := by
    simp [isRefChar, h]

-- A reference has neither spaces nor an equals sign.
theorem isRefChar_of_firstOf (h : FirstOf referenceForms js ref) : ∀ c ∈ ref, isRefChar c := by
  obtain ⟨earlier, Stands, later, he, ⟨before, rest, -, hstands, -⟩, -⟩ := h
  have hm : Stands ∈ referenceForms := he ▸ by simp
  simp only [referenceForms, List.mem_cons, List.not_mem_nil, or_false] at hm
  rcases hm with rfl | rfl | rfl | rfl
  · obtain ⟨-, -, -, -, href, -⟩ := hstands
    exact href
  · obtain ⟨-, -, -, -, -, -, -, -, href, -⟩ := hstands
    exact href
  · obtain ⟨-, -, -, href, -⟩ := hstands
    exact fun c hc => isRefChar_of_isNameChar (href c hc)
  · obtain ⟨-, -, -, -, href, -⟩ := hstands
    exact fun c hc => isRefChar_of_isNameChar (href c hc)

def arrayBefore (arrName : Str) : List Regex :=
  [.literal (str "var"), .spaces1, .literal arrName, .spaces, .literal (str "="), .spaces,
    .literal (str "[")]

theorem arrayPattern_eq (arrName : Str) :
    arrayPattern arrName = .around (arrayBefore arrName) 1 (.many (· != ']') 1 none)
      [.literal (str "]")] := rfl

theorem around_iff_arrayField {arrName elements : Str} :
    Regex.Around (arrayBefore arrName) (.many (· != ']') 1 none)
      [.literal (str "]")] rest elements ↔
      ArrayField arrName rest elements := by
  simp only [Regex.Around, arrayBefore, Regex.texts_literal, Regex.texts_spaces1,
    Regex.texts_spaces, Regex.texts_nil, Regex.denotes_atLeast, bne_iff_ne, ArrayField,
    List.forall_mem_cons, List.not_mem_nil, false_implies, implies_true,
    and_true]
  constructor
  · rintro ⟨_, _, more, rfl,
      ⟨_, rfl, first, _, rfl, ⟨hne, hfirst⟩, _, rfl, second, _, rfl, hsecond, _, rfl, third, _,
      rfl, hthird, _, rfl, rfl⟩, ⟨helements, hleast⟩, _, rfl, rfl⟩
    refine ⟨first, second, third, more, hne, ⟨hfirst, hsecond, hthird⟩,
      List.length_pos_iff.mp hleast, helements, ?_⟩
    simp [str]
  · rintro ⟨first, second, third, more, hne, ⟨hfirst, hsecond, hthird⟩, hsome, helements, rfl⟩
    refine ⟨_, _, more, ?_,
      ⟨_, rfl, first, _, rfl, ⟨hne, hfirst⟩, _, rfl, second, _, rfl, hsecond, _, rfl, third, _,
      rfl, hthird, _, rfl, rfl⟩, ⟨helements, List.length_pos_iff.mpr hsome⟩, _, rfl, rfl⟩
    simp [str]

-- The name of the array ends before the equals sign, and the elements at the first bracket.
theorem ArrayField.unique {arrName elements other : Str} (hname : '=' ∉ arrName)
    (h : ArrayField arrName rest elements) (hother : ArrayField arrName rest other) :
    other = elements := by
  have hbefore {first second : Str} (hfirst : ∀ c ∈ first, Regex.isSpace c)
      (hsecond : ∀ c ∈ second, Regex.isSpace c) :
      ∀ c ∈ first ++ (arrName ++ second), (c != '=') = true := by
    intro c hc
    rw [bne_iff_ne]
    rintro rfl
    simp only [List.mem_append] at hc
    rcases hc with hc | hc | hc
    · exact absurd (hfirst _ hc) (by decide)
    · exact hname hc
    · exact absurd (hsecond _ hc) (by decide)
  have hequals : ('=' != '=') = false := rfl
  have hopen : Regex.isSpace '[' = false := rfl
  have hclose : (']' != ']') = false := rfl
  obtain ⟨first, second, third, more, -, hruns, -, helements, rfl⟩ := h
  obtain ⟨first', second', third', more', -, hruns', -, helements', he⟩ := hother
  simp only [List.forall_mem_cons, List.not_mem_nil, false_implies, implies_true, and_true]
    at hruns hruns'
  have hline := List.append_cancel_left he
  rw [← List.append_assoc arrName, ← List.append_assoc first, ← List.append_assoc arrName,
    ← List.append_assoc first'] at hline
  obtain ⟨-, -, hvalue⟩ :=
    split_run_unique (hbefore hruns.1 hruns.2.1) (hbefore hruns'.1 hruns'.2.1) hequals hequals hline
  obtain ⟨-, -, hlist⟩ := split_run_unique hruns.2.2 hruns'.2.2 hopen hopen hvalue
  exact (split_run_unique (fun c hc => bne_iff_ne.mpr (helements c hc))
    (fun c hc => bne_iff_ne.mpr (helements' c hc)) hclose hclose hlist).1.symm

theorem locates_array {arrName : Str} (hname : '=' ∉ arrName) :
    (arrayPattern arrName).Locates 1 (ArrayField arrName) := by
  have hspaces : Regex.Plain .spaces := Regex.plain_many _ _ _
  have hspaces1 : Regex.Plain .spaces1 := Regex.plain_many _ _ _
  rw [arrayPattern_eq]
  refine Regex.locates_around ?_ (Regex.plain_many _ _ _) ?_ (fun _ _ => around_iff_arrayField)
    fun _ _ _ h => h.unique hname
  · simp [arrayBefore, Regex.plain_literal, hspaces, hspaces1]
  · simp [Regex.plain_literal]

theorem resolveArrayElement_eq_some_iff (href : ∀ c ∈ ref, isRefChar c) :
    resolveArrayElement js ref = some name ↔ ElementAt js ref name := by
  have hequals : '=' ∉ substringBefore ref '[' := fun hm =>
    absurd (href '=' ((List.takeWhile_prefix _).subset hm)) (by decide)
  have hlocates := locates_array hequals
  rw [resolveArrayElement, ElementAt]
  simp only [Option.bind_eq_bind, Option.bind_eq_some_iff, hlocates.eq_some_iff]
  generalize (toIntOrNull (substringBefore (substringAfter ref '[') ']')).getD 0 = position
  constructor
  · rintro ⟨elements, helements, hname⟩
    split_ifs at hname with hnegative
    · cases hname
    · obtain ⟨element, helement, htrim⟩ := Option.bind_eq_some_iff.mp hname
      exact ⟨elements, element, position.toNat,
        helements, by omega, helement, (Option.some.inj htrim).symm⟩
  · rintro ⟨elements, element, index, helements, rfl, helement, rfl⟩
    refine ⟨elements, helements, ?_⟩
    rw [if_neg (by omega), Int.toNat_natCast]
    exact Option.bind_eq_some_iff.mpr ⟨element, helement, rfl⟩

-- The function for n is the one that the first of the four forms refers to, at the first
-- place where something of this form stands, by its name or as an element of an array.
theorem extractNFunctionName_eq_some_iff (js name : Str) : extractNFunctionName js = some name ↔
    ∃ ref, FirstOf referenceForms js ref ∧
      ('[' ∉ ref ∧ name = ref ∨ '[' ∈ ref ∧ ElementAt js ref name) := by
  rw [extractNFunctionName, Option.bind_eq_bind, Option.bind_eq_some_iff]
  refine exists_congr fun ref => ?_
  rw [Regex.findSome?_eq_some_iff locates_reference]
  refine and_congr_right fun href => ?_
  split_ifs with hbracket
  · rw [resolveArrayElement_eq_some_iff (isRefChar_of_firstOf href)]
    simp [hbracket]
  · simp [hbracket, eq_comm]

end

end Ytdlpdroid.NParamDecipherer
