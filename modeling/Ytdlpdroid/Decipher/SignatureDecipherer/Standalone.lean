import Ytdlpdroid.Decipher.SignatureDecipherer.Players

namespace Ytdlpdroid

open Text JsFunctionExtractor

namespace SignatureDecipherer

def separator : Str := str ";\nreturn "

-- The code that `extractSigFunctionCode` builds of a helper and a function.
def wrapped (helperName helperObj mainFn : Str) : Str :=
  str "(function()\x7bvar " ++ helperName ++ str "=" ++ helperObj ++ separator ++ mainFn ++
    str ";\x7d)()"

-- The code in which the whole helper is bound to its name and the whole function is returned.
def SigPlayer.standalone (player : SigPlayer) : Str :=
  wrapped player.helperName (str "\x7b" ++ player.members) player.mainFn

theorem SigPlayer.standalone_contains (player : SigPlayer) : player.mainFn <:+: player.standalone ∧
    str "var " ++ player.helperName ++ str "=\x7b" ++ player.members <:+: player.standalone := by
  constructor
  · exact ⟨_, _, rfl⟩
  · refine ⟨str "(function()\x7b", separator ++ player.mainFn ++ str ";\x7d)()", ?_⟩
    simp [standalone, wrapped, str]

-- The separator is found again in one way, unless it is repeated.
theorem separator_cases {gap left right : Str}
    (h : separator ++ left = gap ++ (separator ++ right)) :
    gap = [] ∨ ∃ more, gap = separator ++ more ∧ left = more ++ (separator ++ right) := by
  rcases List.append_eq_append_iff.mp h with ⟨more, hgap, hleft⟩ | ⟨more, hseparator, hright⟩
  · exact Or.inr ⟨more, hgap, hleft⟩
  · have hstart : separator = ';' :: str "\nreturn " := rfl
    cases gap with
    | nil => exact Or.inl rfl
    | cons c gap =>
        cases more with
        | nil =>
            rw [List.append_nil] at hseparator
            refine Or.inr ⟨[], by rw [List.append_nil, hseparator], ?_⟩
            rw [List.nil_append, hright, List.nil_append]
        | cons d more =>
            -- The first character of the separator would stand in it a second time.
            rw [hstart, List.cons_append] at hright
            obtain rfl := (List.cons.inj hright).1
            rw [hstart, List.cons_append] at hseparator
            have hm : ';' ∈ str "\nreturn " := by
              rw [(List.cons.inj hseparator).2]
              simp
            exact absurd hm (by decide)

theorem wrapped_inj {name other helperObj mainFn obj fn : Str} (hname : IsName name)
    (hother : IsIdentifier other) (h : wrapped name helperObj mainFn = wrapped other obj fn) :
    name = other ∧ helperObj ++ (separator ++ mainFn) = obj ++ (separator ++ fn) := by
  have hequals : str "=" = ['='] := rfl
  simp only [wrapped, List.append_assoc, List.append_cancel_left_eq, hequals,
    List.singleton_append] at h
  obtain ⟨rfl, hrest⟩ :=
    split_before_unique (c := '=') (hname.not_mem (by decide)) (hother.not_mem (by decide)) h
  have hsame : helperObj ++ (separator ++ mainFn) ++ str ";\x7d)()" =
      obj ++ (separator ++ fn) ++ str ";\x7d)()" := by
    rw [List.append_assoc, List.append_assoc, List.append_assoc, List.append_assoc]
    exact hrest
  exact ⟨rfl, List.append_cancel_right hsame⟩

-- The code is the function alone, or wrapped with the helper of its first call.
theorem extractSigFunctionCode_ok {js code : Str} (h : extractSigFunctionCode js = .ok code) :
    ∃ fnName fn, foundName js = some fnName ∧ extractFunctionBody js fnName = some fn ∧
      (code = fn ∨ ∃ name obj, FirstCall fn name ∧ extractObjectLiteral js name = some obj ∧
        code = wrapped name obj fn) := by
  unfold extractSigFunctionCode at h
  rw [← foundName] at h
  cases hname : foundName js with
  | none => simp [hname] at h
  | some fnName =>
      simp only [hname] at h
      cases hbody : extractFunctionBody js fnName with
      | none => simp [hbody] at h
      | some fn =>
          simp only [hbody] at h
          refine ⟨fnName, fn, rfl, hbody, ?_⟩
          cases hcall : helperPattern.findGroup fn 1 with
          | none =>
              simp only [hcall] at h
              exact Or.inl (Except.ok.inj h).symm
          | some name =>
              simp only [hcall] at h
              cases hliteral : extractObjectLiteral js name with
              | none =>
                  simp only [hliteral] at h
                  exact Or.inl (Except.ok.inj h).symm
              | some obj =>
                  simp only [hliteral] at h
                  exact Or.inr
                    ⟨name, obj, findGroup_helperPattern_iff.mp hcall, hliteral,
                      (Except.ok.inj h).symm⟩

theorem extractSigFunctionCode_of_parts {js fnName fn name obj : Str}
    (hname : foundName js = some fnName) (hbody : extractFunctionBody js fnName = some fn)
    (hcall : FirstCall fn name) (hliteral : extractObjectLiteral js name = some obj) :
    extractSigFunctionCode js = .ok (wrapped name obj fn) := by
  unfold extractSigFunctionCode
  rw [← foundName, hname]
  simp only [hbody, findGroup_helperPattern_iff.mpr hcall, hliteral]
  rfl

-- What the wrapped code is built of.
theorem extractSigFunctionCode_wrapped_iff {js helperName helperObj mainFn : Str}
    (h : IsIdentifier helperName) :
    extractSigFunctionCode js = .ok (wrapped helperName helperObj mainFn) ↔
      ∃ fnName fn obj, foundName js = some fnName ∧ extractFunctionBody js fnName = some fn ∧
        FirstCall fn helperName ∧ extractObjectLiteral js helperName = some obj ∧
        obj ++ (separator ++ fn) = helperObj ++ (separator ++ mainFn) := by
  constructor
  · intro hcode
    obtain ⟨fnName, fn, hname, hbody, halone | ⟨name, obj, hcall, hliteral, hwrapped⟩⟩ :=
      extractSigFunctionCode_ok hcode
    · exact absurd halone.symm (extractFunctionBody_ne_wrapped (foundName_isName hname) hbody _)
    · have hhelper : IsName name := hcall.isHelperName.1
      obtain ⟨rfl, hsame⟩ := wrapped_inj hhelper h hwrapped.symm
      exact ⟨fnName, fn, obj, hname, hbody, hcall, hliteral, hsame⟩
  · rintro ⟨fnName, fn, obj, hname, hbody, hcall, hliteral, hsame⟩
    have hwrapped : wrapped helperName obj fn = wrapped helperName helperObj mainFn := by
      simp only [wrapped, List.append_assoc]
      rw [← List.append_assoc separator, ← List.append_assoc obj, hsame]
      simp only [List.append_assoc]
    rw [extractSigFunctionCode_of_parts hname hbody hcall hliteral, hwrapped]

namespace SigPlayer

-- The names are ones that the patterns can take, the call and the definition that match first are
-- the function's own, and the brace rule reads the helper whole.
structure Readable (player : SigPlayer) : Prop where
  fnName : IsName player.fnName
  call : ∀ before rest, player.js = before ++ rest → sigCall.Leftmost before rest →
    str ".sig||" ++ player.fnName ++ str "(" <+: rest
  definition : ∀ before rest, player.js = before ++ rest →
    (startPattern player.fnName).Leftmost before rest → player.mainFn <+: rest
  helperName : IsHelperName player.helperName
  -- The end of the parameter's name is the helper's name, or too short for the pattern.
  called : calleeAt player.param = player.helperName ∨
    (calleeAt player.param).length < 2 ∧ ∃ call ∈ player.calls, IsName call.1
  helperObj : IsBlock backslashRule (str "\x7b" ++ player.members)

variable (player : SigPlayer)

theorem firstCall_helper_iff : FirstCall player.mainFn player.helperName ↔
    IsHelperName player.helperName ∧ (calleeAt player.param = player.helperName ∨
      (calleeAt player.param).length < 2 ∧ ∃ call ∈ player.calls, IsName call.1) := by
  constructor
  · intro h
    refine ⟨h.isHelperName, ?_⟩
    rcases firstCall_mainFn.mp h with ⟨-, hparam⟩ | ⟨hshort, -, hcalls, -⟩
    · exact Or.inl hparam.symm
    · exact Or.inr ⟨hshort, hcalls⟩
  · rintro ⟨hhelper, hparam | ⟨hshort, hcalls⟩⟩
    · exact firstCall_mainFn.mpr (Or.inl ⟨hparam ▸ hhelper.2.1, hparam.symm⟩)
    · have hself := calleeAt_eq_self_iff.mpr ⟨hhelper.1, hhelper.2.2⟩
      exact firstCall_mainFn.mpr (Or.inr ⟨hshort, hself.symm ▸ hhelper.2.1, hcalls, hself.symm⟩)

-- The function's name is found where the pattern of the call site matches first.
theorem foundName_iff_first (h : IsName player.fnName) : foundName player.js = some player.fnName ↔
    ∀ before rest, player.js = before ++ rest → sigCall.Leftmost before rest →
      str ".sig||" ++ player.fnName ++ str "(" <+: rest := by
  have hjs :
      player.js =
        player.callBefore ++ (str ".sig||" ++ (player.fnName ++ '(' :: player.callAfter)) := by
    refine player.call_stands.trans ?_
    simp [str]
  have hstarts : ∀ rest, (∃ after, rest = str ".sig||" ++ (player.fnName ++ '(' :: after)) ↔
      str ".sig||" ++ player.fnName ++ str "(" <+: rest := by
    intro rest
    constructor
    · rintro ⟨after, rfl⟩
      exact ⟨after, by simp [str]⟩
    · rintro ⟨after, rfl⟩
      exact ⟨after, by simp [str]⟩
  obtain ⟨first, more, hfirst, hleft⟩ :=
    Regex.exists_leftmost sigCall_anchorFree (matchesAt_sigCall player.fnName_identifier.1 h) hjs
  rw [hfirst, foundName_iff hleft h, hstarts]
  constructor
  · intro hmore before rest he hother
    obtain ⟨-, rfl⟩ := hother.unique hleft he
    exact hmore
  · exact fun hall => hall first more rfl hleft

theorem newline_not_mem_mainFn : '\n' ∉ player.mainFn := by
  rw [player.mainFn_eq]
  simp only [List.mem_append, List.mem_cons, not_or]
  exact ⟨player.not_mem_mainHead (by decide) (by decide), by decide,
    player.not_mem_mainBody (by decide) (by decide) (by decide), by decide, by simp⟩

theorem extractSigFunctionCode_of_readable (h : player.Readable) :
    extractSigFunctionCode player.js = .ok player.standalone :=
  extractSigFunctionCode_of_parts ((player.foundName_iff_first h.fnName).mpr h.call)
    (player.extractFunctionBody_iff_first.mpr h.definition)
    (player.firstCall_helper_iff.mpr ⟨h.helperName, h.called⟩)
    (player.extractObjectLiteral_iff.mpr ⟨h.helperObj, List.prefix_append ..⟩)

-- A helper in which the separator does not stand is found whole or not at all.
theorem readable_of_standalone (hwhole : ¬separator <:+: player.members)
    (h : extractSigFunctionCode player.js = .ok player.standalone) : player.Readable := by
  rw [standalone, extractSigFunctionCode_wrapped_iff player.helperName_identifier] at h
  obtain ⟨fnName, fn, obj, hname, hbody, hcall, hliteral, hsame⟩ := h
  obtain ⟨hblock, -⟩ := player.extractObjectLiteral_iff.mp hliteral
  obtain ⟨rfl, rfl⟩ : obj = str "\x7b" ++ player.members ∧ fn = player.mainFn := by
    rcases List.append_eq_append_iff.mp hsame with ⟨gap, hobj, hrest⟩ | ⟨gap, hobj, hrest⟩
    · rcases separator_cases hrest with rfl | ⟨more, rfl, rfl⟩
      · rw [List.append_nil] at hobj
        rw [List.nil_append, List.append_cancel_left_eq] at hrest
        exact ⟨hobj.symm, hrest⟩
      · obtain ⟨inner, -, rfl⟩ := hblock
        refine absurd ⟨inner ++ ['\x7d'], more, ?_⟩ hwhole
        rw [List.append_assoc]
        exact (List.cons.inj hobj).2.symm
    · rcases separator_cases hrest with rfl | ⟨more, -, hmain⟩
      · rw [List.append_nil] at hobj
        rw [List.nil_append, List.append_cancel_left_eq] at hrest
        exact ⟨hobj, hrest.symm⟩
      · refine absurd ?_ player.newline_not_mem_mainFn
        rw [hmain]
        simp [separator, str]
  have hfnName := foundName_isName hname
  obtain rfl := name_of_mainFn hfnName hbody
  obtain ⟨hhelper, hcalled⟩ := player.firstCall_helper_iff.mp hcall
  exact ⟨hfnName, (player.foundName_iff_first hfnName).mp hname,
    player.extractFunctionBody_iff_first.mp hbody, hhelper, hcalled, hblock⟩

-- For the naming schemes that the patterns can read, the code contains the function and its
-- helper. The wrapper that can be run alone results for no others.
theorem extractSigFunctionCode_contains :
    (player.Readable → ∃ code, extractSigFunctionCode player.js = .ok code ∧
      player.mainFn <:+: code ∧
      str "var " ++ player.helperName ++ str "=\x7b" ++ player.members <:+: code) ∧
    (¬separator <:+: player.members →
      (extractSigFunctionCode player.js = .ok player.standalone ↔ player.Readable)) :=
  ⟨fun h => ⟨player.standalone, player.extractSigFunctionCode_of_readable h,
      player.standalone_contains⟩,
    fun hwhole => ⟨player.readable_of_standalone hwhole, player.extractSigFunctionCode_of_readable⟩⟩

end SigPlayer

-- Names of one character.
def shortNaming : Naming where
  fnName := str "f"
  param := str "a"
  helperName := str "T"
  calls := [(str "r", str "3")]
  fnName_identifier := ⟨by decide, List.all_eq_true.mp (by decide)⟩
  param_identifier := ⟨by decide, List.all_eq_true.mp (by decide)⟩
  helperName_identifier := ⟨by decide, List.all_eq_true.mp (by decide)⟩
  method_identifier := List.forall_mem_singleton.mpr ⟨by decide, List.all_eq_true.mp (by decide)⟩
  constant := List.forall_mem_singleton.mpr fun c hm =>
    Or.inl (List.all_eq_true.mp (by decide) c hm)

def shortMembers : Str := str "r:function(a)\x7ba.reverse()\x7d\x7d"

def shortJs : Str :=
  str "var T=\x7b" ++ shortMembers ++ str ";" ++ shortNaming.mainFn ++ str ";b.sig||f(c)"

-- The helper's name stands in the helper and in the function only.
theorem shortJs_place {before after : Str} (h : shortJs = before ++ (str "T" ++ after)) :
    before.length = 4 ∨ before.length = 63 := by
  have hall : ∀ first ∈ List.range (shortJs.length + 1),
      (shortJs.drop first).take 1 = str "T" → first = 4 ∨ first = 63 := by decide +kernel
  refine hall before.length (List.mem_range.mpr ?_) ?_
  · rw [h, List.length_append]
    omega
  · rw [h, List.drop_left]
    rfl

def shortPlayer : SigPlayer where
  toNaming := shortNaming
  js := shortJs
  members := shortMembers
  helperBefore := []
  helperAfter := str ";" ++ shortNaming.mainFn ++ str ";b.sig||f(c)"
  helper_stands := by decide
  mainBefore := str "var T=\x7b" ++ shortMembers ++ str ";"
  mainAfter := str ";b.sig||f(c)"
  main_stands := by decide
  callBefore := str "var T=\x7b" ++ shortMembers ++ str ";" ++ shortNaming.mainFn ++ str ";b"
  callAfter := str "c)"
  call_stands := by decide
  helper_unmentioned := by
    intro before after h _
    unfold FallsInto
    rcases shortJs_place h with hplace | hplace
    · rw [hplace]
      exact Or.inl (by decide)
    · rw [hplace]
      exact Or.inr (Or.inl (by decide))

-- The helper pattern does not take a name of one character, so the helper is missing.
theorem extractSigFunctionCode_loses_helper :
    ¬∀ player : SigPlayer, ∃ code, extractSigFunctionCode player.js = .ok code ∧
      player.mainFn <:+: code ∧
        str "var " ++ player.helperName ++ str "=\x7b" ++ player.members <:+: code := by
  intro h
  obtain ⟨code, hcode, -, hhelper⟩ := h shortPlayer
  have halone : extractSigFunctionCode shortPlayer.js = .ok shortNaming.mainFn := by decide +kernel
  obtain rfl := Except.ok.inj (halone.symm.trans hcode)
  exact absurd hhelper (by decide +kernel)

-- One of two characters is found.
def longNaming : Naming :=
  { shortNaming with
    helperName := str "Tb"
    helperName_identifier := ⟨by decide, List.all_eq_true.mp (by decide)⟩ }

def longJs : Str :=
  str "var Tb=\x7b" ++ shortMembers ++ str ";" ++ longNaming.mainFn ++ str ";b.sig||f(c)"

theorem longJs_place {before after : Str} (h : longJs = before ++ (str "Tb" ++ after)) :
    before.length = 4 ∨ before.length = 64 := by
  have hall : ∀ first ∈ List.range (longJs.length + 1),
      (longJs.drop first).take 2 = str "Tb" → first = 4 ∨ first = 64 := by decide +kernel
  refine hall before.length (List.mem_range.mpr ?_) ?_
  · rw [h, List.length_append]
    omega
  · rw [h, List.drop_left]
    rfl

def longPlayer : SigPlayer where
  toNaming := longNaming
  js := longJs
  members := shortMembers
  helperBefore := []
  helperAfter := str ";" ++ longNaming.mainFn ++ str ";b.sig||f(c)"
  helper_stands := by decide
  mainBefore := str "var Tb=\x7b" ++ shortMembers ++ str ";"
  mainAfter := str ";b.sig||f(c)"
  main_stands := by decide
  callBefore := str "var Tb=\x7b" ++ shortMembers ++ str ";" ++ longNaming.mainFn ++ str ";b"
  callAfter := str "c)"
  call_stands := by decide
  helper_unmentioned := by
    intro before after h _
    unfold FallsInto
    rcases longJs_place h with hplace | hplace
    · rw [hplace]
      exact Or.inl (by decide)
    · rw [hplace]
      exact Or.inr (Or.inl (by decide))

theorem extractSigFunctionCode_contains_long :
    longPlayer.Readable ∧ ∃ code, extractSigFunctionCode longJs = .ok code ∧
      longNaming.mainFn <:+: code ∧ str "var Tb=\x7b" ++ shortMembers <:+: code := by
  have hcode : extractSigFunctionCode longJs = .ok longPlayer.standalone := by decide +kernel
  obtain ⟨hcontains, hiff⟩ := longPlayer.extractSigFunctionCode_contains
  have hreadable := (hiff (by decide +kernel)).mp hcode
  exact ⟨hreadable, hcontains hreadable⟩

end SignatureDecipherer

end Ytdlpdroid
