import Ytdlpdroid.Decipher.SignatureDecipherer.Naming

namespace Ytdlpdroid

open Text JsFunctionExtractor

namespace SignatureDecipherer

-- A place between two texts falls into a part that stands after another text.
def FallsInto (before start part : Str) : Prop :=
  start.length ≤ before.length ∧ before.length < start.length + part.length

-- A character that ends an identifier. Beyond ASCII every character may belong to one.
def IsBoundary (c : Char) : Prop := NParamDecipherer.isNameChar c = false ∧ c.toNat < 128

-- What stands between two texts is a whole identifier.
def IsWord (before after : Str) : Prop :=
  (∀ c, before.getLast? = some c → IsBoundary c) ∧ ∀ c, after.head? = some c → IsBoundary c

-- A player JS with a helper object, a signature function and a call site of it, in any order. Of
-- the names, only the helper's must not be mentioned in the text around the three.
structure SigPlayer extends Naming where
  js : Str
  -- The helper object without its first brace.
  members : Str
  helperBefore : Str
  helperAfter : Str
  helper_stands :
    js = helperBefore ++ (str "var " ++ helperName ++ str "=\x7b" ++ members ++ helperAfter)
  mainBefore : Str
  mainAfter : Str
  main_stands : js = mainBefore ++ (toNaming.mainFn ++ mainAfter)
  callBefore : Str
  callAfter : Str
  call_stands : js = callBefore ++ (str ".sig||" ++ fnName ++ str "(" ++ callAfter)
  helper_unmentioned : ∀ before after, js = before ++ (helperName ++ after) → IsWord before after →
    FallsInto before helperBefore (str "var " ++ helperName ++ str "=\x7b" ++ members) ∨
      FallsInto before mainBefore toNaming.mainFn ∨
        FallsInto before callBefore (str ".sig||" ++ fnName ++ str "(")

-- A text that is split inside a part.
theorem FallsInto.split {other more before part after : Str} (h : FallsInto other before part)
    (he : other ++ more = before ++ (part ++ after)) :
    ∃ inside rest, part = inside ++ rest ∧ rest ≠ [] ∧ other = before ++ inside ∧
      more = rest ++ after := by
  obtain ⟨hstart, hend⟩ := h
  obtain ⟨inside, rfl⟩ :=
    List.prefix_of_prefix_length_le ⟨part ++ after, he.symm⟩ (List.prefix_append ..) hstart
  rw [List.append_assoc, List.append_cancel_left_eq] at he
  have hlength : inside.length < part.length := by
    rw [List.length_append] at hend
    omega
  obtain ⟨rest, rfl⟩ :=
    List.prefix_of_prefix_length_le ⟨more, he⟩ (List.prefix_append part after)
      (Nat.le_of_lt hlength)
  refine ⟨inside, rest, rfl, ?_, rfl, ?_⟩
  · rintro rfl
    rw [List.append_nil] at hlength
    omega
  · rwa [List.append_assoc, List.append_cancel_left_eq] at he

section

variable {naming : Naming} {left right inside rest after tail : Str}

-- The characters of the function's body that do not belong to a name or a constant.
def punctuation : Str := str "=.(,); \""

theorem not_mem_fixed {c : Char} (hname : NParamDecipherer.isNameChar c = false)
    (hc : c ∉ punctuation) {text : Str}
    (h : text.all fun d => NParamDecipherer.isNameChar d || punctuation.contains d) : c ∉ text := by
  intro hm
  have hd := List.all_eq_true.mp h c hm
  rw [hname, Bool.false_or, List.contains_iff_mem] at hd
  exact hc hd

theorem Naming.not_mem_mainBody {c : Char} (hname : NParamDecipherer.isNameChar c = false)
    (hminus : c ≠ '-') (hc : c ∉ punctuation) : c ∉ naming.mainBody := by
  have hparam := naming.param_identifier.not_mem hname
  have hcalls : c ∉ naming.calls.flatMap naming.callText := by
    intro hm
    obtain ⟨call, hcall, htext⟩ := List.mem_flatMap.mp hm
    refine absurd htext ?_
    simp only [callText, List.mem_append, not_or]
    exact ⟨⟨⟨⟨⟨⟨⟨naming.helperName_identifier.not_mem hname, not_mem_fixed hname hc (by decide)⟩,
      (naming.method_identifier call hcall).not_mem hname⟩, not_mem_fixed hname hc (by decide)⟩,
      hparam⟩, not_mem_fixed hname hc (by decide)⟩, naming.not_mem_constant hcall hname hminus⟩,
      not_mem_fixed hname hc (by decide)⟩
  simp only [mainBody, List.mem_append, not_or]
  exact ⟨⟨⟨⟨⟨⟨⟨hparam, not_mem_fixed hname hc (by decide)⟩, hparam⟩,
    not_mem_fixed hname hc (by decide)⟩, hcalls⟩, not_mem_fixed hname hc (by decide)⟩, hparam⟩,
    not_mem_fixed hname hc (by decide)⟩

-- A name, an equals sign and a brace, with white space between them.
def IsBinding (name text : Str) : Prop :=
  ∃ left right, text = name ++ (left ++ '=' :: right) ∧ (∀ c ∈ left, Regex.isSpace c) ∧
    ∀ c ∈ right, Regex.isSpace c

theorem IsBinding.not_mem {name text : Str} (h : IsBinding name text) (hname : IsIdentifier name)
    {c : Char} (hc : NParamDecipherer.isNameChar c = false) (hspace : Regex.isSpace c = false)
    (hequals : c ≠ '=') : c ∉ text := by
  obtain ⟨left, right, rfl, hleft, hright⟩ := h
  have hgap : ∀ gap : Str, (∀ d ∈ gap, Regex.isSpace d) → c ∉ gap := by
    intro gap hall hm
    rw [hall c hm] at hspace
    cases hspace
  simp only [List.mem_append, List.mem_cons, not_or]
  exact ⟨hname.not_mem hc, hgap left hleft, hequals, hgap right hright⟩

theorem ordinary_of_not_mem {c : Char} (h : c ∉ str "\"'\x60\x7b\x7d") :
    backslashRule.ordinary c := by
  refine ⟨?_, ?_, ?_⟩
  · rintro (rfl | rfl | rfl)
    all_goals exact h (by decide)
  · rintro rfl
    exact h (by decide)
  · rintro rfl
    exact h (by decide)

theorem ordinary_of_name {c : Char} (h : NParamDecipherer.isNameChar c) :
    backslashRule.ordinary c := by
  refine ordinary_of_not_mem fun hm => ?_
  have hnone : (str "\"'\x60\x7b\x7d").all fun d => !NParamDecipherer.isNameChar d := by decide
  simpa [h] using List.all_eq_true.mp hnone c hm

theorem isBoundary_of_isSpace {c : Char} (h : Regex.isSpace c) : IsBoundary c := by
  simp only [Regex.isSpace, Bool.or_eq_true, beq_iff_eq] at h
  rcases h with ((((rfl | rfl) | rfl) | rfl) | rfl) | rfl
  all_goals exact ⟨by decide, by decide⟩

-- The binding does not start in the word `var` of the helper's own declaration.
theorem IsBinding.not_var {name binding : Str} (hbinding : IsBinding name binding)
    (hname : IsIdentifier name) :
    binding ++ '\x7b' :: tail ≠ str "var " ++ (name ++ after) := by
  obtain ⟨left, right, rfl, hleft, -⟩ := hbinding
  obtain ⟨first, others, hfirst⟩ := List.exists_cons_of_ne_nil hname.1
  intro he
  obtain ⟨c, more, hc, hcname⟩ : ∃ c more, left ++ '=' :: (right ++ '\x7b' :: tail) = c :: more ∧
      NParamDecipherer.isNameChar c = false := by
    cases left with
    | nil => exact ⟨'=', _, rfl, by decide⟩
    | cons c left => exact ⟨c, _, rfl, (isBoundary_of_isSpace (hleft c List.mem_cons_self)).1⟩
  have hvar : ∀ d ∈ str "var", NParamDecipherer.isNameChar d := List.all_eq_true.mp (by decide)
  have hrun : name ++ c :: more = str "var" ++ ' ' :: (name ++ after) := by
    rw [← hc]
    simpa [str] using he
  obtain ⟨-, rfl, rfl⟩ := split_run_unique hname.2 hvar hcname (by decide) hrun
  -- After the white space stands an equals sign, and also the first character of the name.
  have hspace : ∀ d ∈ [' '], Regex.isSpace d := by simp [Regex.isSpace]
  have hfirstName : NParamDecipherer.isNameChar first := hname.2 first (hfirst ▸ List.mem_cons_self)
  have hfirstSpace : Regex.isSpace first = false := by
    by_contra hspaced
    rw [(isBoundary_of_isSpace (Bool.not_eq_false _ ▸ hspaced)).1] at hfirstName
    cases hfirstName
  rw [hfirst] at hc
  obtain ⟨-, rfl, -⟩ := split_run_unique hleft hspace (by decide) hfirstSpace hc
  exact absurd hfirstName (by decide)

-- What declares the name starts no earlier than the helper if the name falls into the helper.
theorem IsBinding.start_le {name binding gap other before : Str} (hbinding : IsBinding name binding)
    (hname : IsIdentifier name) (hgap : ∀ c ∈ gap, Regex.isSpace c)
    (he : other ++ (str "var" ++ gap) ++ (binding ++ '\x7b' :: tail) =
      before ++ (str "var " ++ (name ++ after)))
    (hstart : before.length ≤ (other ++ (str "var" ++ gap)).length) :
    before.length ≤ other.length := by
  by_contra hlt
  obtain ⟨skipped, rfl⟩ := List.prefix_of_prefix_length_le ⟨_, (List.append_assoc ..).symm.trans he⟩
    (List.prefix_append before _) (Nat.le_of_lt (Nat.lt_of_not_le hlt))
  rw [List.append_assoc other, List.append_assoc other skipped, List.append_cancel_left_eq] at he
  rw [List.length_append, List.length_append, Nat.add_le_add_iff_left] at hstart
  obtain ⟨left, hleft⟩ :=
    List.prefix_of_prefix_length_le ⟨_, he.symm⟩ (List.prefix_append ..) hstart
  rw [← hleft, List.append_assoc, List.append_cancel_left_eq] at he
  cases left with
  | nil => exact hbinding.not_var hname he
  | cons c left =>
      have hlong : str "var " = 'v' :: str "ar " := rfl
      have hshort : str "var" = 'v' :: str "ar" := rfl
      rw [hlong, List.cons_append, List.cons_append] at he
      obtain rfl := (List.cons.inj he).1
      cases skipped with
      | nil => simp at hlt
      | cons d skipped =>
          rw [hshort, List.cons_append, List.cons_append] at hleft
          have hm : 'v' ∈ str "ar" ++ gap := by
            rw [← (List.cons.inj hleft).2]
            simp
          rcases List.mem_append.mp hm with hm | hm
          · exact absurd hm (by decide)
          · exact absurd (hgap _ hm) (by decide)

-- In the signature function no brace follows an equals sign.
theorem Naming.no_binding_in_mainFn {name binding : Str} (hname : IsIdentifier name)
    (hbinding : IsBinding name binding) (hpart : naming.mainFn = inside ++ rest) (hne : rest ≠ [])
    (he : binding ++ '\x7b' :: tail = rest ++ after) :
    False := by
  have hclose : '\x7d' ∉ binding ++ ['\x7b'] := by
    simp only [List.mem_append, List.mem_singleton, not_or]
    exact ⟨hbinding.not_mem hname (by decide) (by decide) (by decide), by decide⟩
  have hlast : rest.getLast? = some '\x7d' := by
    rw [← List.getLast?_append_of_ne_nil inside hne, ← hpart]
    exact List.getLast?_concat
  have hbeyond : (binding ++ ['\x7b']) ++ tail = rest ++ after := by
    rw [← he]
    simp
  obtain ⟨more, rfl⟩ := prefix_of_getLast hbeyond hlast hclose
  -- The brace is the one after the parameter.
  have hopen : (inside ++ binding) ++ '\x7b' :: more =
      naming.mainHead ++ '\x7b' :: (naming.mainBody ++ ['\x7d']) := by
    rw [List.append_assoc, ← List.singleton_append, ← List.append_assoc binding, ← hpart]
    simp [mainFn, str]
  have hbody : '\x7b' ∉ naming.mainBody ++ ['\x7d'] := by
    simp only [List.mem_append, List.mem_singleton, not_or]
    exact ⟨naming.not_mem_mainBody (by decide) (by decide) (by decide), by decide⟩
  obtain ⟨hhead, -⟩ :=
    split_around_unique (naming.not_mem_mainHead (by decide) (by decide)) hbody hopen
  have hbindingLast : binding.getLast? = some ')' := by
    obtain ⟨left, right, rfl, -⟩ := hbinding
    rw [← List.getLast?_append_of_ne_nil inside (by simp), hhead]
    exact List.getLast?_concat
  exact hbinding.not_mem hname (by decide) (by decide) (by decide)
    (List.mem_of_getLast? hbindingLast)

-- At the call site the name is called.
theorem no_binding_in_call {fnName name binding : Str} (hfn : IsIdentifier fnName)
    (hname : IsIdentifier name) (hbinding : IsBinding name binding)
    (hpart : str ".sig||" ++ fnName ++ str "(" = inside ++ rest) (hne : rest ≠ [])
    (he : binding ++ '\x7b' :: tail = rest ++ after) : False := by
  have hclose : '(' ∉ binding ++ ['\x7b'] := by
    simp only [List.mem_append, List.mem_singleton, not_or]
    exact ⟨hbinding.not_mem hname (by decide) (by decide) (by decide), by decide⟩
  have hlast : rest.getLast? = some '(' := by
    rw [← List.getLast?_append_of_ne_nil inside hne, ← hpart]
    exact List.getLast?_concat
  have hbeyond : (binding ++ ['\x7b']) ++ tail = rest ++ after := by
    rw [← he]
    simp
  obtain ⟨more, rfl⟩ := prefix_of_getLast hbeyond hlast hclose
  have hopen : '\x7b' ∈ str ".sig||" ++ fnName ++ str "(" := by
    rw [hpart]
    simp
  revert hopen
  simp only [List.mem_append, imp_false, not_or]
  exact ⟨⟨by decide, hfn.not_mem (by decide)⟩, by decide⟩

-- The signature function is one that the brace rule reads whole.
theorem Naming.balanced_mainBody (naming : Naming) : Balanced backslashRule naming.mainBody := by
  have hname : ∀ name, IsIdentifier name → Balanced backslashRule name :=
    fun name h => .of_ordinary fun c hm => ordinary_of_name (h.2 c hm)
  have hfixed : ∀ text : Str, (text.all fun c => !(str "\"'\x60\x7b\x7d").contains c) →
      Balanced backslashRule text := by
    intro text htext
    refine .of_ordinary fun c hm => ordinary_of_not_mem ?_
    simpa using List.all_eq_true.mp htext c hm
  have hquotes : Balanced backslashRule ('"' :: [] ++ ['"']) :=
    .literal (.inl rfl) ⟨fun before after he => by simp at he, by simp⟩ .nil
  have hcalls : ∀ calls : List (Str × Str), (∀ call ∈ calls, call ∈ naming.calls) →
      Balanced backslashRule (calls.flatMap naming.callText) := by
    intro calls hcalls
    induction calls with
    | nil => exact .nil
    | cons call calls ih =>
        obtain ⟨hcall, hcalls⟩ := List.forall_mem_cons.mp hcalls
        have hconstant : Balanced backslashRule call.2 := by
          refine .of_ordinary fun c hm => ?_
          rcases naming.constant call hcall c hm with hc | rfl
          · exact ordinary_of_name hc
          · exact ordinary_of_not_mem (by decide)
        have hhelper := hname _ naming.helperName_identifier
        have hmethod := hname _ (naming.method_identifier call hcall)
        have hparam := hname _ naming.param_identifier
        rw [List.flatMap_cons]
        exact (((((((hhelper.append (hfixed _ (by decide))).append hmethod).append
          (hfixed _ (by decide))).append
          hparam).append (hfixed _ (by decide))).append hconstant).append
            (hfixed _ (by decide))).append (ih hcalls)
  have hparam := hname _ naming.param_identifier
  have hsplit : Balanced backslashRule (str ".split(" ++ ('"' :: [] ++ ['"']) ++ str ");") :=
    ((hfixed _ (by decide)).append hquotes).append (hfixed _ (by decide))
  have hjoin : Balanced backslashRule (str ".join(" ++ ('"' :: [] ++ ['"']) ++ str ")") :=
    ((hfixed _ (by decide)).append hquotes).append (hfixed _ (by decide))
  exact ((((((hparam.append (hfixed _ (by decide))).append hparam).append hsplit).append
    (hcalls _ fun _ hm => hm)).append (hfixed _ (by decide))).append hparam).append hjoin

theorem Naming.mainFn_eq (naming : Naming) :
    naming.mainFn = naming.mainHead ++ '\x7b' :: (naming.mainBody ++ ['\x7d']) := by
  simp [mainFn, str]

theorem Naming.sourceAt_mainFn (naming : Naming) :
    SourceAt (naming.mainFn ++ after) naming.mainFn :=
  ⟨naming.mainHead, _, after, naming.not_mem_mainHead (by decide) (by decide),
    ⟨naming.mainBody, naming.balanced_mainBody, rfl⟩, naming.mainFn_eq, rfl⟩

theorem Naming.mainHead_header (naming : Naming) : IsHeader naming.fnName naming.mainHead :=
  .inl ⟨[], [], '(' :: naming.param ++ [')'], by simp [mainHead, str], by simp, by simp,
    [], naming.param, [], by simp, by simp, naming.param_identifier.not_mem (by decide), by simp⟩

end

namespace SigPlayer

variable (player : SigPlayer)

-- No declaration of the helper's name is bound to a literal before the helper.
theorem literal_leftmost : (literalPattern player.helperName).Leftmost player.helperBefore
    ((str "var " ++ player.helperName ++ str "=") ++
      '\x7b' :: (player.members ++ player.helperAfter)) := by
  have hjs : player.js = player.helperBefore ++
      ((str "var " ++ player.helperName ++ str "=") ++
        '\x7b' :: (player.members ++ player.helperAfter)) := by
    refine player.helper_stands.trans ?_
    simp [str]
  have hname := player.helperName_identifier
  refine ⟨⟨(str "var " ++ player.helperName ++ str "=") ++ ['\x7b'],
    ⟨player.members ++ player.helperAfter, by simp⟩,
    denotes_literalPattern.mpr
    ⟨[' '], [], [], by simp [str], by simp, by simp [Regex.isSpace], by simp, by simp⟩⟩, ?_⟩
  rintro other - he ⟨text, ⟨tail, rfl⟩, htext⟩
  obtain ⟨gap, left, right, rfl, hne, hgap, hleft, hright⟩ := denotes_literalPattern.mp htext
  let before := other ++ (str "var" ++ gap)
  let binding := player.helperName ++ (left ++ '=' :: right)
  have hbinding : IsBinding player.helperName binding := ⟨left, right, rfl, hleft, hright⟩
  have hplace : player.js = before ++ (binding ++ '\x7b' :: tail) := by
    rw [hjs, ← he]
    simp [before, binding]
  have hword : IsWord before (left ++ '=' :: (right ++ '\x7b' :: tail)) := by
    constructor
    · intro c hc
      rw [List.getLast?_append_of_ne_nil other (by simp [hne]),
        List.getLast?_append_of_ne_nil _ hne] at hc
      exact isBoundary_of_isSpace (hgap c (List.mem_of_getLast? hc))
    · intro c hc
      cases left with
      | nil =>
          obtain rfl := Option.some.inj hc
          exact ⟨by decide, by decide⟩
      | cons d left =>
          obtain rfl := Option.some.inj hc
          exact isBoundary_of_isSpace (hleft d List.mem_cons_self)
  have hmention := player.helper_unmentioned before _ (by rw [hplace]; simp [binding]) hword
  rcases hmention with hhelper | hmain | hcall
  · have hsame : before ++ (binding ++ '\x7b' :: tail) = player.helperBefore ++ (str "var " ++
        (player.helperName ++ (str "=" ++ '\x7b' :: (player.members ++ player.helperAfter)))) := by
      rw [← hplace, hjs]
      simp
    exact hbinding.start_le hname hgap hsame hhelper.1
  · obtain ⟨inside, rest, hpart, hrest, -, hmore⟩ :=
      hmain.split (hplace.symm.trans player.main_stands)
    exact (player.no_binding_in_mainFn hname hbinding hpart hrest hmore).elim
  · obtain ⟨inside, rest, hpart, hrest, -, hmore⟩ :=
      hcall.split (hplace.symm.trans player.call_stands)
    exact (no_binding_in_call player.fnName_identifier hname hbinding hpart hrest hmore).elim

-- The helper's literal is read up to the brace that the code takes for its last.
theorem extractObjectLiteral_iff {text : Str} :
    extractObjectLiteral player.js player.helperName = some text ↔
    IsBlock backslashRule text ∧ text <+: str "\x7b" ++ player.members ++ player.helperAfter := by
  have hjs : player.js = player.helperBefore ++
      ((str "var " ++ player.helperName ++ str "=") ++
        '\x7b' :: (player.members ++ player.helperAfter)) := by
    refine player.helper_stands.trans ?_
    simp [str]
  have hhead : '\x7b' ∉ str "var " ++ player.helperName ++ str "=" := by
    simp only [List.mem_append, not_or]
    exact ⟨⟨by decide, player.helperName_identifier.not_mem (by decide)⟩, by decide⟩
  rw [hjs, extractObjectLiteral_of_leftmost hhead player.literal_leftmost]
  rfl

-- The function is found where the pattern of its definition matches first.
theorem extractFunctionBody_iff_first :
    extractFunctionBody player.js player.fnName = some player.mainFn ↔
    ∀ before rest, player.js = before ++ rest → (startPattern player.fnName).Leftmost before rest →
      player.mainFn <+: rest := by
  rw [extractFunctionBody_iff]
  constructor
  · rintro ⟨first, more, hfirst, hleft, -, -, after, -, -, -, rfl⟩ before rest he hother
    obtain ⟨-, rfl⟩ := hother.unique hleft (hfirst.symm.trans he)
    exact List.prefix_append ..
  · intro h
    have hmatches : (startPattern player.fnName).MatchesAt (player.mainFn ++ player.mainAfter) := by
      refine ⟨player.mainHead ++ ['\x7b'], ⟨player.mainBody ++ ['\x7d'] ++ player.mainAfter, ?_⟩,
        denotes_startPattern.mpr ⟨player.mainHead, player.mainHead_header, rfl⟩⟩
      rw [player.mainFn_eq]
      simp
    obtain ⟨before, rest, he, hleft⟩ :=
      Regex.exists_leftmost (startPattern_anchorFree player.fnName) hmatches player.main_stands
    obtain ⟨after, rfl⟩ := h before rest he hleft
    exact ⟨before, _, he, hleft, player.sourceAt_mainFn⟩

end SigPlayer

section

variable {naming : Naming} {js name text : Str}

-- What is extracted begins like a definition of the name.
theorem extractFunctionBody_header (h : extractFunctionBody js name = some text) :
    ∃ head after more, IsHeader name head ∧ text ++ after = head ++ '\x7b' :: more ∧ text ≠ [] := by
  obtain ⟨before, rest, -, ⟨⟨start, ⟨more, hmore⟩, hstart⟩, -⟩, first, body, after, -,
    ⟨inner, -, rfl⟩, rfl, rfl⟩ :=
    extractFunctionBody_iff.mp h
  obtain ⟨head, hheader, rfl⟩ := denotes_startPattern.mp hstart
  exact ⟨head, after, more, hheader, by rw [← hmore]; simp, by simp⟩

-- A definition does not begin with a parenthesis.
theorem extractFunctionBody_ne_wrapped (hname : IsName name)
    (h : extractFunctionBody js name = some text) (rest : Str) : text ≠ '(' :: rest := by
  rintro rfl
  obtain ⟨head, after, more, hheader, he, -⟩ := extractFunctionBody_header h
  rcases hheader with ⟨left, right, params, rfl, hleft, -⟩ | ⟨gap, params, rfl, -⟩
  · have hrun : ∀ c ∈ name ++ left, (c != '(') = true := by
      intro c hm
      rcases List.mem_append.mp hm with hm | hm
      · exact bne_iff_ne.mpr fun hc => hname.not_mem isNameChar_parenthesis (hc ▸ hm)
      · exact bne_iff_ne.mpr fun hc => absurd (hleft c hm) (by rw [hc]; decide)
    cases hnl : name ++ left with
    | nil => simp [hnl, str] at he
    | cons c others =>
        have hc : (c != '(') = true := hrun c (hnl ▸ List.mem_cons_self)
        rw [hnl] at he
        exact bne_iff_ne.mp hc (List.cons.inj he).1.symm
  · simp [str] at he

-- Only the name itself is defined where the function stands.
theorem name_of_mainFn (hname : IsName name)
    (h : extractFunctionBody js name = some naming.mainFn) :
    name = naming.fnName := by
  obtain ⟨head, after, more, hheader, he, -⟩ := extractFunctionBody_header h
  have hfn := naming.fnName_identifier
  obtain ⟨tail, hmain⟩ : ∃ tail, naming.mainFn ++ after = naming.fnName ++ '=' :: tail := by
    simp only [Naming.mainFn, Naming.mainHead, str, List.append_assoc]
    exact ⟨_, rfl⟩
  rw [hmain] at he
  rcases hheader with ⟨left, right, params, rfl, hleft, -⟩ | ⟨gap, params, rfl, hne, hgap, -⟩
  · have hequals : '=' ∉ name ++ left := by
      rw [List.mem_append, not_or]
      exact ⟨hname.not_mem (by decide), fun hm => absurd (hleft _ hm) (by decide)⟩
    have hsplit : naming.fnName ++ '=' :: tail =
        (name ++ left) ++ '=' :: (right ++ (str "function" ++ (params ++ '\x7b' :: more))) := by
      rw [he]
      simp [str]
    obtain ⟨hsame, -⟩ := split_before_unique (hfn.not_mem (by decide)) hequals hsplit
    cases left with
    | nil => rw [hsame, List.append_nil]
    | cons c left =>
        have hc := hfn.2 c (hsame ▸ List.mem_append_right name List.mem_cons_self)
        rw [(isBoundary_of_isSpace (hleft c List.mem_cons_self)).1] at hc
        cases hc
  · obtain ⟨c, gap, rfl⟩ := List.exists_cons_of_ne_nil hne
    have hspace := hgap c List.mem_cons_self
    have hword : ∀ d ∈ str "function", NParamDecipherer.isNameChar d :=
      List.all_eq_true.mp (by decide)
    have hsplit : naming.fnName ++ '=' :: tail =
        str "function" ++ c :: (gap ++ (name ++ (params ++ '\x7b' :: more))) := by
      rw [he]
      simp
    obtain ⟨-, rfl, -⟩ :=
      split_run_unique hfn.2 hword (by decide) (isBoundary_of_isSpace hspace).1 hsplit
    exact absurd hspace (by decide)

end

end SignatureDecipherer

end Ytdlpdroid
