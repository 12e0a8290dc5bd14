import Ytdlpdroid.Decipher.NParamDecipherer
import Ytdlpdroid.Text.Query
import Ytdlpdroid.Text.Regex.Groups

namespace Ytdlpdroid

open Text Concurrent

namespace NParamDecipherer

-- The value of a parameter of the form n=v, unless it is empty.
def nValue : Str → Option Str
  | 'n' :: '=' :: c :: rest => some (c :: rest)
  | _ => none

-- Only a parameter n gets another value.
def withN (transformed param : Str) : Str :=
  if (nValue param).isSome then str "n=" ++ transformed else param

-- The outcome of deciphering one value, by the function of the player JS or by the whole player.
def decipherN (env : Env) (playerJs nValue : Str) : Action Str := do
  let fnCode ← functionCode env playerJs
  if fnCode = FULL_PLAYER_JS_SENTINEL then transformViaFullPlayerJs env playerJs nValue
  else executeJs env fnCode nValue

theorem nValue_eq_some {param value : Str} :
    nValue param = some value ↔ param = str "n=" ++ value ∧ value ≠ [] := by
  constructor
  · intro h
    unfold nValue at h
    split at h
    · obtain rfl := Option.some.inj h
      exact ⟨rfl, by simp⟩
    · cases h
  · rintro ⟨rfl, hne⟩
    obtain ⟨c, rest, rfl⟩ := List.exists_cons_of_ne_nil hne
    rfl

section

variable {rest text : Str} {params : List Str}

theorem transform_eq (env : Env) (url playerJs : Str) :
    transform env url playerJs = (N_PARAM_RE.findGroup url 2).elim (return url) fun value => do
      let transformed ← decipherN env playerJs value
      return N_PARAM_RE.replace (fun found => found.group 1 ++ transformed) url := by
  unfold transform
  cases N_PARAM_RE.findGroup url 2 with
  | none => rfl
  | some value =>
      simp only [Option.elim, decipherN, Prog.bind_bind]
      congr 1
      funext fnCode
      split_ifs
      · rfl
      · rfl

theorem anchorFree : N_PARAM_RE.AnchorFree := ⟨⟨trivial, Regex.anchorFree_literal _⟩, trivial⟩

-- A match starts with a separator and goes on to the next ampersand.
theorem matchesAt_iff : N_PARAM_RE.MatchesAt rest ↔
    ∃ c value more, isSeparator c ∧ value ≠ [] ∧ '&' ∉ value ∧
      rest = c :: (str "n=" ++ (value ++ more)) := by
  constructor
  · rintro ⟨-, ⟨more, rfl⟩, left, value, rfl, ⟨first, second, rfl, ⟨c, hc, rfl⟩, hliteral⟩, hall,
      hleast, -⟩
    obtain rfl := Regex.denotes_literal.mp hliteral
    refine ⟨c, value, more, hc, List.length_pos_iff.mp hleast, fun hm => ?_, by simp⟩
    exact absurd (hall '&' hm) (by decide)
  · rintro ⟨c, value, more, hc, hne, hvalue, rfl⟩
    refine ⟨c :: (str "n=" ++ value), ⟨more, by simp⟩, c :: str "n=", value, rfl,
      ⟨[c], str "n=", rfl, ⟨c, hc, rfl⟩, Regex.denotes_literal.mpr rfl⟩,
      fun d hd => ?_, List.length_pos_iff.mpr hne, nofun⟩
    exact bne_iff_ne.mpr fun he => hvalue (he ▸ hd)

-- No value goes on into the next parameter.
theorem moreParams_ne_append {value more : Str} (hne : value ≠ []) (hvalue : '&' ∉ value) :
    moreParams params ≠ value ++ more := by
  obtain ⟨c, value, rfl⟩ := List.exists_cons_of_ne_nil hne
  intro he
  cases params with
  | nil => cases he
  | cons first rest =>
      obtain ⟨rfl, -⟩ := List.cons.inj he
      exact hvalue List.mem_cons_self

-- A parameter of another form is no match, wherever it stands.
theorem not_matchesAt_of_nValue {c : Char} {param : Str} (h : nValue param = none) :
    ¬N_PARAM_RE.MatchesAt (c :: (param ++ moreParams params)) := by
  intro hmatches
  obtain ⟨d, value, more, -, hne, hvalue, he⟩ := matchesAt_iff.mp hmatches
  obtain ⟨rfl, hrest⟩ := List.cons.inj he
  rcases List.append_eq_append_iff.mp hrest with ⟨part, hpart, hmore⟩ | ⟨part, rfl, hmore⟩
  · by_cases hnil : part = []
    · rw [hnil, List.nil_append] at hmore
      exact moreParams_ne_append hne hvalue hmore
    · refine moreParams_ne_append hnil (fun hm => ?_) hmore
      have hname : '&' ∈ str "n=" := hpart ▸ List.mem_append_right _ hm
      exact absurd hname (by decide)
  · by_cases hnil : part = []
    · rw [hnil, List.nil_append] at hmore
      exact moreParams_ne_append hne hvalue hmore.symm
    · rw [nValue_eq_some.mpr ⟨rfl, hnil⟩] at h
      cases h

-- What is captured where a parameter n stands.
theorem head?_ends_param {c : Char} {value : Str} (offset : Nat) (hc : isSeparator c)
    (hne : value ≠ []) (hvalue : '&' ∉ value) :
    (N_PARAM_RE.ends ⟨offset, c :: (str "n=" ++ (value ++ moreParams params)), []⟩).head? =
      some ⟨offset + 3 + value.length, moreParams params, [(2, value), (1, c :: str "n=")]⟩ := by
  have hname :
      (Regex.group 1 (.seq (.chars fun c => c == '?' || c == '&') (.literal (str "n=")))).ends
      ⟨offset, c :: (str "n=" ++ (value ++ moreParams params)), []⟩ =
        [⟨offset + 3, value ++ moreParams params, [(1, c :: str "n=")]⟩] := by
    have hc' : (c == '?' || c == '&') = true := hc
    have hthree : offset + 1 + 1 + 1 - offset = 3 := by omega
    simp [Regex.ends, Regex.literal, Regex.Cursor.advance, str, hc', hthree]
  have hrun : (value ++ moreParams params).takeWhile (· != '&') = value := by
    rw [List.takeWhile_append_of_pos fun d hd => bne_iff_ne.mpr fun he : d = '&' =>
      hvalue (he ▸ hd)]
    cases params with
    | nil => simp [moreParams]
    | cons first rest => simp
  have hvalues : ((Regex.many (· != '&') 1 none).ends
      ⟨offset + 3, value ++ moreParams params, [(1, c :: str "n=")]⟩).head? =
        some ⟨offset + 3 + value.length, moreParams params, [(1, c :: str "n=")]⟩ := by
    rw [Regex.head?_ends_many]
    · simp [hrun, Regex.Cursor.advance]
    · simp only [hrun]
      exact List.length_pos_iff.mpr hne
  rw [N_PARAM_RE, Regex.ends, hname, List.flatMap_singleton, Regex.ends, List.head?_map, hvalues]
  simp

-- A match of the parameter n at this place, with its two groups.
def paramMatch (offset : Nat) (c : Char) (value : Str) : Regex.Match :=
  ⟨offset, offset + 3 + value.length, [(2, value), (1, c :: str "n=")]⟩

theorem findFrom_param {head param value : Str} {c : Char} (offset : Nat) (hc : isSeparator c)
    (hparam : SeparatorFree param) (h : nValue param = some value)
    (hhead : N_PARAM_RE.Inert head (c :: (param ++ moreParams params))) :
    N_PARAM_RE.findFrom offset (head ++ c :: (param ++ moreParams params)) =
      some (paramMatch (offset + head.length) c value) := by
  obtain ⟨rfl, hne⟩ := nValue_eq_some.mp h
  have hvalue : '&' ∉ value := fun hm => hparam '&' (List.mem_append_right _ hm) rfl
  have hhere : (N_PARAM_RE.ends
      ⟨offset + head.length, c :: (str "n=" ++ value ++ moreParams params), []⟩).head? =
        some ⟨offset + head.length + 3 + value.length, moreParams params,
          [(2, value), (1, c :: str "n=")]⟩ := by
    rw [List.append_assoc]
    exact head?_ends_param _ hc hne hvalue
  obtain ⟨others, hends⟩ := List.head?_eq_some_iff.mp hhere
  rw [hhead.findFrom_append anchorFree, Regex.findFrom.eq_def, hends]
  rfl

-- Behind a parameter of another form the search goes on with the next one.
theorem inert_param {head param : Str} {c : Char} (hparam : SeparatorFree param)
    (h : nValue param = none) (hhead : N_PARAM_RE.Inert head (c :: (param ++ moreParams params))) :
    N_PARAM_RE.Inert (head ++ c :: param) (moreParams params) := by
  intro before after he hne
  rcases List.append_eq_append_iff.mp he with ⟨part, rfl, hsuffix⟩ | ⟨part, hsplit, rfl⟩
  · cases part with
    | nil =>
        obtain rfl := hsuffix
        exact not_matchesAt_of_nValue h
    | cons d part =>
        -- Inside the parameter there is no separator.
        obtain ⟨rfl, rfl⟩ := List.cons.inj hsuffix
        intro hmatches
        obtain ⟨e, value, more, hseparator, -, -, hstart⟩ := matchesAt_iff.mp hmatches
        obtain ⟨first, after, rfl⟩ := List.exists_cons_of_ne_nil hne
        obtain ⟨rfl, -⟩ := List.cons.inj hstart
        exact hparam first (by simp) hseparator
  · by_cases hnil : part = []
    · rw [hnil, List.nil_append]
      exact not_matchesAt_of_nValue h
    · have hnot := hhead before part hsplit hnil
      rwa [List.append_assoc]

theorem inert_of_separatorFree {head : Str} (h : SeparatorFree head) (rest : Str) :
    N_PARAM_RE.Inert head rest := by
  intro before after he hne hmatches
  obtain ⟨c, value, more, hc, -, -, hstart⟩ := matchesAt_iff.mp hmatches
  obtain ⟨first, after, rfl⟩ := List.exists_cons_of_ne_nil hne
  obtain ⟨rfl, -⟩ := List.cons.inj hstart
  exact h first (he ▸ by simp) hc

theorem findFrom_end {head : Str} (offset : Nat) (h : N_PARAM_RE.Inert head []) :
    N_PARAM_RE.findFrom offset head = none := by
  have hfind := h.findFrom_append anchorFree offset
  rwa [List.append_nil] at hfind

-- The search finds the first parameter n.
theorem findFrom_moreParams {head : Str} (offset : Nat)
    (hparams : ∀ param ∈ params, SeparatorFree param)
    (hhead : N_PARAM_RE.Inert head (moreParams params)) :
    (N_PARAM_RE.findFrom offset (head ++ moreParams params)).map (·.group 2) =
      params.findSome? nValue := by
  induction params generalizing head with
  | nil =>
      rw [moreParams, List.flatMap_nil, List.append_nil, findFrom_end offset hhead]
      rfl
  | cons param params ih =>
      obtain ⟨hparam, hparams⟩ := List.forall_mem_cons.mp hparams
      cases hvalue : nValue param with
      | none =>
          have hnext := ih hparams (inert_param hparam hvalue hhead)
          rw [List.append_assoc] at hnext
          rwa [List.findSome?_cons, hvalue]
      | some value =>
          rw [List.findSome?_cons, hvalue, moreParams_cons, List.cons_append,
            findFrom_param offset rfl hparam hvalue hhead]
          rfl

theorem replaceFrom_param {head param value : Str} {c : Char} (transformed : Str)
    (fuel offset : Nat) (hc : isSeparator c) (hparam : SeparatorFree param)
    (h : nValue param = some value)
    (hhead : N_PARAM_RE.Inert head (c :: (param ++ moreParams params))) :
    N_PARAM_RE.replaceFrom (fun found => found.group 1 ++ transformed) (fuel + 1) offset
        (head ++ c :: (param ++ moreParams params)) =
      head ++ c :: (withN transformed param ++
        N_PARAM_RE.replaceFrom (fun found => found.group 1 ++ transformed) fuel
          (offset + head.length + 3 + value.length) (moreParams params)) := by
  rw [Regex.replaceFrom, findFrom_param offset hc hparam h hhead, withN, h]
  obtain ⟨rfl, -⟩ := nValue_eq_some.mp h
  have hlast : offset + head.length + 3 + value.length - offset =
      (head ++ c :: (str "n=" ++ value)).length := by
    simp only [List.length_append, List.length_cons, str]
    simp
    omega
  have hsplit : head ++ c :: (str "n=" ++ value ++ moreParams params) =
      (head ++ c :: (str "n=" ++ value)) ++ moreParams params := by simp
  have hgroup : (paramMatch (offset + head.length) c value).group 1 = c :: str "n=" := rfl
  simp only [hgroup]
  simp only [paramMatch, Nat.add_sub_cancel_left, List.take_left, hlast]
  rw [hsplit, List.drop_left]
  simp

-- Every parameter n gets the new value, and nothing else changes.
theorem replaceFrom_moreParams {head : Str} (transformed : Str) {fuel : Nat} (offset : Nat)
    (hfuel : params.length < fuel) (hparams : ∀ param ∈ params, SeparatorFree param)
    (hhead : N_PARAM_RE.Inert head (moreParams params)) :
    N_PARAM_RE.replaceFrom (fun found => found.group 1 ++ transformed) fuel offset
      (head ++ moreParams params) =
      head ++ moreParams (params.map (withN transformed)) := by
  induction params generalizing head fuel offset with
  | nil =>
      obtain ⟨fuel, rfl⟩ := Nat.exists_eq_succ_of_ne_zero (Nat.ne_zero_of_lt hfuel)
      rw [moreParams, List.flatMap_nil, List.append_nil, Regex.replaceFrom,
        findFrom_end offset hhead]
      exact (List.append_nil head).symm
  | cons param params ih =>
      obtain ⟨hparam, hparams⟩ := List.forall_mem_cons.mp hparams
      rw [List.length_cons] at hfuel
      cases hvalue : nValue param with
      | none =>
          have hnext :=
            ih offset (Nat.lt_of_succ_lt hfuel) hparams (inert_param hparam hvalue hhead)
          rw [List.append_assoc, List.append_assoc] at hnext
          rw [List.map_cons, withN, hvalue]
          exact hnext
      | some value =>
          obtain ⟨fuel, rfl⟩ := Nat.exists_eq_succ_of_ne_zero (Nat.ne_zero_of_lt hfuel)
          have hnext :=
            ih (offset + head.length + 3 + value.length) (Nat.lt_of_succ_lt_succ hfuel) hparams
            Regex.inert_nil
          rw [moreParams_cons, List.cons_append,
            replaceFrom_param transformed fuel offset rfl hparam hvalue hhead]
          exact congrArg (fun tail => head ++ '&' :: (withN transformed param ++ tail)) hnext

theorem length_le_moreParams (params : List Str) : params.length ≤ (moreParams params).length := by
  induction params with
  | nil => exact Nat.zero_le _
  | cons param params ih =>
      simp only [moreParams_cons, List.length_append, List.length_cons]
      omega

theorem findGroup_query {base : Str} (hbase : SeparatorFree base)
    (hparams : ∀ param ∈ params, SeparatorFree param) :
    N_PARAM_RE.findGroup (base ++ query params) 2 = params.findSome? nValue := by
  rw [Regex.findGroup, Regex.find]
  cases params with
  | nil =>
      rw [query, List.append_nil, findFrom_end 0 (inert_of_separatorFree hbase [])]
      rfl
  | cons param params =>
      obtain ⟨hparam, hparams⟩ := List.forall_mem_cons.mp hparams
      have hhead := inert_of_separatorFree hbase ('?' :: (param ++ moreParams params))
      rw [query, List.cons_append, List.findSome?_cons]
      cases hvalue : nValue param with
      | none =>
          have hnext := findFrom_moreParams 0 hparams (inert_param hparam hvalue hhead)
          rwa [List.append_assoc] at hnext
      | some value =>
          rw [findFrom_param 0 rfl hparam hvalue hhead]
          rfl

theorem replace_query {base : Str} (transformed : Str) (hbase : SeparatorFree base)
    (hparams : ∀ param ∈ params, SeparatorFree param) :
    N_PARAM_RE.replace (fun found => found.group 1 ++ transformed) (base ++ query params) =
      base ++ query (params.map (withN transformed)) := by
  rw [Regex.replace]
  cases params with
  | nil =>
      rw [query, List.append_nil, Regex.replaceFrom,
        findFrom_end 0 (inert_of_separatorFree hbase [])]
      exact (List.append_nil base).symm
  | cons param params =>
      obtain ⟨hparam, hparams⟩ := List.forall_mem_cons.mp hparams
      have hhead := inert_of_separatorFree hbase ('?' :: (param ++ moreParams params))
      have hlength := length_le_moreParams params
      rw [query, List.cons_append]
      cases hvalue : nValue param with
      | none =>
          have hfuel :
              params.length < (base ++ '?' :: (param ++ moreParams params)).length + 1 := by
            simp only [List.length_append, List.length_cons]
            omega
          have hnext :=
            replaceFrom_moreParams transformed 0 hfuel hparams (inert_param hparam hvalue hhead)
          rw [List.append_assoc, List.append_assoc] at hnext
          rw [List.map_cons, withN, hvalue]
          exact hnext
      | some value =>
          have hfuel : params.length < (base ++ '?' :: (param ++ moreParams params)).length := by
            simp only [List.length_append, List.length_cons]
            omega
          have hnext :=
            replaceFrom_moreParams transformed (0 + base.length + 3 + value.length) hfuel hparams
            Regex.inert_nil
          rw [replaceFrom_param transformed _ 0 rfl hparam hvalue hhead]
          exact congrArg (fun tail => base ++ '?' :: (withN transformed param ++ tail)) hnext

end

-- Only the values of n change, all to the outcome for the first of them, and without a value the
-- URL is returned at once, with no access to the state or the engine.
theorem transform_changes_only_n (env : Env) (playerJs base : Str) (params : List Str)
    (hbase : SeparatorFree base) (hparams : ∀ param ∈ params, SeparatorFree param) :
    ((∀ param ∈ params, nValue param = none) →
      transform env (base ++ query params) playerJs = return base ++ query params) ∧
    ∀ before param after value, params = before ++ param :: after →
      (∀ other ∈ before, nValue other = none) →
      nValue param = some value →
      transform env (base ++ query params) playerJs = do
        let transformed ← decipherN env playerJs value
        return base ++ query (params.map (withN transformed)) := by
  rw [transform_eq, findGroup_query hbase hparams]
  constructor
  · intro hnone
    rw [List.findSome?_eq_none_iff.mpr hnone]
    rfl
  · intro before param after value he hbefore hvalue
    have hfirst : params.findSome? nValue = some value := by
      rw [he, List.findSome?_append, List.findSome?_eq_none_iff.mpr hbefore,
        List.findSome?_cons, hvalue]
      rfl
    simp only [hfirst, Option.elim, replace_query _ hbase hparams]

-- An engine whose functions reverse their argument, without a disk and a network.
def reversingEnv : Env where
  clock := fun _ => 0
  httpClient := ⟨none⟩
  network := fun _ _ _ => .failure (Throwable.ioException none)
  decodeFromString := fun _ => .error []
  jsEngine := .custom (str "ReversingEngine") fun _ _ argument => .ok argument.reverse

def knownPlayer : World where
  extractionCache := { maxSize := 30 }
  nFunctionCache := fun _ => some (str "function(a)\x7breturn a\x7d")

-- A name that ends in n and an empty value stay as they are.
theorem transform_changes_two :
    ((transform reversingEnv (str "https://r/play?fn=1&n=abc&n=&n=de") []).run knownPlayer).1 =
      .ok (str "https://r/play?fn=1&n=cba&n=&n=cba") := by
  have hbase : SeparatorFree (str "https://r/play") := by simp [SeparatorFree, isSeparator, str]
  have hparams : ∀ param ∈ [str "fn=1", str "n=abc", str "n=", str "n=de"],
      SeparatorFree param := by
    simp [SeparatorFree, isSeparator, str]
  have hurl : str "https://r/play?fn=1&n=abc&n=&n=de" =
      str "https://r/play" ++ query [str "fn=1", str "n=abc", str "n=", str "n=de"] := by decide
  have hmain := (transform_changes_only_n reversingEnv [] (str "https://r/play")
    [str "fn=1", str "n=abc", str "n=", str "n=de"] hbase hparams).2 [str "fn=1"] (str "n=abc")
    [str "n=", str "n=de"] (str "abc") rfl (by decide) (by decide)
  rw [hurl, hmain]
  decide

end NParamDecipherer

end Ytdlpdroid
