import Ytdlpdroid.Decipher.NParamDecipherer.Theorems

namespace Ytdlpdroid

open Text Concurrent

namespace PlayerScripts

-- The test of one answer in the discovery script. `typeof r==='string'` holds of every text, and
-- `^` and `$` are the ends of the whole text.
def ok (r i : Str) : Bool :=
  r ≠ i && r ≠ str "undefined" && r ≠ str "null" &&
    !r.contains '=' && !r.contains '+' && !r.contains '/' && !r.contains ':' &&
    5 ≤ (utf16 r).length && (utf16 r).length ≤ (utf16 i).length + 2 &&
    NParamDecipherer.base64url.fullMatch r && !NParamDecipherer.pureHex.fullMatch r

-- The test of the answers to the two probes `ti` and `ti2`; an exception is no answer.
def isRealNsig (ti ti2 : Str) : Option Str → Option Str → Bool
  | some r1, some r2 => ok r1 ti && ok r2 ti2 && r1 ≠ r2
  | _, _ => false

end PlayerScripts

namespace NParamDecipherer

def isTokenChar (c : Char) : Bool := Regex.isAlphanumeric c || c == '_' || c == '-'

def isHexChar (c : Char) : Bool := Regex.isDigit c || ('a' ≤ c && c ≤ 'f')

-- Base64url characters, of which some is no lower-case hexadecimal digit.
def IsToken (r : Str) : Prop := (∀ c ∈ r, isTokenChar c) ∧ ¬∀ c ∈ r, isHexChar c

-- An answer to the second probe that only the discovery script rejects.
def Slips (r : Str) : Prop := r = str "undefined" ∨ IsToken r ∧ 20 ≤ r.length ∧ r.length ≤ 25

variable {r : Str}

theorem length_utf16_of_token (h : ∀ c ∈ r, isTokenChar c) : (utf16 r).length = r.length := by
  induction r with
  | nil => rfl
  | cons c rest ih =>
      obtain ⟨hc, hrest⟩ := List.forall_mem_cons.mp h
      have hascii : c.toNat < 0x10000 := by
        simp only [isTokenChar, Regex.isAlphanumeric, Regex.isLetter, Regex.isDigit,
          Bool.or_eq_true, Bool.and_eq_true, decide_eq_true_eq, beq_iff_eq] at hc
        rcases hc with (((⟨-, h⟩ | ⟨-, h⟩) | ⟨-, h⟩) | rfl) | rfl
        · exact lt_of_le_of_lt h (by decide)
        · exact lt_of_le_of_lt h (by decide)
        · exact lt_of_le_of_lt h (by decide)
        · decide
        · decide
      have hunits : (units c).length = 1 := by simp [units, codePointUnits, hascii]
      simp only [utf16_cons, List.length_append, List.length_cons, hunits, ih hrest]
      omega

theorem base64url_fullMatch : base64url.fullMatch r ↔ (∀ c ∈ r, isTokenChar c) ∧ 1 ≤ r.length := by
  rw [Regex.fullMatch_iff (r := base64url) trivial]
  simp [base64url, Regex.Denotes, isTokenChar]

theorem pureHex_fullMatch : pureHex.fullMatch r ↔ (∀ c ∈ r, isHexChar c) ∧ 1 ≤ r.length := by
  rw [Regex.fullMatch_iff (r := pureHex) trivial]
  simp [pureHex, Regex.Denotes, isHexChar]

theorem isToken_iff (hr : 1 ≤ r.length) :
    IsToken r ↔ base64url.fullMatch r ∧ ¬pureHex.fullMatch r := by
  rw [base64url_fullMatch, pureHex_fullMatch, and_iff_left hr, and_iff_left hr]
  exact Iff.rfl

theorem IsToken.not_contains (h : IsToken r) {c : Char} (hc : isTokenChar c = false) :
    r.contains c = false := by
  rw [List.contains_eq_mem, decide_eq_false_iff_not]
  exact fun hm => by simpa [hc] using h.1 c hm

end NParamDecipherer

namespace PlayerScripts

open NParamDecipherer

theorem ok_iff {r i : Str} : ok r i ↔ r ≠ i ∧ r ≠ str "undefined" ∧ r ≠ str "null" ∧ IsToken r ∧
    5 ≤ r.length ∧ r.length ≤ (utf16 i).length + 2 := by
  simp only [ok, Bool.and_eq_true, decide_eq_true_eq, Bool.not_eq_true']
  constructor
  · rintro ⟨⟨⟨⟨⟨⟨⟨⟨⟨⟨hprobe, hundefined⟩, hnull⟩, -⟩, -⟩, -⟩, -⟩, hleast⟩, hmost⟩, hbase⟩, hhex⟩
    obtain ⟨hall, hpos⟩ := base64url_fullMatch.mp hbase
    rw [length_utf16_of_token hall] at hleast hmost
    exact ⟨hprobe, hundefined, hnull, (isToken_iff hpos).mpr ⟨hbase, by simp [hhex]⟩, hleast, hmost⟩
  · rintro ⟨hprobe, hundefined, hnull, htoken, hleast, hmost⟩
    obtain ⟨hbase, hhex⟩ := (isToken_iff (by omega)).mp htoken
    rw [length_utf16_of_token htoken.1]
    exact ⟨⟨⟨⟨⟨⟨⟨⟨⟨⟨hprobe, hundefined⟩, hnull⟩, htoken.not_contains rfl⟩, htoken.not_contains rfl⟩,
      htoken.not_contains rfl⟩, htoken.not_contains rfl⟩, hleast⟩, hmost⟩, hbase⟩,
      by simpa using hhex⟩

end PlayerScripts

namespace NParamDecipherer

open PlayerScripts

variable {env : Env} {fnCode r1 r2 : Str} {w : World}

-- The static check asks less of its second answer.
theorem isPlausiblePair_iff : isPlausiblePair r1 r2 ↔
    ok r1 testInput1 ∧ (r2 ≠ testInput2 ∧ IsToken r2 ∧ 5 ≤ r2.length ∧ r2.length ≤ 25) ∧
      r1 ≠ r2 := by
  have hlength : (utf16 testInput1).length + 2 = 19 ∧ testInput1.length + 2 = 19 := by decide
  rw [ok_iff, hlength.1]
  simp only [isPlausiblePair, hlength.2, Bool.and_eq_true, decide_eq_true_eq, Bool.not_eq_true']
  constructor
  · rintro ⟨⟨⟨⟨⟨⟨⟨⟨⟨⟨⟨⟨⟨⟨hprobe1, hundefined⟩, hnull⟩, -⟩, -⟩, -⟩, hleast1, -⟩, hmost1⟩, hbase1⟩,
      hhex1⟩, hprobe2⟩, hlength2⟩, hbase2⟩, hhex2⟩, hne⟩
    have htoken1 : IsToken r1 := (isToken_iff (by omega)).mpr ⟨hbase1, by simp [hhex1]⟩
    have htoken2 : IsToken r2 := (isToken_iff (by omega)).mpr ⟨hbase2, by simp [hhex2]⟩
    exact ⟨⟨hprobe1, hundefined, hnull, htoken1, hleast1, hmost1⟩,
      ⟨hprobe2, htoken2, hlength2⟩, hne⟩
  · rintro ⟨⟨hprobe1, hundefined, hnull, htoken1, hleast1, hmost1⟩,
      ⟨hprobe2, htoken2, hlength2⟩, hne⟩
    obtain ⟨hbase1, hhex1⟩ := (isToken_iff (by omega)).mp htoken1
    obtain ⟨hbase2, hhex2⟩ := (isToken_iff (by omega)).mp htoken2
    exact ⟨⟨⟨⟨⟨⟨⟨⟨⟨⟨⟨⟨⟨⟨hprobe1, hundefined⟩, hnull⟩, htoken1.not_contains rfl⟩,
      htoken1.not_contains rfl⟩, htoken1.not_contains rfl⟩, ⟨hleast1, by omega⟩⟩, hmost1⟩,
      hbase1⟩, by simpa using hhex1⟩, hprobe2⟩, hlength2⟩, hbase2⟩, by simpa using hhex2⟩, hne⟩

-- What slips through passes the static check, and the discovery script rejects it.
theorem Slips.disagrees (h : Slips r2) (hfirst : ok r1 testInput1) :
    isPlausiblePair r1 r2 ∧ ¬ok r2 testInput2 := by
  have hprobe : testInput2.length = 17 ∧ (utf16 testInput1).length = 17 ∧
      (utf16 testInput2).length = 17 := by decide
  obtain ⟨-, hundefined, -, -, -, hmost⟩ := ok_iff.mp hfirst
  rw [isPlausiblePair_iff]
  rcases h with rfl | ⟨htoken, hleast2, hmost2⟩
  · have htoken : IsToken (str "undefined") :=
      ⟨List.all_eq_true.mp (by decide), fun hhex => absurd (hhex 'u' (by decide)) (by decide)⟩
    exact ⟨⟨hfirst, ⟨by decide, htoken, by decide, by decide⟩, hundefined⟩, fun h =>
      (ok_iff.mp h).2.1 rfl⟩
  · have hne2 : r2 ≠ testInput2 := fun he => by rw [he] at hleast2; omega
    have hne : r1 ≠ r2 := fun he => by rw [he] at hmost; omega
    refine ⟨⟨hfirst, ⟨hne2, htoken, by omega, hmost2⟩, hne⟩, fun h => ?_⟩
    have hlength := (ok_iff.mp h).2.2.2.2.2
    omega

-- Nothing else makes a difference.
theorem isPlausiblePair_iff_of_not_slips (h : ¬Slips r2) :
    isPlausiblePair r1 r2 ↔ isRealNsig testInput1 testInput2 (some r1) (some r2) := by
  have hprobe : (utf16 testInput2).length + 2 = 19 := by decide
  obtain ⟨hundefined, hlong⟩ := not_or.mp h
  simp only [isRealNsig, Bool.and_eq_true, decide_eq_true_eq, isPlausiblePair_iff,
    ok_iff (r := r2), hprobe]
  constructor
  · rintro ⟨hfirst, ⟨hne2, htoken, hleast, hmost⟩, hne⟩
    have hnull : r2 ≠ str "null" := fun he => absurd (he ▸ hleast) (by decide)
    have hshort : r2.length ≤ 19 := by
      by_contra hmore
      exact hlong ⟨htoken, by omega, hmost⟩
    exact ⟨⟨hfirst, hne2, hundefined, hnull, htoken, hleast, hshort⟩, hne⟩
  · rintro ⟨⟨hfirst, hne2, -, -, htoken, hleast, hmost⟩, hne⟩
    exact ⟨hfirst, ⟨hne2, htoken, hleast, by omega⟩, hne⟩

theorem isPlausibleNsigFunction_accepts_iff :
    ((isPlausibleNsigFunction env fnCode).run w).1 = .ok true ↔
    ∃ r1 r2, env.jsEngine.execute w.evaluations fnCode testInput1 = .ok r1 ∧
      env.jsEngine.execute (w.evaluations + 1) fnCode testInput2 = .ok r2 ∧
        isPlausiblePair r1 r2 := by
  cases h1 : env.jsEngine.execute w.evaluations fnCode testInput1 with
  | error e =>
      simp only [isPlausibleNsigFunction, Prog.run_tryCatch, Prog.run_bind, executeJs,
        Prog.run_attemptAtomic, h1, reduceCtorEq, false_and, exists_false, iff_false]
      split_ifs <;> simp
  | ok r1 =>
      cases h2 : env.jsEngine.execute (w.evaluations + 1) fnCode testInput2 with
      | error e =>
          simp only [isPlausibleNsigFunction, Prog.run_tryCatch, Prog.run_bind, executeJs,
            Prog.run_attemptAtomic, h1, h2, reduceCtorEq, false_and, and_false, exists_false,
            iff_false]
          split_ifs <;> simp
      | ok r2 =>
          simp [isPlausibleNsigFunction, executeJs, h1, h2]

-- The answers of a function to the two probes of the static check; an exception is no answer.
def answers (env : Env) (fnCode : Str) (w : World) : Option Str × Option Str :=
  ((env.jsEngine.execute w.evaluations fnCode testInput1).toOption,
    (env.jsEngine.execute (w.evaluations + 1) fnCode testInput2).toOption)

-- The static check accepts a function as the discovery script would on the same probes, unless the
-- second answer slips through after a first one that is as it should be.
theorem isPlausibleNsigFunction_agrees_iff (env : Env) (fnCode : Str) (w : World) :
    (((isPlausibleNsigFunction env fnCode).run w).1 = .ok true ↔
        isRealNsig testInput1 testInput2 (answers env fnCode w).1 (answers env fnCode w).2) ↔
      ¬∃ r1 r2, answers env fnCode w = (some r1, some r2) ∧ ok r1 testInput1 ∧ Slips r2 := by
  rw [isPlausibleNsigFunction_accepts_iff, answers]
  cases h1 : env.jsEngine.execute w.evaluations fnCode testInput1 with
  | error e => simp [isRealNsig, Except.toOption]
  | ok r1 =>
      cases h2 : env.jsEngine.execute (w.evaluations + 1) fnCode testInput2 with
      | error e => simp [isRealNsig, Except.toOption]
      | ok r2 =>
          have hpair : (∃ a b, Except.ok r1 = (.ok a : Except Throwable Str) ∧
              Except.ok r2 = (.ok b : Except Throwable Str) ∧ isPlausiblePair a b) ↔
                isPlausiblePair r1 r2 := by simp
          rw [hpair]
          constructor
          · rintro hagrees ⟨a, b, he, hfirst, hslips⟩
            obtain ⟨rfl, rfl⟩ : r1 = a ∧ r2 = b := by simpa [Except.toOption] using he
            obtain ⟨haccepts, hrejects⟩ := hslips.disagrees hfirst
            have hboth := hagrees.mp haccepts
            simp only [Except.toOption, isRealNsig, Bool.and_eq_true] at hboth
            exact hrejects hboth.1.2
          · intro hnone
            by_cases hslips : Slips r2
            · have hfirst : ¬ok r1 testInput1 := fun hfirst => hnone ⟨r1, r2, rfl, hfirst, hslips⟩
              rw [isPlausiblePair_iff]
              simp [Except.toOption, isRealNsig, hfirst]
            · exact isPlausiblePair_iff_of_not_slips hslips

-- A table lookup that finds the first probe and has no entry for the second one.
def lookupEngine : JsEngine := .custom (str "LookupEngine") fun _ _ argument =>
  .ok (if argument = testInput1 then str "kZ3vQp9xWb" else str "undefined")

theorem isPlausibleNsigFunction_accepts_undefined :
    ¬∀ (env : Env) (fnCode : Str) (w : World),
      (((isPlausibleNsigFunction env fnCode).run w).1 = .ok true ↔
        isRealNsig testInput1 testInput2 (answers env fnCode w).1 (answers env fnCode w).2) := by
  intro h
  have hagrees :=
    h { reversingEnv with jsEngine := lookupEngine } (str "function(a)\x7breturn T[a]\x7d")
      knownPlayer
  have haccepts : isPlausiblePair (str "kZ3vQp9xWb") (str "undefined") := by decide
  have hrejects := hagrees.mp (isPlausibleNsigFunction_accepts_iff.mpr ⟨_, _, rfl, rfl, haccepts⟩)
  revert hrejects
  decide +kernel

end NParamDecipherer

end Ytdlpdroid
