import Ytdlpdroid.Decipher.JsFunctionExtractor.Literals
import Ytdlpdroid.Decipher.SignatureDecipherer.Calls

namespace Ytdlpdroid

open Text JsFunctionExtractor

namespace SignatureDecipherer

-- [A-Za-z0-9_$]+
def IsIdentifier (name : Str) : Prop := name ≠ [] ∧ ∀ c ∈ name, NParamDecipherer.isNameChar c

-- The names of a signature function with its helper, and the constants of its calls.
structure Naming where
  fnName : Str
  param : Str
  helperName : Str
  -- The methods in the order of their calls, each with its constant.
  calls : List (Str × Str)
  fnName_identifier : IsIdentifier fnName
  param_identifier : IsIdentifier param
  helperName_identifier : IsIdentifier helperName
  method_identifier : ∀ call ∈ calls, IsIdentifier call.1
  constant : ∀ call ∈ calls, ∀ c ∈ call.2, NParamDecipherer.isNameChar c ∨ c = '-'

namespace Naming

variable (naming : Naming)

-- H.m(P,c);
def callText (call : Str × Str) : Str :=
  naming.helperName ++ str "." ++ call.1 ++ str "(" ++ naming.param ++ str "," ++ call.2 ++ str ");"

-- F=function(P)
def mainHead : Str := naming.fnName ++ str "=function(" ++ naming.param ++ str ")"

-- P=P.split("");H.m1(P,c1);..;H.mk(P,ck);return P.join("")
def mainBody : Str :=
  naming.param ++ str "=" ++ naming.param ++ str ".split(\"\");" ++
    naming.calls.flatMap naming.callText ++ str "return " ++ naming.param ++ str ".join(\"\")"

def mainFn : Str := naming.mainHead ++ str "\x7b" ++ naming.mainBody ++ str "\x7d"

end Naming

theorem IsIdentifier.not_mem {name : Str} (h : IsIdentifier name) {c : Char}
    (hc : NParamDecipherer.isNameChar c = false) : c ∉ name := by
  intro hm
  rw [h.2 c hm] at hc
  cases hc

section

variable {naming : Naming} {call : Str × Str} {lead rest name : Str}

theorem Naming.not_mem_constant (hcall : call ∈ naming.calls) {c : Char}
    (hc : NParamDecipherer.isNameChar c = false) (hminus : c ≠ '-') : c ∉ call.2 := by
  intro hm
  rcases naming.constant call hcall c hm with hname | rfl
  · rw [hname] at hc
    cases hc
  · exact hminus rfl

-- The pattern takes the call of a method if it takes its name.
theorem isMethodCall_iff {method : Str} (h : IsIdentifier method) :
    IsMethodCall (method ++ '(' :: rest) ↔ IsName method := by
  constructor
  · rintro ⟨other, after, he, -, hother⟩
    obtain ⟨rfl, -⟩ :=
      split_before_unique (h.not_mem (by decide)) (hother.not_mem isNameChar_parenthesis) he
    exact hother
  · exact fun hname => ⟨method, rest, rfl, h.1, hname⟩

-- return P.join("")}
def returnText (naming : Naming) : Str :=
  str "return " ++ (naming.param ++ '.' :: str "join(\"\")\x7d")

-- The first call on the helper whose names the pattern takes, if it does not take the parameter's.
theorem firstCall_calls (hparam : (calleeAt naming.param).length < 2) {calls : List (Str × Str)}
    (hcalls : ∀ call ∈ calls, call ∈ naming.calls) (hlead : '.' ∉ lead)
    (hlast : ∀ c, lead.getLast? = some c → isNameChar c = false) :
    FirstCall (lead ++ (calls.flatMap naming.callText ++ returnText naming)) name ↔
      2 ≤ (calleeAt naming.helperName).length ∧ (∃ call ∈ calls, IsName call.1) ∧
        name = calleeAt naming.helperName := by
  have hdot : NParamDecipherer.isNameChar '.' = false := by decide
  have hhelper := naming.helperName_identifier.not_mem hdot
  have hparamDot := naming.param_identifier.not_mem hdot
  induction calls generalizing lead with
  | nil =>
      have hsplit : lead ++ (([] : List (Str × Str)).flatMap naming.callText ++ returnText naming) =
          (lead ++ str "return ") ++ naming.param ++ '.' :: str "join(\"\")\x7d" := by
        simp [returnText]
      have hpassed : '.' ∉ (lead ++ str "return ") ++ naming.param := by
        simp only [List.mem_append, not_or]
        exact ⟨⟨hlead, by decide⟩, hparamDot⟩
      have hcallee : calleeAt ((lead ++ str "return ") ++ naming.param) = calleeAt naming.param :=
        calleeAt_append
          (by simp [str, isNameChar, Regex.isAlphanumeric, Regex.isLetter, Regex.isDigit]) _
      rw [hsplit, firstCall_later hpassed (by rw [hcallee]; omega)]
      exact iff_of_false (not_firstCall (by decide)) (by simp)
  | cons call calls ih =>
      obtain ⟨hcall, hcalls⟩ := List.forall_mem_cons.mp hcalls
      have hmethod := naming.method_identifier call hcall
      let next := call.1 ++ '(' :: (naming.param ++ ',' :: (call.2 ++ str ");"))
      have hsplit : lead ++ ((call :: calls).flatMap naming.callText ++ returnText naming) =
          (lead ++ naming.helperName) ++
            '.' :: (next ++ (calls.flatMap naming.callText ++ returnText naming)) := by
        simp [next, Naming.callText, str]
      have hnext : next ++ (calls.flatMap naming.callText ++ returnText naming) =
          call.1 ++ '(' :: (naming.param ++ ',' ::
            (call.2 ++ (str ");" ++ (calls.flatMap naming.callText ++ returnText naming)))) := by
        simp [next]
      have hpassed : '.' ∉ lead ++ naming.helperName := by
        simp only [List.mem_append, not_or]
        exact ⟨hlead, hhelper⟩
      have hcallee := calleeAt_append hlast naming.helperName
      rw [hsplit]
      by_cases htaken : 2 ≤ (calleeAt naming.helperName).length ∧ IsName call.1
      · have hfirst := firstCall_here hpassed (by rw [hcallee]; exact htaken.1)
          (hnext ▸ (isMethodCall_iff hmethod).mpr htaken.2)
        rw [hcallee] at hfirst
        refine ⟨fun h => ⟨htaken.1, ⟨call, List.mem_cons_self, htaken.2⟩, h.unique hfirst⟩, ?_⟩
        rintro ⟨-, -, rfl⟩
        exact hfirst
      · have hnextDot : '.' ∉ next := by
          have hconstant := naming.not_mem_constant hcall hdot (by decide)
          simp only [next, List.mem_append, List.mem_cons, not_or]
          exact ⟨hmethod.not_mem hdot, by decide, hparamDot, by decide, hconstant, by decide⟩
        have hnextLast : ∀ c, next.getLast? = some c → isNameChar c = false := by
          intro c hc
          have hend :
              next = call.1 ++ '(' :: (naming.param ++ ',' :: (call.2 ++ str ")")) ++ [';'] := by
            simp [next, str]
          rw [hend, List.getLast?_concat] at hc
          rw [← Option.some.inj hc]
          decide
        have hskip : ¬(2 ≤ (calleeAt (lead ++ naming.helperName)).length ∧
            IsMethodCall (next ++ (calls.flatMap naming.callText ++ returnText naming))) := by
          rw [hcallee, hnext, isMethodCall_iff hmethod]
          exact htaken
        refine (firstCall_later hpassed hskip).trans ((ih hcalls hnextDot hnextLast).trans ?_)
        constructor
        · rintro ⟨hlength, ⟨other, hm, hother⟩, hname⟩
          exact ⟨hlength, ⟨other, List.mem_cons_of_mem _ hm, hother⟩, hname⟩
        · rintro ⟨hlength, ⟨other, hm, hother⟩, hname⟩
          rcases List.mem_cons.mp hm with rfl | hm
          · exact absurd ⟨hlength, hother⟩ htaken
          · exact ⟨hlength, ⟨other, hm, hother⟩, hname⟩

theorem Naming.not_mem_mainHead {c : Char} (hname : NParamDecipherer.isNameChar c = false)
    (hc : c ∉ str "=function(" ++ str ")") : c ∉ naming.mainHead := by
  simp only [mainHead, List.mem_append, not_or] at hc ⊢
  exact ⟨⟨⟨naming.fnName_identifier.not_mem hname, hc.1⟩, naming.param_identifier.not_mem hname⟩,
    hc.2⟩

-- The parameter is asked for `split` before any method of the helper is called.
theorem firstCall_mainFn : FirstCall naming.mainFn name ↔
    (2 ≤ (calleeAt naming.param).length ∧ name = calleeAt naming.param) ∨
      (calleeAt naming.param).length < 2 ∧ 2 ≤ (calleeAt naming.helperName).length ∧
        (∃ call ∈ naming.calls, IsName call.1) ∧ name = calleeAt naming.helperName := by
  let passed := naming.mainHead ++ str "\x7b" ++ naming.param ++ str "=" ++ naming.param
  let rest := str "split(\"\");" ++ (naming.calls.flatMap naming.callText ++ returnText naming)
  have hsplit : naming.mainFn = passed ++ '.' :: rest := by
    simp [Naming.mainFn, Naming.mainBody, passed, rest, returnText, str]
  have hdot : NParamDecipherer.isNameChar '.' = false := by decide
  have hpassed : '.' ∉ passed := by
    simp only [passed, List.mem_append, not_or]
    have hparam := naming.param_identifier.not_mem hdot
    exact ⟨⟨⟨⟨naming.not_mem_mainHead hdot (by decide), by decide⟩, hparam⟩, by decide⟩, hparam⟩
  have hcallee : calleeAt passed = calleeAt naming.param := by
    refine calleeAt_append (fun c hc => ?_) naming.param
    rw [← Option.some.inj ((List.getLast?_concat (a := '=')).symm.trans hc)]
    decide
  have hcall : IsMethodCall rest :=
    ⟨str "split", _, rfl, by decide, List.all_eq_true.mp (by decide)⟩
  rw [hsplit]
  by_cases hlength : 2 ≤ (calleeAt naming.param).length
  · have hfirst := firstCall_here hpassed (by rw [hcallee]; exact hlength) hcall
    rw [hcallee] at hfirst
    constructor
    · exact fun h => Or.inl ⟨hlength, h.unique hfirst⟩
    · rintro (⟨-, rfl⟩ | ⟨hshort, -⟩)
      · exact hfirst
      · omega
  · have hshort : (calleeAt naming.param).length < 2 := by omega
    refine (firstCall_later hpassed (by rw [hcallee]; omega)).trans ?_
    have hlead : '.' ∉ str "split(\"\");" := by decide
    have hlast : ∀ c, (str "split(\"\");").getLast? = some c → isNameChar c = false := by
      intro c hc
      rw [← Option.some.inj hc]
      decide
    refine (firstCall_calls hshort (fun _ hm => hm) hlead hlast).trans ?_
    constructor
    · exact fun h => Or.inr ⟨hshort, h⟩
    · rintro (⟨hlong, -⟩ | ⟨-, h⟩)
      · omega
      · exact h

end

end SignatureDecipherer

end Ytdlpdroid
