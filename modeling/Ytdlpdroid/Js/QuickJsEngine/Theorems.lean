import Ytdlpdroid.Js.QuickJsEngine
import Ytdlpdroid.Text.StringLiteral

namespace Ytdlpdroid

open Text

namespace QuickJsEngine

def stripPrefix (pre text : Str) : Option Str :=
  if startsWith text pre then some (text.drop pre.length) else none

-- The argument of a statement that is one call of `__result__` with one string literal.
def callArgument (statement : Str) : Option (List UInt16) := do
  let rest ← stripPrefix (str "__result__(\"") (statement.dropWhile isWhitespace)
  let (value, after) ← StringLiteral.read .plain rest
  if after = str ");" then some value else none

-- The script declares `__result__` as the function and then makes exactly one call of it,
-- with one string as its only argument. A NUL comes as two bytes that the runtime refuses.
def CallScript (functionCode : Str) (value : List UInt16) (script : Str) : Prop :=
  ∃ call, script = str "var __result__ = " ++ functionCode ++ str ";" ++ call ∧
    '\x00' ∉ call ∧ callArgument call = some value

theorem stripPrefix_append (pre text : Str) : stripPrefix pre (pre ++ text) = some text := by
  simp [stripPrefix, startsWith]

theorem callArgument_eq (argument : Str) :
    callArgument (str "\n__result__(\"" ++ argument ++ str "\");") =
      (StringLiteral.read .plain (argument ++ '"' :: str ");")).bind fun found =>
        if found.2 = str ");" then some found.1 else none := by
  have hstart : (str "\n__result__(\"" ++ argument ++ str "\");").dropWhile isWhitespace =
      str "__result__(\"" ++ (argument ++ '"' :: str ");") := by
    have hline : isWhitespace '\n' = true := rfl
    have hname : isWhitespace '_' = false := rfl
    rw [List.append_assoc]
    change ('\n' :: '_' :: _).dropWhile isWhitespace = _
    rw [List.dropWhile_cons_of_pos hline, List.dropWhile_cons_of_neg (by simp [hname])]
    rfl
  unfold callArgument
  rw [hstart, stripPrefix_append]
  rfl

-- The call passes exactly the arguments whose characters stand for themselves in a literal.
theorem nativeScript_call_iff (functionCode argument : Str) :
    CallScript functionCode (utf16 argument) (nativeScript (wrappedCode functionCode) argument) ↔
      '\x00' ∉ argument ∧ ∀ c ∈ argument, c ≠ '"' ∧ c ≠ '\\' ∧ c ≠ '\n' ∧ c ≠ '\r' := by
  have hplain : (∀ c ∈ argument, c ≠ '"' ∧ c ≠ '\\' ∧ c ≠ '\n' ∧ c ≠ '\r') ↔
      ∀ c ∈ argument, StringLiteral.isPlain c := by
    simp [StringLiteral.isPlain, and_assoc]
  have hquote : '"' ∉ str ");" := by decide
  have hscript : nativeScript (wrappedCode functionCode) argument =
      str "var __result__ = " ++ functionCode ++ str ";" ++
        (str "\n__result__(\"" ++ argument ++ str "\");") := by
    simp only [nativeScript, wrappedCode, List.append_assoc]
  have hnul : '\x00' ∉ str "\n__result__(\"" ++ argument ++ str "\");" ↔ '\x00' ∉ argument := by
    simp [str]
  rw [hplain, ← StringLiteral.read_eq_self_iff hquote]
  constructor
  · rintro ⟨call, he, hread, hcall⟩
    rw [hscript, List.append_cancel_left_eq] at he
    rw [← he] at hread
    rw [← he, callArgument_eq] at hcall
    obtain ⟨⟨value, after⟩, hliteral, hafter⟩ := Option.bind_eq_some_iff.mp hcall
    split_ifs at hafter with ha
    obtain rfl := Option.some.inj hafter
    refine ⟨hnul.mp hread, ?_⟩
    rw [hliteral, show after = str ");" from ha]
  · rintro ⟨hread, hliteral⟩
    refine ⟨_, hscript, hnul.mpr hread, ?_⟩
    rw [callArgument_eq, hliteral]
    rfl

-- A quote in the argument ends the literal.
theorem nativeScript_quote_ends_literal :
    ¬∀ functionCode argument : Str,
      CallScript functionCode (utf16 argument)
        (nativeScript (wrappedCode functionCode) argument) := by
  intro h
  obtain ⟨call, he, -, hcall⟩ := h (str "function(a)\x7breturn a\x7d") (str "a\");f(\"b")
  have hc : call = str "\n__result__(\"a\");f(\"b\");" := by
    have hsame : str "var __result__ = function(a)\x7breturn a\x7d;" ++
        str "\n__result__(\"a\");f(\"b\");" =
          str "var __result__ = function(a)\x7breturn a\x7d;" ++ call := he
    exact (List.append_cancel_left hsame).symm
  rw [hc] at hcall
  exact absurd hcall (by decide +kernel)

end QuickJsEngine

end Ytdlpdroid
