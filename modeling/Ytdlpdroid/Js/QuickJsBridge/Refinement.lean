import Ytdlpdroid.Js.QuickJsBridge.Theorems
import Ytdlpdroid.Model.World

namespace Ytdlpdroid.QuickJsBridge

open Text Concurrent Resources

-- The native code as the engine that the library asks. Under the limit for a single function an
-- evaluation is a call of its own; under another limit it is a round of the loop over the limits,
-- whose call began as many evaluations earlier.
def engine (native : Native) (n memoryLimitBytes : Nat) (script : Str) : Option Str :=
  if memoryLimitBytes = QuickJsEngine.nativeMemLimit then
    if hasArguments native n then answer native n memoryLimitBytes nativeStackLimit script else none
  else if hasArguments native (n - QuickJsEngine.kMemLimits.idxOf memoryLimitBytes) then
    answer native n memoryLimitBytes kStackLimit script
  else none

def withNative (env : Env) (native : Native) : Env :=
  { env with jsEngine := .quickJs (engine native) }

-- In a round the engine answers as the evaluation of this round.
theorem engine_round (native : Native) (n offset : Nat) (script : Str) {memLimit : Nat}
    (hround : QuickJsEngine.kMemLimits[offset]? = some memLimit) :
    engine native (n + offset) memLimit script =
      if hasArguments native n then answer native
        (n + offset) memLimit kStackLimit script else none := by
  obtain ⟨hoffset, rfl⟩ := List.getElem?_eq_some_iff.mp hround
  have hdistinct : QuickJsEngine.kMemLimits.Nodup := by decide
  have hother : QuickJsEngine.kMemLimits[offset] ≠ QuickJsEngine.nativeMemLimit := by
    intro he
    have hm : QuickJsEngine.nativeMemLimit ∈ QuickJsEngine.kMemLimits :=
      he ▸ List.getElem_mem hoffset
    exact absurd hm (by decide)
  rw [engine, if_neg hother, hdistinct.idxOf_getElem, Nat.add_sub_cancel]

section

variable {eval : Nat → Nat → Str → Option Str} {script : Str} {w : World} {limit : Nat}
  {rest : List Nat}

theorem evalWithLimits_of_some {text : Str} (h : eval w.evaluations limit script = some text) :
    ((evalWithLimits eval script (limit :: rest)).run w).1 = .ok (some text) := by
  rw [evalWithLimits, Prog.run_bind, Prog.run_atomic, h]
  rfl

theorem evalWithLimits_of_none (h : eval w.evaluations limit script = none) :
    ((evalWithLimits eval script (limit :: rest)).run w).1 =
      ((evalWithLimits eval script rest).run { w with evaluations := w.evaluations + 1 }).1 := by
  rw [evalWithLimits, Prog.run_bind, Prog.run_atomic, h]

end

-- The rounds of the library's model are those of the native loop.
theorem evalWithLimits_rounds (native : Native) (script : Str) (n offset : Nat) {limits : List Nat}
    {w : World} (hlimits : QuickJsEngine.kMemLimits.drop offset = limits)
    (hw : w.evaluations = n + offset) :
    ((evalWithLimits (engine native) script limits).run w).1 =
      .ok (if hasArguments native n then firstAnswer native script
        (n + offset) limits else none) := by
  induction limits generalizing offset w with
  | nil => rw [firstAnswer, ite_self, evalWithLimits, Prog.run_pure]
  | cons memLimit rest ih =>
      have hround : QuickJsEngine.kMemLimits[offset]? = some memLimit := by
        rw [← List.head?_drop, hlimits, List.head?_cons]
      have hrest : QuickJsEngine.kMemLimits.drop (offset + 1) = rest := by
        rw [← List.tail_drop, hlimits, List.tail_cons]
      have hnext :
          ((evalWithLimits (engine native) script rest).run { w with evaluations :=
            w.evaluations + 1 }).1 =
          .ok (if hasArguments native n then firstAnswer native script
            (n + offset + 1) rest else none) :=
        ih (offset + 1) hrest (by rw [hw, Nat.add_assoc])
      have hanswer := engine_round native n offset script hround
      rw [← hw] at hanswer
      by_cases hhas : hasArguments native n
      · rw [if_pos hhas] at hanswer hnext ⊢
        rw [firstAnswer, ← hw]
        cases h : answer native w.evaluations memLimit kStackLimit script with
        | some text => exact evalWithLimits_of_some (hanswer.trans h)
        | none =>
            rw [evalWithLimits_of_none (hanswer.trans h), hnext, hw]
            rfl
      · rw [if_neg hhas] at hanswer hnext ⊢
        rw [evalWithLimits_of_none hanswer, hnext]

theorem nativeCall_run (native : Native) (heap : Heap parent) (call : NativeCall) :
    ∃ result heap', (call.code native).run heap = (.ok result, heap') ∧
      content result = call.answer native := by
  have hends : Ends (fun live => runtimes live ≤ 1) ({} : Share parent) (call.code native) _ :=
    nativeCall_ends (Nat.le_refl 1) call
  obtain ⟨result, heap', hrun, part, -, hanswer, -⟩ := hends.run heap.toShare (List.Perm.refl _)
  exact ⟨result, heap', hrun, hanswer⟩

-- What the library gets from the engine is what the native code computes from the virtual machine's
-- and QuickJS's answers, in any state of the library and of the heap.
theorem withNative_refines (env : Env) (native : Native) (w : World) (heap : Heap parent) :
    (∀ functionCode argument, ∃ result heap',
      (executeNative native w.evaluations (QuickJsEngine.wrappedCode functionCode) argument).run
        heap =
        (.ok result, heap') ∧
      ((executeJs (withNative env native) functionCode argument).run w).1 =
        QuickJsEngine.executeResult argument (content result)) ∧
    ∀ playerJs discoveryScript, ∃ result heap',
      (executeWithPlayerJsNative native w.evaluations playerJs discoveryScript).run heap =
      (.ok result, heap') ∧
      ((executeWithPlayerJs (engine native) playerJs discoveryScript).run w).1 =
        .ok ((content result).filter QuickJsEngine.usable) := by
  constructor
  · intro functionCode argument
    obtain ⟨result, heap', hrun, hanswer⟩ := nativeCall_run native heap
      (.execute w.evaluations (QuickJsEngine.wrappedCode functionCode) argument)
    refine ⟨result, heap', hrun, ?_⟩
    rw [hanswer, executeJs, Prog.run_attemptAtomic]
    change QuickJsEngine.executeResult argument
      (engine native w.evaluations QuickJsEngine.nativeMemLimit _) = _
    rw [engine, if_pos rfl]
    rfl
  · intro playerJs discoveryScript
    obtain ⟨result, heap', hrun, hanswer⟩ :=
      nativeCall_run native heap (.withPlayerJs w.evaluations playerJs discoveryScript)
    refine ⟨result, heap', hrun, ?_⟩
    have hrounds :
        ((evalWithLimits (engine native) (QuickJsEngine.playerScript playerJs discoveryScript)
        QuickJsEngine.kMemLimits).run w).1 = .ok ((NativeCall.withPlayerJs w.evaluations playerJs
          discoveryScript).answer native) :=
      evalWithLimits_rounds native _ w.evaluations 0 rfl rfl
    rw [executeWithPlayerJs, Prog.run_bind]
    rcases h : (evalWithLimits (engine native) (QuickJsEngine.playerScript playerJs discoveryScript)
      QuickJsEngine.kMemLimits).run w with ⟨outcome, w'⟩
    rw [h] at hrounds
    obtain rfl : outcome = _ := hrounds
    rw [hanswer]
    rfl

end Ytdlpdroid.QuickJsBridge
