import Ytdlpdroid.Js.QuickJsBridge
import Ytdlpdroid.Resources.Ownership

namespace Ytdlpdroid.QuickJsBridge

open Text Concurrent Resources

def runtimes (live : List (Nat × Kind)) : Nat := live.countP fun entry => entry.2 = .runtime

-- The reference that stands for a result.
def refs : Option NativeString → List (Nat × Kind)
  | none => []
  | some text => [(text.handle, .localRef text.content)]

def content (result : Option NativeString) : Option Str := result.map NativeString.content

-- The result made of the text of a value, if it has one.
def converted (native : Native) (n : Nat) (text : Option Str) : Option Str :=
  text.bind (native.newStringUTF n)

-- What one evaluation answers.
def answer (native : Native) (n memoryLimitBytes stackLimitBytes : Nat)
    (script : Str) : Option Str :=
  if native.newRuntime n && native.newContext n then
    match native.eval n memoryLimitBytes stackLimitBytes script with
    | .ok text => converted native n text
    | .error _ => none
  else none

-- The first answer of the evaluations under these limits.
def firstAnswer (native : Native) (full : Str) : Nat → List Nat → Option Str
  | _, [] => none
  | n, memLimit :: rest =>
      (answer native n memLimit kStackLimit full).or (firstAnswer native full (n + 1) rest)

-- A native call, with the number of its first evaluation.
inductive NativeCall
  | execute (n : Nat) (jsCode argument : Str)
  | withPlayerJs (n : Nat) (playerJs discoveryScript : Str)

def NativeCall.code (native : Native) : NativeCall → Code (Option NativeString)
  | .execute n jsCode argument => executeNative native n jsCode argument
  | .withPlayerJs n playerJs discoveryScript =>
      executeWithPlayerJsNative native n playerJs discoveryScript

def NativeCall.answer (native : Native) : NativeCall → Option Str
  | .execute n jsCode argument =>
      if hasArguments native n then
        QuickJsBridge.answer native n QuickJsEngine.nativeMemLimit nativeStackLimit
          (QuickJsEngine.nativeScript jsCode argument)
      else none
  | .withPlayerJs n playerJs discoveryScript =>
      if hasArguments native n then
        firstAnswer native (QuickJsEngine.playerScript playerJs discoveryScript) n
          QuickJsEngine.kMemLimits
      else none

section

variable {native : Native} {n bound : Nat} {mine : Share parent} {ctx : Nat}

@[simp] theorem runtimes_cons (entry : Nat × Kind) (live : List (Nat × Kind)) :
    runtimes (entry :: live) = runtimes live + if entry.2 = .runtime then 1 else 0 := by
  simp [runtimes, List.countP_cons]

@[simp] theorem runtimes_append (first second : List (Nat × Kind)) :
    runtimes (first ++ second) = runtimes first + runtimes second := by
  simp [runtimes]

@[simp] theorem runtimes_refs (result : Option NativeString) : runtimes (refs result) = 0 := by
  cases result <;> simp [refs, runtimes]

theorem refs_parent (result : Option NativeString) (handle : Nat) :
    ∀ entry ∈ refs result, parent entry.2 ≠ some handle := by
  intro entry hm
  cases result with
  | none => cases hm
  | some text =>
      obtain rfl := List.mem_singleton.mp hm
      simp [parent]

theorem newStringUTF_ends (hbound : runtimes mine.live ≤ bound) (text : Str) :
    Ends (fun live => runtimes live ≤ bound) mine (NewStringUTF native n text)
      (fun result live => content result = converted native n (some text) ∧
        live = refs result ++ mine.live) := by
  unfold NewStringUTF
  split
  · rename_i hnew
    exact Ends.pure hbound ⟨hnew.symm, rfl⟩
  · rename_i made hnew
    refine ends_acquire hbound nofun fun handle mine' hlive _ => Ends.pure ?_ ⟨hnew.symm, ?_⟩
    · simpa [hlive] using hbound
    · simp [hlive, refs]

-- A C string is given back whatever was made in the meantime.
theorem freeCString_ends {α : Type} {k : Unit → Code α} {Q : α → List (Nat × Kind) → Prop}
    {memory : Nat} (base : Share parent) (result : Option NativeString) (text : Str)
    (hbound : runtimes mine.live ≤ bound)
    (hlive : mine.live = refs result ++ (memory, .cString ctx) :: base.live)
    (hctx : ctx ∈ base.live.map Prod.fst) (hmemory : memory ∉ base.live.map Prod.fst)
    (hk : ∀ mine' : Share parent, mine'.live = refs result ++ base.live →
      Ends (fun live => runtimes live ≤ bound) mine' (k ()) Q) :
    Ends (fun live => runtimes live ≤ bound) mine
      (JS_FreeCString ctx (some ⟨memory, text⟩) >>= k) Q := by
  have hne : parent (.cString ctx) ≠ some memory := by
    rintro ⟨⟩
    exact hmemory hctx
  rw [JS_FreeCString, Prog.bind_bind]
  refine ends_use hbound (by rw [hlive]; simp [hctx]) ?_
  exact ends_release_above base _ hbound hlive (refs_parent result memory) hne hk

-- A value converts to a C string, or not.
theorem toCString_ends {α : Type} {k : Option NativeString → Code α}
    {Q : α → List (Nat × Kind) → Prop} {handle : Nat} {text : Option Str}
    (hbound : runtimes mine.live ≤ bound) (hctx : ctx ∈ mine.live.map Prod.fst)
    (hhandle : handle ∈ mine.live.map Prod.fst)
    (hnone : text = none → Ends (fun live => runtimes live ≤ bound) mine (k none) Q)
    (hsome : ∀ content memory (mine' : Share parent), text = some content →
      memory ∉ mine.live.map Prod.fst →
      mine'.live = (memory, .cString ctx) :: mine.live → runtimes mine'.live ≤ bound →
        Ends (fun live => runtimes live ≤ bound) mine' (k (some ⟨memory, content⟩)) Q) :
    Ends (fun live => runtimes live ≤ bound) mine
      (JS_ToCString ctx (.held handle text) >>= k) Q := by
  cases text with
  | none =>
      have hconvert : JS_ToCString ctx (.held handle none) = (do use handle; return none) := rfl
      rw [hconvert, Prog.bind_bind]
      exact ends_use hbound hhandle (hnone rfl)
  | some content =>
      have hconvert : JS_ToCString ctx (.held handle (some content)) = (do
        use handle
        let memory ← acquire (.cString ctx)
        return some ⟨memory, content⟩) := rfl
      rw [hconvert, Prog.bind_bind]
      refine ends_use hbound hhandle ?_
      rw [Prog.bind_bind]
      refine ends_acquire hbound (by rintro owner ⟨⟩; exact hctx) fun memory mine' hlive hnew => ?_
      exact hsome content memory mine' rfl hnew hlive (by simpa [hlive] using hbound)

-- Of a value only the reference to its text is left.
theorem resultOf_held_ends {handle : Nat} (hbound : runtimes mine.live ≤ bound)
    (hctx : ctx ∈ mine.live.map Prod.fst) (hhandle : handle ∈ mine.live.map Prod.fst)
    (text : Option Str) :
    Ends (fun live => runtimes live ≤ bound) mine (resultOf native n ctx (.held handle text))
      (fun result live => content result = converted native n text ∧
        live = refs result ++ mine.live) := by
  refine toCString_ends hbound hctx hhandle ?_ ?_
  · rintro rfl
    exact Ends.pure hbound ⟨rfl, rfl⟩
  · rintro text memory mine₁ rfl hnew hlive hbound₁
    refine Ends.bind (newStringUTF_ends hbound₁ text) ?_
    rintro result mine₂ hbound₂ ⟨hresult, hlive₂⟩
    refine freeCString_ends mine result text hbound₂ (hlive₂.trans (by rw [hlive])) hctx hnew
      fun mine₃ hlive₃ => ?_
    exact Ends.pure (by simpa [hlive₃] using hbound) ⟨hresult, hlive₃⟩

-- Of what was thrown nothing is left.
theorem resultOf_exception_ends (hbound : runtimes mine.live ≤ bound)
    (hctx : ctx ∈ mine.live.map Prod.fst) (thrown : Option Str) :
    Ends (fun live => runtimes live ≤ bound) mine (resultOf native n ctx (.exception thrown))
      (fun result live => result = none ∧ live = mine.live) := by
  rw [resultOf, JS_GetException, Prog.bind_bind]
  refine ends_acquire hbound (by rintro owner ⟨⟩; exact hctx) fun exc mine₁ hlive hnew => ?_
  have hbound₁ : runtimes mine₁.live ≤ bound := by simpa [hlive] using hbound
  have hctx₁ : ctx ∈ mine₁.live.map Prod.fst := by simp [hlive, hctx]
  have hne : parent (.value ctx) ≠ some exc := by
    rintro ⟨⟩
    exact hnew hctx
  have hfree (mine₂ : Share parent) (hlive₂ : mine₂.live = mine₁.live) :
      Ends (fun live => runtimes live ≤ bound) mine₂
        (JS_FreeValue ctx (.held exc thrown) >>= fun _ => return none)
        (fun result live => result = (none : Option NativeString) ∧ live = mine.live) := by
    rw [JS_FreeValue, Prog.bind_bind]
    refine ends_use (by rwa [hlive₂]) (by rwa [hlive₂]) ?_
    refine ends_release_above mine [] (by rwa [hlive₂]) (hlive₂.trans hlive) nofun hne
      fun mine₃ hlive₃ => ?_
    exact Ends.pure (by rw [hlive₃]; exact hbound) ⟨rfl, hlive₃⟩
  refine toCString_ends hbound₁ hctx₁ (by simp [hlive]) (fun _ => hfree mine₁ rfl) ?_
  intro text memory mine₂ _ hnew₂ hlive₂ hbound₂
  exact freeCString_ends mine₁ none text hbound₂ hlive₂ hctx₁ hnew₂ hfree

-- What is left when a context and its runtime are given back.
theorem freeContext_ends {rt : Nat} {base : Share parent} {result : Option NativeString}
    (top : Share parent) (htop : top.live = (rt, .runtime) :: base.live)
    (hnew : ctx ∉ top.live.map Prod.fst)
    (hlive : mine.live = refs result ++ (ctx, .context rt) :: top.live)
    (hbound : runtimes base.live + 1 ≤ bound) :
    Ends (fun live => runtimes live ≤ bound) mine
      (do
        release ctx
        release rt
        return result)
      (fun last live => last = result ∧ live = refs result ++ base.live) := by
  have hne : parent (.context rt) ≠ some ctx := by
    rintro ⟨⟩
    exact hnew (by rw [htop]; exact List.mem_cons_self)
  refine ends_release_above top _ (by simpa [hlive, htop] using hbound) hlive
    (refs_parent result ctx) hne ?_
  intro mine₁ hlive₁
  have hlive₁ : mine₁.live = refs result ++ (rt, .runtime) :: base.live := by rw [hlive₁, htop]
  refine ends_release_above base _ (by simpa [hlive₁] using hbound) hlive₁ (refs_parent result rt)
    nofun ?_
  intro mine₂ hlive₂
  refine Ends.pure ?_ ⟨rfl, hlive₂⟩
  rw [hlive₂, runtimes_append, runtimes_refs]
  omega

-- An evaluation leaves nothing but the reference to its answer, and holds one runtime at most.
theorem evalAndReturn_ends (hbound : runtimes mine.live + 1 ≤ bound)
    (memoryLimitBytes stackLimitBytes : Nat) (script : Str) :
    Ends (fun live => runtimes live ≤ bound) mine
      (evalAndReturn native n (some script) memoryLimitBytes stackLimitBytes)
      (fun result live => content result = answer native n memoryLimitBytes stackLimitBytes script ∧
        live = refs result ++ mine.live) := by
  have hbound₀ : runtimes mine.live ≤ bound := by omega
  unfold evalAndReturn answer
  by_cases hruntime : native.newRuntime n
  · simp only [JS_NewRuntime, hruntime, if_true, Prog.bind_bind]
    refine ends_acquire hbound₀ nofun fun rt mine₁ hlive₁ _ => ?_
    have hbound₁ : runtimes mine₁.live ≤ bound := by simpa [hlive₁] using hbound
    have hrt : rt ∈ mine₁.live.map Prod.fst := by simp [hlive₁]
    refine ends_use hbound₁ hrt (ends_use hbound₁ hrt ?_)
    by_cases hcontext : native.newContext n
    · simp only [JS_NewContext, hcontext, if_true, Prog.bind_bind]
      refine ends_acquire hbound₁ (by rintro owner ⟨⟩; exact hrt) fun ctx mine₂ hlive₂ hnew₂ => ?_
      have hbound₂ : runtimes mine₂.live ≤ bound := by simpa [hlive₂] using hbound₁
      have hctx : ctx ∈ mine₂.live.map Prod.fst := by simp [hlive₂]
      have hfree {result : Option NativeString} {last : Share parent}
          (hlast : last.live = refs result ++ mine₂.live) :=
        freeContext_ends mine₁ hlive₁ hnew₂ (hlast.trans (by rw [hlive₂])) hbound
      unfold JS_Eval
      cases native.eval n memoryLimitBytes stackLimitBytes script with
      | error thrown =>
          simp only [Prog.bind_bind]
          refine ends_use hbound₂ hctx ?_
          change Ends _ mine₂ (resultOf native n ctx (.exception thrown) >>= _) _
          refine Ends.bind (resultOf_exception_ends hbound₂ hctx thrown) ?_
          rintro result mine₃ hbound₃ ⟨rfl, hlive₃⟩
          refine (hfree hlive₃).mono (fun _ => id) ?_
          rintro result live ⟨rfl, rfl⟩
          exact ⟨rfl, rfl⟩
      | ok text =>
          simp only [Prog.bind_bind]
          refine ends_acquire hbound₂ (by rintro owner ⟨⟩; exact hctx)
            fun handle mine₃ hlive₃ hnew₃ => ?_
          have hbound₃ : runtimes mine₃.live ≤ bound := by simpa [hlive₃] using hbound₂
          have hctx₃ : ctx ∈ mine₃.live.map Prod.fst := by simp [hlive₃, hctx]
          change Ends _ mine₃ (resultOf native n ctx (.held handle text) >>= _) _
          refine Ends.bind (resultOf_held_ends hbound₃ hctx₃ (by simp [hlive₃]) text) ?_
          rintro result mine₄ hbound₄ ⟨hresult, hlive₄⟩
          have hne : parent (.value ctx) ≠ some handle := by
            rintro ⟨⟩
            exact hnew₃ hctx
          have hheld : ctx ∈ mine₄.live.map Prod.fst := by simp [hlive₄, hctx₃]
          rw [JS_FreeValue, Prog.bind_bind]
          refine ends_use hbound₄ hheld ?_
          refine ends_release_above mine₂ _ hbound₄ (hlive₄.trans (by rw [hlive₃]))
            (refs_parent result handle) hne ?_
          intro mine₅ hlive₅
          refine (hfree hlive₅).mono (fun _ => id) ?_
          rintro last live ⟨rfl, rfl⟩
          exact ⟨hresult, rfl⟩
    · simp only [JS_NewContext, hcontext]
      refine ends_release_above mine [] hbound₁ hlive₁ nofun nofun fun mine₂ hlive₂ => ?_
      exact Ends.pure (by rwa [hlive₂]) ⟨rfl, hlive₂⟩
  · simp only [JS_NewRuntime, hruntime]
    exact Ends.pure hbound₀ ⟨by simp [content], rfl⟩

-- The rounds of the loop hold one runtime after another.
theorem tryLimits_ends (hbound : runtimes mine.live + 1 ≤ bound) (full : Str) (n : Nat)
    (limits : List Nat) :
    Ends (fun live => runtimes live ≤ bound) mine (tryLimits native full n limits)
      (fun result live => content result = firstAnswer native full n limits ∧
        live = refs result ++ mine.live) := by
  induction limits generalizing n mine with
  | nil => exact Ends.pure (by omega) ⟨rfl, rfl⟩
  | cons memLimit rest ih =>
      rw [tryLimits, firstAnswer]
      refine Ends.bind (evalAndReturn_ends hbound memLimit kStackLimit full) ?_
      rintro result mine₁ hbound₁ ⟨hresult, hlive⟩
      cases result with
      | some text =>
          rw [← hresult]
          exact Ends.pure hbound₁ ⟨rfl, hlive⟩
      | none =>
          have hsame : mine₁.live = mine.live := hlive
          rw [← hresult, ← hsame]
          exact ih (by rwa [hsame]) (n + 1)

theorem getStringUTFChars_ends {α : Type} {k : Option NativeString → Code α}
    {Q : α → List (Nat × Kind) → Prop} {position : Fin 2} {text : Str}
    (hbound : runtimes mine.live ≤ bound) (hnone : native.getStringUTFChars n position = false →
      Ends (fun live => runtimes live ≤ bound) mine (k none) Q)
    (hsome : ∀ chars (mine' : Share parent), native.getStringUTFChars n position = true →
      mine'.live = (chars, .utfChars) :: mine.live →
        Ends (fun live => runtimes live ≤ bound) mine' (k (some ⟨chars, text⟩)) Q) :
    Ends (fun live => runtimes live ≤ bound) mine
      (GetStringUTFChars native n position text >>= k) Q := by
  unfold GetStringUTFChars
  by_cases hchars : native.getStringUTFChars n position
  · rw [if_pos hchars, Prog.bind_bind]
    exact ends_acquire hbound nofun fun chars mine' hlive _ => hsome chars mine' hchars hlive
  · rw [if_neg hchars]
    exact hnone (Bool.eq_false_iff.mpr hchars)

theorem releaseChars_ends {α : Type} {k : Unit → Code α} {Q : α → List (Nat × Kind) → Prop}
    {chars : Nat} {text : Str} (base : Share parent) (before : List (Nat × Kind))
    (hbound : runtimes mine.live ≤ bound)
    (hlive : mine.live = before ++ (chars, .utfChars) :: base.live)
    (hbefore : ∀ entry ∈ before, parent entry.2 = none)
    (hk : ∀ mine' : Share parent, mine'.live = before ++ base.live →
      Ends (fun live => runtimes live ≤ bound) mine' (k ()) Q) :
    Ends (fun live => runtimes live ≤ bound) mine
      (ReleaseStringUTFChars ⟨chars, text⟩ >>= k) Q := by
  refine ends_release_above base _ hbound hlive (fun entry hm howner => ?_) nofun hk
  rw [hbefore entry hm] at howner
  cases howner

theorem refs_unowned (result : Option NativeString) :
    ∀ entry ∈ refs result, parent entry.2 = none := by
  intro entry hm
  cases result with
  | none => cases hm
  | some text =>
      obtain rfl := List.mem_singleton.mp hm
      rfl

-- A call that does not get both of its arguments gives back the one it has, and answers nothing.
theorem arguments_ends {k : Option NativeString → Option NativeString → Code (Option NativeString)}
    {expected : Option Str} (first second : Str) (hbound : runtimes mine.live ≤ bound)
    (hmissing : ∀ code arg, code = none ∨ arg = none → k code arg = (do
      releaseIfHeld code
      releaseIfHeld arg
      return none))
    (hnone : hasArguments native n = false → expected = none)
    (hboth : hasArguments native n = true → ∀ code arg (mine' : Share parent),
      mine'.live = (arg, .utfChars) :: (code, .utfChars) :: mine.live →
        Ends (fun live => runtimes live ≤ bound) mine' (k (some ⟨code, first⟩) (some ⟨arg, second⟩))
          (fun result live => content result = expected ∧ live = refs result ++ mine.live)) :
    Ends (fun live => runtimes live ≤ bound) mine
      (do
        let code ← GetStringUTFChars native n 0 first
        let arg ← GetStringUTFChars native n 1 second
        k code arg)
      (fun result live => content result = expected ∧ live = refs result ++ mine.live) := by
  refine getStringUTFChars_ends hbound (fun hcode => ?_) fun code mine₁ hcode hlive₁ => ?_
  · have hlacks : hasArguments native n = false := by rw [hasArguments, hcode, Bool.false_and]
    refine getStringUTFChars_ends hbound (fun _ => ?_) fun arg mine₂ _ hlive₂ => ?_
    · rw [hmissing none none (Or.inl rfl)]
      exact Ends.pure hbound ⟨(hnone hlacks).symm, rfl⟩
    · rw [hmissing none _ (Or.inl rfl)]
      refine releaseChars_ends mine [] (by simpa [hlive₂] using hbound) hlive₂ nofun
        fun mine₃ hlive₃ => ?_
      exact Ends.pure (by rwa [hlive₃]) ⟨(hnone hlacks).symm, hlive₃⟩
  · have hbound₁ : runtimes mine₁.live ≤ bound := by simpa [hlive₁] using hbound
    refine getStringUTFChars_ends hbound₁ (fun harg => ?_) fun arg mine₂ harg hlive₂ => ?_
    · have hlacks : hasArguments native n = false := by rw [hasArguments, harg, Bool.and_false]
      rw [hmissing _ none (Or.inr rfl)]
      refine releaseChars_ends mine [] hbound₁ hlive₁ nofun fun mine₃ hlive₃ => ?_
      exact Ends.pure (by rwa [hlive₃]) ⟨(hnone hlacks).symm, hlive₃⟩
    · exact hboth (by rw [hasArguments, hcode, harg]; rfl) code arg mine₂ (by rw [hlive₂, hlive₁])

theorem executeNative_ends (hbound : runtimes mine.live + 1 ≤ bound) (n : Nat)
    (jsCode argument : Str) :
    Ends (fun live => runtimes live ≤ bound) mine (executeNative native n jsCode argument)
      (fun result live => content result = (NativeCall.execute n jsCode argument).answer native ∧
        live = refs result ++ mine.live) := by
  have hbound₀ : runtimes mine.live ≤ bound := by omega
  unfold executeNative
  refine arguments_ends jsCode argument hbound₀ ?_ (fun hlacks => if_neg (by simp [hlacks])) ?_
  · rintro (_ | code) (_ | arg) hnone
    · rfl
    · rfl
    · rfl
    · simp at hnone
  · intro hhas code arg mine₁ hlive₁
    have hbound₁ : runtimes mine₁.live + 1 ≤ bound := by simpa [hlive₁] using hbound
    refine Ends.bind (evalAndReturn_ends hbound₁ _ _ _) ?_
    rintro result mine₂ hbound₂ ⟨hresult, hlive₂⟩
    have hlive₂ :
        mine₂.live = (refs result ++ [(arg, .utfChars)]) ++ (code, .utfChars) :: mine.live := by
      rw [hlive₂, hlive₁, List.append_assoc]
      rfl
    refine releaseChars_ends mine _ hbound₂ hlive₂ (fun entry hm => ?_) fun mine₃ hlive₃ => ?_
    · rcases List.mem_append.mp hm with hm | hm
      · exact refs_unowned result entry hm
      · obtain rfl := List.mem_singleton.mp hm
        rfl
    · have hlive₃ : mine₃.live = refs result ++ (arg, .utfChars) :: mine.live := by
        rw [hlive₃, List.append_assoc]
        rfl
      refine releaseChars_ends mine _ (by simpa [hlive₃] using hbound₀) hlive₃ (refs_unowned result)
        fun mine₄ hlive₄ => ?_
      exact Ends.pure (by simpa [hlive₄] using hbound₀) ⟨hresult.trans (if_pos hhas).symm, hlive₄⟩

-- The arguments are given back before the first evaluation.
theorem executeWithPlayerJsNative_ends (hbound : runtimes mine.live + 1 ≤ bound) (n : Nat)
    (playerJs discoveryScript : Str) :
    Ends (fun live => runtimes live ≤ bound) mine
      (executeWithPlayerJsNative native n playerJs discoveryScript)
      (fun result live => content result =
        (NativeCall.withPlayerJs n playerJs discoveryScript).answer native ∧
        live = refs result ++ mine.live) := by
  have hbound₀ : runtimes mine.live ≤ bound := by omega
  unfold executeWithPlayerJsNative
  refine arguments_ends playerJs discoveryScript hbound₀ ?_
    (fun hlacks => if_neg (by simp [hlacks])) ?_
  · rintro (_ | pjs) (_ | disc) hnone
    · rfl
    · rfl
    · rfl
    · simp at hnone
  · intro hhas pjs disc mine₁ hlive₁
    have hlive₁ : mine₁.live = [(disc, .utfChars)] ++ (pjs, .utfChars) :: mine.live := hlive₁
    refine releaseChars_ends mine _ (by simpa [hlive₁] using hbound₀) hlive₁
      (by simp [parent]) fun mine₂ hlive₂ => ?_
    refine releaseChars_ends mine [] (by simpa [hlive₂] using hbound₀) hlive₂ nofun
      fun mine₃ hlive₃ => ?_
    have hsame : mine₃.live = mine.live := hlive₃
    refine (tryLimits_ends (by rwa [hsame]) _ n _).mono (fun _ => id) ?_
    rintro result live ⟨hresult, rfl⟩
    exact ⟨hresult.trans (if_pos hhas).symm, by rw [hsame]⟩

theorem nativeCall_ends (hbound : runtimes mine.live + 1 ≤ bound) (call : NativeCall) :
    Ends (fun live => runtimes live ≤ bound) mine (call.code native)
      (fun result live => content result = call.answer native ∧
        live = refs result ++ mine.live) := by
  cases call with
  | execute n jsCode argument => exact executeNative_ends hbound n jsCode argument
  | withPlayerJs n playerJs discoveryScript =>
      exact executeWithPlayerJsNative_ends hbound n playerJs discoveryScript

-- A native call on a thread that holds nothing yet.
def NativeCall.thread (native : Native) (call : NativeCall) :
    Thread parent (Option NativeString) where
  prog := call.code native
  share := {}
  keeps := fun live => runtimes live ≤ 1
  returns := fun result live => content result = call.answer native ∧ live = refs result

theorem thread_ends (native : Native) (call : NativeCall) : (call.thread native).Ends :=
  (nativeCall_ends (Nat.le_refl 1) call).mono (fun _ => id) fun _ _ h =>
    ⟨h.1, h.2.trans (List.append_nil _)⟩

theorem runtimes_kept {calls : List NativeCall} {live : List (Nat × Kind)}
    (h : Kept (calls.map fun call => (call.thread native).keeps) live) :
    runtimes live ≤ calls.length := by
  obtain ⟨parts, hlive, hparts⟩ := h
  rw [List.forall₂_map_left_iff] at hparts
  have hsum : runtimes parts.flatten ≤ calls.length := by
    clear hlive
    induction hparts with
    | nil => exact Nat.le_refl _
    | cons hfirst _ ih =>
        have hone : runtimes _ ≤ 1 := hfirst
        rw [List.flatten_cons, runtimes_append, List.length_cons]
        omega
  rwa [runtimes, hlive.countP_eq]

theorem results_returned {calls : List NativeCall}
    {outcomes : List (Except Fault (Option NativeString))} {live : List (Nat × Kind)}
    (h : Returned (calls.map fun call => (call.thread native).returns) outcomes live) :
    ∃ results : List (Option NativeString), outcomes = results.map .ok ∧
      results.map content = calls.map (NativeCall.answer native) ∧
        live.Perm (results.flatMap refs) := by
  obtain ⟨ends, rfl, hlive, hends⟩ := h
  rw [List.forall₂_map_left_iff] at hends
  have hanswers : (ends.map Prod.fst).map content = calls.map (NativeCall.answer native) := by
    clear hlive
    induction hends with
    | nil => rfl
    | cons hfirst _ ih => exact List.cons_eq_cons.mpr ⟨hfirst.1, ih⟩
  have hrefs : ends.flatMap Prod.snd = (ends.map Prod.fst).flatMap refs := by
    clear hlive hanswers
    induction hends with
    | nil => rfl
    | cons hfirst _ ih => rw [List.flatMap_cons, List.map_cons, List.flatMap_cons, ih, hfirst.2]
  exact ⟨ends.map Prod.fst, by simp, hanswers, hrefs ▸ hlive⟩

-- Native calls on any number of threads never use or give back what is not held, and never
-- give back what is in use, however they interleave. Each call answers as it does alone and
-- leaves only the reference to its answer, and has at most one runtime at a time.
theorem nativeCalls_interleaved (native : Native) (calls : List NativeCall) (schedule : List Nat)
    (heap : Heap parent) :
    let program : Manages parent (List (Except Fault (Option NativeString))) :=
      Prog.par schedule (calls.map (NativeCall.code native))
    (∀ count, runtimes (program.stopAfter count heap).live ≤ runtimes heap.live + calls.length) ∧
      ∃ (results : List (Option NativeString)) (heap' : Heap parent),
        program.run heap = (.ok (results.map .ok), heap') ∧
        results.map content = calls.map (NativeCall.answer native) ∧
        heap'.live.Perm (results.flatMap refs ++ heap.live) := by
  intro program
  have hthreads : ∀ thread ∈ calls.map (NativeCall.thread native), thread.Ends := by
    intro thread hm
    obtain ⟨call, -, rfl⟩ := List.mem_map.mp hm
    exact thread_ends native call
  have hnone :
      ((calls.map (NativeCall.thread native)).flatMap fun thread => thread.share.live) = [] := by
    simp [List.flatMap_map, NativeCall.thread]
  have hends := par_ends schedule hthreads {} (by rw [hnone])
  rw [List.map_map, List.map_map, List.map_map] at hends
  have hprogram :
      program = Prog.par schedule (calls.map (Thread.prog ∘ NativeCall.thread native)) := rfl
  rw [← hprogram] at hends
  constructor
  · intro count
    obtain ⟨part, hlive, hkept⟩ := hends.stopAfter heap.toShare (List.Perm.refl _) count
    rw [runtimes, hlive.countP_eq, ← runtimes, runtimes_append]
    have hle := runtimes_kept hkept
    omega
  · obtain ⟨outcomes, heap', hrun, part, hlive, hreturned⟩ :=
      hends.run heap.toShare (List.Perm.refl _)
    obtain ⟨results, rfl, hanswers, hrefs⟩ := results_returned hreturned
    exact ⟨results, heap', hrun, hanswers, hlive.trans (hrefs.append_right _)⟩

end

end Ytdlpdroid.QuickJsBridge
