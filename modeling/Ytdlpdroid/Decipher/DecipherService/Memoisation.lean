import Ytdlpdroid.Collections.Memo
import Ytdlpdroid.Concurrent.Runs
import Ytdlpdroid.Decipher.DecipherService.Theorems
import Ytdlpdroid.Decipher.SignatureDecipherer.Theorems

namespace Ytdlpdroid

open Text Collections Concurrent

namespace DecipherService

-- The two function caches, one of each decipherer.
inductive FunctionCache
  | signature
  | n
  deriving DecidableEq

def FunctionCache.table (w : World) : FunctionCache → Int → Option Str
  | .signature => w.sigFunctionCache
  | .n => w.nFunctionCache

-- A call of the decipherer with this cache, `decrypt(text, playerJs)` or `transform(text,
-- playerJs)`.
structure Call where
  cache : FunctionCache
  text : Str
  playerJs : Str

section

variable (env : Env)

def Call.program (call : Call) : Action Str :=
  match call.cache with
  | .signature => SignatureDecipherer.decrypt env call.text call.playerJs
  | .n => NParamDecipherer.transform env call.text call.playerJs

-- The program that extracts the function code that the cache is for.
def FunctionCache.extract (cache : FunctionCache) (playerJs : Str) : Action Str :=
  match cache with
  | .signature => .ofExcept (SignatureDecipherer.extractSigFunctionCode playerJs)
  | .n => NParamDecipherer.extractNFunction env playerJs

-- The program by which a call gets the function code that it executes.
def Call.functionCode (call : Call) : Action Str :=
  match call.cache with
  | .signature => SignatureDecipherer.functionCode call.playerJs
  | .n => NParamDecipherer.functionCode env call.playerJs

-- The call needs the function: the URL has the parameter, or the cipher has its fields.
def Call.Reads (call : Call) : Prop :=
  match call.cache with
  | .signature => ∃ params encSig baseUrl, SignatureDecipherer.splitFields call.text = .ok params ∧
      SignatureDecipherer.encSig params = .ok encSig ∧
      SignatureDecipherer.baseUrl params = .ok baseUrl
  | .n => NParamDecipherer.N_PARAM_RE.findGroup call.text 2 ≠ none

-- The instances, and the player JS with which each cache entry was made.
structure Desk where
  world : World
  owner : FunctionCache → Int → Option Str := fun _ _ => none

def Desk.after (desk : Desk) (call : Call) : Desk :=
  let world := ((call.program env).run desk.world).2
  { world
    owner := Function.update desk.owner call.cache (credit hashCode (call.cache.table desk.world)
      (call.cache.table world) call.playerJs (desk.owner call.cache)) }

end

-- No function has been cached yet.
def Fresh (w : World) : Prop := ∀ cache k, FunctionCache.table w cache k = none

section

variable {env : Env}

theorem sameTables_engineFrame (before : World) :
    EngineFrame fun w => FunctionCache.table w = FunctionCache.table before := by
  intro w evaluations executions h
  rw [← h]
  funext cache
  cases cache <;> rfl

-- The work of the engine gives the same answer in every state, and leaves the caches alone.
theorem run_of_determined {p : Action Str} (h : Prog.Determined EngineFrame p) :
    ∃ o, ∀ w, (p.run w).1 = o ∧ FunctionCache.table (p.run w).2 = FunctionCache.table w := by
  obtain ⟨o, ho⟩ := h
  exact ⟨o, fun w => (ho _ (sameTables_engineFrame w)).run rfl⟩

theorem extract_determined (h : env.SteadyEngine) (cache : FunctionCache) (playerJs : Str) :
    Prog.Determined EngineFrame (cache.extract env playerJs) := by
  cases cache with
  | signature => exact Prog.Determined.ofExcept _
  | n => exact NParamDecipherer.extractNFunction_determined h playerJs

def FunctionCache.store (w : World) (cache : FunctionCache) (table : Int → Option Str) : World :=
  match cache with
  | .signature => { w with sigFunctionCache := table }
  | .n => { w with nFunctionCache := table }

theorem table_store (w : World) (cache : FunctionCache) (table : Int → Option Str) :
    FunctionCache.table (cache.store w table) = Function.update
      (FunctionCache.table w) cache table := by
  funext other
  cases cache <;> cases other <;> rfl

-- Extract the function code and cache it.
def FunctionCache.fill (env : Env) (cache : FunctionCache) (playerJs : Str) : Action Str := do
  let fnCode ← cache.extract env playerJs
  writing fun w =>
    cache.store w (Function.update (FunctionCache.table w cache) (hashCode playerJs) (some fnCode))
  return fnCode

-- `functionCache.getOrPut(playerJs.hashCode()) { ... }`, for either cache.
theorem functionCode_eq (call : Call) : call.functionCode env =
    (reading fun w => FunctionCache.table w call.cache (hashCode call.playerJs)) >>=
      fun entry => entry.elim (call.cache.fill env call.playerJs) pure := by
  obtain ⟨cache, text, playerJs⟩ := call
  cases cache with
  | signature =>
      refine congrArg (Prog.bind _) (funext fun entry => ?_)
      cases entry <;> rfl
  | n =>
      refine congrArg (Prog.bind _) (funext fun entry => ?_)
      cases entry <;> rfl

theorem functionCode_run {compute : Str → Except Throwable Str} {call : Call} {w : World}
    (houtcome : ((call.cache.extract env call.playerJs).run w).1 = compute call.playerJs)
    (htables : FunctionCache.table ((call.cache.extract env call.playerJs).run w).2 =
      FunctionCache.table w) :
    ((call.functionCode env).run w).1 =
        (getOrPut hashCode compute (FunctionCache.table w call.cache) call.playerJs).1 ∧
      FunctionCache.table ((call.functionCode env).run w).2 = Function.update
        (FunctionCache.table w) call.cache
        (getOrPut hashCode compute (FunctionCache.table w call.cache) call.playerJs).2 := by
  simp only [functionCode_eq, Prog.run_bind, reading, Prog.run_atomic]
  cases hc : FunctionCache.table w call.cache (hashCode call.playerJs) with
  | some fnCode => simp [getOrPut, hc]
  | none =>
      rcases hrun : (call.cache.extract env call.playerJs).run w with ⟨outcome, w'⟩
      simp only [hrun] at houtcome htables
      subst houtcome
      simp only [getOrPut, hc, Option.elim_none, FunctionCache.fill, Prog.run_bind, hrun]
      cases hcompute : compute call.playerJs with
      | error e => simp [htables]
      | ok fnCode => simp [writing, table_store, htables]

-- A call that needs no function ends before it looks at the cache.
theorem program_of_not_reads (env : Env) {call : Call} (hreads : ¬call.Reads) :
    ∃ o, call.program env = .ofExcept o := by
  obtain ⟨cache, text, playerJs⟩ := call
  cases cache with
  | signature =>
      simp only [Call.program, SignatureDecipherer.decrypt]
      cases hparams : SignatureDecipherer.splitFields text with
      | error e => exact ⟨.error e, rfl⟩
      | ok params =>
          simp only [Prog.ofExcept_ok_bind]
          cases hsig : SignatureDecipherer.encSig params with
          | error e => exact ⟨.error e, rfl⟩
          | ok encSig =>
              simp only [Prog.ofExcept_ok_bind]
              cases hbase : SignatureDecipherer.baseUrl params with
              | error e => exact ⟨.error e, rfl⟩
              | ok baseUrl => exact (hreads ⟨params, encSig, baseUrl, hparams, hsig, hbase⟩).elim
  | n =>
      have hnone : NParamDecipherer.N_PARAM_RE.findGroup text 2 = none := by
        by_contra hne
        exact hreads hne
      simp only [Call.program, NParamDecipherer.transform, hnone]
      exact ⟨.ok text, rfl⟩

-- What a call does with the function code does not depend on the state.
theorem program_of_reads (h : env.SteadyEngine) {call : Call} (hreads : call.Reads) :
    ∃ rest, call.program env = call.functionCode env >>= rest ∧
      ∀ fnCode, Prog.Determined EngineFrame (rest fnCode) := by
  obtain ⟨cache, text, playerJs⟩ := call
  cases cache with
  | signature =>
      obtain ⟨params, encSig, baseUrl, hparams, hsig, hbase⟩ := hreads
      simp only [Call.program, SignatureDecipherer.decrypt, hparams, hsig, hbase,
        Prog.ofExcept_ok_bind]
      exact ⟨_, rfl, fun fnCode => (executeJs_determined h fnCode encSig).bind fun _ => .pure _⟩
  | n =>
      obtain ⟨nValue, hvalue⟩ := Option.ne_none_iff_exists'.mp hreads
      simp only [Call.program, NParamDecipherer.transform, hvalue]
      refine ⟨_, rfl, fun fnCode => ?_⟩
      split_ifs
      · exact (NParamDecipherer.transformViaFullPlayerJs_determined h playerJs nValue).bind fun _ =>
          .pure _
      · exact (executeJs_determined h fnCode nValue).bind fun _ => .pure _

theorem run_of_reads (h : env.SteadyEngine) {call : Call} (hreads : call.Reads) :
    ∃ answer : Str → Except Throwable Str, ∀ w,
      ((call.program env).run w).1 = ((call.functionCode env).run w).1.bind answer ∧
        FunctionCache.table ((call.program env).run w).2 =
          FunctionCache.table ((call.functionCode env).run w).2 := by
  obtain ⟨rest, hprogram, hrest⟩ := program_of_reads h hreads
  choose answer hanswer using fun fnCode => run_of_determined (hrest fnCode)
  refine ⟨answer, fun w => ?_⟩
  rw [hprogram, Prog.run_bind]
  rcases hrun : (call.functionCode env).run w with ⟨outcome, w'⟩
  cases outcome with
  | error e => exact ⟨rfl, rfl⟩
  | ok fnCode => exact hanswer fnCode w'

-- What the engine extracts, given as a function.
def Extracts (env : Env) (compute : FunctionCache → Str → Except Throwable Str) : Prop :=
  ∀ cache playerJs w, ((cache.extract env playerJs).run w).1 = compute cache playerJs ∧
    FunctionCache.table ((cache.extract env playerJs).run w).2 = FunctionCache.table w

theorem exists_extracts (h : env.SteadyEngine) : ∃ compute, Extracts env compute := by
  choose compute hcompute using fun cache playerJs =>
    run_of_determined (extract_determined h cache playerJs)
  exact ⟨compute, hcompute⟩

-- Every cached function was extracted from the player JS that the entry was made with.
def Desk.Sound (compute : FunctionCache → Str → Except Throwable Str) (desk : Desk) : Prop :=
  ∀ cache, Owned hashCode (compute cache) (FunctionCache.table desk.world cache) (desk.owner cache)

theorem sound_of_fresh {compute : FunctionCache → Str → Except Throwable Str} {w : World}
    (h : Fresh w) :
    Desk.Sound compute { world := w } := by
  intro cache
  have hempty : FunctionCache.table w cache = fun _ => none := funext (h cache)
  rw [hempty]
  exact owned_empty

section

variable {compute : FunctionCache → Str → Except Throwable Str} {desk : Desk} {call : Call}

theorem functionCode_of_sound (hcompute : Extracts env compute) (hdesk : desk.Sound compute)
    (call : Call) :
    ((call.functionCode env).run desk.world).1 = compute call.cache
      ((desk.owner call.cache (hashCode call.playerJs)).getD call.playerJs) := by
  obtain ⟨houtcome, htables⟩ := hcompute call.cache call.playerJs desk.world
  rw [(functionCode_run houtcome htables).1]
  exact (hdesk call.cache).getOrPut_fst call.playerJs

-- Each call keeps the caches sound, whatever it finds there.
theorem Desk.Sound.after (h : env.SteadyEngine) (hcompute : Extracts env compute)
    (hdesk : desk.Sound compute) (call : Call) : (desk.after env call).Sound compute := by
  intro cache
  by_cases hreads : call.Reads
  · obtain ⟨answer, hrun⟩ := run_of_reads h hreads
    obtain ⟨houtcome, htables⟩ := hcompute call.cache call.playerJs desk.world
    have htable := (hrun desk.world).2.trans (functionCode_run houtcome htables).2
    by_cases hcache : cache = call.cache
    · subst hcache
      simp only [Desk.after, htable, Function.update_self]
      exact (hdesk call.cache).getOrPut call.playerJs
    · simp only [Desk.after, htable, Function.update_of_ne hcache]
      exact hdesk cache
  · obtain ⟨o, ho⟩ := program_of_not_reads env hreads
    simp only [Desk.after, ho, Prog.run_ofExcept, credit_self, Function.update_eq_self]
    exact hdesk cache

end

-- The entry that the call finds, if any, was made with the player JS that is passed to it.
def OwnEntry (desk : Desk) (call : Call) : Prop :=
  call.Reads → ∀ playerJs, desk.owner call.cache (hashCode call.playerJs) = some playerJs →
    playerJs = call.playerJs

-- The call ends as it does on fresh instances, with the function code that is extracted from
-- the player JS that is passed to it.
def Transparent (env : Env) (fresh : World) (desk : Desk) (call : Call) : Prop :=
  ((call.program env).run desk.world).1 = ((call.program env).run fresh).1 ∧
    (call.Reads →
      ((call.functionCode env).run desk.world).1 =
        ((call.cache.extract env call.playerJs).run fresh).1)

theorem transparent_of_ownEntry (h : env.SteadyEngine)
    {compute : FunctionCache → Str → Except Throwable Str} (hcompute : Extracts env compute)
    {fresh : World} (hfresh : Fresh fresh) {desk : Desk} (hdesk : desk.Sound compute) {call : Call}
    (hown : OwnEntry desk call) : Transparent env fresh desk call := by
  by_cases hreads : call.Reads
  · have howner : (desk.owner call.cache (hashCode call.playerJs)).getD call.playerJs =
        call.playerJs := by
      cases ho : desk.owner call.cache (hashCode call.playerJs) with
      | none => rfl
      | some playerJs => exact hown hreads playerJs ho
    have hcode := functionCode_of_sound hcompute hdesk call
    have hcodeFresh := functionCode_of_sound hcompute (sound_of_fresh hfresh) call
    rw [howner] at hcode
    rw [Option.getD_none] at hcodeFresh
    obtain ⟨answer, hanswer⟩ := run_of_reads h hreads
    refine ⟨?_, fun _ => hcode.trans (hcompute call.cache call.playerJs fresh).1.symm⟩
    rw [(hanswer desk.world).1, (hanswer fresh).1, hcode, hcodeFresh]
  · obtain ⟨o, ho⟩ := program_of_not_reads env hreads
    refine ⟨?_, fun hr => (hreads hr).elim⟩
    rw [ho, Prog.run_ofExcept, Prog.run_ofExcept]

-- In runs where no call finds an entry of another player JS, memoisation is transparent.
theorem run_transparent (h : env.SteadyEngine) {fresh start : World} (hfresh : Fresh fresh)
    (hstart : Fresh start) (calls : List Call)
    (hown : Along (Desk.after env) OwnEntry { world := start } calls) :
    Along (Desk.after env) (Transparent env fresh) { world := start } calls := by
  obtain ⟨compute, hcompute⟩ := exists_extracts h
  have hsound : Desk.Sound compute { world := start } := sound_of_fresh hstart
  refine Along.of_invariant (fun desk call hdesk hcall => ?_) hsound hown
  exact ⟨transparent_of_ownEntry h hcompute hfresh hdesk hcall, hdesk.after h hcompute call⟩

-- In every run, a call that finds an entry of another player JS executes that one's function.
theorem run_exposes_owner (h : env.SteadyEngine) {fresh start : World} (hstart : Fresh start)
    (calls : List Call) :
    Along (Desk.after env)
      (fun desk call => ∀ other, desk.owner call.cache (hashCode call.playerJs) = some other →
        hashCode other = hashCode call.playerJs ∧
          ((call.functionCode env).run desk.world).1 = ((call.cache.extract env other).run fresh).1)
      { world := start } calls := by
  obtain ⟨compute, hcompute⟩ := exists_extracts h
  have hsound : Desk.Sound compute { world := start } := sound_of_fresh hstart
  refine Along.always (fun desk call hdesk => ?_) hsound calls
  refine ⟨fun other ho => ⟨(hdesk call.cache).key_owner ho, ?_⟩, hdesk.after h hcompute call⟩
  have hcode := functionCode_of_sound hcompute hdesk call
  rw [ho, Option.getD_some] at hcode
  exact hcode.trans (hcompute call.cache other fresh).1.symm

theorem owner_after {desk : Desk} {call : Call} {cache : FunctionCache} {k : Int} {playerJs : Str}
    (h : (desk.after env call).owner cache k = some playerJs) :
    desk.owner cache k = some playerJs ∨ playerJs = call.playerJs ∧ k = hashCode call.playerJs := by
  simp only [Desk.after] at h
  by_cases hcache : cache = call.cache
  · subst hcache
    rw [Function.update_self, credit] at h
    split_ifs at h
    · by_cases hk : k = hashCode call.playerJs
      · rw [hk, Function.update_self] at h
        exact .inr ⟨(Option.some.inj h).symm, hk⟩
      · rw [Function.update_of_ne hk] at h
        exact .inl h
    · exact .inl h
  · rw [Function.update_of_ne hcache] at h
    exact .inl h

-- It is enough that no two player JS of the run share a hash code.
theorem along_ownEntry {calls : List Call}
    (hinjective : ∀ call ∈ calls, ∀ other ∈ calls,
      hashCode call.playerJs = hashCode other.playerJs → call.playerJs = other.playerJs)
    {desk : Desk} (hdesk : ∀ call ∈ calls, ∀ playerJs,
      desk.owner call.cache (hashCode call.playerJs) = some playerJs → playerJs = call.playerJs) :
    Along (Desk.after env) OwnEntry desk calls := by
  induction calls generalizing desk with
  | nil => trivial
  | cons call rest ih =>
      refine ⟨fun _ => hdesk call List.mem_cons_self, ih (fun a ha b hb =>
        hinjective a (List.mem_cons_of_mem _ ha) b (List.mem_cons_of_mem _ hb))
        fun other hm playerJs ho => ?_⟩
      rcases owner_after ho with hold | ⟨rfl, hk⟩
      · exact hdesk other (List.mem_cons_of_mem _ hm) playerJs hold
      · exact hinjective call List.mem_cons_self other (List.mem_cons_of_mem _ hm) hk.symm

end

-- An engine that puts the name of the function before its argument.
def namingEnv : Env :=
  { SignatureDecipherer.echoEnv with
    jsEngine := .custom (str "NamingEngine") fun _ functionCode argument =>
      .ok (functionCode.take 2 ++ argument) }

theorem namingEnv_steady : namingEnv.SteadyEngine := fun _ => rfl

theorem freshWorld_fresh : Fresh SignatureDecipherer.freshWorld := by
  intro cache k
  cases cache <;> rfl

def firstPlayerJs : Str := str "b.sig||Aa(c);Aa=function(a)\x7breturn a\x7d;"

def secondPlayerJs : Str := str "b.sig||BB(c);BB=function(a)\x7breturn a\x7d;"

def plainCipher : Str := str "s=xy&url=u"

def repeatedCalls : List Call :=
  [⟨.signature, plainCipher, firstPlayerJs⟩, ⟨.n, str "u?n=abc", SignatureDecipherer.plainPlayerJs⟩,
    ⟨.signature, plainCipher, firstPlayerJs⟩]

theorem repeatedCalls_transparent :
    Along (Desk.after namingEnv) (Transparent namingEnv SignatureDecipherer.freshWorld)
      { world := SignatureDecipherer.freshWorld } repeatedCalls := by
  have hinjective : ∀ call ∈ repeatedCalls, ∀ other ∈ repeatedCalls,
      hashCode call.playerJs = hashCode other.playerJs → call.playerJs = other.playerJs := by
        decide +kernel
  have howner : ∀ call ∈ repeatedCalls, ∀ playerJs,
      (fun _ _ => none : FunctionCache → Int → Option Str) call.cache (hashCode call.playerJs) =
        some playerJs →
        playerJs = call.playerJs := fun call _ playerJs ho => by simp at ho
  exact run_transparent namingEnv_steady freshWorld_fresh freshWorld_fresh repeatedCalls
    (along_ownEntry hinjective howner)

def collidingCalls : List Call :=
  [⟨.signature, plainCipher, firstPlayerJs⟩, ⟨.signature, plainCipher, secondPlayerJs⟩]

-- The second call runs the function `Aa` of the first player JS.
theorem collidingCalls_not_transparent :
    namingEnv.SteadyEngine ∧ Fresh SignatureDecipherer.freshWorld ∧
      ¬Along (Desk.after namingEnv) (Transparent namingEnv SignatureDecipherer.freshWorld)
        { world := SignatureDecipherer.freshWorld } collidingCalls := by
  refine ⟨namingEnv_steady, freshWorld_fresh, ?_⟩
  rintro ⟨-, ⟨houtcome, -⟩, -⟩
  exact absurd houtcome (by decide +kernel)

end DecipherService

end Ytdlpdroid
