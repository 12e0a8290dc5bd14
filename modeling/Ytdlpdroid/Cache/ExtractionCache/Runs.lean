import Ytdlpdroid.Cache.ExtractionCache
import Ytdlpdroid.Concurrent.Runs

namespace Ytdlpdroid.ExtractionCache

open Text Collections Concurrent

inductive Operation
  | get (videoId : Str)
  | put (videoId : Str) (result : StreamResult)

-- A put that stored its result, with its two readings of the clock.
structure Storing where
  result : StreamResult
  first : Int
  second : Int

-- The state during a run. `storing` remembers for each video the last put that stored a result,
-- until its entry is evicted because the cache is full.
structure Ledger where
  world : World
  storing : Str → Option Storing := fun _ => none

-- A clock that does not go back, with readings from 0 up to 2^62.
structure Steady (clock : Nat → Int) : Prop where
  mono : ∀ m n, m ≤ n → clock m ≤ clock n
  nonneg : ∀ n, 0 ≤ clock n
  lt : ∀ n, clock n < 2 ^ 62

section

variable (env : Env)

-- The lifetime that a put finds left.
def remaining (w : World) (result : StreamResult) : Int :=
  result.expiresAt - env.clock w.readings - 300000

def Ledger.after (ledger : Ledger) : Operation → Ledger
  | .get videoId => { ledger with world := ((get env videoId).run ledger.world).2 }
  | .put videoId result => {
      world := ((put env videoId result).run ledger.world).2
      storing := if 0 < remaining env ledger.world result then fun other =>
          if ledger.world.extractionCache.evicted videoId = some other then none
          else if other = videoId then
            some ⟨result, env.clock ledger.world.readings, env.clock (ledger.world.readings + 1)⟩
          else ledger.storing other
        else ledger.storing }

-- The readings of one put are close to each other, and the result expires at a time that is a Long.
def Allowed (ledger : Ledger) : Operation → Prop
  | .get _ => True
  | .put _ result =>
      0 ≤ result.expiresAt ∧ result.expiresAt < 2 ^ 63 ∧ (0 < remaining env ledger.world result →
      env.clock (ledger.world.readings + 1) - env.clock ledger.world.readings ≤ 300000)

-- A get returns no result too late, and none too early as missing: it returns what was stored
-- last unless the clock has passed five minutes before the expiry.
def Punctual (ledger : Ledger) : Operation → Prop
  | .get videoId =>
      (∀ result, ((get env videoId).run ledger.world).1 = .ok (some result) →
        ∃ s, ledger.storing videoId = some s ∧ s.result = result ∧
          env.clock ledger.world.readings ≤ result.expiresAt - 300000 + (s.second - s.first) ∧
          env.clock ledger.world.readings ≤ result.expiresAt) ∧
        ∀ s, ledger.storing videoId = some s →
          (∀ n < ((get env videoId).run ledger.world).2.readings,
            env.clock n ≤ s.result.expiresAt - 300000) →
          ((get env videoId).run ledger.world).1 = .ok (some s.result)
  | .put _ _ => True

-- Every entry is that of the put remembered for its video, and what is remembered has an entry
-- unless the clock has passed its time.
structure Accounted (ledger : Ledger) : Prop where
  entries : ∀ videoId entry, ledger.world.extractionCache.map.lookup videoId = some entry →
    ∃ s, ledger.storing videoId = some s ∧ entry.value = s.result ∧
      entry.expiresAt = s.result.expiresAt - 300000 + (s.second - s.first) ∧
      s.first ≤ s.second ∧ s.second - s.first ≤ 300000
  storing : ∀ videoId s, ledger.storing videoId = some s →
    (ledger.world.extractionCache.map.lookup videoId).isSome ∨
      ∃ n < ledger.world.readings, s.result.expiresAt - 300000 < env.clock n

end

section

variable {env : Env} {ledger : Ledger} {videoId : Str} {result : StreamResult} {w : World}

theorem get_run_none (h : w.extractionCache.map.lookup videoId = none) :
    (get env videoId).run w = (.ok none, w) := by
  rw [get, Prog.run_atomic, h]

theorem get_run_some {entry : Entry StreamResult}
    (h : w.extractionCache.map.lookup videoId = some entry) :
    (get env videoId).run w =
      (.ok (if entry.expiresAt < env.clock w.readings then none else some entry.value), { w with
        extractionCache := (w.extractionCache.get videoId (env.clock w.readings)).2
        readings := w.readings + 1 }) := by
  rw [get, Prog.run_atomic, h]
  have hlive := w.extractionCache.get_fst videoId (env.clock w.readings)
  rw [MemoryCache.live, h] at hlive
  simp only [hlive]

theorem Accounted.get (ha : Accounted env ledger) (videoId : Str) :
    Punctual env ledger (.get videoId) ∧ Accounted env (ledger.after env (.get videoId)) := by
  simp only [Punctual, Ledger.after]
  cases hentry : ledger.world.extractionCache.map.lookup videoId with
  | none =>
      rw [get_run_none hentry]
      refine ⟨⟨fun result hresult => ?_, fun s hs hclock => ?_⟩, ha⟩
      · cases hresult
      · rcases ha.storing videoId s hs with hsome | ⟨n, hn, hlate⟩
        · simp [hentry] at hsome
        · have hearly := hclock n hn
          omega
  | some entry =>
      rw [get_run_some hentry]
      obtain ⟨s, hs, hvalue, hexpires, hfirst, hsecond⟩ := ha.entries videoId entry hentry
      refine ⟨⟨fun result hresult => ?_, fun other hother hclock => ?_⟩,
        ⟨fun other found hfound => ?_, ?_⟩⟩
      · have hfound := Except.ok.inj hresult
        split_ifs at hfound with hexpired
        obtain rfl := Option.some.inj hfound
        refine ⟨s, hs, hvalue.symm, ?_, ?_⟩
        · rw [hvalue]
          omega
        · rw [hvalue]
          omega
      · obtain rfl := Option.some.inj (hs.symm.trans hother)
        have hearly := hclock ledger.world.readings (Nat.lt_succ_self _)
        rw [if_neg (by omega), hvalue]
      · exact ha.entries other found (MemoryCache.lookup_get _ _ _ _ _ hfound)
      · intro other t ht
        rcases ha.storing other t ht with hsome | ⟨n, hn, hlate⟩
        · by_cases hgone : other = videoId ∧ entry.expiresAt < env.clock ledger.world.readings
          · obtain ⟨rfl, hexpired⟩ := hgone
            obtain rfl := Option.some.inj (hs.symm.trans ht)
            exact Or.inr ⟨ledger.world.readings, Nat.lt_succ_self _, by omega⟩
          · left
            rw [MemoryCache.lookup_get_of_ne_or_live _ hentry
              ((not_and_or.mp hgone).imp_right Int.not_lt.mp)]
            exact hsome
        · exact Or.inr ⟨n, Nat.lt_succ_of_lt hn, hlate⟩

-- With readings of a clock that is steady no sum of a put wraps.
theorem put_run (hclock : Steady env.clock)
    (hresult : 0 ≤ result.expiresAt ∧ result.expiresAt < 2 ^ 63) (videoId : Str) :
    ((put env videoId result).run w).2 = if 0 < remaining env w result then { w with
        extractionCache := w.extractionCache.put videoId result (remaining env w result)
          (env.clock (w.readings + 1))
        readings := w.readings + 2 }
      else { w with readings := w.readings + 1 } := by
  have hnow := hclock.nonneg w.readings
  have hlate := hclock.lt w.readings
  have hlifetime : wrapLong (result.expiresAt - env.clock w.readings - 5 * 60000) =
      remaining env w result := by
    rw [wrapLong_of_mem (by omega) (by omega)]
    rfl
  unfold put
  simp only [Prog.run_bind, currentTimeMillis, Prog.run_atomic, hlifetime]
  split_ifs
  · rfl
  · rfl

theorem Accounted.put (hclock : Steady env.clock) (ha : Accounted env ledger)
    (hallowed : Allowed env ledger (.put videoId result)) :
    Accounted env (ledger.after env (.put videoId result)) := by
  obtain ⟨hnonneg, hlong, hclose⟩ := hallowed
  have hrun := put_run (w := ledger.world) hclock ⟨hnonneg, hlong⟩ videoId
  by_cases hstores : 0 < remaining env ledger.world result
  · rw [if_pos hstores] at hrun
    have hreadings := hclock.mono ledger.world.readings (ledger.world.readings + 1) (Nat.le_succ _)
    have hnow := hclock.nonneg ledger.world.readings
    have hnear := hclose hstores
    have hsum :
        wrapLong (env.clock (ledger.world.readings + 1) + remaining env ledger.world result) =
        result.expiresAt - 300000 +
          (env.clock (ledger.world.readings + 1) - env.clock ledger.world.readings) := by
      unfold remaining
      rw [wrapLong_of_mem (by omega) (by omega)]
      omega
    have hlookup (other : Str) :
        (ledger.after env (.put videoId result)).world.extractionCache.map.lookup other =
        if ledger.world.extractionCache.evicted videoId = some other then none
        else if other = videoId then some ⟨result, result.expiresAt - 300000 +
          (env.clock (ledger.world.readings + 1) - env.clock ledger.world.readings)⟩
        else ledger.world.extractionCache.map.lookup other := by
      simp only [Ledger.after, hrun, MemoryCache.put, MemoryCache.lookup_insert, hsum]
    have hstoring (other : Str) : (ledger.after env (.put videoId result)).storing other =
        if ledger.world.extractionCache.evicted videoId = some other then none
        else if other = videoId then
          some ⟨result, env.clock ledger.world.readings, env.clock (ledger.world.readings + 1)⟩
        else ledger.storing other := by
      simp only [Ledger.after, if_pos hstores]
    constructor
    · intro other entry hentry
      rw [hlookup] at hentry
      rw [hstoring]
      split_ifs at hentry ⊢
      · obtain rfl := Option.some.inj hentry
        exact ⟨_, rfl, rfl, rfl, hreadings, hnear⟩
      · exact ha.entries other entry hentry
    · intro other s hs
      rw [hstoring] at hs
      rw [hlookup]
      split_ifs at hs ⊢
      · exact Or.inl rfl
      · rcases ha.storing other s hs with hsome | ⟨n, hn, hlate⟩
        · exact Or.inl hsome
        · refine Or.inr ⟨n, ?_, hlate⟩
          simp only [Ledger.after, hrun]
          omega
  · rw [if_neg hstores] at hrun
    constructor
    · intro other entry hentry
      simp only [Ledger.after, hrun, if_neg hstores] at hentry ⊢
      exact ha.entries other entry hentry
    · intro other s hs
      simp only [Ledger.after, hrun, if_neg hstores] at hs ⊢
      rcases ha.storing other s hs with hsome | ⟨n, hn, hlate⟩
      · exact Or.inl hsome
      · exact Or.inr ⟨n, by omega, hlate⟩

theorem Accounted.step (hclock : Steady env.clock) (ha : Accounted env ledger)
    {operation : Operation} (hallowed : Allowed env ledger operation) :
    Punctual env ledger operation ∧ Accounted env (ledger.after env operation) := by
  cases operation with
  | get videoId => exact ha.get videoId
  | put videoId result => exact ⟨trivial, ha.put hclock hallowed⟩

end

-- In every run of gets and puts, each get is punctual.
theorem run_punctual {env : Env} (hclock : Steady env.clock) (w : World)
    (operations : List Operation) (hempty : w.extractionCache.map = .empty)
    (hallowed : Along (Ledger.after env) (Allowed env) { world := w } operations) :
    Along (Ledger.after env) (Punctual env) { world := w } operations := by
  have hfresh : Accounted env { world := w } := by
    refine ⟨fun videoId entry hentry => ?_, fun videoId s hs => ?_⟩
    · rw [hempty] at hentry
      cases hentry
    · cases hs
  exact Along.of_invariant (fun _ _ ha hallowed => ha.step hclock hallowed) hfresh hallowed

def tickingEnv : Env where
  clock := fun n => min n 9
  httpClient := HttpClientProvider.client
  network := fun _ _ _ => .failure (Throwable.ioException none)
  decodeFromString := fun content => .error content
  jsEngine := .custom (str "EchoEngine") fun _ _ argument => .ok argument

def smallWorld : World := { extractionCache := { maxSize := 1 } }

def lastingResult : StreamResult where
  videoId := str "a"
  metadata := ⟨str "a", [], [], [], 0, false, [], []⟩
  videoStream := none
  audioStream := ⟨140, str "u", str "audio/mp4", [], 0, none, none, none, none, none, none, none, 0⟩
  muxedStream := none
  expiresAt := 400000
  streamUserAgent := []

theorem steady_ticking : Steady tickingEnv.clock := by
  refine ⟨fun m n h => ?_, fun n => ?_, fun n => ?_⟩
  all_goals simp only [tickingEnv]; omega

-- A result with 400 seconds to go is stored, and the next get returns it.
theorem run_punctual_lasting :
    ((get tickingEnv (str "a")).run
      (Ledger.after tickingEnv { world := smallWorld } (.put (str "a") lastingResult)).world).1 =
        .ok (some lastingResult) := by
  have hallowed : Along (Ledger.after tickingEnv) (Allowed tickingEnv) { world := smallWorld }
      [.put (str "a") lastingResult, .get (str "a")] :=
    ⟨⟨by decide, by decide, fun _ => by decide⟩, trivial, trivial⟩
  obtain ⟨-, ⟨-, hserved⟩, -⟩ := run_punctual steady_ticking smallWorld _ rfl hallowed
  refine hserved ⟨lastingResult, 0, 1⟩ rfl fun n _ => ?_
  simp only [tickingEnv, lastingResult]
  omega

end Ytdlpdroid.ExtractionCache
