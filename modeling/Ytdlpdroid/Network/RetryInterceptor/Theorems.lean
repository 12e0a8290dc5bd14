import Ytdlpdroid.Network.RetryInterceptor
import Mathlib.Data.List.Nodup

namespace Ytdlpdroid

open Text Concurrent

namespace Downstream

-- The response that the interceptor holds back for another attempt.
def retryable (codes : List Int) : Downstream → Bool
  | .response answer => answer.code ∈ codes
  | .failure _ => false

def hasContent : Downstream → Bool
  | .response answer => answer.hasContent
  | .failure _ => false

end Downstream

namespace RetryInterceptor

-- What one call of `intercept` must do, told from its outcome and the chain it leaves.
structure Discipline (interceptor : RetryInterceptor) (outcome : Except Throwable (Nat × Response))
    (chain : Chain) : Prop where
  bounded : chain.proceeds.length ≤ interceptor.maxRetries + 1
  neverOpen : ∀ wasOpen ∈ chain.proceeds, wasOpen = false
  returned : ∀ index response, outcome = .ok (index, response) →
    chain.obtained[index]? = some response ∧
    (∀ earlier ∈ chain.obtained.take index, earlier.code ∈ interceptor.retryOnStatusCodes) ∧
    (response.code ∈ interceptor.retryOnStatusCodes → index + 1 = chain.obtained.length)
  closedOnce : ∀ index < chain.obtained.length, (∀ response, outcome ≠ .ok (index, response)) →
    chain.closed.count index = 1

-- The chain while a retryable response is held: every response before it is closed.
structure Holding (interceptor : RetryInterceptor) (chain : Chain) (held : Response)
    (before : List Response) : Prop where
  obtained : chain.obtained = before ++ [held]
  closed : chain.closed = List.range before.length
  proceeds : chain.proceeds = List.replicate (before.length + 1) false
  retryable : ∀ response ∈ before ++ [held], response.code ∈ interceptor.retryOnStatusCodes

-- The rounds that are left all get a retryable response, each after one without content.
def Drained (codes : List Int) (downstream : Nat → Downstream) (obtained left : Nat) : Prop :=
  ∀ index, obtained ≤ index → index < obtained + left →
    (downstream index).retryable codes ∧ ¬(downstream (index - 1)).hasContent

variable {interceptor : RetryInterceptor} {chain : Chain} {held : Response} {before : List Response}

theorem proceed_open (h : chain.anyOpen = true) :
    Chain.proceed.run chain =
      (.error Chain.stillOpen, { chain with proceeds := chain.proceeds ++ [true] }) := by
  simp [Chain.proceed, h]

theorem proceed_failure (h : chain.anyOpen = false) {e : Throwable}
    (hd : chain.downstream chain.proceeds.length = .failure e) :
    Chain.proceed.run chain = (.error e, { chain with proceeds := chain.proceeds ++ [false] }) := by
  simp [Chain.proceed, h, hd]

theorem proceed_response (h : chain.anyOpen = false) {response : Response}
    (hd : chain.downstream chain.proceeds.length = .response response) :
    Chain.proceed.run chain =
      (.ok (chain.obtained.length, response),
        { chain with
          proceeds := chain.proceeds ++ [false]
          obtained := chain.obtained ++ [response] }) := by
  simp [Chain.proceed, h, hd]

-- Only the response held can be open.
theorem Holding.anyOpen (h : Holding interceptor chain held before) :
    chain.anyOpen = held.hasContent := by
  rw [Bool.eq_iff_iff, Chain.anyOpen, List.any_eq_true]
  constructor
  · rintro ⟨index, hm, ho⟩
    rw [List.mem_range, h.obtained, List.length_append, List.length_singleton] at hm
    simp only [Chain.isOpen, h.obtained, h.closed] at ho
    by_cases hlast : index = before.length
    · subst hlast
      simpa using ho
    · have hlt : index < before.length := by omega
      simp [List.getElem?_append_left hlt, hlt] at ho
  · intro hc
    refine ⟨before.length, by simp [h.obtained], ?_⟩
    simp [Chain.isOpen, h.obtained, h.closed, hc]

theorem Holding.not_closed (h : Holding interceptor chain held before) :
    chain.closed.count before.length = 0 := by
  simp [h.closed]

-- Another retryable response: the one held is closed and the new one is held.
theorem Holding.next (h : Holding interceptor chain held before) {response : Response}
    (hr : response.code ∈ interceptor.retryOnStatusCodes) :
    Holding interceptor
      { chain with
        proceeds := chain.proceeds ++ [false]
        obtained := chain.obtained ++ [response]
        closed := chain.closed ++ [before.length] } response (before ++ [held]) where
  obtained := by simp [h.obtained]
  closed := by simp [h.closed, List.range_succ]
  proceeds := by
    rw [h.proceeds, ← List.replicate_succ', List.length_append, List.length_singleton]
  retryable := by
    intro other hm
    rcases List.mem_append.mp hm with hm | hm
    · exact h.retryable other hm
    · exact List.mem_singleton.mp hm ▸ hr

-- Out of rounds: the response held is the last of all, and is returned.
theorem Holding.discipline (h : Holding interceptor chain held before)
    (hb : before.length = interceptor.maxRetries) :
    Discipline interceptor (.ok (before.length, held)) chain where
  bounded := by simp [h.proceeds, hb]
  neverOpen := by simp [h.proceeds]
  returned := by
    rintro index response he
    obtain ⟨rfl, rfl⟩ : before.length = index ∧ held = response := by simpa using he
    refine ⟨by simp [h.obtained], fun earlier hm => ?_, fun _ => by simp [h.obtained]⟩
    exact h.retryable earlier (h.obtained ▸ List.mem_of_mem_take hm)
  closedOnce := by
    intro index hi hne
    have hlast : index ≠ before.length := by
      rintro rfl
      exact hne held rfl
    rw [h.obtained, List.length_append, List.length_singleton] at hi
    rw [h.closed, List.count_eq_one_of_mem List.nodup_range (List.mem_range.mpr (by omega))]

-- The response held is lost on every way out but the closing of it.
theorem Holding.leak (h : Holding interceptor chain held before)
    {outcome : Except Throwable (Nat × Response)} {final : Chain}
    (hobtained : before.length < final.obtained.length) (hclosed : final.closed = chain.closed)
    (hout : ∀ response, outcome ≠ .ok (before.length, response)) :
    ¬Discipline interceptor outcome final := by
  intro hdiscipline
  have hone := hdiscipline.closedOnce before.length hobtained hout
  rw [hclosed, h.not_closed] at hone
  exact absurd hone (by decide)

theorem drained_succ {codes : List Int} {downstream : Nat → Downstream} {obtained left : Nat}
    (hr : (downstream obtained).retryable codes) (hc : ¬(downstream (obtained - 1)).hasContent) :
    Drained codes downstream obtained (left + 1) ↔
      Drained codes downstream (obtained + 1) left := by
  constructor
  · exact fun h index hlo hhi => h index (by omega) (by omega)
  · intro h index hlo hhi
    rcases Nat.eq_or_lt_of_le hlo with rfl | hlt
    · exact ⟨hr, hc⟩
    · exact h index hlt (by omega)

-- By induction on the rounds left. A round that does not close the response held either
-- meets it open or leaves it behind, and one that closes it holds the next one.
theorem rounds_discipline_iff (left : Nat) (h : Holding interceptor chain held before)
    (hheld : chain.downstream before.length = .response held)
    (hleft : before.length + left = interceptor.maxRetries) :
    Discipline interceptor
        ((interceptor.rounds left (some (before.length, held))).run chain).1
        ((interceptor.rounds left (some (before.length, held))).run chain).2 ↔
      Drained interceptor.retryOnStatusCodes chain.downstream (before.length + 1) left := by
  induction left generalizing chain held before with
  | zero =>
      refine iff_of_true (h.discipline hleft) fun index hlo hhi => ?_
      omega
  | succ left ih =>
      have hnext : chain.proceeds.length = before.length + 1 := by simp [h.proceeds]
      rw [rounds]
      by_cases hc : held.hasContent
      · -- The next attempt meets the response held while it is open.
        rw [Prog.run_bind_error (proceed_open (h.anyOpen.trans hc))]
        refine iff_of_false (fun hd => ?_) fun hd => ?_
        · exact absurd (hd.neverOpen true (by simp)) (by decide)
        · have := (hd (before.length + 1) le_rfl (by omega)).2
          simp [hheld, Downstream.hasContent, hc] at this
      · have hclosed : chain.anyOpen = false := by simpa [hc] using h.anyOpen
        cases hd : chain.downstream (before.length + 1) with
        | failure e =>
            rw [Prog.run_bind_error (proceed_failure hclosed (hnext ▸ hd))]
            refine iff_of_false (h.leak (by simp [h.obtained]) rfl (by simp)) fun hall => ?_
            simpa [hd, Downstream.retryable] using (hall (before.length + 1) le_rfl (by omega)).1
        | response response =>
            rw [Prog.run_bind_ok (proceed_response hclosed (hnext ▸ hd))]
            by_cases hr : response.code ∈ interceptor.retryOnStatusCodes
            · have hobtained : chain.obtained.length = before.length + 1 := by simp [h.obtained]
              have hnew := ih (h.next hr) (by simpa using hd) (by simp; omega)
              simp only [List.length_append, List.length_singleton] at hnew
              simp only [hr, not_true_eq_false, ite_false, closeHeld, Chain.close, Prog.run_bind,
                Prog.run_atomic, hobtained]
              rw [hnew]
              exact (drained_succ (by simp [hd, Downstream.retryable, hr])
                (by simpa [hheld, Downstream.hasContent] using hc)).symm
            · simp only [hr, not_false_eq_true, ite_true, Prog.pure_eq, Prog.run_pure]
              refine iff_of_false (h.leak (by simp [h.obtained]) rfl ?_) fun hall => ?_
              · simp [h.obtained]
              · simpa [hd, Downstream.retryable, hr] using
                  (hall (before.length + 1) le_rfl (by omega)).1

theorem drained_one_iff {codes : List Int} {downstream : Nat → Downstream}
    (hfirst : (downstream 0).retryable codes) (left : Nat) :
    Drained codes downstream 1 left ↔
      left = 0 ∨ (∀ index ≤ left, (downstream index).retryable codes) ∧
        ∀ index < left, ¬(downstream index).hasContent := by
  constructor
  · intro h
    refine Or.inr ⟨fun index hi => ?_, fun index hi => (h (index + 1) (by omega) (by omega)).2⟩
    cases index with
    | zero => exact hfirst
    | succ index => exact (h (index + 1) (by omega) (by omega)).1
  · rintro (rfl | ⟨hr, hc⟩) index hlo hhi
    · omega
    · exact ⟨hr index (by omega), hc (index - 1) (by omega)⟩

-- The first answer decides whether a response is ever held.
theorem intercept_discipline_iff (interceptor : RetryInterceptor) (downstream : Nat → Downstream) :
    Discipline interceptor (interceptor.intercept.run { downstream }).1
        (interceptor.intercept.run { downstream }).2 ↔
      ¬(downstream 0).retryable interceptor.retryOnStatusCodes ∨ interceptor.maxRetries = 0 ∨
      (∀ index ≤ interceptor.maxRetries,
        (downstream index).retryable interceptor.retryOnStatusCodes) ∧
      ∀ index < interceptor.maxRetries, ¬(downstream index).hasContent := by
  rw [intercept, rounds]
  have hclosed : ({ downstream } : Chain).anyOpen = false := rfl
  cases hd : downstream 0 with
  | failure e =>
      rw [Prog.run_bind_error (proceed_failure hclosed hd)]
      refine iff_of_true ⟨by simp, by simp, by simp, by simp⟩ (Or.inl ?_)
      simp [Downstream.retryable]
  | response response =>
      rw [Prog.run_bind_ok (proceed_response hclosed hd)]
      by_cases hr : response.code ∈ interceptor.retryOnStatusCodes
      · have hheld : Holding interceptor
            { downstream, proceeds := [false], obtained := [response] } response [] :=
          ⟨rfl, rfl, rfl, by simpa using hr⟩
        have hiff := rounds_discipline_iff interceptor.maxRetries hheld hd (by simp)
        have hfirst : (downstream 0).retryable interceptor.retryOnStatusCodes := by
          simp [hd, Downstream.retryable, hr]
        simp only [hr, not_true_eq_false, ite_false, closeHeld, Prog.run_bind, Prog.run_pure]
        refine hiff.trans ((drained_one_iff hfirst _).trans ?_)
        simp only [hd ▸ hfirst, not_true_eq_false, false_or]
      · simp only [hr, not_false_eq_true, ite_true, Prog.pure_eq, Prog.run_pure]
        refine iff_of_true ⟨by simp, by simp, ?_, ?_⟩ (Or.inl ?_)
        · rintro index other he
          obtain ⟨rfl, rfl⟩ : 0 = index ∧ response = other := by simpa using he
          simp
        · intro index hi hne
          obtain rfl : index = 0 := by simpa using hi
          exact absurd rfl (hne response)
        · simp [Downstream.retryable, hr]

-- Where an outcome comes from: the network, or asking it while a response is open.
def ComesFrom (downstream : Nat → Downstream) : Except Throwable (Nat × Response) → Prop
  | .ok (_, response) => ∃ attempt, downstream attempt = .response response
  | .error e => e = Chain.stillOpen ∨ ∃ attempt, downstream attempt = .failure e

theorem closeHeld_run (last : Option (Nat × Response)) (chain : Chain) :
    ∃ closed, (closeHeld last).run chain = (.ok (), { chain with closed }) := by
  cases last with
  | none => exact ⟨chain.closed, rfl⟩
  | some held => exact ⟨chain.closed ++ [held.1], rfl⟩

theorem rounds_comesFrom {downstream : Nat → Downstream} (left : Nat)
    (last : Option (Nat × Response)) (hchain : chain.downstream = downstream)
    (hany : last = none → left ≠ 0)
    (hlast : ∀ held, last = some held → ∃ attempt, downstream attempt = .response held.2) :
    ComesFrom downstream ((interceptor.rounds left last).run chain).1 := by
  induction left generalizing chain last with
  | zero =>
      cases last with
      | none => exact absurd rfl (hany rfl)
      | some held => exact hlast held rfl
  | succ left ih =>
      rw [rounds]
      by_cases hopen : chain.anyOpen = true
      · rw [Prog.run_bind_error (proceed_open hopen)]
        exact Or.inl rfl
      · have hclosed : chain.anyOpen = false := by simpa using hopen
        cases hd : chain.downstream chain.proceeds.length with
        | failure e =>
            rw [Prog.run_bind_error (proceed_failure hclosed hd)]
            exact Or.inr ⟨_, hchain ▸ hd⟩
        | response response =>
            rw [Prog.run_bind_ok (proceed_response hclosed hd)]
            by_cases hr : response.code ∈ interceptor.retryOnStatusCodes
            · obtain ⟨closed, hclose⟩ := closeHeld_run last { chain with
                proceeds := chain.proceeds ++ [false]
                obtained := chain.obtained ++ [response] }
              simp only [hr, not_true_eq_false, ite_false]
              rw [Prog.run_bind_ok hclose]
              refine ih (some (chain.obtained.length, response)) hchain (by simp) fun held hheld =>
                ?_
              obtain rfl := Option.some.inj hheld
              exact ⟨_, hchain ▸ hd⟩
            · simp only [hr, not_false_eq_true, ite_true, Prog.pure_eq, Prog.run_pure]
              exact ⟨_, hchain ▸ hd⟩

-- A first answer 429 with a body is still open when the second attempt is made.
theorem discipline_fails_open_body :
    ¬∀ (interceptor : RetryInterceptor) (downstream : Nat → Downstream),
      Discipline interceptor (interceptor.intercept.run { downstream }).1
        (interceptor.intercept.run { downstream }).2 := by
  intro h
  have hopen := (h ⟨3, [429, 500, 502, 503]⟩ fun _ =>
    .response { code := 429, body := some (.text (str "quota")) }).neverOpen true
  exact absurd (hopen (by decide)) (by decide)

end RetryInterceptor

-- What a call gives comes from one of its exchanges, unless the interceptor made one too early.
theorem HttpClient.execute_comesFrom (client : HttpClient) (downstream : Nat → Downstream) :
    (∀ response, client.execute downstream = .ok response →
      ∃ attempt, downstream attempt = .response response) ∧
    ∀ e, client.execute downstream = .error e →
      e = Chain.stillOpen ∨ ∃ attempt, downstream attempt = .failure e := by
  unfold execute
  cases client.interceptor with
  | none =>
      cases hd : downstream 0 with
      | failure e => simpa using Or.inr ⟨0, hd⟩
      | response response => simpa using ⟨0, hd⟩
  | some interceptor =>
      have hfrom : RetryInterceptor.ComesFrom downstream
          ((interceptor.rounds (interceptor.maxRetries + 1) none).run { downstream }).1 :=
        RetryInterceptor.rounds_comesFrom _ none rfl (by simp) (by simp)
      simp only [RetryInterceptor.intercept]
      generalize ((interceptor.rounds (interceptor.maxRetries + 1) none).run { downstream }).1 =
        outcome
        at hfrom
      rcases outcome with e | ⟨index, response⟩
      · simpa [RetryInterceptor.ComesFrom] using hfrom
      · simpa [RetryInterceptor.ComesFrom] using hfrom

end Ytdlpdroid
