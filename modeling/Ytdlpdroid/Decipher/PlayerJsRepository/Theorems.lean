import Ytdlpdroid.Cache.DiskCache.Runs
import Ytdlpdroid.Decipher.PlayerJsRepository

namespace Ytdlpdroid

open Text Collections Concurrent

namespace PlayerJsRepository

-- The server answered a request for this URL with this text.
def Served (w : World) (url text : Str) : Prop :=
  ∃ call ∈ w.calls, call.request.url = url ∧ ∃ response, call.outcome = .ok response ∧
    textOf url response = .ok text

theorem Served.mono {w w' : World} (h : ∀ call ∈ w.calls, call ∈ w'.calls) {url text : Str}
    (hs : Served w url text) : Served w' url text := by
  obtain ⟨call, hm, hurl, hresponse⟩ := hs
  exact ⟨call, h call hm, hurl, hresponse⟩

-- The text that a call brings.
def textIn (call : Call) : Except Throwable Str := call.outcome.bind (textOf call.request.url)

-- All that one call of `fetchPlayerJs` can do.
inductive Fetch (env : Env) (url : Str) (w : World) : Except Throwable Str → World → Prop
  | memory (text : Str) (hm : w.memCache.lookup url = some text) :
      Fetch env url w (.ok text) { w with memCache := (w.memCache.get url).2 }
  | disk (text : Str) (hm : w.memCache.lookup url = none)
      (hd : DiskCache.get w.disk url = some text) :
      Fetch env url w (.ok text) { w with memCache := w.memCache.put url text }
  | refused (e : Throwable) (hm : w.memCache.lookup url = none)
      (hd : DiskCache.get w.disk url = none) :
      Fetch env url w (.error e) (w.log (callOf env w (jsRequest url)))
  | stored (text : Str) (hm : w.memCache.lookup url = none) (hd : DiskCache.get w.disk url = none)
      (ht : textIn (callOf env w (jsRequest url)) = .ok text)
      (hf : env.diskFault w.diskWrites = none) :
      Fetch env url w (.ok text) { w.log (callOf env w (jsRequest url)) with
        disk := ((DiskCache.put url text (env.clock w.readings)).run w.disk).2
        diskWrites := w.diskWrites + 1
        memCache := (dropEldest w.memCache).put url text }
  | interrupted (text : Str) (count : Nat) (hm : w.memCache.lookup url = none)
      (hd : DiskCache.get w.disk url = none) (ht : textIn (callOf env w (jsRequest url)) = .ok text)
      (hf : env.diskFault w.diskWrites = some count) :
      Fetch env url w (.error (Throwable.ioException none))
        { w.log (callOf env w (jsRequest url)) with
          disk := (DiskCache.put url text (env.clock w.readings)).stopAfter count w.disk
          diskWrites := w.diskWrites + 1 }

theorem fetchText_ok {env : Env} {w : World} {request : Request} {text : Str}
    (h : textIn (callOf env w request) = .ok text) :
    (fetchText env request).run w = (.ok text, w.log (callOf env w request)) := by
  have hurl : (callOf env w request).request = request := rfl
  simp only [textIn, hurl] at h
  simp only [fetchText, Prog.run_tryCatch, Prog.run_bind, executeCall, Prog.run_attemptAtomic,
    Prog.run_ofExcept]
  cases ho : (callOf env w request).outcome with
  | error e => simp [ho, Except.bind] at h
  | ok response =>
      simp only [ho, Except.bind] at h
      simp only [h]

theorem fetchText_error {env : Env} {w : World} {request : Request} {e : Throwable}
    (h : textIn (callOf env w request) = .error e) :
    (fetchText env request).run w =
      (.error (if e.isIOException then YTDLPError.playerJsFetchFailed request.url e else e),
        w.log (callOf env w request)) := by
  have hurl : (callOf env w request).request = request := rfl
  simp only [textIn, hurl] at h
  simp only [fetchText, Prog.run_tryCatch, Prog.run_bind, executeCall, Prog.run_attemptAtomic,
    Prog.run_ofExcept, Prog.run_throw]
  cases ho : (callOf env w request).outcome with
  | error other =>
      obtain rfl : other = e := by simpa [ho, Except.bind] using h
      rfl
  | ok response =>
      simp only [ho, Except.bind] at h
      simp only [h]

theorem textIn_ok {call : Call} {text : Str} (h : textIn call = .ok text) :
    ∃ response, call.outcome = .ok response ∧ textOf call.request.url response = .ok text := by
  unfold textIn at h
  cases ho : call.outcome with
  | error e => simp [ho, Except.bind] at h
  | ok response => exact ⟨response, rfl, by simpa [ho, Except.bind] using h⟩

theorem diskPut_whole {env : Env} {w : World} (key value : Str)
    (hf : env.diskFault w.diskWrites = none) :
    (diskPut env key value).run w = (.ok (), { w with
      disk := ((DiskCache.put key value (env.clock w.readings)).run w.disk).2
      diskWrites := w.diskWrites + 1 }) := by
  have hok := DiskCache.put_run_ok key value (env.clock w.readings) w.disk
  simp only [diskPut, Prog.run_attemptAtomic, hf, hok]

theorem diskPut_interrupted {env : Env} {w : World} {count : Nat} (key value : Str)
    (hf : env.diskFault w.diskWrites = some count) :
    (diskPut env key value).run w = (.error (Throwable.ioException none), { w with
      disk := (DiskCache.put key value (env.clock w.readings)).stopAfter count w.disk
      diskWrites := w.diskWrites + 1 }) := by
  simp only [diskPut, Prog.run_attemptAtomic, hf]

theorem fetchPlayerJs_fetch (env : Env) (url : Str) (w : World) :
    Fetch env url w ((fetchPlayerJs env url).run w).1 ((fetchPlayerJs env url).run w).2 := by
  unfold fetchPlayerJs
  rw [Prog.run_bind]
  simp only [memGet, Prog.run_atomic, LinkedHashMap.get_fst]
  cases hm : w.memCache.lookup url with
  | some text => exact .memory text hm
  | none =>
      have hw : { w with memCache := (w.memCache.get url).2 } = w := by
        rw [LinkedHashMap.get, hm]
      simp only [hw, Prog.run_bind, reading, Prog.run_atomic]
      cases hd : DiskCache.get w.disk url with
      | some text => exact .disk text hm hd
      | none =>
          cases ht : textIn (callOf env w (jsRequest url)) with
          | error e =>
              simp only [Prog.run_bind, fetchText_error ht]
              exact .refused _ hm hd
          | ok text =>
              rw [Prog.run_bind_ok (fetchText_ok ht)]
              cases hf : env.diskFault w.diskWrites with
              | none =>
                  rw [Prog.run_bind_ok
                    (diskPut_whole (w := w.log (callOf env w (jsRequest url))) url text hf)]
                  exact .stored text hm hd ht hf
              | some count =>
                  rw [Prog.run_bind_error
                    (diskPut_interrupted (w := w.log (callOf env w (jsRequest url))) url text hf)]
                  exact .interrupted text count hm hd ht hf

end PlayerJsRepository

end Ytdlpdroid
