import Mathlib.Data.List.Nodup
import Ytdlpdroid.Concurrent.Runs
import Ytdlpdroid.Innertube.InMemoryCookieJar

namespace Ytdlpdroid

open Text Concurrent

namespace InMemoryCookieJar

inductive Call
  | saveFromResponse (host : Str) (cookies : List Cookie)
  | loadForRequest (host : Str)

-- A jar in use, and all cookies it was given with their hosts, the latest one last.
structure Usage where
  jar : InMemoryCookieJar := {}
  saved : List (Str × Cookie) := []

def Usage.after (usage : Usage) : Call → Usage
  | .saveFromResponse host cookies => {
      jar := usage.jar.saveFromResponse host cookies
      saved := usage.saved ++ cookies.map (host, ·) }
  | .loadForRequest _ => usage

-- The cookie of this name that was saved last for the host.
def latest (saved : List (Str × Cookie)) (host name : Str) : Option Cookie :=
  (saved.reverse.find? fun found => found.1 = host ∧ found.2.name = name).map Prod.snd

-- A host gets the latest cookie of each name, each of them once, and nothing else.
structure Usage.Complete (usage : Usage) : Prop where
  once : ∀ host, ((usage.jar.loadForRequest host).map Cookie.name).Nodup
  mem_iff : ∀ host cookie,
    cookie ∈ usage.jar.loadForRequest host ↔ latest usage.saved host cookie.name = some cookie

-- A response that sets any cookie sets all that the host has, each of them once.
def SetsAll (usage : Usage) : Call → Prop
  | .saveFromResponse host cookies => cookies ≠ [] → (cookies.map Cookie.name).Nodup ∧
      ∀ cookie ∈ usage.jar.loadForRequest host, cookie.name ∈ cookies.map Cookie.name
  | .loadForRequest _ => True

variable {usage : Usage} {cookies : List Cookie} {cookie : Cookie} {host : Str}

def lastNamed (cookies : List Cookie) (name : Str) : Option Cookie :=
  cookies.reverse.find? (·.name = name)

theorem lastNamed_eq_none_iff {name : Str} :
    lastNamed cookies name = none ↔ name ∉ cookies.map Cookie.name := by
  simp [lastNamed]

theorem mem_of_lastNamed {name : Str} (h : lastNamed cookies name = some cookie) :
    cookie ∈ cookies ∧ cookie.name = name := by
  have hname := List.find?_some h
  exact ⟨List.mem_reverse.mp (List.mem_of_find?_eq_some h), by simpa using hname⟩

-- Without a name that stands twice, each cookie is the last one of its name.
theorem mem_iff_lastNamed (hnodup : (cookies.map Cookie.name).Nodup) :
    cookie ∈ cookies ↔ lastNamed cookies cookie.name = some cookie := by
  refine ⟨fun hm => ?_, fun h => (mem_of_lastNamed h).1⟩
  cases hlast : lastNamed cookies cookie.name with
  | none => exact absurd (List.mem_map_of_mem hm) (lastNamed_eq_none_iff.mp hlast)
  | some other =>
      obtain ⟨hother, hname⟩ := mem_of_lastNamed hlast
      rw [List.inj_on_of_nodup_map hnodup hother hm hname]

theorem latest_append (saved : List (Str × Cookie)) (host other name : Str)
    (cookies : List Cookie) :
    latest (saved ++ cookies.map (host, ·)) other name =
      if other = host then (lastNamed cookies name).or
        (latest saved other name) else latest saved other name := by
  have hfind :
      (cookies.map (host, ·)).reverse.find? (fun found => found.1 = other ∧ found.2.name = name) =
      if other = host then (lastNamed cookies name).map (host, ·) else none := by
    have hpair :
        ((fun found : Str × Cookie => decide (found.1 = other ∧ found.2.name = name)) ∘ (host, ·)) =
        fun cookie => decide (host = other ∧ cookie.name = name) := rfl
    rw [← List.map_reverse, List.find?_map, hpair]
    split_ifs with hhost
    · simp [hhost, lastNamed]
    · simp [Ne.symm hhost]
  rw [latest, List.reverse_append, List.find?_append, hfind]
  split_ifs with hhost
  · cases lastNamed cookies name with
    | none => rfl
    | some found => rfl
  · rfl

theorem Usage.Complete.fresh : Usage.Complete {} where
  once := fun _ => List.nodup_nil
  mem_iff := fun _ _ => by simp [latest]

-- A complete jar stays complete exactly when the call sets all cookies of its host.
theorem Usage.Complete.after_iff (h : usage.Complete) (call : Call) :
    (usage.after call).Complete ↔ SetsAll usage call := by
  cases call with
  | loadForRequest host => exact iff_of_true h trivial
  | saveFromResponse host cookies =>
      by_cases hempty : cookies = []
      · subst hempty
        simp [Usage.after, saveFromResponse, SetsAll, h]
      have hload :
          ∀ other, (usage.after (.saveFromResponse host cookies)).jar.loadForRequest other =
          if other = host then cookies else usage.jar.loadForRequest other := by
        intro other
        simp [Usage.after, loadForRequest_saveFromResponse, hempty]
      constructor
      · intro hcomplete _
        have honce := hcomplete.once host
        rw [hload, if_pos rfl] at honce
        refine ⟨honce, fun old hold => ?_⟩
        by_contra hmissing
        have hlatest := (h.mem_iff host old).mp hold
        have hkept := (hcomplete.mem_iff host old).mpr (by
          rw [Usage.after, latest_append, if_pos rfl, lastNamed_eq_none_iff.mpr hmissing, hlatest]
          rfl)
        rw [hload, if_pos rfl] at hkept
        exact hmissing (List.mem_map_of_mem hkept)
      · intro hsets
        obtain ⟨hnodup, hcovers⟩ := hsets hempty
        refine ⟨fun other => ?_, fun other cookie => ?_⟩
        · rw [hload]
          split_ifs
          · exact hnodup
          · exact h.once other
        · rw [hload, Usage.after, latest_append]
          split_ifs with hhost
          · subst hhost
            rw [mem_iff_lastNamed hnodup]
            cases hlast : lastNamed cookies cookie.name with
            | some found => rfl
            | none =>
                -- A cookie of this name was never saved: the host would still have it.
                have hnone : latest usage.saved other cookie.name ≠ some cookie := by
                  intro hold
                  exact lastNamed_eq_none_iff.mp hlast
                    (hcovers cookie ((h.mem_iff other cookie).mpr hold))
                simp [hnone]
          · exact h.mem_iff other cookie

-- Every run of calls on a new jar, for all hosts at once.
theorem run_complete_iff (calls : List Call) :
    Along Usage.after (fun usage call => (usage.after call).Complete) {} calls ↔
      Along Usage.after SetsAll {} calls := by
  constructor
  · refine Along.of_invariant (I := Usage.Complete) (fun usage call h hcomplete => ?_)
      Usage.Complete.fresh
    exact ⟨(h.after_iff call).mp hcomplete, hcomplete⟩
  · refine Along.of_invariant (I := Usage.Complete) (fun usage call h hsets => ?_)
      Usage.Complete.fresh
    have hcomplete := (h.after_iff call).mpr hsets
    exact ⟨hcomplete, hcomplete⟩

-- A response that refreshes one cookie drops the two that the home page set.
theorem refresh_drops_session :
    ¬∀ calls : List Call, Along Usage.after (fun usage call => (usage.after call).Complete)
      {} calls := by
  intro h
  let home : List Cookie := [⟨str "CONSENT", str "YES"⟩, ⟨str "VISITOR_INFO1_LIVE", str "abc"⟩]
  have hlast := (h [.saveFromResponse (str "www.youtube.com") home,
    .saveFromResponse (str "www.youtube.com") [⟨str "YSC", str "x"⟩]]).2.1
  have hconsent := (hlast.mem_iff (str "www.youtube.com") ⟨str "CONSENT", str "YES"⟩).mpr
    (by decide +kernel)
  revert hconsent
  decide +kernel

end InMemoryCookieJar

end Ytdlpdroid
