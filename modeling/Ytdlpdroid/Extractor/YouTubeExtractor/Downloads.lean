import Ytdlpdroid.Cache.DiskCache.Eviction
import Ytdlpdroid.Concurrent.Guarantee
import Ytdlpdroid.Decipher.PlayerJsRepository.Runs
import Ytdlpdroid.Extractor.YouTubeExtractor.Confinement

namespace Ytdlpdroid

open Text Collections Concurrent

-- A request for the script of a player that is kept in the file of this name.
def Downloads (name : Str) (request : Request) : Prop :=
  ∃ url, PlayerJsRepository.PlayerPath url ∧ DiskCache.fileFor url = name ∧
    request = PlayerJsRepository.jsRequest url

-- If the file is there, it stays, and no script that is kept in it is asked for.
structure Spares (name : Str) (w w' : World) : Prop where
  held : DiskCache.Holds w.disk name → DiskCache.Holds w'.disk name
  calls : DiskCache.Holds w.disk name →
    ∃ made, w'.calls = w.calls ++ made ∧ ∀ call ∈ made, ¬Downloads name call.request

-- A program that spares the file, whatever others do that spare it too.
def Sparing {α : Type} (name : Str) (P : α → Prop) (p : Action α) : Prop :=
  ∀ w, DiskCache.Holds w.disk name →
    Prog.Guarantees (Spares name) (fun a w' => P a ∧ DiskCache.Holds w'.disk name) p w

section

variable {env : Env} {name url : Str} {α β : Type} {P : α → Prop} {Q : β → Prop} {p : Action α}
  {w w' : World}

instance : IsPreorder World (Spares name) where
  refl w := ⟨id, fun _ => ⟨[], (List.append_nil _).symm, by simp⟩⟩
  trans w₁ w₂ w₃ h h' := by
    refine ⟨h'.held ∘ h.held, fun hheld => ?_⟩
    obtain ⟨made, hmade, hfirst⟩ := h.calls hheld
    obtain ⟨more, hmore, hsecond⟩ := h'.calls (h.held hheld)
    exact ⟨made ++ more, by rw [hmore, hmade, List.append_assoc],
      List.forall_mem_append.mpr ⟨hfirst, hsecond⟩⟩

theorem spares_of_same (hcalls : w'.calls = w.calls) (hdisk : w'.disk = w.disk) :
    Spares name w w' where
  held h := hdisk ▸ h
  calls _ := ⟨[], by rw [hcalls, List.append_nil], by simp⟩

-- Different players have different requests.
theorem mayFetch_of_ne (hpath : PlayerJsRepository.PlayerPath url)
    (hne : DiskCache.fileFor url ≠ name) :
    MayFetch (fun request => ¬Downloads name request) url := by
  refine ⟨hpath, ?_⟩
  rintro ⟨other, hother, rfl, hsame⟩
  have hfull : PlayerJsRepository.fullUrl url = PlayerJsRepository.fullUrl other :=
    congrArg Request.url hsame
  rw [hpath.fullUrl, hother.fullUrl] at hfull
  exact hne (by rw [List.append_cancel_left hfull])

theorem spares_of_access {cost : Nat} {access : World → β × World} {gain : β → Nat}
    (h : LibraryAccess env (fun request => ¬Downloads name request) β access cost gain)
    (w : World) :
    Spares name w (access w).2 := by
  have hfile : (access w).2.disk.files.lookup name = w.disk.files.lookup name := by
    refine h.disk name (fun url hurl hmay => ?_) w
    exact hmay.request ⟨url, hmay.path, hurl, rfl⟩
  refine ⟨fun ⟨file, hf, hlen⟩ => ⟨file, hfile.trans hf, hlen⟩, fun _ => ?_⟩
  cases h.network with
  | quiet _ hcalls => exact ⟨[], by rw [hcalls, List.append_nil], by simp⟩
  | call request hrequest => exact ⟨[_], rfl, List.forall_mem_singleton.mpr hrequest⟩

theorem Sparing.of_within {keeps : α → Nat} {budget : Nat}
    (h : MakesWithin env (fun request => ¬Downloads name request) P keeps budget p) :
    Sparing name P p := by
  intro w hw
  have hguarantees :=
    Prog.Within.guarantees (R := Spares name) h (fun _ _ _ _ haccess => spares_of_access haccess) w
  exact hguarantees.since.mono fun a w' ⟨hspares, hP⟩ => ⟨hP, hspares.held hw⟩

theorem Sparing.bind {k : α → Action β} (hp : Sparing name P p)
    (hk : ∀ a, P a → Sparing name Q (k a)) :
    Sparing name Q (p >>= k) :=
  fun w hw => Prog.Guarantees.bind ((hp w hw).mono fun a w' ⟨hP, hheld⟩ => hk a hP w' hheld)

theorem Sparing.forget (hp : Sparing name P p) : Sparing name (fun _ => True) p :=
  fun w hw => (hp w hw).mono fun _ _ ⟨_, hheld⟩ => ⟨trivial, hheld⟩

theorem Sparing.pure {a : α} (h : P a) : Sparing name P (.pure a) :=
  fun _ hw _ hspares => ⟨h, hspares.held hw⟩

theorem Sparing.throw (e : Throwable) : Sparing name P (.throw e) := fun _ _ => trivial

theorem Sparing.attempt (hp : Sparing name P p) :
    Sparing name (fun outcome => ∀ a, outcome = .ok a → P a) p.attempt := by
  intro w hw
  refine (hp w hw).attempt.since.mono fun outcome w' ⟨hspares, houtcome⟩ =>
    ⟨fun a ha => ?_, hspares.held hw⟩
  exact (houtcome a ha).1

theorem Sparing.getOrNull (hp : Sparing name P p) :
    Sparing name (fun found => ∀ a, found = some a → P a) (getOrNull p) := by
  refine hp.attempt.bind fun outcome houtcome => ?_
  cases outcome with
  | ok a =>
      refine Sparing.pure ?_
      rintro b ⟨⟩
      exact houtcome a rfl
  | error e => exact Sparing.pure nofun

theorem Sparing.ofExcept {outcome : Except Throwable α} (h : ∀ a, outcome = .ok a → P a) :
    Sparing name P (.ofExcept outcome) := by
  cases outcome with
  | ok a => exact Sparing.pure (h a rfl)
  | error e => exact Sparing.throw e

theorem Sparing.atomic {access : World → α × World}
    (h : ∀ w, (access w).2.calls = w.calls ∧ (access w).2.disk = w.disk) :
    Sparing name (fun _ => True) (.atomic access) := by
  intro w hw
  refine Prog.Guarantees.atomic fun w' hspares => ?_
  have haccess : Spares name w' (access w').2 := spares_of_same (h w').1 (h w').2
  exact ⟨haccess, fun later hlater => ⟨trivial, hlater.held (haccess.held (hspares.held hw))⟩⟩

-- An interleaving of programs that spare the file.
theorem Sparing.par (schedule : List Nat) {tasks : List (Action α)}
    (h : ∀ task ∈ tasks, Sparing name (fun _ => True) task) :
    Sparing name (fun _ => True)
      (Prog.par schedule tasks : Action (List (Except Throwable α))) := by
  intro w hw
  have htasks : List.Forall₂ (fun task post => Prog.Guarantees (Spares name) post task w) tasks
      (tasks.map fun _ => fun _ w' => True ∧ DiskCache.Holds w'.disk name) := by
    rw [List.forall₂_map_right_iff, List.forall₂_same]
    exact fun task hm => h task hm w hw
  exact (Prog.Guarantees.par schedule htasks).since.mono fun _ w' ⟨hspares, _⟩ =>
    ⟨trivial, hspares.held hw⟩

namespace PlayerJsRepository

-- One who looks for the file finds it; one who does not look for it does not touch it.
theorem fetchPlayerJs_sparing (hpath : PlayerPath url) :
    Sparing name (fun _ => True) (fetchPlayerJs env url) := by
  by_cases hurl : DiskCache.fileFor url = name
  · have hget : Sparing name (fun _ => True) (memGet url) := Sparing.atomic fun _ => ⟨rfl, rfl⟩
    refine hget.bind fun found _ => ?_
    cases found with
    | some text => exact Sparing.pure trivial
    | none =>
        have hread :
            Sparing name (fun found => found ≠ none)
              (reading fun w => DiskCache.get w.disk url) := by
          intro w hw
          refine Prog.Guarantees.atomic fun w' hspares =>
            ⟨refl_of (Spares name) w', fun later hlater => ?_⟩
          have hheld := hspares.held hw
          obtain ⟨text, htext⟩ := DiskCache.get_of_holds (hurl.symm ▸ hheld)
          exact ⟨by simp [htext], hlater.held hheld⟩
        refine hread.bind fun found hfound => ?_
        cases found with
        | none => exact absurd rfl hfound
        | some text =>
            have hput : Sparing name (fun _ => True) (memPut url text) :=
              Sparing.atomic fun _ => ⟨rfl, rfl⟩
            exact hput.bind fun _ _ => Sparing.pure trivial
  · exact Sparing.of_within (fetchPlayerJs_within (mayFetch_of_ne hpath hurl))

end PlayerJsRepository

namespace YouTubeExtractor

variable {videoId : Str} {regionCode playerJsUrl : Option Str}

theorem not_downloads_of_headers {request : Request} (h : request.headers ≠ []) :
    ¬Downloads name request := by
  rintro ⟨url, -, -, rfl⟩
  exact h rfl

theorem asksClients_sparing :
    AsksClients (fun request => ¬Downloads name request) videoId regionCode where
  home := not_downloads_of_headers (List.cons_ne_nil _ _)
  player _ _ _ _ := not_downloads_of_headers (List.cons_ne_nil _ _)

theorem fetchPlayerJsUrl_sparing (videoId : Str) :
    Sparing name PlayerJsRepository.PlayerPath (PlayerJsRepository.fetchPlayerJsUrl env videoId) :=
  Sparing.of_within
    (PlayerJsRepository.fetchPlayerJsUrl_within (not_downloads_of_headers (List.cons_ne_nil _ _)))

theorem resolveFormat_sparing (hpath : PlayerJsRepository.PlayerPath url) (format : RawFormat) :
    Sparing name (fun _ => True) (resolveFormat env url format) := by
  have hbuild : Sparing name (fun _ => True) (DecipherService.buildPlayableUrl env format url) := by
    refine (PlayerJsRepository.fetchPlayerJs_sparing hpath).bind fun playerJs _ => ?_
    have hraw : Sparing name _ (DecipherService.rawUrl env format playerJs) :=
      Sparing.of_within (DecipherService.rawUrl_within format playerJs)
    refine hraw.bind fun rawUrl _ => ?_
    have htransform : Sparing name _ (NParamDecipherer.transform env rawUrl playerJs) :=
      Sparing.of_within (DecipherService.transform_within rawUrl playerJs)
    exact htransform.forget
  exact hbuild.bind fun _ _ => Sparing.pure trivial

theorem conclude_sparing (hpath : ∀ url, playerJsUrl = some url → PlayerJsRepository.PlayerPath url)
    (schedule : List Nat) (raw : RawPlayerResponse) (client : InnerTubeClientConfig) :
    Sparing name (fun _ => True) (conclude env schedule videoId playerJsUrl raw client) := by
  have hlookup :
      Sparing name PlayerJsRepository.PlayerPath (resolvePlayerJsUrl env playerJsUrl videoId) := by
    cases playerJsUrl with
    | some url => exact Sparing.pure (hpath url rfl)
    | none => exact fetchPlayerJsUrl_sparing videoId
  refine (Sparing.ofExcept (P := fun _ => True) fun _ _ => trivial).bind fun checked _ => ?_
  refine hlookup.bind fun url hurl => ?_
  have hformats :
      Sparing name (fun _ => True) (resolveFormats env schedule url (allFormats checked.2)) := by
    refine (Sparing.par schedule fun task hm => ?_).bind fun outcomes _ => Sparing.pure trivial
    obtain ⟨format, -, rfl⟩ := List.mem_map.mp hm
    exact resolveFormat_sparing hurl format
  refine hformats.bind fun resolved _ => ?_
  split_ifs
  · exact Sparing.throw _
  · exact Sparing.pure trivial

theorem resolve_sparing (schedule : List Nat) :
    Sparing name (fun _ => True) (resolve env schedule videoId regionCode) := by
  rw [resolve_eq]
  refine (fetchPlayerJsUrl_sparing videoId).getOrNull.bind fun playerJsUrl hpath => ?_
  have hprefetch : Sparing name (fun _ => True) (prefetchTimestamp env playerJsUrl) := by
    cases playerJsUrl with
    | none => exact Sparing.pure trivial
    | some url =>
        refine Sparing.bind (Sparing.getOrNull (P := fun _ => True) ?_) fun found _ =>
          Sparing.pure trivial
        exact (PlayerJsRepository.fetchPlayerJs_sparing (hpath url rfl)).bind fun js _ =>
          Sparing.pure trivial
  refine hprefetch.bind fun signatureTimestamp _ => ?_
  have hchain : Sparing name _ (fetchWithFallback env videoId regionCode signatureTimestamp) :=
    Sparing.of_within (fallback_within asksClients_sparing signatureTimestamp clientChain none none)
  exact hchain.bind fun found _ => conclude_sparing hpath schedule found.1 found.2

theorem extract_sparing (schedule : List Nat) (options : ExtractionOptions) :
    Sparing name (fun _ => True) (extract env schedule videoId options) := by
  have hget : Sparing name (fun _ => True) (ExtractionCache.get env videoId) := by
    refine Sparing.atomic fun w => ?_
    cases w.extractionCache.map.lookup videoId <;> exact ⟨rfl, rfl⟩
  have hclock : Sparing name (fun _ => True) (currentTimeMillis env) :=
    Sparing.atomic fun _ => ⟨rfl, rfl⟩
  have hput (result : StreamResult) :
      Sparing name (fun _ => True) (ExtractionCache.put env videoId result) := by
    refine hclock.bind fun now _ => ?_
    dsimp only
    split_ifs
    · exact Sparing.atomic fun _ => ⟨rfl, rfl⟩
    · exact Sparing.pure trivial
  refine hget.bind fun found _ => ?_
  cases found with
  | some result => exact Sparing.pure trivial
  | none =>
      refine (resolve_sparing schedule).bind fun resolution _ => ?_
      have hselect : Sparing name (fun _ => True) (assemble env videoId options resolution) := by
        refine (Sparing.ofExcept (P := fun _ => True) fun _ _ => trivial).bind fun selection _ => ?_
        exact hclock.bind fun now _ => Sparing.pure trivial
      exact hselect.bind fun result _ => (hput result).bind fun _ _ => Sparing.pure trivial

end YouTubeExtractor

end

namespace YTDLPDroid

-- What happens to an instance and its cache directory.
inductive Event
  | extractions (schedule : List Nat) (calls : List PublicCall)
  | restart
  | evictOldCache

section

variable (env : Env)

def after (w : World) : Event → World
  | .extractions schedule calls => ((concurrently env schedule calls).run w).2
  | .restart => PlayerJsRepository.restarted w
  | .evictOldCache => { w with disk := DiskCache.afterEviction w.disk 2 }

-- At every moment of the event no script that is kept in this file has been asked for in it.
def AsksForNone (name : Str) (w : World) (event : Event) : Prop :=
  ∀ schedule calls, event = .extractions schedule calls → ∀ count, ∃ made,
    ((concurrently env schedule calls).stopAfter count w).calls = w.calls ++ made ∧
      ∀ call ∈ made, ¬Downloads name call.request

end

-- An eviction finds at most one other file that is no older than this one.
def Outlives (name : Str) (w : World) (event : Event) : Prop :=
  event = .evictOldCache → ∀ file, w.disk.files.lookup name = some file →
    (DiskCache.rivals w.disk name file).length < 2

variable {env : Env} {name : Str} {w : World}

theorem concurrently_sparing (schedule : List Nat) (calls : List PublicCall) :
    Sparing name (fun _ => True) (concurrently env schedule calls) := by
  refine Sparing.par schedule fun task hm => ?_
  obtain ⟨call, -, rfl⟩ := List.mem_map.mp hm
  refine (Sparing.ofExcept (P := fun _ => True) fun _ _ => trivial).bind fun videoId _ => ?_
  exact YouTubeExtractor.extract_sparing call.schedule call.options

theorem holds_after {event : Event} (hheld : DiskCache.Holds w.disk name)
    (houtlives : Outlives name w event) :
    DiskCache.Holds (after env w event).disk name := by
  cases event with
  | extractions schedule calls =>
      exact (concurrently_sparing schedule calls w hheld).run.1.held hheld
  | restart => exact hheld
  | evictOldCache =>
      obtain ⟨file, hf, hlen⟩ := hheld
      exact ⟨file, DiskCache.afterEviction_keeps hf (houtlives rfl file hf), hlen⟩

-- The script of a player that is on the disk is not downloaded again, by any number of calls at a
-- time and across restarts, as long as no eviction takes its file.
theorem run_asksForNone (env : Env) (name : Str) (w : World) (events : List Event)
    (hheld : DiskCache.Holds w.disk name) (houtlives : Along (after env) (Outlives name) w events) :
    Along (after env) (AsksForNone env name) w events := by
  refine Along.of_invariant (I := fun w => DiskCache.Holds w.disk name)
    (fun w event hheld houtlives => ?_) hheld
    houtlives
  refine ⟨?_, holds_after hheld houtlives⟩
  rintro schedule calls - count
  exact ((concurrently_sparing schedule calls w hheld).stopAfter count).calls hheld

theorem outlives_restart {file : CacheFile} (hf : w.disk.files.lookup name = some file)
    (hfew : (DiskCache.rivals w.disk name file).length < 2) (schedule : List Nat)
    (calls : List PublicCall) :
    Along (after env) (Outlives name) w
      [.restart, .evictOldCache, .extractions schedule calls] := by
  refine ⟨nofun, fun _ other hother => ?_, nofun, trivial⟩
  obtain rfl := Option.some.inj (hf.symm.trans hother)
  exact hfew

def audioCall : PublicCall where
  url := str "https://youtu.be/dQw4w9WgXcQ"
  options := {}

def servingAudio : Env := YouTubeExtractor.serving [YouTubeExtractor.audioFormat]

def afterFirstCall : World :=
  ((concurrently servingAudio [] [audioCall]).run YouTubeExtractor.freshWorld).2

-- After a call, a restart and an eviction two more calls find the script on the disk.
theorem run_asksForNone_restarted :
    Along (after servingAudio)
      (AsksForNone servingAudio (DiskCache.fileFor YouTubeExtractor.playerJsUrl))
      afterFirstCall
        [.restart, .evictOldCache, .extractions [0, 1, 0, 1] [audioCall, audioCall]] := by
  have hstored :
      ((afterFirstCall.disk.files.lookup (DiskCache.fileFor YouTubeExtractor.playerJsUrl)).map
      fun file => (decide (0 < file.bytes.length), (DiskCache.rivals afterFirstCall.disk
        (DiskCache.fileFor YouTubeExtractor.playerJsUrl) file).length)) = some (true, 0) := by
          decide +kernel
  obtain ⟨file, hf, hfound⟩ := Option.map_eq_some_iff.mp hstored
  obtain ⟨hlen, hrivals⟩ := Prod.mk.inj hfound
  exact run_asksForNone servingAudio _ _ _ ⟨file, hf, of_decide_eq_true hlen⟩
    (outlives_restart hf (lt_of_eq_of_lt hrivals (by decide)) _ _)

end YTDLPDroid

end Ytdlpdroid
