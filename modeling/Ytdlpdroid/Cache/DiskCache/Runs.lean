import Ytdlpdroid.Cache.DiskCache.Theorems

namespace Ytdlpdroid

open Text Collections Concurrent

namespace DiskCache

inductive Operation
  | put (key value : Str) (now : Int)
  | get (key : Str)
  | evictBeyond (keepNewest : Int)

-- A directory during a run. `writer` remembers for each file name the last put that
-- wrote it, and `latest` the value of the last put of each key.
structure History where
  dir : Directory
  writer : Str → Option (Str × Str) := fun _ => none
  latest : Str → Option Str := fun _ => none

def afterEviction (dir : Directory) (keepNewest : Int) : Directory :=
  match evictBeyond dir keepNewest with
  | .ok after => after
  | .error _ => dir

theorem afterEviction_lookup {dir : Directory} {keepNewest : Int} {name : Str} {file : CacheFile}
    (h : (afterEviction dir keepNewest).files.lookup name = some file) :
    dir.files.lookup name = some file := by
  unfold afterEviction at h
  split at h
  · rename_i after he
    exact evictBeyond_lookup he h
  · exact h

def History.apply (h : History) : Operation → History
  | .put key value now =>
      { dir := ((DiskCache.put key value now).run h.dir).2
        writer := Function.update h.writer (fileFor key) (some (key, value))
        latest := Function.update h.latest key (some value) }
  | .get _ => h
  | .evictBeyond keepNewest => { h with dir := afterEviction h.dir keepNewest }

-- `P` holds at every get of a run.
def AtGets (P : History → Str → Prop) : History → List Operation → Prop
  | _, [] => True
  | h, op :: rest => (∀ key, op = .get key → P h key) ∧ AtGets P (h.apply op) rest

-- A get answers with nothing, or with the value of the last put of its key.
def Faithful (h : History) (key : Str) : Prop :=
  get h.dir key = none ∨ get h.dir key = h.latest key

-- A get finds nothing, or a file that was last written for its key, or with the same value.
def FindsOwn (h : History) (key : Str) : Prop :=
  get h.dir key = none ∨ ∃ owner value, h.writer (fileFor key) = some (owner, value) ∧
    (owner = key ∨ h.latest key = some value)

structure History.Consistent (h : History) : Prop where
  written : ∀ name owner value, h.writer name = some (owner, value) →
    name = fileFor owner ∧ h.latest owner = some value
  content : ∀ name file, h.dir.files.lookup name = some file → 0 < file.bytes.length →
    ∀ owner value, h.writer name = some (owner, value) → readText file = value
  known : ∀ key value, h.latest key = some value → ∃ put, h.writer (fileFor key) = some put

theorem History.Consistent.put {h : History} (hc : h.Consistent) (key value : Str) (now : Int) :
    (h.apply (.put key value now)).Consistent where
  written := by
    intro name owner stored hw
    simp only [History.apply, Function.update_apply] at hw ⊢
    split_ifs at hw with hn
    · obtain ⟨rfl, rfl⟩ := Prod.mk.inj (Option.some.inj hw)
      exact ⟨hn, if_pos rfl⟩
    · obtain ⟨rfl, hl⟩ := hc.written name owner stored hw
      have hne : owner ≠ key := by
        rintro rfl
        exact hn rfl
      exact ⟨rfl, (if_neg hne).trans hl⟩
  content := by
    intro name file hf hlen owner stored hw
    simp only [History.apply, Function.update_apply, put_run_lookup] at hf hw
    split_ifs at hf hw with hn
    · obtain ⟨rfl, rfl⟩ := Prod.mk.inj (Option.some.inj hw)
      obtain rfl := Option.some.inj hf
      exact Utf8.decode_encode value
    · exact hc.content name file hf hlen owner stored hw
  known := by
    intro other stored hl
    simp only [History.apply, Function.update_apply] at hl ⊢
    by_cases hfile : fileFor other = fileFor key
    · exact ⟨_, if_pos hfile⟩
    · rw [if_neg fun he => hfile (congrArg fileFor he)] at hl
      rw [if_neg hfile]
      exact hc.known other stored hl

theorem History.Consistent.apply {h : History} (hc : h.Consistent) (op : Operation) :
    (h.apply op).Consistent := by
  cases op with
  | put key value now => exact hc.put key value now
  | get key => exact hc
  | evictBeyond keepNewest =>
      exact { written := hc.written, known := hc.known,
              content := fun name file hf => hc.content name file (afterEviction_lookup hf) }

theorem faithful_iff {h : History} (hc : h.Consistent) (key : Str) :
    Faithful h key ↔ FindsOwn h key := by
  cases hg : get h.dir key with
  | none => simp [Faithful, FindsOwn, hg]
  | some text =>
      obtain ⟨file, hf, hlen, htext⟩ := get_eq_some hg
      simp only [Faithful, FindsOwn, hg, reduceCtorEq, false_or]
      constructor
      · intro hl
        obtain ⟨⟨owner, value⟩, hw⟩ := hc.known key text hl.symm
        obtain rfl := (hc.content _ file hf hlen owner value hw).symm.trans htext
        exact ⟨owner, _, hw, Or.inr hl.symm⟩
      · rintro ⟨owner, value, hw, hown⟩
        obtain rfl := (hc.content _ file hf hlen owner value hw).symm.trans htext
        rcases hown with rfl | hl
        · exact (hc.written _ owner _ hw).2.symm
        · exact hl.symm

theorem atGets_faithful_iff {h : History} (hc : h.Consistent) (ops : List Operation) :
    AtGets Faithful h ops ↔ AtGets FindsOwn h ops := by
  induction ops generalizing h with
  | nil => rfl
  | cons op rest ih =>
      exact and_congr (forall_congr' fun key => imp_congr_right fun _ => faithful_iff hc key)
        (ih (hc.apply op))

-- Over whole runs from any directory, the cache is a map as long as no get finds the
-- file of another key.
theorem run_faithful_iff (dir : Directory) (ops : List Operation) :
    AtGets Faithful { dir } ops ↔ AtGets FindsOwn { dir } ops :=
  atGets_faithful_iff ⟨by simp, by simp, by simp⟩ ops

-- An operation that completes, or a put that stops after some of its accesses.
inductive Event
  | completed (op : Operation)
  | interrupted (key value : Str) (now : Int) (count : Nat)

-- A directory during a run with interruptions, with all texts that were put to each file,
-- and the text it had at the start.
structure Ledger where
  dir : Directory
  texts : Str → List Str

def Ledger.start (dir : Directory) : Ledger where
  dir := dir
  texts := fun name => (dir.files.lookup name).toList.map readText

def Ledger.record (ledger : Ledger) (dir : Directory) (key value : Str) : Ledger where
  dir := dir
  texts := Function.update ledger.texts (fileFor key) (value :: ledger.texts (fileFor key))

def Ledger.apply (ledger : Ledger) : Event → Ledger
  | .completed (.put key value now) =>
      ledger.record ((DiskCache.put key value now).run ledger.dir).2 key value
  | .completed (.get _) => ledger
  | .completed (.evictBeyond keepNewest) =>
      { ledger with dir := afterEviction ledger.dir keepNewest }
  | .interrupted key value now count =>
      ledger.record ((DiskCache.put key value now).stopAfter count ledger.dir) key value

-- A put that stops stops before the first byte of the value or after its last one, or in
-- a last character that reads the same when it is cut.
def StopsClean (value : Str) (count : Nat) : Prop :=
  count ≤ 2 ∨ (Utf8.encode value).length + 2 ≤ count ∨
    (value.getLast? = some Utf8.replacement ∧ (Utf8.encode value).length ≤ count)

def Event.Clean : Event → Prop
  | .completed _ => True
  | .interrupted _ value _ count => StopsClean value count

-- Every get of the run answers with nothing or with a text put as a whole to its file.
def GetsWhole : Ledger → List Event → Prop
  | _, [] => True
  | ledger, event :: rest =>
      (∀ key, event = .completed (.get key) → ∀ text, get ledger.dir key = some text →
        text ∈ ledger.texts (fileFor key)) ∧
      GetsWhole (ledger.apply event) rest

def Ledger.Whole (ledger : Ledger) : Prop :=
  ∀ name file, ledger.dir.files.lookup name = some file → 0 < file.bytes.length →
    readText file ∈ ledger.texts name

theorem Ledger.Whole.record {ledger : Ledger} (hw : ledger.Whole) {dir : Directory}
    {key value : Str}
    (hkey : ∀ file, dir.files.lookup (fileFor key) = some file → 0 < file.bytes.length →
      readText file = value ∨ ledger.dir.files.lookup (fileFor key) = some file)
    (hother : ∀ name, name ≠ fileFor key → dir.files.lookup name = ledger.dir.files.lookup name) :
    (ledger.record dir key value).Whole := by
  intro name file hf hlen
  simp only [Ledger.record, Function.update_apply] at hf ⊢
  split_ifs with hn
  · subst hn
    rcases hkey file hf hlen with rfl | hold
    · exact List.mem_cons_self
    · exact List.mem_cons_of_mem _ (hw _ file hold hlen)
  · exact hw name file (hother name hn ▸ hf) hlen

-- What a put that stops leaves of the value: nothing, or a file that reads as all of it.
theorem stopAfter_file {dir : Directory} {key value : Str} {now : Int} {count : Nat}
    (hc : StopsClean value count) {file : CacheFile}
    (hf : ((put key value now).stopAfter count dir).files.lookup (fileFor key) = some file)
    (hlen : 0 < file.bytes.length) :
    readText file = value ∨ dir.files.lookup (fileFor key) = some file := by
  rw [put_stopAfter_lookup] at hf
  split_ifs at hf with hcount
  · obtain rfl := Option.some.inj hf
    left
    by_cases hall : (Utf8.encode value).length ≤ count - 2
    · simp only [readText, List.take_of_length_le hall]
      exact Utf8.decode_encode value
    · simp only [List.length_take] at hlen
      refine (Utf8.decode_take_iff (by omega) (by omega)).mpr ?_
      rcases hc with hc | hc | ⟨hlast, hc⟩
      · omega
      · omega
      · exact ⟨hlast, by omega⟩
  · exact Or.inr hf

theorem Ledger.Whole.apply {ledger : Ledger} (hw : ledger.Whole) {event : Event}
    (hc : event.Clean) : (ledger.apply event).Whole := by
  cases event with
  | completed op =>
      cases op with
      | put key value now =>
          refine hw.record (fun file hf _ => ?_) fun name hn => ?_
          · rw [put_run_lookup, if_pos rfl] at hf
            obtain rfl := Option.some.inj hf
            exact Or.inl (Utf8.decode_encode value)
          · rw [put_run_lookup, if_neg hn]
      | get key => exact hw
      | evictBeyond keepNewest =>
          exact fun name file hf => hw name file (afterEviction_lookup hf)
  | interrupted key value now count =>
      refine hw.record (fun file hf hlen => stopAfter_file hc hf hlen) fun name hn => ?_
      rw [put_stopAfter_lookup, if_neg fun h => hn h.2]

theorem whole_getsWhole {ledger : Ledger} (hw : ledger.Whole) (events : List Event)
    (hc : ∀ event ∈ events, event.Clean) : GetsWhole ledger events := by
  induction events generalizing ledger with
  | nil => trivial
  | cons event rest ih =>
      refine ⟨fun key _ text hg => ?_, ih (hw.apply (hc event List.mem_cons_self))
        fun other hm => hc other (List.mem_cons_of_mem _ hm)⟩
      obtain ⟨file, hf, hlen, rfl⟩ := get_eq_some hg
      exact hw _ file hf hlen

theorem run_getsWhole (dir : Directory) (events : List Event)
    (hc : ∀ event ∈ events, event.Clean) : GetsWhole (Ledger.start dir) events :=
  whole_getsWhole (fun name file hf _ => by
    simp [Ledger.start, show dir.files.lookup name = some file from hf]) events hc

-- One put that stops, exactly: whatever was in the directory before, the next get of its
-- key answers with nothing, the whole value or the prior text.
theorem get_stopAfter_iff (key value : Str) (now : Int) (count : Nat) :
    (∀ dir text, get ((put key value now).stopAfter count dir) key = some text →
      text = value ∨ get dir key = some text) ↔ StopsClean value count := by
  constructor
  · intro h
    by_contra hc
    simp only [StopsClean, not_or, not_and, not_le] at hc
    obtain ⟨hlo, hhi, hlast⟩ := hc
    have hf := put_stopAfter_lookup key value now count {} (fileFor key)
    rw [if_pos ⟨by omega, rfl⟩] at hf
    have hget := get_of_lookup hf (by simp only [List.length_take]; omega)
    rcases h {} _ hget with hread | hold
    · obtain ⟨hend, hlen⟩ := (Utf8.decode_take_iff (by omega) (by omega)).mp hread
      have hcut := hlast hend
      omega
    · cases hold
  · intro hc dir text hg
    obtain ⟨file, hf, hlen, rfl⟩ := get_eq_some hg
    exact (stopAfter_file hc hf hlen).imp_right fun hold => get_of_lookup hold hlen

end DiskCache

end Ytdlpdroid
