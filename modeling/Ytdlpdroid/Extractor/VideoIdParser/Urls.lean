import Ytdlpdroid.Extractor.VideoIdParser.Forms
import Ytdlpdroid.Text.Query

namespace Ytdlpdroid

open Text

namespace VideoIdParser

-- A form-encoded parameter other than v.
structure Parameter where
  name : Str
  value : Str
  encoded : ∀ c ∈ name ++ value, c ∉ str "?&=#/" ∧ ¬isWhitespace c
  name_ne : name ≠ str "v"

def Parameter.text (param : Parameter) : Str := param.name ++ '=' :: param.value

def texts (params : List Parameter) : List Str := params.map Parameter.text

-- The host can also be given without the scheme.
def schemes : List Str := [[], str "http://", str "https://"]

def subdomains : List Str := [[], str "www.", str "m.", str "music."]

-- What can stand before the domain.
def origins : List Str := schemes.flatMap fun scheme => subdomains.map (scheme ++ ·)

def kinds : List Str := [str "embed", str "shorts", str "v"]

-- The documented ways to name a video.
inductive Documented (id : Str) : Str → Prop
  | watch (origin : Str) (before after : List Parameter) (horigin : origin ∈ origins) :
      Documented id (origin ++ str "youtube.com/watch" ++
        query (texts before ++ (str "v=" ++ id) :: texts after))
  | short (origin : Str) (params : List Parameter) (horigin : origin ∈ origins) :
      Documented id (origin ++ str "youtu.be/" ++ id ++ query (texts params))
  | path (origin kind : Str) (params : List Parameter) (horigin : origin ∈ origins)
      (hkind : kind ∈ kinds) :
      Documented id
        (origin ++ (str "youtube.com/" ++ kind ++ str "/") ++ id ++ query (texts params))
  | bare : Documented id id

section

variable {id : Str} {params : List Parameter}

theorem Parameter.separatorFree (param : Parameter) : SeparatorFree param.text := by
  intro c hc
  rw [Parameter.text, List.mem_append, List.mem_cons] at hc
  have hplain : c ∈ param.name ++ param.value → ¬isSeparator c := by
    intro hm hseparator
    have hne := (param.encoded c hm).1
    simp only [isSeparator, Bool.or_eq_true, beq_iff_eq] at hseparator
    rcases hseparator with rfl | rfl
    · exact hne (by decide)
    · exact hne (by decide)
  rcases hc with hc | rfl | hc
  · exact hplain (List.mem_append_left _ hc)
  · decide
  · exact hplain (List.mem_append_right _ hc)

theorem separatorFree_texts : ∀ text ∈ texts params, SeparatorFree text := by
  intro text hm
  obtain ⟨param, -, rfl⟩ := List.mem_map.mp hm
  exact param.separatorFree

theorem IsId.not_mem {c : Char} (h : IsId id) (hc : ¬isIdChar c) : c ∉ id := fun hm => hc (h.2 c hm)

theorem IsId.separatorFree (h : IsId id) : SeparatorFree id := by
  intro c hm hseparator
  have hidChar := h.2 c hm
  simp only [isSeparator, Bool.or_eq_true, beq_iff_eq] at hseparator
  rcases hseparator with rfl | rfl
  · exact absurd hidChar (by decide)
  · exact absurd hidChar (by decide)

-- Only the parameter v can introduce an id.
theorem Parameter.not_v (param : Parameter) (rest : Str) : ¬str "v=" <+: param.text ++ rest := by
  rintro ⟨more, he⟩
  have hname : '=' ∉ param.name :=
    fun hm => (param.encoded '=' (List.mem_append_left _ hm)).1 (by decide)
  have hsplit : param.name ++ '=' :: (param.value ++ rest) = str "v" ++ '=' :: more := by
    rw [← List.cons_append, ← List.append_assoc]
    exact he.symm
  exact param.name_ne (split_before_unique hname (by decide) hsplit).1

-- In a query an id is introduced at the start of a parameter.
theorem introduced_query {head other more : Str} {all : List Str} (hhead : SeparatorFree head)
    (hall : ∀ text ∈ all, SeparatorFree text) (he : head ++ query all = other ++ more)
    (h : Introduced queryIntros more) :
    ∃ left text right, all = left ++ text :: right ∧ other = head ++ query left ∧
      str "v=" <+: text ++ moreParams right := by
  obtain ⟨intro, hintro, id, -, rest, rfl⟩ := h
  have hcons : ∃ c, isSeparator c ∧ intro = c :: str "v=" := by
    simp only [queryIntros, List.mem_cons, List.not_mem_nil, or_false] at hintro
    rcases hintro with rfl | rfl
    · exact ⟨'?', rfl, rfl⟩
    · exact ⟨'&', rfl, rfl⟩
  obtain ⟨c, hc, rfl⟩ := hcons
  obtain ⟨inside, rfl, hinside⟩ := hhead.split hc he
  obtain ⟨left, text, right, hsplit, rfl, htext⟩ := query_split hall hc hinside
  refine ⟨left, text, right, hsplit, rfl, id ++ rest, ?_⟩
  rw [← htext]
  exact (List.append_assoc ..).symm

theorem nowhere_query {head : Str} (hhead : SeparatorFree head) :
    Nowhere queryIntros (head ++ query (texts params)) := by
  intro other more he hintroduced
  obtain ⟨left, text, right, hsplit, -, hv⟩ :=
    introduced_query hhead separatorFree_texts he hintroduced
  have hm : text ∈ texts params := by
    rw [hsplit]
    simp
  obtain ⟨param, -, rfl⟩ := List.mem_map.mp hm
  exact param.not_v _ hv

-- The parameter v is the first place where an id is introduced.
theorem first_query {head : Str} (before after : List Parameter) (hhead : SeparatorFree head)
    (hid : IsId id) :
    ∃ c, c :: str "v=" ∈ queryIntros ∧
      query (texts before ++ (str "v=" ++ id) :: texts after) =
        query (texts before) ++ (c :: str "v=" ++ id ++ moreParams (texts after)) ∧
      First queryIntros (head ++ query (texts before))
        (c :: str "v=" ++ id ++ moreParams (texts after)) := by
  obtain ⟨c, hc, hquery⟩ := query_append_cons (texts before) (str "v=" ++ id) (texts after)
  have hintro : c :: str "v=" ∈ queryIntros := by
    simp only [isSeparator, Bool.or_eq_true, beq_iff_eq] at hc
    rcases hc with rfl | rfl
    · exact List.mem_cons_self
    · exact List.mem_cons_of_mem _ List.mem_cons_self
  refine ⟨c, hintro, hquery, ⟨_, hintro, id, hid, List.prefix_append ..⟩,
    fun other more he hintroduced => ?_⟩
  · have hall : ∀ text ∈ texts before ++ (str "v=" ++ id) :: texts after, SeparatorFree text := by
      intro text hm
      rcases List.mem_append.mp hm with hm | hm
      · exact separatorFree_texts text hm
      · rcases List.mem_cons.mp hm with rfl | hm
        · have hv : SeparatorFree (str "v=") := by simp [SeparatorFree, str, isSeparator]
          exact hv.append hid.separatorFree
        · exact separatorFree_texts text hm
    have he' : head ++ query (texts before ++ (str "v=" ++ id) :: texts after) = other ++ more := by
      rw [hquery, he]
      simp only [List.append_assoc, List.cons_append]
    obtain ⟨left, text, right, hsplit, rfl, hv⟩ := introduced_query hhead hall he' hintroduced
    rcases List.append_eq_append_iff.mp hsplit with ⟨between, rfl, -⟩ | ⟨between, hbefore, hrest⟩
    · have hle := length_query_le (texts before) between
      simp only [List.length_append]
      omega
    · cases between with
      | nil =>
          rw [List.append_nil] at hbefore
          rw [hbefore]
      | cons first between =>
          obtain ⟨rfl, -⟩ := List.cons.inj hrest
          have hm : text ∈ texts before := by
            rw [hbefore]
            simp
          obtain ⟨param, -, rfl⟩ := List.mem_map.mp hm
          exact absurd hv (param.not_v _)

def domains : List Str := [str "youtu.be/", str "youtube.com/"]

-- A domain does not stand earlier than at the end of the origin.
theorem not_prefix_of_suffix {origin domain part : Str} (horigin : origin ∈ origins)
    (hdomain : domain ∈ domains) (hpart : part <:+ origin) (hne : part ≠ []) :
    ¬domain <+: part ++ domain := by
  have hall : origins.all fun origin => domains.all fun domain => origin.tails.all fun part =>
      part = [] || !domain.isPrefixOf (part ++ domain) := by decide
  have h :=
    List.all_eq_true.mp
      (List.all_eq_true.mp (List.all_eq_true.mp hall origin horigin) domain hdomain)
    part ((List.mem_tails part origin).mpr hpart)
  intro hstarts
  simp [hne, List.isPrefixOf_iff_prefix.mpr hstarts] at h

-- An id that is introduced by the domain itself is the first one that is introduced by this domain.
theorem first_domain {intros : List Str} {origin domain rest : Str} (horigin : origin ∈ origins)
    (hdomain : domain ∈ domains) (hintros : ∀ intro ∈ intros, domain <+: intro)
    (h : Introduced intros (domain ++ rest)) : First intros origin (domain ++ rest) := by
  refine ⟨h, ?_⟩
  rintro other more he ⟨intro, hintro, id, -, hstarts⟩
  have hdomain' : domain <+: more :=
    ((hintros intro hintro).trans (List.prefix_append ..)).trans hstarts
  rcases List.append_eq_append_iff.mp he with ⟨part, horigin', rfl⟩ | ⟨between, rfl, -⟩
  · by_cases hne : part = []
    · rw [horigin', hne, List.append_nil]
    · rw [← List.append_assoc] at hdomain'
      have hshort :=
        List.prefix_of_prefix_length_le hdomain' (List.prefix_append (part ++ domain) rest)
          (by simp)
      exact absurd hshort (not_prefix_of_suffix horigin hdomain ⟨other, horigin'.symm⟩ hne)
  · simp

-- A part that ends in a character which the rest does not hold stands before the rest.
theorem infix_of_not_mem {head tail other stem more : Str} {c : Char} (hc : c ∉ tail)
    (he : head ++ tail = other ++ (stem ++ c :: more)) : stem ++ [c] <:+: head := by
  rw [← List.append_assoc] at he
  rcases List.append_eq_append_iff.mp he with ⟨inside, -, rfl⟩ | ⟨inside, rfl, hrest⟩
  · exact absurd (by simp) hc
  · cases inside with
    | nil =>
        rw [List.nil_append] at hrest
        exact absurd (hrest ▸ List.mem_cons_self) hc
    | cons d inside =>
        obtain ⟨rfl, -⟩ := List.cons.inj hrest
        exact ⟨other, inside, by simp⟩

theorem Parameter.not_mem_slash (param : Parameter) : '/' ∉ param.text := by
  intro hm
  rw [Parameter.text, List.mem_append, List.mem_cons] at hm
  rcases hm with hm | hm | hm
  · exact (param.encoded '/' (List.mem_append_left _ hm)).1 (by decide)
  · exact absurd hm (by decide)
  · exact (param.encoded '/' (List.mem_append_right _ hm)).1 (by decide)

theorem slash_not_mem (hid : IsId id) : '/' ∉ id ++ query (texts params) := by
  intro hm
  rcases List.mem_append.mp hm with hm | hm
  · exact hid.not_mem (by decide) hm
  · rcases mem_query hm with hseparator | ⟨text, htext, hc⟩
    · exact absurd hseparator (by decide)
    · obtain ⟨param, -, rfl⟩ := List.mem_map.mp htext
      exact param.not_mem_slash hc

theorem nowhere_short {origin kind : Str} (horigin : origin ∈ origins) (hkind : kind ∈ kinds)
    (hid : IsId id) :
    Nowhere shortIntros
      (origin ++ (str "youtube.com/" ++ kind ++ str "/") ++ (id ++ query (texts params))) := by
  rintro other more he ⟨intro, hintro, id', -, rest, rfl⟩
  obtain rfl := List.mem_singleton.mp hintro
  have hall : origins.all fun origin => kinds.all fun kind =>
      ¬str "youtu.be" ++ ['/'] <:+: origin ++ (str "youtube.com/" ++ kind ++ str "/") := by decide
  have hnot := List.all_eq_true.mp (List.all_eq_true.mp hall origin horigin) kind hkind
  have hsplit : origin ++ (str "youtube.com/" ++ kind ++ str "/") ++ (id ++ query (texts params)) =
      other ++ (str "youtu.be" ++ '/' :: (id' ++ rest)) := by
    rw [he, List.append_assoc (str "youtu.be/")]
    rfl
  exact of_decide_eq_true hnot (infix_of_not_mem (slash_not_mem hid) hsplit)

theorem nowhere_bare (hid : IsId id) : ∀ intros ∈ forms, Nowhere intros id := by
  rintro intros hintros other more he ⟨intro, hintro, id', -, hstarts⟩
  have hall : forms.all fun intros => intros.all fun intro => intro.any fun c =>
      !isIdChar c := by decide
  have hany := List.all_eq_true.mp (List.all_eq_true.mp hall intros hintros) intro hintro
  obtain ⟨c, hc, hnot⟩ := List.any_eq_true.mp hany
  have hm : c ∈ more := hstarts.subset (List.mem_append_left _ hc)
  have hidChar := hid.2 c (he ▸ List.mem_append_right _ hm)
  rw [hidChar] at hnot
  cases hnot

theorem origins_plain {origin : Str} (h : origin ∈ origins) :
    ∀ c ∈ origin, ¬isSeparator c ∧ ¬isWhitespace c := by
  have hall : origins.all fun origin => origin.all fun c => ¬isSeparator c ∧
      ¬isWhitespace c := by decide
  intro c hc
  exact of_decide_eq_true (List.all_eq_true.mp (List.all_eq_true.mp hall origin h) c hc)

theorem idChar_not_whitespace {c : Char} (h : isIdChar c) : ¬isWhitespace c := by
  have hbounds : 0x2D ≤ c.toNat ∧ c.toNat ≤ 0x7A := by
    simp only [isIdChar, Regex.isAlphanumeric, Regex.isLetter, Regex.isDigit, Bool.or_eq_true,
      Bool.and_eq_true, decide_eq_true_eq, beq_iff_eq] at h
    rcases h with (((⟨hlow, hhigh⟩ | ⟨hlow, hhigh⟩) | ⟨hlow, hhigh⟩) | rfl) | rfl
    · have hlow' : 0x61 ≤ c.toNat := hlow
      exact ⟨by omega, hhigh⟩
    · have hlow' : 0x41 ≤ c.toNat := hlow
      have hhigh' : c.toNat ≤ 0x5A := hhigh
      omega
    · have hlow' : 0x30 ≤ c.toNat := hlow
      have hhigh' : c.toNat ≤ 0x39 := hhigh
      omega
    · decide
    · decide
  simp only [isWhitespace, Bool.or_eq_true, Bool.and_eq_true, decide_eq_true_eq, beq_iff_eq]
  omega

def SpaceFree (text : Str) : Prop := ∀ c ∈ text, ¬isWhitespace c

theorem SpaceFree.append {left right : Str} (hleft : SpaceFree left) (hright : SpaceFree right) :
    SpaceFree (left ++ right) := fun c hm => (List.mem_append.mp hm).elim (hleft c) (hright c)

theorem IsId.spaceFree (h : IsId id) : SpaceFree id := fun c hm => idChar_not_whitespace (h.2 c hm)

theorem Parameter.spaceFree (param : Parameter) : SpaceFree param.text := by
  intro c hm
  rw [Parameter.text, List.mem_append, List.mem_cons] at hm
  rcases hm with hm | rfl | hm
  · exact (param.encoded c (List.mem_append_left _ hm)).2
  · decide
  · exact (param.encoded c (List.mem_append_right _ hm)).2

theorem spaceFree_texts : ∀ text ∈ texts params, SpaceFree text := by
  intro text htext
  obtain ⟨param, -, rfl⟩ := List.mem_map.mp htext
  exact param.spaceFree

theorem spaceFree_query {all : List Str} (h : ∀ text ∈ all, SpaceFree text) :
    SpaceFree (query all) := by
  intro c hc
  rcases mem_query hc with hseparator | ⟨text, htext, hm⟩
  · simp only [isSeparator, Bool.or_eq_true, beq_iff_eq] at hseparator
    rcases hseparator with rfl | rfl
    · decide
    · decide
  · exact h text htext c hm

theorem Documented.spaceFree {url : Str} (hid : IsId id)
    (h : Documented id url) : SpaceFree url := by
  have horigin {origin : Str} (ho : origin ∈ origins) : SpaceFree origin :=
    fun c hc => (origins_plain ho c hc).2
  have hliteral (text : Str) (ht : text.all fun c => ¬isWhitespace c) : SpaceFree text :=
    fun c hc => of_decide_eq_true (List.all_eq_true.mp ht c hc)
  cases h with
  | watch origin before after ho =>
      refine ((horigin ho).append (hliteral _ (by decide))).append
        (spaceFree_query fun text hm => ?_)
      rcases List.mem_append.mp hm with hm | hm
      · exact spaceFree_texts text hm
      · rcases List.mem_cons.mp hm with rfl | hm
        · exact (hliteral _ (by decide)).append hid.spaceFree
        · exact spaceFree_texts text hm
  | short origin params ho =>
      exact (((horigin ho).append (hliteral _ (by decide))).append hid.spaceFree).append
        (spaceFree_query spaceFree_texts)
  | path origin kind params ho hkind =>
      have hkinds : kinds.all fun kind => kind.all fun c => ¬isWhitespace c := by decide
      have hkind' : SpaceFree kind := hliteral kind (List.all_eq_true.mp hkinds kind hkind)
      have hpath := ((hliteral (str "youtube.com/") (by decide)).append hkind').append
        (hliteral (str "/") (by decide))
      exact (((horigin ho).append hpath).append hid.spaceFree).append
        (spaceFree_query spaceFree_texts)
  | bare => exact hid.spaceFree

theorem separatorFree_of_all {text : Str} (h : text.all fun c => ¬isSeparator c) :
    SeparatorFree text :=
  fun c hc => of_decide_eq_true (List.all_eq_true.mp h c hc)

theorem separatorFree_origin {origin : Str} (h : origin ∈ origins) : SeparatorFree origin :=
  fun c hc => (origins_plain h c hc).1

-- Whatever the form, the id is the first one that is found.
theorem search_documented {url : Str} (hid : IsId id) (h : Documented id url) :
    ∃ found, search url = some found ∧ found.group 1 = id := by
  cases h with
  | watch origin before after ho =>
      have hhead : SeparatorFree (origin ++ str "youtube.com/watch") :=
        (separatorFree_origin ho).append (separatorFree_of_all (by decide))
      obtain ⟨c, hintro, hquery, hfirst⟩ := first_query before after hhead hid
      have hforms : forms = [] ++ queryIntros :: [shortIntros, pathIntros] := rfl
      obtain ⟨found, hsearch, hgroup, -⟩ := search_of_first hforms (by simp) hintro hid hfirst
      rw [hquery, ← List.append_assoc]
      exact ⟨found, hsearch, hgroup⟩
  | short origin params ho =>
      have hhead : SeparatorFree (origin ++ str "youtu.be/" ++ id) :=
        ((separatorFree_origin ho).append (separatorFree_of_all (by decide))).append
          hid.separatorFree
      have hsplit : origin ++ str "youtu.be/" ++ id ++ query (texts params) =
          origin ++ (str "youtu.be/" ++ id ++ query (texts params)) := by
            simp only [List.append_assoc]
      have hforms : forms = [queryIntros] ++ shortIntros :: [pathIntros] := rfl
      have hintro : str "youtu.be/" ∈ shortIntros := List.mem_singleton.mpr rfl
      have hfirst : First shortIntros origin (str "youtu.be/" ++ id ++ query (texts params)) := by
        rw [List.append_assoc]
        refine first_domain ho (by decide) (fun intro hm => ?_) ⟨_, hintro, id, hid, ?_⟩
        · rw [List.mem_singleton.mp hm]
        · rw [← List.append_assoc]
          exact List.prefix_append ..
      have hnowhere :
          Nowhere queryIntros (origin ++ (str "youtu.be/" ++ id ++ query (texts params))) :=
        hsplit ▸ nowhere_query hhead
      obtain ⟨found, hsearch, hgroup, -⟩ :=
        search_of_first hforms (List.forall_mem_singleton.mpr hnowhere) hintro hid hfirst
      exact ⟨found, hsplit ▸ hsearch, hgroup⟩
  | path origin kind params ho hkind =>
      have hkinds : kinds.all fun kind => kind.all fun c => ¬isSeparator c := by decide
      have hhead : SeparatorFree (origin ++ (str "youtube.com/" ++ kind ++ str "/") ++ id) := by
        refine ((separatorFree_origin ho).append
          (((separatorFree_of_all ?_).append ?_).append ?_)).append
          hid.separatorFree
        · decide
        · exact separatorFree_of_all (List.all_eq_true.mp hkinds kind hkind)
        · exact separatorFree_of_all (by decide)
      have hsplit :
          origin ++ (str "youtube.com/" ++ kind ++ str "/") ++ id ++ query (texts params) =
          origin ++ (str "youtube.com/" ++ kind ++ str "/" ++ id ++ query (texts params)) := by
        simp only [List.append_assoc]
      have hforms : forms = [queryIntros, shortIntros] ++ pathIntros :: [] := rfl
      have hintros : pathIntros = kinds.map fun kind => str "youtube.com/" ++ kind ++ str "/" := rfl
      have hintro : str "youtube.com/" ++ kind ++ str "/" ∈ pathIntros := by
        rw [hintros]
        exact List.mem_map.mpr ⟨kind, hkind, rfl⟩
      have hfirst : First pathIntros origin
          (str "youtube.com/" ++ kind ++ str "/" ++ id ++ query (texts params)) := by
        simp only [List.append_assoc]
        refine first_domain ho (by decide) (fun intro hm => ?_) ⟨_, hintro, id, hid, ?_⟩
        · rw [hintros] at hm
          obtain ⟨other, -, rfl⟩ := List.mem_map.mp hm
          exact List.append_assoc (str "youtube.com/") .. ▸ List.prefix_append ..
        · simp only [← List.append_assoc]
          exact List.prefix_append ..
      have hnowhere : ∀ intros ∈ [queryIntros, shortIntros], Nowhere intros
          (origin ++ (str "youtube.com/" ++ kind ++ str "/" ++ id ++ query (texts params))) := by
        rw [← hsplit]
        refine List.forall_mem_cons.mpr ⟨nowhere_query hhead, List.forall_mem_singleton.mpr ?_⟩
        rw [List.append_assoc _ id]
        exact nowhere_short ho hkind hid
      obtain ⟨found, hsearch, hgroup, -⟩ := search_of_first hforms hnowhere hintro hid hfirst
      exact ⟨found, hsplit ▸ hsearch, hgroup⟩
  | bare =>
      rw [search_of_nowhere (nowhere_bare hid)]
      rcases find_bare_cases id with
        ⟨id', found, ⟨hid', after, htext, -⟩, hfind, hgroup, -⟩ | ⟨hnone, -⟩
      · have hlength : id'.length = (id' ++ after).length := by rw [← htext, hid.1, hid'.1]
        have hafter : after = [] := by simpa using hlength
        rw [hafter, List.append_nil] at htext
        exact ⟨found, hfind, hgroup.trans htext.symm⟩
      · exact absurd ⟨id, hid, [], (List.append_nil id).symm, rfl⟩ hnone

end

-- Every documented URL names its video.
theorem parse_documented (id url before after : Str) (hid : IsId id) (h : Documented id url)
    (hbefore : ∀ c ∈ before, isWhitespace c) (hafter : ∀ c ∈ after, isWhitespace c) :
    parse (before ++ url ++ after) = .ok id := by
  obtain ⟨found, hsearch, rfl⟩ := search_documented hid h
  apply parse_of_search
  rwa [trim_pad hbefore (h.spaceFree hid) hafter]

theorem encoded_of_all {name value : Str}
    (h : (name ++ value).all fun c => c ∉ str "?&=#/" ∧ ¬isWhitespace c) :
    ∀ c ∈ name ++ value, c ∉ str "?&=#/" ∧ ¬isWhitespace c :=
  fun c hc => of_decide_eq_true (List.all_eq_true.mp h c hc)

def playlist : Parameter where
  name := str "list"
  value := str "PL123"
  encoded := encoded_of_all (by decide)
  name_ne := by decide

def time : Parameter where
  name := str "t"
  value := str "42s"
  encoded := encoded_of_all (by decide)
  name_ne := by decide

-- The playlist before the video is ignored.
theorem parse_documented_playlist :
    parse (str " https://m.youtube.com/watch?list=PL123&v=dQw4w9WgXcQ&t=42s\n") =
      .ok (str "dQw4w9WgXcQ") := by
  have hid : IsId (str "dQw4w9WgXcQ") := by
    have hall : (str "dQw4w9WgXcQ").all isIdChar := by decide
    exact ⟨rfl, List.all_eq_true.mp hall⟩
  have hurl :
      Documented (str "dQw4w9WgXcQ")
        (str "https://m.youtube.com/watch?list=PL123&v=dQw4w9WgXcQ&t=42s") :=
    Documented.watch (str "https://m.") [playlist] [time] (by decide)
  exact parse_documented _ _ (str " ") (str "\n") hid hurl (by simp [str, isWhitespace])
    (by simp [str, isWhitespace])

end VideoIdParser

end Ytdlpdroid
